import Mintmark.Program
import Mintmark.Proofs.Mint.Order
import Mintmark.Proofs.Sequencer.Fault

/-!
The mint of the program, and every way in which it can go on: by an identifier that is drawn, with
those that were rejected on the way to it, or by what ends the program.
-/
namespace Mintmark

def Target.fits (target : Option Target) (identifier : Identifier) : Bool :=
  target.all fun target =>
    (polynomialHash identifier.text).toInt.natAbs % target.partitions = target.partition

namespace Program
variable {τ : Type}

/-- What holds of the mint from one draw to the next. -/
structure Serving (label : String) (node : Node) (limit : Nat) (mint : Mint GuardedSequencer τ) :
    Prop where
  node : mint.node.held = some node
  sound : mint.source.sequencer.poisoned = false
  unregistered : mint.registered = []
  attempts : mint.attemptLimit = limit
  ordered : mint.Ordered
  labelled : ∀ identifier ∈ mint.minted, identifier.label = label

structure Refused (label : String) (node : Node) (error : PartsError)
    (mint : Mint GuardedSequencer τ) (stamp : Stamp) : Prop where
  drawn : mint.source.sequencer = .ofStamp stamp
  made : Identifier.ofParts label (.ofMillis stamp.millis) node stamp.sequence = .error error

variable {label : String} {node : Node} {limit : Nat} {mint after last : Mint GuardedSequencer τ}

theorem serving_fresh (settings : Settings) (processId : Nat) (clock : τ) (label : String)
    (positive : settings.attemptLimit ≠ 0) :
    Serving label (.ofSeed (settings.nodeSeed.getD processId)) settings.attemptLimit
      (Program.mint settings processId ⟨{}, clock, []⟩) where
  node := rfl
  sound := rfl
  unregistered := rfl
  attempts := by
    have limit : (Program.mint settings processId ⟨({} : GuardedSequencer), clock, []⟩).attemptLimit =
      max 1 settings.attemptLimit := rfl
    omega
  ordered := ⟨List.Pairwise.nil, fun _ member => nomatch member⟩
  labelled := nofun

variable [Clock τ]

/-- Every way in which the mint can go about one identifier. -/
inductive Issues (label : String) (node : Node) (limit : Nat) (mint : Mint GuardedSequencer τ) :
    Except ClockFault (Except MintError Identifier) → Mint GuardedSequencer τ → Prop
  | fault (cause : ClockFault) (after : Mint GuardedSequencer τ)
    (fails : Clock.Fails cause mint.source.clock after.source.clock) :
    Issues label node limit mint (.error cause) after
  | refused (stamp : Stamp) (error : PartsError) (after : Mint GuardedSequencer τ)
    (kept : after.minted = mint.minted) (refused : Refused label node error after stamp) :
    Issues label node limit mint (.ok (.error (.parts error))) after
  | minted (identifier : Identifier) (after : Mint GuardedSequencer τ)
    (minted : after.minted = mint.minted ++ [identifier]) (serving : Serving label node limit after)
    (reads : Clock.Reads mint.source.clock after.source.clock) :
    Issues label node limit mint (.ok (.ok identifier)) after

/-- Every way in which a draw can end. Some identifiers are issued and rejected first, fewer than the
limit but for the last case. -/
inductive Draws (label : String) (node : Node) (limit : Nat) (fits : Identifier → Bool)
    (mint : Mint GuardedSequencer τ) : Nat → Except ClockFault (Except Failure Identifier) →
      Mint GuardedSequencer τ → Prop
  | fault (attempts : Nat) (cause : ClockFault) (after : Mint GuardedSequencer τ)
    (fails : Clock.Fails cause mint.source.clock after.source.clock) :
    Draws label node limit fits mint attempts (.error cause) after
  | refused (attempts : Nat) (rejected : List Identifier) (few : rejected.length < attempts)
    (unfit : ∀ identifier ∈ rejected, fits identifier = false) (stamp : Stamp) (error : PartsError)
    (after : Mint GuardedSequencer τ) (minted : after.minted = mint.minted ++ rejected)
    (refused : Refused label node error after stamp) :
    Draws label node limit fits mint attempts (.ok (.error (.mint (.parts error)))) after
  | drawn (attempts : Nat) (rejected : List Identifier) (few : rejected.length < attempts)
    (unfit : ∀ identifier ∈ rejected, fits identifier = false) (identifier : Identifier)
    (fit : fits identifier = true) (after : Mint GuardedSequencer τ)
    (minted : after.minted = mint.minted ++ rejected ++ [identifier])
    (serving : Serving label node limit after)
    (reads : Clock.Reads mint.source.clock after.source.clock) :
    Draws label node limit fits mint attempts (.ok (.ok identifier)) after
  | exhausted (rejected : List Identifier)
    (unfit : ∀ identifier ∈ rejected, fits identifier = false) (after : Mint GuardedSequencer τ)
    (minted : after.minted = mint.minted ++ rejected) (serving : Serving label node limit after) :
    Draws label node limit fits mint rejected.length (.ok (.error (.exhausted limit))) after

variable {fits : Identifier → Bool}

theorem Draws.later {drawn : Mint GuardedSequencer τ} {candidate : Identifier}
    (unfit : fits candidate = false) (minted : drawn.minted = mint.minted ++ [candidate])
    (reads : Clock.Reads mint.source.clock drawn.source.clock) {attempts : Nat}
    {result : Except ClockFault (Except Failure Identifier)}
    (rest : Draws label node limit fits drawn attempts result after) :
    Draws label node limit fits mint (attempts + 1) result after := by
  have all {rejected : List Identifier} (others : ∀ identifier ∈ rejected, fits identifier = false) :
      ∀ identifier ∈ candidate :: rejected, fits identifier = false :=
    List.forall_mem_cons.2 ⟨unfit, others⟩
  have joined (rejected : List Identifier) :
      drawn.minted ++ rejected = mint.minted ++ candidate :: rejected := by
    rw [minted, List.append_assoc, List.singleton_append]
  cases rest with
  | fault _ cause _ fails => exact .fault _ cause _ (reads.fails fails)
  | refused _ rejected few others stamp error _ issued refused =>
    rw [joined] at issued
    exact .refused _ _ (Nat.succ_lt_succ few) (all others) stamp error _ issued refused
  | drawn _ rejected few others identifier fit _ issued serving later =>
    rw [joined] at issued
    exact .drawn _ _ (Nat.succ_lt_succ few) (all others) identifier fit _ issued serving
      (reads.trans later)
  | exhausted rejected others _ issued serving =>
    rw [joined] at issued
    exact .exhausted (candidate :: rejected) (all others) _ issued serving

theorem Draws.fails {attempts : Nat} {cause : ClockFault}
    (draws : Draws label node limit fits mint attempts (.error cause) after) :
    Clock.Fails cause mint.source.clock after.source.clock := by
  cases draws with
  | fault _ _ _ fails => exact fails

def drawnBy (limit : Nat) : Except ClockFault (Except MintError (Option Identifier)) →
    Except ClockFault (Except Failure Identifier)
  | .error fault => .error fault
  | .ok (.error error) => .ok (.error (.mint error))
  | .ok (.ok none) => .ok (.error (.exhausted limit))
  | .ok (.ok (some identifier)) => .ok (.ok identifier)

theorem Serving.issues (serving : Serving label node limit mint) (nonempty : label ≠ "") :
    Issues label node limit mint (mint.issue label).1 (mint.issue label).2 := by
  have ordered := serving.ordered.issue label
  have ends := mint.issue_ends label
  generalize (mint.issue label).1 = result, (mint.issue label).2 = after at ends ordered ⊢
  cases ends with
  | unlabelled empty => exact absurd empty nonempty
  | unassigned _ free => simp [serving.node] at free
  | fault _ _ _ cause stopped => exact .fault cause _ (mint.source.fails_next stopped)
  | poisoned _ _ _ stopped =>
    have poisoned := GuardedSequencer.next_refused mint.source stopped
    rw [serving.sound] at poisoned
    cases poisoned
  | refused _ other held stamp drawn error made =>
    obtain rfl : node = other := Option.some.inj (serving.node.symm.trans held)
    exact .refused stamp error _ rfl ⟨GuardedSequencer.next_issued mint.source drawn, made⟩
  | minted _ other held stamp drawn identifier made =>
    obtain rfl : node = other := Option.some.inj (serving.node.symm.trans held)
    have kept := Mint.minted_record_minted ({ mint with source := mint.source.next.2 }) identifier
    refine .minted identifier _ kept
      ⟨held, ?_, serving.unregistered, serving.attempts, ordered, ?_⟩ (mint.source.reads_next drawn)
    · exact congrArg GuardedSequencer.poisoned (GuardedSequencer.next_issued mint.source drawn)
    · intro earlier member
      rw [kept, List.mem_append, List.mem_singleton] at member
      rcases member with member | rfl
      · exact serving.labelled earlier member
      · exact Identifier.label_of_ofParts made

theorem Serving.asked (serving : Serving label node limit mint) (member : Member)
    (candidate : Identifier) :
    Serving label node limit (mint.record (.asked member candidate)) where
  node := serving.node
  sound := serving.sound
  unregistered := serving.unregistered
  attempts := serving.attempts
  ordered := .reaches (.ask member candidate (.refl _)) serving.ordered
  labelled := by
    rw [Mint.minted_record_asked]
    exact serving.labelled

theorem acceptedByAll_singleton (who : Member) (candidate : Identifier) (drawn : Mint GuardedSequencer τ) :
    Mint.acceptedByAll candidate [(who, .ofPredicate fits)] drawn =
      (.ok (fits candidate), drawn.record (.asked who candidate)) := by
  have asked : drawn.ask candidate (who, .ofPredicate fits) =
      (.ok (fits candidate), drawn.record (.asked who candidate)) := rfl
  rw [Mint.acceptedByAll, asked]
  cases fits candidate <;> rfl

theorem draws_attempt (nonempty : label ≠ "") (who : Member) (attempts : Nat) :
    ∀ mint : Mint GuardedSequencer τ, Serving label node limit mint →
      Draws label node limit fits mint attempts
        (drawnBy limit (Mint.attempt label [(who, .ofPredicate fits)] attempts mint).1)
        (Mint.attempt label [(who, .ofPredicate fits)] attempts mint).2 := by
  induction attempts with
  | zero =>
    intro mint serving
    exact .exhausted [] nofun mint (List.append_nil _).symm serving
  | succ attempts rest =>
    intro mint serving
    have issues := serving.issues nonempty
    rw [Mint.attempt]
    generalize mint.issue label = done at issues ⊢
    obtain ⟨result, drawn⟩ := done
    cases issues with
    | fault cause _ fails => exact .fault _ cause _ fails
    | refused stamp error _ kept refused =>
      exact .refused _ [] (Nat.succ_pos _) nofun stamp error _ (by rw [List.append_nil]; exact kept) refused
    | minted candidate _ minted serving reads =>
      dsimp only
      rw [acceptedByAll_singleton]
      cases fit : fits candidate with
      | true =>
        refine .drawn _ [] (Nat.succ_pos _) nofun candidate fit _ ?_ (serving.asked who candidate) reads
        rw [Mint.minted_record_asked, List.append_nil]
        exact minted
      | false =>
        have later := rest _ (serving.asked who candidate)
        refine .later fit ?_ ?_ later
        · rw [Mint.minted_record_asked]
          exact minted
        · exact reads

theorem draws_draw (nonempty : label ≠ "") (positive : 0 < limit) (shard : Option Shard)
    (serving : Serving label node limit mint) :
    Draws label node limit (fun identifier => shard.all (·.accepts identifier)) mint limit
      (draw label shard mint).1 (draw label shard mint).2 := by
  cases shard with
  | none =>
    have issues := serving.issues nonempty
    unfold draw
    dsimp only
    generalize mint.issue label = done at issues ⊢
    obtain ⟨result, drawn⟩ := done
    cases issues with
    | fault cause _ fails => exact .fault _ cause _ fails
    | refused stamp error _ kept refused =>
      exact .refused _ [] positive nofun stamp error _ (by rw [List.append_nil]; exact kept) refused
    | minted candidate _ minted serving reads =>
      have issued := minted
      rw [← List.append_nil mint.minted] at issued
      exact .drawn _ [] positive nofun candidate rfl _ issued serving reads
  | some shard =>
    have selects : mint.select label [shard.toConstraint] true =
        Mint.attempt label [(.given 0, .ofPredicate shard.accepts)] limit mint := by
      rw [Mint.select, Mint.members, serving.unregistered, serving.attempts]
      rfl
    have drawing : draw label (some shard) mint =
        (drawnBy limit (mint.select label [shard.toConstraint] true).1,
          (mint.select label [shard.toConstraint] true).2) := by
      unfold draw
      dsimp only
      rw [serving.attempts]
      rcases mint.select label [shard.toConstraint] true with ⟨_ | _ | _ | _, _⟩ <;> rfl
    rw [drawing, selects]
    exact draws_attempt nonempty (.given 0) limit mint serving

end Program
end Mintmark
