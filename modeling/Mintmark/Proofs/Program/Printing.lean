import Mintmark.Proofs.Mint.Shard
import Mintmark.Proofs.Program.Drawing
import Mintmark.Proofs.Settings

/-!
What the program prints when it issues identifiers: a line for each one that it drew, whether or not
it came to the end.
-/
namespace Mintmark

structure Target.Aims (target : Target) (shard : Shard) : Prop where
  partition : shard.partition = target.partition
  partitions : shard.division.partitions = target.partitions
  key : shard.key = Identifier.text

namespace Settings

/-- The rules that settings keep. -/
structure Checked (settings : Settings) : Prop where
  attempts : settings.attemptLimit ≠ 0
  target : ∀ target, settings.target = some target → target.partition < target.partitions
  label : ∀ label count, settings.job = .issue label count → label ≠ ""

theorem checked_of_ofArguments {arguments : Arguments} {settings : Settings}
    (accepted : ofArguments arguments = .ok settings) : settings.Checked := by
  obtain ⟨valid, settles⟩ := ofArguments_eq_ok_iff.1 accepted
  refine ⟨?_, ?_, ?_⟩
  · rw [settles.attemptLimit]
    exact Nat.ne_of_gt valid.attempts
  · intro target aimed
    have targeted := settles.target
    rw [aimed] at targeted
    cases targeted with
    | inside _ _ _ inside => exact inside
  · intro label count job
    exact valid.label label count (settles.job.symm.trans job)

end Settings

namespace Text

theorem bytes_append (left right : String) : bytes (left ++ right) = bytes left ++ bytes right := by
  rw [bytes, String.toList_append, bytesOf_append]
  rfl

theorem bytes_join (texts : List String) : bytes (String.join texts) = texts.flatMap bytes := by
  rw [bytes, String.toList_join, bytesOf, List.flatMap_assoc]
  rfl

end Text

namespace Program

theorem bytes_lines (identifiers : List Identifier) :
    Text.bytes (lines identifiers) =
      identifiers.flatMap fun identifier => Text.bytes identifier.text ++ [10] := by
  rw [lines, Text.bytes_join, List.flatMap_map]
  congr 1
  funext identifier
  rw [Text.bytes_append]
  rfl

theorem exists_shard {settings : Settings} (checked : settings.Checked) :
    ∃ shard, Program.shard settings.target = .ok shard ∧
      Option.Rel Target.Aims settings.target shard := by
  rcases aimed : settings.target with _ | ⟨partition, partitions⟩
  · exact ⟨none, rfl, .none⟩
  · have inside : partition < partitions := checked.target _ aimed
    have positive : 0 < partitions := Nat.zero_lt_of_lt inside
    refine ⟨some ⟨partition, ⟨partitions, positive⟩, inside, Identifier.text⟩, ?_, .some ⟨rfl, rfl, rfl⟩⟩
    simp only [Program.shard, Division.ofCount?, Shard.new?, positive, inside, Option.bind_some, dif_pos]

theorem accepts_of_aims {target : Option Target} {shard : Option Shard}
    (aims : Option.Rel Target.Aims target shard) (identifier : Identifier) :
    shard.all (·.accepts identifier) = Target.fits target identifier := by
  cases aims with
  | none => rfl
  | some aims =>
    obtain ⟨partition, partitions, key⟩ := aims
    simp only [Option.all_some, Target.fits, Shard.accepts, Shard.partitionOf, Division.partition,
      key, partition, partitions]

theorem shard_of_checked {settings : Settings} (checked : settings.Checked) :
    ∃ shard, Program.shard settings.target = .ok shard ∧
      ∀ identifier, shard.all (·.accepts identifier) = Target.fits settings.target identifier := by
  obtain ⟨shard, aimed, aims⟩ := exists_shard checked
  exact ⟨shard, aimed, accepts_of_aims aims⟩

variable {τ : Type} {label : String} {node : Node} {limit : Nat} {fits : Identifier → Bool}

structure Tally (fits : Identifier → Bool) (identifiers : List Identifier)
    (mint : Mint GuardedSequencer τ) : Prop where
  printed : identifiers = mint.minted.filter fits
  last : mint.minted.getLast? = identifiers.getLast?

theorem filter_unfit {rejected : List Identifier}
    (unfit : ∀ identifier ∈ rejected, fits identifier = false) : rejected.filter fits = [] :=
  List.filter_eq_nil_iff.2 fun identifier member => Bool.eq_false_iff.1 (unfit identifier member)

theorem Tally.drawn {identifiers rejected : List Identifier} {identifier : Identifier}
    {mint after : Mint GuardedSequencer τ} (tally : Tally fits identifiers mint)
    (unfit : ∀ identifier ∈ rejected, fits identifier = false) (fit : fits identifier = true)
    (minted : after.minted = mint.minted ++ rejected ++ [identifier]) :
    Tally fits (identifiers ++ [identifier]) after where
  printed := by
    rw [minted, List.filter_append, List.filter_append, filter_unfit unfit, List.append_nil,
      ← tally.printed]
    simp [fit]
  last := by rw [minted, List.getLast?_concat, List.getLast?_concat]

def fitting (target : Option Target) (last : Mint GuardedSequencer τ) : List Identifier :=
  last.minted.filter (Target.fits target)

/-- These were issued last, after the last identifier that falls where it should, and none of them
does. -/
def RejectedLast (target : Option Target) (last : Mint GuardedSequencer τ)
    (rejected : List Identifier) : Prop :=
  ∃ before, last.minted = before ++ rejected ∧ before.getLast? = (fitting target last).getLast? ∧
    ∀ identifier ∈ rejected, Target.fits target identifier = false

/-- The failure with which the program ends, if it ends with one. -/
inductive Ends (settings : Settings) (label : String) (node : Node) (count : Nat)
    (last : Mint GuardedSequencer τ) : Option Failure → Prop
  | enough (all : (fitting settings.target last).length = count) :
    Ends settings label node count last none
  | refused (fewer : (fitting settings.target last).length < count) (rejected : List Identifier)
    (since : RejectedLast settings.target last rejected)
    (few : rejected.length < settings.attemptLimit) (stamp : Stamp) (error : PartsError)
    (refused : Refused label node error last stamp) :
    Ends settings label node count last (some (.mint (.parts error)))
  | exhausted (fewer : (fitting settings.target last).length < count) (target : Target)
    (aimed : settings.target = some target) (rejected : List Identifier)
    (since : RejectedLast settings.target last rejected)
    (all : rejected.length = settings.attemptLimit) :
    Ends settings label node count last (some (.exhausted settings.attemptLimit))

/-- What is printed of a mint, and what the identifiers printed are like. -/
structure Prints (settings : Settings) (label : String) (node : Node) (count : Nat)
    (last : Mint GuardedSequencer τ) (outcome : Outcome) : Prop where
  output : Text.bytes outcome.output =
    (fitting settings.target last).flatMap fun identifier => Text.bytes identifier.text ++ [10]
  labels : ∀ identifier ∈ fitting settings.target last, identifier.label = label
  nodes : ∀ identifier ∈ fitting settings.target last, identifier.node = node
  increasing : (fitting settings.target last).Pairwise fun earlier later =>
    (compare earlier.instant later.instant).then (compare earlier.sequence later.sequence) = .lt
  inside : ∀ identifier ∈ fitting settings.target last, ∀ target, settings.target = some target →
    (polynomialHash identifier.text).toInt.natAbs % target.partitions = target.partition
  ends : Ends settings label node count last outcome.failure

theorem Tally.rejectedLast {target : Option Target} {identifiers rejected : List Identifier}
    {reached last : Mint GuardedSequencer τ} (tally : Tally (Target.fits target) identifiers reached)
    (unfit : ∀ identifier ∈ rejected, Target.fits target identifier = false)
    (minted : last.minted = reached.minted ++ rejected) :
    fitting target last = identifiers ∧ RejectedLast target last rejected := by
  have printed : fitting target last = identifiers := by
    rw [fitting, minted, List.filter_append, filter_unfit unfit, List.append_nil, ← tally.printed]
  exact ⟨printed, reached.minted, minted, by rw [printed, tally.last], unfit⟩

theorem prints_of_serving {settings : Settings} {count : Nat} {identifiers : List Identifier}
    {reached last : Mint GuardedSequencer τ} (serving : Serving label node limit reached)
    (tally : Tally (Target.fits settings.target) identifiers reached)
    (same : fitting settings.target last = identifiers) {failure : Option Failure}
    (ends : Ends settings label node count last failure) :
    Prints settings label node count last { output := lines identifiers, failure } := by
  have drawn : fitting settings.target last = reached.minted.filter (Target.fits settings.target) :=
    same.trans tally.printed
  have issued : ∀ identifier ∈ fitting settings.target last, identifier ∈ reached.minted ∧
      Target.fits settings.target identifier = true := by
    intro identifier member
    rwa [drawn, List.mem_filter] at member
  refine ⟨?_, ?_, ?_, ?_, ?_, ends⟩
  · rw [same]
    exact bytes_lines identifiers
  · intro identifier member
    exact serving.labelled identifier (issued identifier member).1
  · intro identifier member
    obtain ⟨stamp, other, held, stamped, -⟩ := serving.ordered.drawn identifier (issued identifier member).1
    obtain ⟨-, -, -, carried, -, -⟩ := stamped.parts
    rw [carried]
    exact Option.some.inj (held.symm.trans serving.node)
  · rw [drawn]
    exact (serving.ordered.increasing.imp Identifier.Precedes.stamps).filter _
  · intro identifier member target aimed
    have fit := (issued identifier member).2
    rw [aimed] at fit
    exact of_decide_eq_true fit

variable [Clock τ]

inductive Finishes (label : String) (node : Node) (limit : Nat) (fits : Identifier → Bool)
    (count : Nat) (identifiers : List Identifier) (mint : Mint GuardedSequencer τ) :
    Except ClockFault (List Identifier × Option Failure) → Mint GuardedSequencer τ → Prop
  | enough (all : identifiers.length = count) :
    Finishes label node limit fits count identifiers mint (.ok (identifiers.reverse, none)) mint
  | failed (fewer : identifiers.length < count) (failure : Failure) (last : Mint GuardedSequencer τ)
    (draws : Draws label node limit fits mint limit (.ok (.error failure)) last) :
    Finishes label node limit fits count identifiers mint (.ok (identifiers.reverse, some failure)) last
  | fault (fewer : identifiers.length < count) (cause : ClockFault) (last : Mint GuardedSequencer τ)
    (draws : Draws label node limit fits mint limit (.error cause) last) :
    Finishes label node limit fits count identifiers mint (.error cause) last

theorem finishes_drawAll (nonempty : label ≠ "") (positive : 0 < limit) (shard : Option Shard)
    (same : ∀ identifier, shard.all (·.accepts identifier) = fits identifier) (count : Nat) :
    ∀ (identifiers : List Identifier) (mint : Mint GuardedSequencer τ),
      Serving label node limit mint → Tally fits identifiers mint →
        ∃ drawn reached, Serving label node limit reached ∧ Tally fits drawn reached ∧
          Clock.Reads mint.source.clock reached.source.clock ∧
          Finishes label node limit fits (identifiers.length + count) drawn reached
            (drawAll label shard count identifiers.reverse mint).1
            (drawAll label shard count identifiers.reverse mint).2 := by
  induction count with
  | zero =>
    intro identifiers mint serving tally
    exact ⟨identifiers, mint, serving, tally, .refl _, .enough rfl⟩
  | succ count rest =>
    intro identifiers mint serving tally
    have draws := draws_draw nonempty positive shard serving
    rw [funext same] at draws
    rw [drawAll]
    have fewer : identifiers.length < identifiers.length + (count + 1) := by omega
    generalize draw label shard mint = done at draws ⊢
    obtain ⟨result, after⟩ := done
    rcases result with cause | failure | identifier
    · exact ⟨identifiers, mint, serving, tally, .refl _, .fault fewer cause after draws⟩
    · exact ⟨identifiers, mint, serving, tally, .refl _, .failed fewer failure after draws⟩
    · cases draws with
      | drawn _ rejected _ unfit _ fit _ minted serving reads =>
        obtain ⟨drawn, reached, served, tallied, later, ends⟩ :=
          rest (identifiers ++ [identifier]) after serving (tally.drawn unfit fit minted)
        rw [List.reverse_append, List.length_append, List.length_singleton, Nat.add_assoc,
          Nat.add_comm 1] at ends
        exact ⟨drawn, reached, served, tallied, reads.trans later, ends⟩

theorem ends_of_draws {settings : Settings} {count : Nat} {identifiers : List Identifier}
    {reached last : Mint GuardedSequencer τ} (positive : settings.attemptLimit ≠ 0)
    (tally : Tally (Target.fits settings.target) identifiers reached)
    (fewer : identifiers.length < count) {failure : Failure}
    (draws : Draws label node settings.attemptLimit (Target.fits settings.target) reached
      settings.attemptLimit (.ok (.error failure)) last) :
    fitting settings.target last = identifiers ∧
      Ends settings label node count last (some failure) := by
  generalize limit : settings.attemptLimit = attempts at draws
  cases draws with
  | refused _ rejected few unfit stamp error _ minted refused =>
    obtain ⟨rfl, since⟩ := tally.rejectedLast unfit minted
    exact ⟨rfl, .refused fewer rejected since (by omega) stamp error refused⟩
  | exhausted rejected unfit _ minted serving =>
    obtain ⟨rfl, since⟩ := tally.rejectedLast unfit minted
    refine ⟨rfl, ?_⟩
    rw [← limit]
    cases aimed : settings.target with
    | some target => exact .exhausted fewer target aimed rejected since limit.symm
    | none =>
      obtain ⟨candidate, member⟩ := List.exists_mem_of_length_pos
        (Nat.pos_of_ne_zero (limit ▸ positive))
      have fit := unfit candidate member
      rw [aimed] at fit
      cases fit

def spent (settings : Settings) (processId : Nat) (label : String) (count : Nat)
    (clock : τ) : Mint GuardedSequencer τ :=
  let start := mint settings processId ⟨{}, clock, []⟩
  match shard settings.target with
  | .ok shard => (drawAll label shard count [] start).2
  | .error _ => start

/-- Whatever the clock reads, the program prints the identifiers that its mint issued and that fall
where they should, a line for each, unless a reading that it takes fails. -/
theorem prints_minted {arguments : Arguments} {settings : Settings} {label : String}
    {count : Nat} (accepted : Settings.ofArguments arguments = .ok settings)
    (job : settings.job = .issue label count) (processId : Nat) (clock : τ) :
    (∃ outcome, Program.run settings processId clock = .ok outcome ∧
      Prints settings label (.ofSeed (settings.nodeSeed.getD processId)) count
        (spent settings processId label count clock) outcome) ∨
    ∃ cause, Program.run settings processId clock = .error cause ∧
      Clock.Fails cause clock (spent settings processId label count clock).source.clock := by
  have checked := Settings.checked_of_ofArguments accepted
  have nonempty := checked.label label count job
  obtain ⟨shard, aimed, same⟩ := shard_of_checked checked
  have start := serving_fresh settings processId clock label checked.attempts
  obtain ⟨identifiers, reached, serving, tally, reads, ends⟩ := finishes_drawAll nonempty
    (Nat.pos_of_ne_zero checked.attempts) shard same count [] _ start ⟨rfl, rfl⟩
  rw [List.length_nil, Nat.zero_add, List.reverse_nil] at ends
  rw [Program.run, job, spent, aimed]
  dsimp only
  rw [issue, aimed]
  dsimp only
  generalize drawAll label shard count [] (mint settings processId
    (⟨{}, clock, []⟩ : Source GuardedSequencer τ)) = done at ends ⊢
  obtain ⟨result, last⟩ := done
  cases ends with
  | enough all =>
    refine .inl ⟨_, rfl, ?_⟩
    have printed : fitting settings.target _ = identifiers := tally.printed.symm
    dsimp only
    rw [List.reverse_reverse]
    exact prints_of_serving serving tally printed (.enough (by rw [printed, all]))
  | failed fewer failure _ draws =>
    obtain ⟨same, ends⟩ := ends_of_draws checked.attempts tally fewer draws
    refine .inl ⟨_, rfl, ?_⟩
    dsimp only
    rw [List.reverse_reverse]
    exact prints_of_serving serving tally same ends
  | fault fewer cause _ draws => exact .inr ⟨cause, rfl, reads.fails draws.fails⟩

/-- Two identifiers of the odd half are asked for, with one attempt at each. -/
def oddPair : Settings := ⟨some 7, 1, some ⟨1, 2⟩, .issue "A" 2⟩

def sameReadings : List Moment := List.replicate 2 (.reading 1606298343064)

theorem prints_minted_oddPair :
    Settings.ofArguments ⟨some 7, 1, some 1, some 2, .issue "A" 2⟩ = .ok oddPair ∧
      Program.run oddPair 0 sameReadings = .ok ⟨"A2011250959030640007000\n", some (.exhausted 1)⟩ ∧
      Prints oddPair "A" (.ofSeed 7) 2 (spent oddPair 0 "A" 2 sameReadings)
        ⟨"A2011250959030640007000\n", some (.exhausted 1)⟩ := by
  have accepted : Settings.ofArguments ⟨some 7, 1, some 1, some 2, .issue "A" 2⟩ = .ok oddPair := rfl
  have runs : Program.run oddPair 0 sameReadings =
      .ok ⟨"A2011250959030640007000\n", some (.exhausted 1)⟩ := by
    with_unfolding_all rfl
  refine ⟨accepted, runs, ?_⟩
  rcases prints_minted accepted rfl 0 sameReadings with ⟨outcome, same, prints⟩ | ⟨cause, same, -⟩
  · rw [runs] at same
    cases same
    exact prints
  · rw [runs] at same
    cases same

end Program
end Mintmark
