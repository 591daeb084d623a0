import Mintmark.Proofs.Mint.Order
import Mintmark.Proofs.Mint.Selection
import Mintmark.Proofs.Sequencer.Fault

/-!
Mints over a lock, taken up again from the last text they printed. The text tells the stamp that the
lock guards and the node in force; with the limit and the registered constraints, that is all that a
mint answers by.
-/
namespace Mintmark

namespace Mint
variable {σ τ : Type}

def withClock (mint : Mint σ τ) (clock : τ) : Mint σ τ :=
  { mint with source := { mint.source with clock } }

/-- A new mint over a lock, in the place of one that printed this identifier last. -/
def resume (last : Identifier) (clock : τ) (attempts : Nat) (registered : List Constraint) :
    Mint GuardedSequencer τ :=
  ((fresh (.ofStamp last.stamp) clock attempts).assignNode last.node.number).2.registerAll registered

/-- The mint is as the identifier left it: nothing was drawn since, and no fault came. -/
structure LeftBy (identifier : Identifier) (mint : Mint GuardedSequencer τ) : Prop where
  sequencer : mint.source.sequencer = .ofStamp identifier.stamp
  node : mint.node.held = some identifier.node
  canonical : identifier.Canonical

theorem resume_eq (last : Identifier) (clock : τ) (attempts : Nat) (registered : List Constraint) :
    resume last clock attempts registered =
      { source := { sequencer := .ofStamp last.stamp, clock }, node := ⟨some last.node⟩, registered,
        attemptLimit := max 1 attempts } := by
  rw [resume, registerAll_eq]
  simp [fresh, withAttemptLimit, assignNode, NodeCell.assign]

theorem LeftBy.withClock_eq {mint : Mint GuardedSequencer τ} {identifier : Identifier}
    (left : LeftBy identifier mint) {attempts : Nat} (limit : mint.attemptLimit = max 1 attempts)
    (clock : τ) : mint.withClock clock =
      (resume identifier clock attempts mint.registered).withPast
        ⟨mint.journal, mint.source.overlapped⟩ := by
  obtain ⟨⟨sequencer, readings, overlapped⟩, ⟨held⟩, registered, attemptLimit, journal⟩ := mint
  obtain ⟨sequencerLeft, nodeLeft, -⟩ := left
  dsimp only at sequencerLeft nodeLeft limit
  subst sequencerLeft nodeLeft limit
  rw [resume_eq]
  simp [withClock, withPast, Source.withPast]

theorem ordered_resume {identifier : Identifier} (canonical : identifier.Canonical) (clock : τ)
    (attempts : Nat) (registered : List Constraint) :
    Ordered ((resume identifier clock attempts registered).withPast ⟨[.minted identifier], []⟩) := by
  rw [resume_eq]
  constructor
  · exact List.pairwise_singleton _ _
  · intro other member
    cases List.mem_singleton.1 member
    exact ⟨identifier.stamp, identifier.node, rfl, canonical.stampedBy, Stamp.le_refl _⟩

variable [Sequencer σ] [Clock τ]

inductive Prints (mint : Mint σ τ) (identifier : Identifier) : Request → Prop
  | issue (label : String)
    (replied : (mint.respond (.issue label)).1 = .ok (.identifier (.ok identifier))) :
    Prints mint identifier (.issue label)
  | select (label : String) (registered given : List (Identifier → Bool)) (applyRegistered : Bool)
    (applied : applyRegistered = true → mint.registered = registered.map .ofPredicate)
    (replied : (mint.respond (.select label (given.map .ofPredicate) applyRegistered)).1 =
      .ok (.selection (.ok (some identifier)))) :
    Prints mint identifier (.select label (given.map .ofPredicate) applyRegistered)

theorem leftBy_of_issue {mint drawn : Mint GuardedSequencer τ} {label : String}
    {identifier : Identifier} (issued : mint.issue label = (.ok (.ok identifier), drawn)) :
    LeftBy identifier drawn := by
  obtain ⟨stamp, node, held, next, made, rfl⟩ := made_of_issue issued
  have stamped : Identifier.StampedBy stamp node identifier := ⟨label, made⟩
  obtain ⟨canonical, -, -, same, -, -⟩ := stamped.parts
  refine ⟨?_, ?_, canonical⟩
  · rw [stamped.stamp_eq]
    exact GuardedSequencer.next_issued mint.source next
  · rw [same]
    exact held

theorem leftBy_of_attempt {mint : Mint GuardedSequencer τ} {label : String} {panel : Panel}
    (distinct : (panel.map Prod.fst).Nodup) {attempts : Nat} {identifier : Identifier}
    (selected : (attempt label panel.members attempts mint).1 = .ok (.ok (some identifier))) :
    LeftBy identifier (attempt label panel.members attempts mint).2 := by
  obtain ⟨calls, search, left⟩ := attempt_search distinct label attempts mint
  rw [selected] at search
  have same := left.same
  generalize (attempt label panel.members attempts mint).2 = last at same ⊢
  cases search with
  | @stopped call _ inside before ends =>
    have issued : ((mint.afterCalls label call).issue label).1 = .ok (.ok identifier) := by
      rcases verdict_eq_some_iff.1 ends with
        ⟨candidate, found, issued, -⟩ | ⟨_, other, -⟩ | ⟨_, other, -⟩
      · cases found
        exact issued
      · cases other
      · cases other
    have drawn := leftBy_of_issue (Prod.ext issued rfl)
    rw [afterCalls_succ] at same
    rw [same]
    exact ⟨drawn.sequencer, drawn.node, drawn.canonical⟩

theorem Prints.leftBy {mint : Mint GuardedSequencer τ} {identifier : Identifier} {request : Request}
    (prints : mint.Prints identifier request) : LeftBy identifier (mint.respond request).2 := by
  cases prints with
  | issue label replied =>
    rw [respond] at replied ⊢
    dsimp only at replied ⊢
    cases issued : mint.issue label with
    | mk result drawn =>
      rw [issued] at replied
      rcases result with cause | error | candidate
      · cases replied
      · cases replied
      · cases replied
        exact leftBy_of_issue issued
  | select label registered given applyRegistered applied replied =>
    have selects : mint.select label (given.map .ofPredicate) applyRegistered =
        attempt label (panelOf (if applyRegistered then registered else []) given).members
          mint.attemptLimit mint := by
      rw [Mint.select, members_eq_panelOf given applied]
    rw [respond, selects] at replied ⊢
    dsimp only at replied ⊢
    apply leftBy_of_attempt (distinct_panelOf _ _)
    generalize (attempt label (panelOf (if applyRegistered then registered else []) given).members
      mint.attemptLimit mint).1 = result at replied
    rcases result with cause | error | candidate
    · cases replied
    · cases replied
    · cases replied
      rfl

theorem minted_resume_above {identifier : Identifier} (canonical : identifier.Canonical) (clock : τ)
    (attempts : Nat) (registered : List Constraint) (requests : List Request) :
    ∀ later ∈ ((resume identifier clock attempts registered).run requests).2.minted,
      (compare identifier.instant later.instant).then
        (compare identifier.sequence later.sequence) = .lt := by
  have ordered := (ordered_resume canonical clock attempts registered).run requests
  have increasing := ordered.increasing
  rw [run_withPast, minted_withPast] at increasing
  intro later member
  exact (List.rel_of_pairwise_cons increasing member).stamps

def ran (start : Stamp) (clock : τ) (attempts : Nat) (history : List Request) :
    Mint GuardedSequencer τ :=
  ((fresh (.ofStamp start) clock attempts).run history).2

/-- The mint that is resumed in the place of another gives the same replies over the same readings,
and issues identifiers above the last one. -/
structure Continues (last : Identifier) (attempts : Nat) (mint : Mint GuardedSequencer τ)
    (readings : τ) (requests : List Request) : Prop where
  replies : ((resume last readings attempts mint.registered).run requests).1 =
    ((mint.withClock readings).run requests).1
  clock : ((resume last readings attempts mint.registered).run requests).2.source.clock =
    ((mint.withClock readings).run requests).2.source.clock
  above : ∀ later ∈ ((resume last readings attempts mint.registered).run requests).2.minted,
    (compare last.instant later.instant).then (compare last.sequence later.sequence) = .lt

/-- The last text that was printed, with the limit and the registered constraints, is enough to go
on from. -/
theorem resumed_continues (start : Stamp) (clock : τ) (attempts : Nat) (history : List Request)
    (request : Request) (identifier : Identifier)
    (prints : (ran start clock attempts history).Prints identifier request) :
    ∃ last, Identifier.ofText identifier.text = .ok last ∧
      ∀ readings requests, Continues last attempts
        ((ran start clock attempts history).respond request).2 readings requests := by
  have left := prints.leftBy
  have limit : ((ran start clock attempts history).respond request).2.attemptLimit =
      max 1 attempts :=
    (run_attemptLimit (ran start clock attempts history) [request]).trans
      (run_attemptLimit _ history)
  refine ⟨identifier, left.canonical.ofText_text, ?_⟩
  intro readings requests
  -- All that the resumed mint lacks is the past of the other, by which no request is answered.
  have same := left.withClock_eq limit readings
  constructor
  · rw [same, run_withPast]
  · rw [same, run_withPast]
    rfl
  · exact minted_resume_above left.canonical readings attempts _ requests

theorem resumed_continues_rejected :
    (ran .zero (List.replicate 3 (Moment.reading 1606298343064)) 5
        [.assignNode 7, .issue "A"]).Prints
      ⟨"A2011250959030640007002", 1, .ofMillis 1606298343064, .ofSeed 7, 2⟩
      (.select "A" [.sequenceModulo 2 0] false) ∧
    ∃ last, Identifier.ofText "A2011250959030640007002" = .ok last ∧ ∀ readings requests,
      Continues last 5 ((ran .zero (List.replicate 3 (Moment.reading 1606298343064)) 5
        [.assignNode 7, .issue "A"]).respond (.select "A" [.sequenceModulo 2 0] false)).2
          readings requests := by
  refine ⟨?prints, resumed_continues _ _ _ _ _ _ ?prints⟩
  exact .select "A" [] [fun candidate => candidate.sequence.toNat % 2 = 0] false nofun
    (by with_unfolding_all rfl)

end Mint
end Mintmark
