import Mintmark.Proofs.Mint.Poison
import Mintmark.Proofs.Mint.Refusal
import Mintmark.Proofs.Mint.Selection
import Mintmark.Proofs.Mint.Turn

/-!
Which error a call for an identifier gives, in whatever state. The label is looked at first, then the
node, then the lock; after that only the year of the stamp can be refused, because no sequencer issues
a place that three digits do not print, and no stamp tells a leap second.
-/
namespace Mintmark

theorem WordSequencer.next_open {τ : Type} [Clock τ] (source : Source WordSequencer τ) :
    source.next.1 ≠ .error .poisoned := by
  induction source using Source.next_induction with
  | stopped source after stop polled =>
    rintro ⟨⟩
    cases Source.poll_refused polled
  | issued source after stamp polled => nofun
  | again source after wait polled rest => exact rest

namespace Mint
open Settling
variable {σ τ : Type} [Sequencer σ] [Clock τ]

inductive Answered (label : String) (node : Node) (stamp : Stamp) : Except MintError Identifier → Prop
  | minted (printable : stamp.Printable) (identifier : Identifier)
    (made : Identifier.ofParts label (.ofMillis stamp.millis) node stamp.sequence = .ok identifier) :
    Answered label node stamp (.ok identifier)
  | refused (unprintable : ¬ stamp.Printable) :
    Answered label node stamp
      (.error (.parts (.yearOutOfRange (Instant.ofMillis stamp.millis).date.year)))

/-- The errors of a call for an identifier by a mint that was given a node or was not, each with what
it leaves behind. -/
structure Errors (mint : Mint σ τ) (assigned : Prop) (label : String) : Prop where
  unlabelled : (mint.issue label).1 = .ok (.error .emptyLabel) ↔ label = ""
  unassigned : label ≠ "" → ((mint.issue label).1 = .ok (.error .uninitialized) ↔ ¬ assigned)
  /-- Neither of the two reads the clock or changes anything. -/
  untouched : label = "" ∨ ¬ assigned → (mint.issue label).2 = mint
  poisoned : label ≠ "" → assigned → ((mint.issue label).1 = .ok (.error .lockPoisoned) ↔
    Sequencer.poisoned mint.source.sequencer = true)
  returns : label ≠ "" → assigned → Sequencer.poisoned mint.source.sequencer = false →
    ∀ result, (mint.issue label).1 = .ok result → ∃ node stamp, mint.node.held = some node ∧
      mint.source.next.1 = .ok stamp ∧ Answered label node stamp result
  /-- A selection ends with the error of its first call, before any constraint is asked. -/
  selects : ∀ error, (mint.issue label).1 = .ok (.error error) → ∀ given applyRegistered,
    mint.select label given applyRegistered = (.ok (.error error), (mint.issue label).2) ∧
      (mint.issue label).2.journal = mint.journal

section Issue
variable {mint : Mint σ τ} {label : String}

theorem unlabelled_iff : (mint.issue label).1 = .ok (.error .emptyLabel) ↔ label = "" := by
  constructor
  · intro refused
    obtain ⟨after, ends⟩ := exists_ends refused
    cases ends with
    | unlabelled empty => exact empty
  · rintro rfl
    rfl

theorem unassigned_iff (nonempty : label ≠ "") :
    (mint.issue label).1 = .ok (.error .uninitialized) ↔ mint.node.held = none := by
  constructor
  · intro refused
    obtain ⟨after, ends⟩ := exists_ends refused
    cases ends with
    | unassigned _ free => exact free
  · intro free
    simp [issue, nonempty, free]

theorem poisoned_iff (refuses : mint.source.next.1 = .error .poisoned →
      Sequencer.poisoned mint.source.sequencer = true)
    (nonempty : label ≠ "") (assigned : mint.node.held ≠ none) :
    (mint.issue label).1 = .ok (.error .lockPoisoned) ↔
      Sequencer.poisoned mint.source.sequencer = true := by
  constructor
  · intro refused
    obtain ⟨after, ends⟩ := exists_ends refused
    cases ends with
    | poisoned _ _ _ stopped => exact refuses stopped
  · intro poisoned
    obtain ⟨node, held⟩ := Option.ne_none_iff_exists'.1 assigned
    simp [issue, nonempty, held, Source.next_of_stop (Source.poll_poisoned poisoned)]

theorem answered_of_issue [Holding σ] (refuses : mint.source.next.1 = .error .poisoned →
      Sequencer.poisoned mint.source.sequencer = true)
    (nonempty : label ≠ "") (assigned : mint.node.held ≠ none)
    (sound : Sequencer.poisoned mint.source.sequencer = false) {result : Except MintError Identifier}
    (returned : (mint.issue label).1 = .ok result) : ∃ node stamp, mint.node.held = some node ∧
      mint.source.next.1 = .ok stamp ∧ Answered label node stamp result := by
  obtain ⟨after, ends⟩ := exists_ends returned
  cases ends with
  | unlabelled empty => exact absurd empty nonempty
  | unassigned _ free => exact absurd free assigned
  | poisoned _ _ _ stopped => cases (refuses stopped).symm.trans sound
  | refused _ node held stamp drawn error made =>
    obtain ⟨-, -, small⟩ := Source.held_next mint.source stamp drawn
    obtain rfl := Identifier.year_of_ofParts nonempty small made
    refine ⟨node, stamp, held, drawn, .refused fun printable => ?_⟩
    obtain ⟨identifier, written⟩ := printable.exists_ofParts nonempty node
    cases made.symm.trans written
  | minted _ node held stamp drawn identifier made =>
    obtain ⟨-, -, small⟩ := Source.held_next mint.source stamp drawn
    obtain ⟨begun, open_⟩ :=
      (Identifier.exists_ofParts_ofMillis_iff nonempty small).1 ⟨identifier, made⟩
    exact ⟨node, stamp, held, drawn, .minted ⟨begun, open_, small⟩ identifier made⟩

theorem select_of_error {error : MintError} (limit : 0 < mint.attemptLimit)
    (refused : (mint.issue label).1 = .ok (.error error)) (given : List Constraint)
    (applyRegistered : Bool) :
    mint.select label given applyRegistered = (.ok (.error error), (mint.issue label).2) := by
  obtain ⟨attempts, same⟩ := Nat.exists_eq_add_one.2 limit
  have issued : mint.issue label = (.ok (.error error), (mint.issue label).2) := Prod.ext refused rfl
  rw [select, same, attempt, issued]

theorem errors_of [Holding σ] {assigned : Prop} (given : mint.node.held = none ↔ ¬ assigned)
    (limit : 0 < mint.attemptLimit) (refuses : mint.source.next.1 = .error .poisoned →
      Sequencer.poisoned mint.source.sequencer = true) : mint.Errors assigned label where
  unlabelled := unlabelled_iff
  unassigned nonempty := (unassigned_iff nonempty).trans given
  untouched idle := issue_of_no_turn mint (idle.imp_right given.2)
  poisoned nonempty assigned := poisoned_iff refuses nonempty fun free => given.1 free assigned
  returns nonempty assigned sound result :=
    answered_of_issue refuses nonempty (fun free => given.1 free assigned) sound
  selects error refused given applyRegistered := by
    refine ⟨select_of_error limit refused given applyRegistered, ?_⟩
    rw [issue_journal, refused]
    rfl

end Issue

theorem held_eq_none_iff {sequencer : σ} {clock : τ} {attempts : Nat} {history : List Request}
    {mint : Mint σ τ} (reaches : Reaches ((fresh sequencer clock attempts).run history).2 mint) :
    mint.node.held = none ↔ ¬ ∃ seed, .assignNode seed ∈ history := by
  have offers (request : Request) : request.seed? = none ↔ ∀ seed, request ≠ .assignNode seed := by
    cases request <;> simp [Request.seed?]
  have free : (fresh sequencer clock attempts).node.held = none := rfl
  rw [reaches.node, run_node, free, Option.none_or, Option.map_eq_none_iff,
    List.findSome?_eq_none_iff]
  simp only [offers]
  constructor
  · rintro all ⟨seed, member⟩
    exact all _ member seed rfl
  · rintro never request member seed rfl
    exact never ⟨seed, member⟩

theorem attemptLimit_pos {sequencer : σ} {clock : τ} {attempts : Nat} {history : List Request}
    {mint : Mint σ τ} (reaches : Reaches ((fresh sequencer clock attempts).run history).2 mint) :
    0 < mint.attemptLimit := by
  rw [reaches.attemptLimit, run_attemptLimit]
  exact Nat.le_max_left 1 attempts

/-- In every state that a mint can reach from any stamp on, inside a request too, its errors go by the
label, by whether it was ever given a node, and by the lock. -/
theorem errors_ordered {τ : Type} [Clock τ] (start : Stamp) (clock : τ) (attempts : Nat)
    (history : List Request) (label : String) :
    (∀ mint, Reaches ((fresh (GuardedSequencer.ofStamp start) clock attempts).run history).2 mint →
      mint.Errors (∃ seed, .assignNode seed ∈ history) label) ∧
    ∀ mint, Reaches ((fresh (WordSequencer.ofStamp start) clock attempts).run history).2 mint →
      mint.Errors (∃ seed, .assignNode seed ∈ history) label := by
  constructor
  · intro mint reaches
    exact errors_of (held_eq_none_iff reaches) (attemptLimit_pos reaches)
      (GuardedSequencer.next_refused mint.source)
  · intro mint reaches
    exact errors_of (held_eq_none_iff reaches) (attemptLimit_pos reaches)
      fun refused => absurd refused (WordSequencer.next_open mint.source)

/-- From a place beyond the last one: the first call waits for the next millisecond, and the second
meets a failing reading and leaves the lock poisoned. -/
def failed : List Request × Mint GuardedSequencer (List Moment) :=
  let history : List Request := [.assignNode 7, .issue "A", .issue "A"]
  let clock : List Moment := [.reading 1606298343064, .reading 1606298343065, .fault .failed]
  (history, ((fresh (.ofStamp ⟨1606298343064, 1200⟩) clock 1000).run history).2)

def overdue : Mint WordSequencer (List Moment) :=
  ((fresh (.ofStamp .zero) [.reading 4102444800000] 1000).run [.assignNode 7]).2

theorem errors_ordered_failed :
    (failed.2.issue "").1 = .ok (.error .emptyLabel) ∧ (failed.2.issue "").2 = failed.2 ∧
      (failed.2.issue "A").1 = .ok (.error .lockPoisoned) ∧
      failed.2.select "A" [.accept] true = (.ok (.error .lockPoisoned), (failed.2.issue "A").2) ∧
      (overdue.issue "A").1 = .ok (.error (.parts (.yearOutOfRange 2100))) ∧
      ∃ node stamp, overdue.node.held = some node ∧ overdue.source.next.1 = .ok stamp ∧
        Answered "A" node stamp (.error (.parts (.yearOutOfRange 2100))) := by
  have seeded : ∃ seed, .assignNode seed ∈ failed.1 := ⟨7, List.mem_cons_self⟩
  have unlabelled := (errors_ordered ⟨1606298343064, 1200⟩ _ 1000 failed.1 "").1 failed.2 (.refl _)
  have labelled := (errors_ordered ⟨1606298343064, 1200⟩ _ 1000 failed.1 "A").1 failed.2 (.refl _)
  have poisoned : Sequencer.poisoned failed.2.source.sequencer = true := by
    with_unfolding_all rfl
  have refused := (labelled.poisoned (by decide) seeded).2 poisoned
  have late := (errors_ordered .zero [.reading 4102444800000] 1000 [.assignNode 7] "A").2 overdue
    (.refl _)
  have year : (overdue.issue "A").1 = .ok (.error (.parts (.yearOutOfRange 2100))) := by
    with_unfolding_all rfl
  exact ⟨unlabelled.unlabelled.2 rfl, unlabelled.untouched (.inl rfl), refused,
    (labelled.selects _ refused _ _).1, year,
    late.returns (by decide) ⟨7, List.mem_cons_self⟩ rfl _ year⟩

end Mint
end Mintmark
