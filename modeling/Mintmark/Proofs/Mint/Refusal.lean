import Mintmark.Proofs.Identifier.Stamp
import Mintmark.Proofs.Identifier.Writing
import Mintmark.Proofs.Mint.Issue
import Mintmark.Proofs.Sequencer.Source

/-!
When issuing is refused for its year. A stamp past the last printable year is held although no
identifier is made of it, and from then on every stamp lies past that year, whatever the clock reads.
-/
namespace Mintmark
open Instant

namespace Identifier
variable {label : String} {stamp : Stamp} {node : Node}

theorem not_past_of_made {identifier : Identifier} (nonempty : label ≠ "")
    (small : stamp.sequence ≤ Stamp.maxSequence)
    (made : ofParts label (.ofMillis stamp.millis) node stamp.sequence = .ok identifier) :
    ¬ lastPrintable < stamp.millis :=
  UInt64.not_lt.2 ((exists_ofParts_ofMillis_iff nonempty small).1 ⟨identifier, made⟩).2

theorem past_of_refused {error : PartsError} (nonempty : label ≠ "")
    (small : stamp.sequence ≤ Stamp.maxSequence) (begun : firstPrintable ≤ stamp.millis)
    (refused : ofParts label (.ofMillis stamp.millis) node stamp.sequence = .error error) :
    lastPrintable < stamp.millis := by
  apply UInt64.not_le.1
  intro before
  obtain ⟨identifier, made⟩ := (exists_ofParts_ofMillis_iff nonempty small).2 ⟨begun, before⟩
  rw [refused] at made
  cases made

theorem year_of_ofParts {error : PartsError} (nonempty : label ≠ "")
    (small : stamp.sequence ≤ Stamp.maxSequence)
    (refused : ofParts label (.ofMillis stamp.millis) node stamp.sequence = .error error) :
    error = .yearOutOfRange (Instant.ofMillis stamp.millis).date.year := by
  have writing := (ofParts_eq_iff _).1 refused
  cases writing with
  | unlabelled empty => exact absurd empty nonempty
  | overflow _ beyond => exact absurd (UInt16.le_iff_toNat_le.1 small) (Nat.not_le.2 beyond)
  | leap _ _ leap => exact absurd (nanos_ofMillis_lt stamp.millis) (Nat.not_lt.2 leap)
  | outside => rfl

end Identifier

namespace Mint
open Settling
variable {σ τ : Type} [Sequencer σ]

def Overrun (reply : Except ClockFault Reply) : Prop :=
  ∃ year, 2099 < year ∧ reply = .ok (.identifier (.error (.parts (.yearOutOfRange year))))

def issued (sequencer : σ) (clock : List Moment) (attempts seed : Nat) (labels : List String) :
    List (Except ClockFault Reply) × Mint σ (List Moment) :=
  ((fresh sequencer clock attempts).assignNode seed).2.run (labels.map .issue)

/-- A call that returns, and whose own readings can all be printed, is refused exactly when a year
after the last was refused before, or a stamp of such a year was issued inside a reading. -/
def RefusedByHistory (history : List (Except ClockFault Reply) × Mint σ (List Moment))
    (label : String) : Prop :=
  ∀ result, (history.2.issue label).1 = .ok result →
    ∃ own, history.2.source.clock = own ++ (history.2.issue label).2.source.clock ∧
      (Source.ReadingsWithin own firstPrintable lastPrintable →
        ((∃ error, result = .error (.parts error)) ↔ result ≠ .error .lockPoisoned ∧
          ((∃ reply ∈ history.1, Overrun reply) ∨
            ∃ stamp, .issued stamp ∈ (history.2.issue label).2.source.overlapped ∧
              lastPrintable < stamp.millis)))

variable [Holding σ] [Clock τ]

theorem overrun_iff {label : String} {stamp : Stamp} {node : Node} {error : PartsError}
    (nonempty : label ≠ "") (small : stamp.sequence ≤ Stamp.maxSequence)
    (refused : Identifier.ofParts label (.ofMillis stamp.millis) node stamp.sequence = .error error) :
    Overrun (.ok (.identifier (.error (.parts error)))) ↔ lastPrintable < stamp.millis := by
  rw [Identifier.year_of_ofParts nonempty small refused, ← lastYear_lt_iff]
  constructor
  · rintro ⟨year, past, same⟩
    cases same
    exact past
  · intro past
    exact ⟨_, past, rfl⟩

theorem lt_held_issue (mint : Mint σ τ) (label : String) :
    ∃ inside, (mint.issue label).2.source.overlapped = mint.source.overlapped ++ inside ∧
      (lastPrintable < (held (mint.issue label).2.source.sequencer).millis ↔
        lastPrintable < (held mint.source.sequencer).millis ∨
          (∃ stamp, .issued stamp ∈ inside ∧ lastPrintable < stamp.millis) ∨
            Overrun ((mint.issue label).1.map .identifier)) := by
  obtain ⟨inside, overlapped, grows⟩ := Source.lt_held_next mint.source
  have beyond := grows (.endOf lastPrintable)
  simp only [Stamp.endOf_lt, or_and_right, exists_or] at beyond
  have ends := issue_ends mint label
  generalize (mint.issue label).1 = result, (mint.issue label).2 = after at ends ⊢
  cases ends with
  | unlabelled => exact ⟨[], (List.append_nil _).symm, by simp [Overrun, Except.map]⟩
  | unassigned => exact ⟨[], (List.append_nil _).symm, by simp [Overrun, Except.map]⟩
  | fault nonempty node assigned cause stopped =>
    refine ⟨inside, overlapped, ?_⟩
    rw [beyond, stopped]
    simp [Overrun, Except.map]
  | poisoned nonempty node assigned stopped =>
    refine ⟨inside, overlapped, ?_⟩
    rw [beyond, stopped]
    simp [Overrun, Except.map]
  | refused nonempty node assigned stamp drawn error made =>
    refine ⟨inside, overlapped, ?_⟩
    obtain ⟨-, -, small⟩ := Source.held_next mint.source stamp drawn
    rw [Except.map, overrun_iff nonempty small made, beyond, drawn]
    simp only [Except.ok.injEq, exists_eq_left']
  | minted nonempty node assigned stamp drawn identifier made =>
    refine ⟨inside, overlapped, beyond.trans ?_⟩
    obtain ⟨-, -, small⟩ := Source.held_next mint.source stamp drawn
    have before := Identifier.not_past_of_made nonempty small made
    rw [drawn]
    simp [Overrun, Except.map, before]

theorem lt_held_run (labels : List String) : ∀ mint : Mint σ τ,
    ∃ inside, (mint.run (labels.map .issue)).2.source.overlapped =
        mint.source.overlapped ++ inside ∧
      (lastPrintable < (held (mint.run (labels.map .issue)).2.source.sequencer).millis ↔
        lastPrintable < (held mint.source.sequencer).millis ∨
          (∃ stamp, .issued stamp ∈ inside ∧ lastPrintable < stamp.millis) ∨
            ∃ reply ∈ (mint.run (labels.map .issue)).1, Overrun reply) := by
  induction labels with
  | nil =>
    intro mint
    exact ⟨[], (List.append_nil _).symm, by simp [run]⟩
  | cons label labels rest =>
    intro mint
    obtain ⟨first, overlapped, step⟩ := lt_held_issue mint label
    obtain ⟨later, added, ends⟩ := rest (mint.issue label).2
    have after : (mint.run ((label :: labels).map .issue)).2 =
        ((mint.issue label).2.run (labels.map .issue)).2 := rfl
    have replies : (mint.run ((label :: labels).map .issue)).1 =
        (mint.issue label).1.map .identifier :: ((mint.issue label).2.run (labels.map .issue)).1 := rfl
    rw [after, replies]
    refine ⟨first ++ later, by rw [added, overlapped, List.append_assoc], ?_⟩
    rw [ends, step]
    simp only [List.mem_append, List.mem_cons, or_and_right, exists_or, exists_eq_left]
    ac_nf

/-- A call whose own readings can all be printed is refused by what was held before it, or issued
inside its readings, and by nothing else. -/
theorem refused_iff (mint : Mint σ (List Moment)) {node : Node} (assigned : mint.node.held = some node)
    {label : String} (nonempty : label ≠ "") {result : Except MintError Identifier}
    (returns : (mint.issue label).1 = .ok result) :
    ∃ own inside, mint.source.clock = own ++ (mint.issue label).2.source.clock ∧
      (mint.issue label).2.source.overlapped = mint.source.overlapped ++ inside ∧
      (Source.ReadingsWithin own firstPrintable lastPrintable →
        ((∃ error, result = .error (.parts error)) ↔ result ≠ .error .lockPoisoned ∧
          (lastPrintable < (held mint.source.sequencer).millis ∨
            ∃ stamp, .issued stamp ∈ inside ∧ lastPrintable < stamp.millis))) := by
  obtain ⟨own, inside, consumed, overlapped, drawn⟩ := Source.next_own mint.source
  have bounds := drawn firstPrintable lastPrintable
  have ends := issue_ends mint label
  rw [returns] at ends
  generalize (mint.issue label).2 = after at ends ⊢
  cases ends with
  | unlabelled empty => exact absurd empty nonempty
  | unassigned _ free =>
    rw [free] at assigned
    cases assigned
  | poisoned => exact ⟨own, inside, consumed, overlapped, fun _ => by simp⟩
  | refused _ node _ stamp outcome error made =>
    refine ⟨own, inside, consumed, overlapped, ?_⟩
    intro within
    obtain ⟨-, -, small⟩ := Source.held_next mint.source stamp outcome
    obtain ⟨begun, beyond⟩ := bounds stamp (by decide) within outcome
    have past := Identifier.past_of_refused nonempty small begun made
    rw [← beyond]
    simp [past]
  | minted _ node _ stamp outcome identifier made =>
    refine ⟨own, inside, consumed, overlapped, ?_⟩
    intro within
    obtain ⟨-, -, small⟩ := Source.held_next mint.source stamp outcome
    obtain ⟨begun, beyond⟩ := bounds stamp (by decide) within outcome
    have before := Identifier.not_past_of_made nonempty small made
    rw [← beyond]
    simp [before]

theorem refusedByHistory_of_held {sequencer : σ} (new : held sequencer = .zero) (clock : List Moment)
    (attempts seed : Nat) (labels : List String) {label : String} (nonempty : label ≠ "") :
    RefusedByHistory (issued sequencer clock attempts seed labels) label := by
  intro result returns
  have assigned : (issued sequencer clock attempts seed labels).2.node.held = some (.ofSeed seed) := by
    rw [issued, run_node]
    rfl
  obtain ⟨own, inside, consumed, overlapped, refusal⟩ := refused_iff _ assigned nonempty returns
  obtain ⟨earlier, before, past⟩ :=
    lt_held_run labels ((fresh sequencer clock attempts).assignNode seed).2
  have start : ((fresh sequencer clock attempts).assignNode seed).2.source.sequencer = sequencer := rfl
  have none : ((fresh sequencer clock attempts).assignNode seed).2.source.overlapped = [] := rfl
  have unprinted : ¬ lastPrintable < Stamp.zero.millis := by decide
  rw [start, new] at past
  rw [none, List.nil_append] at before
  refine ⟨own, consumed, ?_⟩
  intro within
  rw [refusal within, overlapped, issued, before, past]
  simp only [unprinted, false_or, List.mem_append, or_and_right, exists_or]
  ac_nf

theorem refused_by_history (clock : List Moment) (attempts seed : Nat) (labels : List String)
    (label : String) (nonempty : label ≠ "") :
    RefusedByHistory (issued ({} : GuardedSequencer) clock attempts seed labels) label ∧
      RefusedByHistory (issued ({} : WordSequencer) clock attempts seed labels) label :=
  ⟨refusedByHistory_of_held rfl clock attempts seed labels nonempty,
    refusedByHistory_of_held rfl clock attempts seed labels nonempty⟩

/-- The first call read the year 2100; the clock was set to 2020 after it. -/
def corrected : List (Except ClockFault Reply) × Mint GuardedSequencer (List Moment) :=
  issued {} [.reading 4102444800000, .reading 1606298343064] 1000 1 ["A"]

theorem issue_corrected :
    (corrected.2.issue "A").1 = .ok (.error (.parts (.yearOutOfRange 2100))) := by
  with_unfolding_all rfl

theorem readingsWithin_corrected :
    Source.ReadingsWithin [.reading 1606298343064] firstPrintable lastPrintable := by
  intro moment member now outcome
  rw [List.mem_singleton] at member
  subst member
  cases outcome
  decide

theorem refused_by_history_corrected :
    (∃ reply ∈ corrected.1, Overrun reply) ∨
      ∃ stamp, .issued stamp ∈ (corrected.2.issue "A").2.source.overlapped ∧
        lastPrintable < stamp.millis := by
  obtain ⟨own, consumed, refusal⟩ :=
    (refused_by_history [.reading 4102444800000, .reading 1606298343064] 1000 1 ["A"] "A"
      (by decide)).1 _ issue_corrected
  have same : own ++ [] = [.reading 1606298343064] := by
    with_unfolding_all exact consumed.symm
  rw [List.append_nil] at same
  subst same
  exact ((refusal readingsWithin_corrected).1 ⟨_, rfl⟩).2

theorem refused_after_correction :
    corrected.2.source.clock = [.reading 1606298343064] ++ (corrected.2.issue "A").2.source.clock ∧
      Source.ReadingsWithin [.reading 1606298343064] firstPrintable lastPrintable ∧
      (corrected.2.issue "A").1 = .ok (.error (.parts (.yearOutOfRange 2100))) := by
  refine ⟨?_, readingsWithin_corrected, issue_corrected⟩
  with_unfolding_all rfl

end Mint
end Mintmark
