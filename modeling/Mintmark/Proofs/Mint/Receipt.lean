import Mintmark.Proofs.Mint.Issue

/-!
What callers receive. An identifier that comes with a reply is issued while its request is answered,
so the record of a run has all that its callers receive, in the order in which they receive it.
-/
namespace Mintmark

/-- The identifiers that a caller receives; one that is only parsed is not handed out. -/
def received : Except ClockFault Reply → List Identifier
  | .ok (.identifier result) => result.toOption.toList
  | .ok (.identifiers results) => results.filterMap fun result => result.toOption.bind Except.toOption
  | .ok (.selection result) => result.toOption.join.toList
  | _ => []

namespace Mint
variable {σ τ : Type} {mint middle last : Mint σ τ} {first second : List Identifier}

/-- The record gains these identifiers from one state to the other, and may gain others between them. -/
def Gains (mint last : Mint σ τ) (identifiers : List Identifier) : Prop :=
  ∃ added, last.minted = mint.minted ++ added ∧ identifiers.Sublist added

theorem gains_nil (same : last.minted = mint.minted) : Gains mint last [] :=
  ⟨[], by simp [same], .slnil⟩

theorem Gains.trans (before : Gains mint middle first) (after : Gains middle last second) :
    Gains mint last (first ++ second) := by
  obtain ⟨early, earlyMinted, earlyKept⟩ := before
  obtain ⟨late, lateMinted, lateKept⟩ := after
  exact ⟨early ++ late, by simp [earlyMinted, lateMinted], earlyKept.append lateKept⟩

theorem Gains.sublist (gains : Gains mint last second) (sublist : first.Sublist second) :
    Gains mint last first := by
  obtain ⟨added, minted, kept⟩ := gains
  exact ⟨added, minted, sublist.trans kept⟩

/-- The record has all that the replies hand out, in the same order. -/
def Recorded (done : List (Except ClockFault Reply) × Mint σ τ) : Prop :=
  (done.1.flatMap received).Sublist done.2.minted

theorem Gains.of_unissued (gains : Gains mint last first) (unissued : mint.minted = []) :
    first.Sublist last.minted := by
  obtain ⟨added, minted, kept⟩ := gains
  rwa [minted, unissued]

variable [Sequencer σ] [Clock τ]

theorem minted_issue (mint : Mint σ τ) (label : String) :
    (mint.issue label).2.minted =
      mint.minted ++ received ((mint.issue label).1.map .identifier) := by
  have ends := issue_ends mint label
  generalize (mint.issue label).1 = result, (mint.issue label).2 = after at ends ⊢
  cases ends with
  | minted nonempty node held stamp drawn identifier => exact minted_record_minted _ identifier
  | unlabelled | unassigned | fault | poisoned | refused => exact (List.append_nil _).symm

theorem gains_issue (mint : Mint σ τ) (label : String) :
    Gains mint (mint.issue label).2 (received ((mint.issue label).1.map .identifier)) :=
  ⟨_, mint.minted_issue label, List.Sublist.refl _⟩

theorem Reaches.gains (reaches : Reaches mint last) : Gains mint last [] := by
  induction reaches with
  | refl mint => exact gains_nil rfl
  | issue label _ rest => exact ((gains_issue _ label).trans rest).sublist (List.nil_sublist _)
  | register constraint _ rest => exact rest
  | ask member candidate _ rest => exact (gains_nil (minted_record_asked _ member candidate)).trans rest

theorem gains_attempt (label : String) (members : List (Member × Constraint)) (attempts : Nat) :
    ∀ mint : Mint σ τ, Gains mint (attempt label members attempts mint).2
      (received ((attempt label members attempts mint).1.map .selection)) := by
  induction attempts with
  | zero =>
    intro mint
    exact gains_nil rfl
  | succ attempts rest =>
    intro mint
    have drawn := gains_issue mint label
    rw [attempt]
    generalize mint.issue label = issued at drawn ⊢
    obtain ⟨fault | error | candidate, drawnMint⟩ := issued
    · exact drawn
    · exact drawn
    · have asked := (works_acceptedByAll candidate members drawnMint).reaches.gains
      dsimp only
      generalize acceptedByAll candidate members drawnMint = accepted at asked ⊢
      obtain ⟨fault | _ | _, after⟩ := accepted
      · exact (drawn.trans asked).sublist (List.nil_sublist _)
      · exact ((drawn.trans asked).sublist (List.nil_sublist _)).trans (rest after)
      · exact drawn.trans asked

theorem gains_issueMany (label : String) (times : Nat) :
    ∀ (results : List (Except ClockFault (Except MintError Identifier))) (mint : Mint σ τ),
      ∃ latestFirst, (issueMany label times results mint).1 = latestFirst ++ results ∧
        Gains mint (issueMany label times results mint).2
          (received (.ok (.identifiers latestFirst.reverse))) := by
  induction times with
  | zero =>
    intro results mint
    exact ⟨[], rfl, gains_nil rfl⟩
  | succ times rest =>
    intro results mint
    have drawn := gains_issue mint label
    rw [issueMany]
    generalize mint.issue label = issued at drawn ⊢
    obtain ⟨result, after⟩ := issued
    obtain ⟨latestFirst, shape, later⟩ := rest (result :: results) after
    refine ⟨latestFirst ++ [result], by simp [shape], ?_⟩
    rw [List.reverse_concat]
    have one : received (.ok (.identifiers (result :: latestFirst.reverse))) =
        received (result.map .identifier) ++ received (.ok (.identifiers latestFirst.reverse)) := by
      rcases result with _ | _ | _ <;> rfl
    rw [one]
    exact drawn.trans later

theorem gains_respond (mint : Mint σ τ) (request : Request) :
    Gains mint (mint.respond request).2 (received (mint.respond request).1) := by
  cases request with
  | issue label => exact gains_issue mint label
  | issueMany label times =>
    obtain ⟨latestFirst, shape, gains⟩ := gains_issueMany label times [] mint
    have reply : (mint.respond (.issueMany label times)).1 =
        .ok (.identifiers latestFirst.reverse) := by
      rw [← List.append_nil latestFirst, ← shape]
      rfl
    rw [reply]
    exact gains
  | select label given applyRegistered => exact gains_attempt label _ _ mint
  | register constraints => exact (reaches_registerAll constraints mint).gains
  | verdicts candidate =>
    have asked := (works_askAll candidate (numbered .registered mint.registered) mint).reaches.gains
    rw [respond, verdicts]
    generalize askAll candidate _ mint = answered at asked ⊢
    obtain ⟨fault | accepted, after⟩ := answered <;> exact asked
  | assignNode | node | attemptLimit | registered | parse => exact gains_nil rfl

theorem gains_run (requests : List Request) : ∀ mint : Mint σ τ,
    Gains mint (mint.run requests).2 ((mint.run requests).1.flatMap received) := by
  induction requests with
  | nil => exact fun mint => gains_nil rfl
  | cons request requests rest =>
    intro mint
    exact (mint.gains_respond request).trans (rest _)

theorem recorded_run {mint : Mint σ τ} (unissued : mint.minted = []) (requests : List Request) :
    Recorded (mint.run requests) := (gains_run requests mint).of_unissued unissued

end Mint
end Mintmark
