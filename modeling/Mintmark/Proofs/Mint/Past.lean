import Mintmark.Proofs.Mint.Lockstep

/-!
What is kept for the record alone. A mint writes a journal, and its source the answers of the polls
inside readings, but neither reads them: whatever was recorded before, a mint answers the same.
-/
namespace Mintmark

structure Past where
  journal : List Event := []
  overlapped : List Attempt := []

namespace Source
variable {σ τ : Type}

def withPast (source : Source σ τ) (past : Past) : Source σ τ :=
  { source with overlapped := past.overlapped ++ source.overlapped }

variable [Sequencer σ] [Clock τ]

theorem read_withPast (source : Source σ τ) (past : Past) :
    (source.withPast past).read = (source.read.1, source.read.2.withPast past) := by
  simp only [read, withPast, List.append_assoc]

theorem poll_withPast (source : Source σ τ) (past : Past) :
    (source.withPast past).poll = (source.poll.1, source.poll.2.withPast past) := by
  unfold poll
  rw [read_withPast]
  have same : (source.withPast past).sequencer = source.sequencer := rfl
  rw [same]
  split
  · rfl
  · generalize source.read = reading
    obtain ⟨outcome, reached⟩ := reading
    cases outcome with
    | error fault => rfl
    | ok now => rfl

theorem next_withPast (past : Past) (source : Source σ τ) :
    (source.withPast past).next = (source.next.1, source.next.2.withPast past) := by
  induction source using next.induct with
  | case1 source stop after polled =>
    have polledWithPast := source.poll_withPast past
    rw [polled] at polledWithPast
    rw [next_of_stop polled, next_of_stop polledWithPast]
  | case2 source stamp after polled =>
    have polledWithPast := source.poll_withPast past
    rw [polled] at polledWithPast
    rw [next_of_issued polled, next_of_issued polledWithPast]
  | case3 source wait after polled rest =>
    have polledWithPast := source.poll_withPast past
    rw [polled] at polledWithPast
    rw [next_of_retry polled, next_of_retry polledWithPast, rest]

end Source

namespace Mint
variable {σ τ : Type}

def withPast (mint : Mint σ τ) (past : Past) : Mint σ τ :=
  { mint with source := mint.source.withPast past, journal := mint.journal ++ past.journal }

theorem registerAll_withPast (past : Past) (constraints : List Constraint) : ∀ mint : Mint σ τ,
    (mint.withPast past).registerAll constraints = (mint.registerAll constraints).withPast past := by
  induction constraints with
  | nil =>
    intro mint
    rfl
  | cons constraint constraints rest =>
    intro mint
    exact rest (mint.register constraint)

theorem minted_append (mint : Mint σ τ) (events journal : List Event) :
    ({ mint with journal := events ++ journal } : Mint σ τ).minted =
      ({ mint with journal } : Mint σ τ).minted ++
        ({ mint with journal := events } : Mint σ τ).minted := by
  simp only [minted, List.reverse_append, List.filterMap_append]

theorem minted_withPast (mint : Mint σ τ) (past : Past) :
    (mint.withPast past).minted =
      ({ mint with journal := past.journal } : Mint σ τ).minted ++ mint.minted :=
  mint.minted_append mint.journal past.journal

variable [Sequencer σ] [Clock τ]

theorem issue_withPast (mint : Mint σ τ) (past : Past) (label : String) :
    (mint.withPast past).issue label =
      ((mint.issue label).1, (mint.issue label).2.withPast past) := by
  unfold issue
  have node : (mint.withPast past).node = mint.node := rfl
  have drawn : (mint.withPast past).source.next =
      (mint.source.next.1, mint.source.next.2.withPast past) := mint.source.next_withPast past
  rw [node, drawn]
  split
  · rfl
  · split
    · rfl
    · generalize mint.source.next = outcome
      obtain ⟨result, source⟩ := outcome
      cases result with
      | error stop => cases stop <;> rfl
      | ok stamp =>
        dsimp only
        split <;> rfl

theorem simulation_withPast (past : Past) :
    Simulation (fun mint other : Mint σ τ => other = mint.withPast past)
      (fun _ mint other => other = mint.withPast past) (· = ·) := by
  refine simulation_same ?_ ?_ ?_
  · rintro mint _ rfl label
    exact lockstep_image_iff.2 (mint.issue_withPast past label)
  · rintro mint _ rfl constraint
    rfl
  · rintro mint _ rfl event
    rfl

theorem issueMany_withPast (past : Past) (label : String) (times : Nat) :
    ∀ (results : List (Except ClockFault (Except MintError Identifier))) (mint : Mint σ τ),
      issueMany label times results (mint.withPast past) =
        ((issueMany label times results mint).1,
          (issueMany label times results mint).2.withPast past) := by
  induction times with
  | zero =>
    intro results mint
    rfl
  | succ times rest =>
    intro results mint
    rw [issueMany, issueMany, issue_withPast]
    exact rest _ _

/-- A request is answered without regard to what was recorded before it. -/
theorem respond_withPast (mint : Mint σ τ) (past : Past) (request : Request) :
    (mint.withPast past).respond request =
      ((mint.respond request).1, (mint.respond request).2.withPast past) := by
  cases request with
  | assignNode seed => rfl
  | node => rfl
  | attemptLimit => rfl
  | issue label =>
    rw [respond, respond, issue_withPast]
  | issueMany label times =>
    rw [respond, respond, issueMany_withPast]
  | select label given applyRegistered =>
    have same : (mint.withPast past).select label given applyRegistered =
        ((mint.select label given applyRegistered).1,
          (mint.select label given applyRegistered).2.withPast past) :=
      lockstep_image_iff.1 ((simulation_withPast past).attempt label
        (List.forall₂_refl (mint.members given applyRegistered)) mint.attemptLimit rfl)
    rw [respond, respond, same]
  | register constraints =>
    rw [respond, respond, registerAll_withPast]
  | registered => rfl
  | verdicts candidate =>
    have same : (mint.withPast past).verdicts candidate =
        ((mint.verdicts candidate).1, (mint.verdicts candidate).2.withPast past) :=
      lockstep_image_iff.1 ((simulation_withPast past).askAll candidate
        (List.forall₂_refl (numbered .registered mint.registered)) rfl)
    rw [respond, respond, same]
  | parse text => rfl

theorem run_withPast (past : Past) (requests : List Request) : ∀ mint : Mint σ τ,
    (mint.withPast past).run requests =
      ((mint.run requests).1, (mint.run requests).2.withPast past) := by
  induction requests with
  | nil =>
    intro mint
    rfl
  | cons request requests rest =>
    intro mint
    rw [run, run, respond_withPast]
    dsimp only
    rw [rest]

end Mint
end Mintmark
