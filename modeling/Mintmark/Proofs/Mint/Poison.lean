import Mintmark.Proofs.Mint.Issue
import Mintmark.Proofs.Sequencer.Fault

/-!
Faults that reach a mint. A request that a fault ends, however deep inside a selection or a
constraint, ends there. Over a lock the mint then issues nothing more; what needs no stamp goes on
as if nothing had happened.
-/
namespace Mintmark

def Request.stampless : Request → Bool
  | .assignNode _ | .node | .attemptLimit | .register _ | .registered | .parse _ => true
  | .issue _ | .issueMany _ _ | .select _ _ _ | .verdicts _ => false

namespace Mint

variable {τ : Type}

def poison (mint : Mint GuardedSequencer τ) : Mint GuardedSequencer τ :=
  { mint with source := { mint.source with
    sequencer := Sequencer.abandon mint.source.sequencer } }

inductive Refused : Request → Reply → Prop
  | issue {label : String} (nonempty : label ≠ "") :
    Refused (.issue label) (.identifier (.error .lockPoisoned))
  | issueMany {label : String} (nonempty : label ≠ "") (times : Nat) :
    Refused (.issueMany label times)
      (.identifiers (List.replicate times (.ok (.error .lockPoisoned))))
  | select {label : String} (nonempty : label ≠ "") (given : List Constraint)
    (applyRegistered : Bool) :
    Refused (.select label given applyRegistered) (.selection (.error .lockPoisoned))

def Poisoned (mint : Mint GuardedSequencer τ) : Prop := mint.source.sequencer.poisoned = true

theorem poisoned_poison (mint : Mint GuardedSequencer τ) : mint.poison.Poisoned := rfl

variable [Clock τ]

theorem respond_poison (mint : Mint GuardedSequencer τ) {request : Request}
    (free : request.stampless = true) :
    mint.poison.respond request = ((mint.respond request).1, (mint.respond request).2.poison) := by
  cases request with
  | register constraints =>
    rw [respond, respond, registerAll_eq, registerAll_eq]
    rfl
  | issue | issueMany | select | verdicts => cases free
  | _ => rfl

theorem poisoned_issue {mint : Mint GuardedSequencer τ} {label : String} {cause : ClockFault}
    (failed : (mint.issue label).1 = .error cause) : (mint.issue label).2.Poisoned := by
  have ends := issue_ends mint label
  rw [failed] at ends
  generalize (mint.issue label).2 = after at ends
  cases ends with
  | fault _ _ _ _ stopped => exact GuardedSequencer.next_fault mint.source stopped

theorem poisoned_respond {mint : Mint GuardedSequencer τ} {request : Request} {cause : ClockFault}
    (failed : (mint.respond request).1 = .error cause) : (mint.respond request).2.Poisoned := by
  cases offers : request.seed? with
  | some seed =>
    rw [Request.eq_assignNode offers] at failed
    cases failed
  | none =>
    have works := works_respond mint request offers
    generalize mint.respond request = done at works failed ⊢
    cases works with
    | done reply reaches => cases failed
    | @fault cause before last reaches label issued =>
      have poisoned : (before.issue label).2.Poisoned := poisoned_issue (by rw [issued])
      rwa [issued] at poisoned

namespace Poisoned
variable {mint : Mint GuardedSequencer τ}

theorem next (poisoned : mint.Poisoned) : mint.source.next = (.error .poisoned, mint.source) :=
  Source.next_of_stop (Source.poll_poisoned poisoned)

theorem issue (poisoned : mint.Poisoned) {label : String} (nonempty : label ≠ "")
    (assigned : mint.node.held ≠ none) : mint.issue label = (.ok (.error .lockPoisoned), mint) := by
  obtain ⟨node, held⟩ := Option.ne_none_iff_exists'.1 assigned
  have unlabelled : label.isEmpty = false := String.isEmpty_eq_false_iff.2 nonempty
  simp only [Mint.issue, unlabelled, held, poisoned.next, Bool.false_eq_true, if_false]

theorem source_issue (poisoned : mint.Poisoned) (label : String) :
    (mint.issue label).2.source = mint.source := by
  have ends := issue_ends mint label
  have same : mint.source.next.2 = mint.source := congrArg Prod.snd poisoned.next
  generalize (mint.issue label).1 = result, (mint.issue label).2 = after at ends ⊢
  cases ends with
  | unlabelled | unassigned => rfl
  | _ => exact same

theorem source_reaches {last : Mint GuardedSequencer τ} (poisoned : mint.Poisoned)
    (reaches : Reaches mint last) : last.source = mint.source := by
  induction reaches with
  | refl mint => rfl
  | @issue mint last label _ same =>
    have kept := poisoned.source_issue label
    have still : (mint.issue label).2.Poisoned := by
      rw [Poisoned, kept]
      exact poisoned
    rw [same still, kept]
  | register constraint _ same => exact same poisoned
  | ask member candidate _ same => exact same poisoned

theorem issueMany (poisoned : mint.Poisoned) {label : String} (nonempty : label ≠ "")
    (assigned : mint.node.held ≠ none) (times : Nat) :
    ∀ results, Mint.issueMany label times results mint =
      (List.replicate times (.ok (.error .lockPoisoned)) ++ results, mint) := by
  induction times with
  | zero =>
    intro results
    rfl
  | succ times rest =>
    intro results
    rw [Mint.issueMany, poisoned.issue nonempty assigned]
    dsimp only
    rw [rest, List.replicate_succ', List.append_assoc]
    rfl

theorem respond (poisoned : mint.Poisoned) (assigned : mint.node.held ≠ none)
    (limit : 0 < mint.attemptLimit) {request : Request} {reply : Reply}
    (refused : Refused request reply) : mint.respond request = (.ok reply, mint) := by
  cases refused with
  | issue nonempty =>
    rw [Mint.respond, poisoned.issue nonempty assigned]
    rfl
  | issueMany nonempty times =>
    rw [Mint.respond, poisoned.issueMany nonempty assigned]
    simp
  | select nonempty given applyRegistered =>
    obtain ⟨attempts, same⟩ := Nat.exists_eq_add_one.2 limit
    rw [Mint.respond, Mint.select, same, attempt, poisoned.issue nonempty assigned]
    rfl

theorem source_run (poisoned : mint.Poisoned) (requests : List Request) :
    (mint.run requests).2.source = mint.source := by
  have still : ∀ {other : Mint GuardedSequencer τ}, other.source = mint.source → other.Poisoned := by
    intro other same
    rw [Poisoned, same]
    exact poisoned
  have reached : ∀ other last : Mint GuardedSequencer τ, Reaches other last →
      other.source = mint.source → last.source = mint.source := by
    intro other last reaches same
    rw [(still same).source_reaches reaches, same]
  exact run_keeps (fun _ _ same => same) reached requests mint rfl

end Poisoned

/-- What a fault makes of a mint over a lock: nothing comes of the source any more, and nothing else
is changed. -/
structure Disabled (mint : Mint GuardedSequencer τ) : Prop where
  poisons : ∀ request cause, (mint.respond request).1 = .error cause →
    (mint.respond request).2.Poisoned
  kept : ∀ requests, (mint.poison.run requests).2.source = mint.poison.source
  refuses : 0 < mint.attemptLimit → ∀ requests, (mint.poison.run requests).2.node.held ≠ none →
    ∀ request reply, Refused request reply →
      (mint.poison.run requests).2.respond request = (.ok reply, (mint.poison.run requests).2)
  serves : ∀ request, request.stampless = true →
    mint.poison.respond request = ((mint.respond request).1, (mint.respond request).2.poison)

theorem disabled (mint : Mint GuardedSequencer τ) : mint.Disabled where
  poisons _ _ failed := poisoned_respond failed
  kept requests := mint.poisoned_poison.source_run requests
  refuses limit requests assigned request reply refused := by
    have same := mint.poisoned_poison.source_run requests
    have poisoned : (mint.poison.run requests).2.Poisoned := by
      rw [Poisoned, same]
      exact mint.poisoned_poison
    exact poisoned.respond assigned (by rwa [run_attemptLimit]) refused
  serves _ free := mint.respond_poison free

end Mint

/-- Over the word a failing reading costs its own call and nothing else. Over the lock it ends the
issuing of stamps, to callers of the sequencer and of every mint, and nothing else. -/
theorem faults_contained (word : WordSequencer) (start : Stamp)
    (readings : List (Except ClockFault UInt64)) (calls : List Source.Call) :
    Source.Recovers ⟨word, readings.map .lone, []⟩ calls ∧
      Source.Poisons ⟨.ofStamp start, readings.map .lone, []⟩ calls ∧
      ∀ (τ : Type) [Clock τ] (mint : Mint GuardedSequencer τ), mint.Disabled := by
  refine ⟨Source.recovers calls (Source.lone_map readings), ⟨?_, ?_⟩, ?_⟩
  · exact Source.failsByReadings calls (Source.lone_map readings)
  · intro early failed late cause split fault
    exact Source.broken calls (Source.lone_map readings) rfl split fault
  · intro τ _ mint
    exact mint.disabled

end Mintmark
