import Mathlib.Data.List.Forall2
import Mintmark.Mint.Request

/-!
Two mints that are asked for the same. If they stay alike whatever is issued, registered or asked at
both, they stay alike through everything that is made of that, and give the same results.
-/
namespace Mintmark

/-- Two operations give the same result and leave states that are alike, or meet the same fault. -/
inductive Lockstep {α γ ω : Type} (alike : γ → ω → Prop) (halted : ClockFault → γ → ω → Prop) :
    Except ClockFault α × γ → Except ClockFault α × ω → Prop
  | answered (answer : α) {left : γ} {right : ω} (states : alike left right) :
    Lockstep alike halted (.ok answer, left) (.ok answer, right)
  | halted (cause : ClockFault) {left : γ} {right : ω} (states : halted cause left right) :
    Lockstep alike halted (.error cause, left) (.error cause, right)

theorem lockstep_image_iff {α γ ω : Type} {image : γ → ω} {left : Except ClockFault α × γ}
    {right : Except ClockFault α × ω} :
    Lockstep (fun state other => other = image state) (fun _ state other => other = image state)
      left right ↔ right = (left.1, image left.2) := by
  constructor
  · intro steps
    cases steps with
    | answered answer same => rw [same]
    | halted cause same => rw [same]
  · rintro rfl
    rcases left with ⟨cause | answer, state⟩
    · exact .halted cause rfl
    · exact .answered answer rfl

namespace Mint
variable {σ τ φ υ : Type} [Sequencer σ] [Clock τ] [Sequencer φ] [Clock υ]
  {alike : Mint σ τ → Mint φ υ → Prop} {halted : ClockFault → Mint σ τ → Mint φ υ → Prop}

/-- Nobody can tell the mints apart by what they issue, or by what the constraints of a pair answer. -/
structure Simulation (alike : Mint σ τ → Mint φ υ → Prop)
    (halted : ClockFault → Mint σ τ → Mint φ υ → Prop)
    (pair : Member × Constraint → Member × Constraint → Prop) : Prop where
  issue : ∀ {left right}, alike left right → ∀ label,
    Lockstep alike halted (left.issue label) (right.issue label)
  ask : ∀ {left right}, alike left right → ∀ candidate {member other}, pair member other →
    Lockstep alike halted (left.ask candidate member) (right.ask candidate other)

theorem lockstep_inquire
    (issue : ∀ {left right}, alike left right → ∀ label,
      Lockstep alike halted (left.issue label) (right.issue label))
    (register : ∀ {left right}, alike left right → ∀ constraint,
      alike (left.register constraint) (right.register constraint)) (inquiry : Inquiry) :
    ∀ {left right}, alike left right →
      Lockstep alike halted (inquire inquiry left) (inquire inquiry right) := by
  induction inquiry with
  | answer accepted =>
    intro left right states
    exact .answered accepted states
  | draw label next rest =>
    intro left right states
    have drawn := issue states label
    rw [inquire, inquire]
    generalize left.issue label = first, right.issue label = second at drawn ⊢
    cases drawn with
    | answered result states => exact rest result states
    | halted cause states => exact .halted cause states
  | register constraint next _ rest =>
    intro left right states
    exact rest (register states constraint)

theorem simulation_same
    (issue : ∀ {left right}, alike left right → ∀ label,
      Lockstep alike halted (left.issue label) (right.issue label))
    (register : ∀ {left right}, alike left right → ∀ constraint,
      alike (left.register constraint) (right.register constraint))
    (record : ∀ {left right}, alike left right → ∀ event,
      alike (left.record event) (right.record event)) :
    Simulation alike halted (· = ·) where
  issue := issue
  ask states candidate member _ same := by
    subst same
    exact lockstep_inquire issue register _ (record states _)

namespace Simulation
variable {pair : Member × Constraint → Member × Constraint → Prop}
  {members others : List (Member × Constraint)}

theorem acceptedByAll (simulation : Simulation alike halted pair) (candidate : Identifier)
    (pairs : List.Forall₂ pair members others) : ∀ {left right}, alike left right →
      Lockstep alike halted (acceptedByAll candidate members left)
        (acceptedByAll candidate others right) := by
  induction pairs with
  | nil =>
    intro left right states
    exact .answered true states
  | @cons member other _ _ first _ rest =>
    intro left right states
    have asked := simulation.ask states candidate first
    rw [Mint.acceptedByAll, Mint.acceptedByAll]
    generalize left.ask candidate member = one, right.ask candidate other = two at asked ⊢
    cases asked with
    | halted cause states => exact .halted cause states
    | answered accepted states =>
      cases accepted with
      | true => exact rest states
      | false => exact .answered false states

theorem attempt (simulation : Simulation alike halted pair) (label : String)
    (pairs : List.Forall₂ pair members others) (attempts : Nat) : ∀ {left right}, alike left right →
      Lockstep alike halted (attempt label members attempts left)
        (attempt label others attempts right) := by
  induction attempts with
  | zero =>
    intro left right states
    exact .answered _ states
  | succ attempts rest =>
    intro left right states
    have drawn := simulation.issue states label
    rw [Mint.attempt, Mint.attempt]
    generalize left.issue label = one, right.issue label = two at drawn ⊢
    cases drawn with
    | halted cause states => exact .halted cause states
    | @answered result left right states =>
      cases result with
      | error error => exact .answered _ states
      | ok candidate =>
        have asked := simulation.acceptedByAll candidate pairs states
        dsimp only
        generalize Mint.acceptedByAll candidate members left = one,
          Mint.acceptedByAll candidate others right = two at asked ⊢
        cases asked with
        | halted cause states => exact .halted cause states
        | answered accepted states =>
          cases accepted with
          | true => exact .answered _ states
          | false => exact rest states

theorem askAll (simulation : Simulation alike halted pair) (candidate : Identifier)
    (pairs : List.Forall₂ pair members others) : ∀ {left right}, alike left right →
      Lockstep alike halted (askAll candidate members left) (askAll candidate others right) := by
  induction pairs with
  | nil =>
    intro left right states
    exact .answered [] states
  | @cons member other members others first _ rest =>
    intro left right states
    have asked := simulation.ask states candidate first
    rw [Mint.askAll, Mint.askAll]
    generalize left.ask candidate member = one, right.ask candidate other = two at asked ⊢
    cases asked with
    | halted cause states => exact .halted cause states
    | @answered accepted left right states =>
      have later := rest states
      dsimp only
      generalize Mint.askAll candidate members left = one,
        Mint.askAll candidate others right = two at later ⊢
      cases later with
      | halted cause states => exact .halted cause states
      | answered verdicts states => exact .answered _ states

end Simulation
end Mint
end Mintmark
