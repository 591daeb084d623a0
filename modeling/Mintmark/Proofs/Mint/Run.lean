import Mintmark.Mint.Request

/-!
What a mint can come to. Everything that it is asked for, a nested draw inside a constraint too, is
made of issuing, registering and asking, but for the assignment of its node.
-/
namespace Mintmark

def Request.seed? : Request → Option Nat
  | .assignNode seed => some seed
  | _ => none

theorem Request.eq_assignNode {request : Request} {seed : Nat} (offers : request.seed? = some seed) :
    request = .assignNode seed := by
  cases request with
  | assignNode other =>
    cases offers
    rfl
  | _ => cases offers

namespace Mint
variable {σ τ : Type}

def fresh (sequencer : σ) (clock : τ) (attempts : Nat) : Mint σ τ :=
  ({ source := { sequencer, clock } } : Mint σ τ).withAttemptLimit attempts

theorem registerAll_eq (constraints : List Constraint) : ∀ mint : Mint σ τ,
    mint.registerAll constraints = { mint with registered := mint.registered ++ constraints } := by
  induction constraints with
  | nil =>
    intro mint
    rw [List.append_nil]
    rfl
  | cons constraint constraints rest =>
    intro mint
    have registered : mint.registerAll (constraint :: constraints) =
        (mint.register constraint).registerAll constraints := rfl
    rw [registered, rest, register, List.append_assoc]
    rfl

variable [Sequencer σ] [Clock τ]

/-- The second mint is what issuing, registering and asking make of the first. -/
inductive Reaches : Mint σ τ → Mint σ τ → Prop
  | refl (mint : Mint σ τ) : Reaches mint mint
  | issue {mint last : Mint σ τ} (label : String) (rest : Reaches (mint.issue label).2 last) :
    Reaches mint last
  | register {mint last : Mint σ τ} (constraint : Constraint)
    (rest : Reaches (mint.register constraint) last) : Reaches mint last
  | ask {mint last : Mint σ τ} (member : Member) (candidate : Identifier)
    (rest : Reaches (mint.record (.asked member candidate)) last) : Reaches mint last

theorem Reaches.trans {first second third : Mint σ τ} (before : Reaches first second)
    (after : Reaches second third) : Reaches first third := by
  induction before with
  | refl mint => exact after
  | issue label _ rest => exact .issue label (rest after)
  | register constraint _ rest => exact .register constraint (rest after)
  | ask member candidate _ rest => exact .ask member candidate (rest after)

theorem reaches_issued {mint last : Mint σ τ} {label : String}
    {result : Except ClockFault (Except MintError Identifier)}
    (issued : mint.issue label = (result, last)) : Reaches mint last := by
  have reaches : Reaches mint (mint.issue label).2 := .issue label (.refl _)
  rwa [issued] at reaches

/-- Every way in which an operation goes: it issues, registers and asks, to its result or up to the
fault of an identifier that it issues, and does nothing after that. -/
inductive Works {α : Type} (mint : Mint σ τ) : Except ClockFault α × Mint σ τ → Prop
  | done (result : α) {last : Mint σ τ} (reaches : Reaches mint last) : Works mint (.ok result, last)
  | fault (cause : ClockFault) {before last : Mint σ τ} (reaches : Reaches mint before)
    (label : String) (issued : before.issue label = (.error cause, last)) :
    Works mint (.error cause, last)

theorem Works.reaches {α : Type} {mint : Mint σ τ} {done : Except ClockFault α × Mint σ τ}
    (works : Works mint done) : Reaches mint done.2 := by
  cases works with
  | done result reaches => exact reaches
  | fault cause reaches label issued => exact reaches.trans (reaches_issued issued)

theorem Reaches.works {α : Type} {mint reached : Mint σ τ} {done : Except ClockFault α × Mint σ τ}
    (before : Reaches mint reached) (works : Works reached done) : Works mint done := by
  cases works with
  | done result reaches => exact .done result (before.trans reaches)
  | fault cause reaches label issued => exact .fault cause (before.trans reaches) label issued

theorem works_issue (mint : Mint σ τ) (label : String) : Works mint (mint.issue label) := by
  rcases issued : mint.issue label with ⟨cause | result, last⟩
  · exact .fault cause (.refl mint) label issued
  · exact .done result (reaches_issued issued)

theorem works_inquire (inquiry : Inquiry) :
    ∀ mint : Mint σ τ, Works mint (inquire inquiry mint) := by
  induction inquiry with
  | answer accepted =>
    intro mint
    exact .done accepted (.refl mint)
  | draw label next rest =>
    intro mint
    have drawn := works_issue mint label
    rw [inquire]
    generalize mint.issue label = done at drawn ⊢
    cases drawn with
    | done result reaches => exact reaches.works (rest result _)
    | fault cause reaches label issued => exact .fault cause reaches label issued
  | register constraint next _ rest =>
    intro mint
    exact Reaches.works (.register constraint (.refl _)) (rest _)

theorem works_ask (mint : Mint σ τ) (candidate : Identifier) (member : Member × Constraint) :
    Works mint (mint.ask candidate member) :=
  Reaches.works (.ask member.1 candidate (.refl _)) (works_inquire _ _)

theorem works_acceptedByAll (candidate : Identifier) (members : List (Member × Constraint)) :
    ∀ mint : Mint σ τ, Works mint (acceptedByAll candidate members mint) := by
  induction members with
  | nil =>
    intro mint
    exact .done true (.refl mint)
  | cons member members rest =>
    intro mint
    have asked := works_ask mint candidate member
    rw [acceptedByAll]
    generalize mint.ask candidate member = done at asked ⊢
    cases asked with
    | fault cause reaches label issued => exact .fault cause reaches label issued
    | done accepted reaches =>
      cases accepted with
      | true => exact reaches.works (rest _)
      | false => exact .done false reaches

theorem works_attempt (label : String) (members : List (Member × Constraint)) (attempts : Nat) :
    ∀ mint : Mint σ τ, Works mint (attempt label members attempts mint) := by
  induction attempts with
  | zero =>
    intro mint
    exact .done _ (.refl mint)
  | succ attempts rest =>
    intro mint
    have drawn := works_issue mint label
    rw [attempt]
    generalize mint.issue label = done at drawn ⊢
    cases drawn with
    | fault cause reaches label issued => exact .fault cause reaches label issued
    | @done result drawn reaches =>
      cases result with
      | error error => exact .done _ reaches
      | ok candidate =>
        apply reaches.works
        have asked := works_acceptedByAll candidate members drawn
        dsimp only
        generalize acceptedByAll candidate members drawn = done at asked ⊢
        cases asked with
        | fault cause reaches label issued => exact .fault cause reaches label issued
        | done accepted reaches =>
          cases accepted with
          | true => exact .done _ reaches
          | false => exact reaches.works (rest _)

theorem works_askAll (candidate : Identifier) (members : List (Member × Constraint)) :
    ∀ mint : Mint σ τ, Works mint (askAll candidate members mint) := by
  induction members with
  | nil =>
    intro mint
    exact .done [] (.refl mint)
  | cons member members rest =>
    intro mint
    have asked := works_ask mint candidate member
    rw [askAll]
    generalize mint.ask candidate member = done at asked ⊢
    cases asked with
    | fault cause reaches label issued => exact .fault cause reaches label issued
    | @done accepted after reaches =>
      apply reaches.works
      have others := rest after
      dsimp only
      generalize askAll candidate members after = done at others ⊢
      cases others with
      | fault cause reaches label issued => exact .fault cause reaches label issued
      | done others reaches => exact .done _ reaches

theorem reaches_issueMany (label : String) (times : Nat) :
    ∀ (results : List (Except ClockFault (Except MintError Identifier))) (mint : Mint σ τ),
      Reaches mint (issueMany label times results mint).2 := by
  induction times with
  | zero =>
    intro results mint
    exact .refl mint
  | succ times rest =>
    intro results mint
    exact .issue label (rest _ _)

theorem reaches_registerAll (constraints : List Constraint) :
    ∀ mint : Mint σ τ, Reaches mint (mint.registerAll constraints) := by
  induction constraints with
  | nil =>
    intro mint
    exact .refl mint
  | cons constraint constraints rest =>
    intro mint
    exact .register constraint (rest _)

theorem Works.map {α β : Type} {mint : Mint σ τ} {done : Except ClockFault α × Mint σ τ}
    (works : Works mint done) (into : α → β) : Works mint (done.1.map into, done.2) := by
  cases works with
  | done result reaches => exact .done (into result) reaches
  | fault cause reaches label issued => exact .fault cause reaches label issued

theorem works_respond (mint : Mint σ τ) (request : Request) (offers : request.seed? = none) :
    Works mint (mint.respond request) := by
  cases request with
  | assignNode seed => cases offers
  | issue label => exact (works_issue mint label).map _
  | issueMany label times => exact .done _ (reaches_issueMany label times [] mint)
  | select label given applyRegistered => exact (works_attempt label _ _ mint).map _
  | register constraints => exact .done _ (reaches_registerAll constraints mint)
  | verdicts candidate => exact (works_askAll candidate _ mint).map _
  | node | attemptLimit | registered | parse text => exact .done _ (.refl mint)

theorem reaches_respond (mint : Mint σ τ) (request : Request) (offers : request.seed? = none) :
    Reaches mint (mint.respond request).2 :=
  (works_respond mint request offers).reaches

/-- What the assignment of a node keeps, and issuing, registering and asking keep, a run keeps. -/
theorem run_keeps {keeps : Mint σ τ → Prop}
    (assigned : ∀ mint seed, keeps mint → keeps (mint.assignNode seed).2)
    (reached : ∀ mint last, Reaches mint last → keeps mint → keeps last) (requests : List Request) :
    ∀ mint : Mint σ τ, keeps mint → keeps (mint.run requests).2 := by
  induction requests with
  | nil =>
    intro mint holds
    exact holds
  | cons request requests rest =>
    intro mint holds
    apply rest
    cases offers : request.seed? with
    | some seed =>
      rw [Request.eq_assignNode offers]
      exact assigned mint seed holds
    | none => exact reached _ _ (reaches_respond mint request offers) holds

end Mint
end Mintmark
