import Mintmark.Proofs.Mint.Issue

/-!
What a mint does, written down in the order in which it is done: by the requests, and by the
constraints that are asked on the way.
-/
namespace Mintmark

inductive Deed where
  | assignNode (seed : Nat)
  | issue (label : String)
  | register (constraint : Constraint)
  | ask (member : Member) (candidate : Identifier)

def registrations (deeds : List Deed) : List Constraint :=
  deeds.filterMap fun
    | .register constraint => some constraint
    | _ => none

def questions (deeds : List Deed) : List (Member × Identifier) :=
  deeds.filterMap fun
    | .ask member candidate => some (member, candidate)
    | _ => none

theorem registrations_append (early late : List Deed) :
    registrations (early ++ late) = registrations early ++ registrations late :=
  List.filterMap_append

theorem questions_append (early late : List Deed) :
    questions (early ++ late) = questions early ++ questions late :=
  List.filterMap_append

namespace Mint
variable {σ τ : Type} [Sequencer σ] [Clock τ]

def perform (mint : Mint σ τ) : Deed → Mint σ τ
  | .assignNode seed => (mint.assignNode seed).2
  | .issue label => (mint.issue label).2
  | .register constraint => mint.register constraint
  | .ask member candidate => mint.record (.asked member candidate)

def performAll (mint : Mint σ τ) (deeds : List Deed) : Mint σ τ := deeds.foldl perform mint

theorem performAll_append (mint : Mint σ τ) (early late : List Deed) :
    mint.performAll (early ++ late) = (mint.performAll early).performAll late := List.foldl_append

def deedsOfInquiry : Inquiry → Mint σ τ → List Deed
  | .answer _, _ => []
  | .draw label next, mint =>
    .issue label ::
      match mint.issue label with
      | (.error _, _) => []
      | (.ok result, after) => deedsOfInquiry (next result) after
  | .register constraint next, mint =>
    .register constraint :: deedsOfInquiry next (mint.register constraint)

def deedsOfAsk (mint : Mint σ τ) (candidate : Identifier) (member : Member × Constraint) : List Deed :=
  .ask member.1 candidate ::
    deedsOfInquiry (member.2 candidate) (mint.record (.asked member.1 candidate))

def accepts : Except ClockFault Bool → Bool
  | .ok accepted => accepted
  | .error _ => false

/-- The members are asked one after another, as long as the answers let the call go on. -/
def deedsOfMembers (goesOn : Except ClockFault Bool → Bool) (candidate : Identifier) :
    List (Member × Constraint) → Mint σ τ → List Deed
  | [], _ => []
  | member :: members, mint =>
    let (answer, after) := mint.ask candidate member
    mint.deedsOfAsk candidate member ++
      if goesOn answer then deedsOfMembers goesOn candidate members after else []

def deedsOfAttempts (label : String) (members : List (Member × Constraint)) :
    Nat → Mint σ τ → List Deed
  | 0, _ => []
  | attempts + 1, mint =>
    .issue label ::
      match mint.issue label with
      | (.ok (.ok candidate), drawn) =>
        deedsOfMembers accepts candidate members drawn ++
          match acceptedByAll candidate members drawn with
          | (.ok false, after) => deedsOfAttempts label members attempts after
          | _ => []
      | _ => []

def deedsOfRequest (mint : Mint σ τ) : Request → List Deed
  | .assignNode seed => [.assignNode seed]
  | .node | .attemptLimit | .registered | .parse _ => []
  | .issue label => [.issue label]
  | .issueMany label times => List.replicate times (.issue label)
  | .select label given applyRegistered =>
    deedsOfAttempts label (mint.members given applyRegistered) mint.attemptLimit mint
  | .register constraints => constraints.map .register
  | .verdicts candidate =>
    deedsOfMembers Except.isOk candidate (numbered .registered mint.registered) mint

def deeds (mint : Mint σ τ) : List Request → List Deed
  | [] => []
  | request :: requests => mint.deedsOfRequest request ++ (mint.respond request).2.deeds requests

theorem performAll_inquiry (inquiry : Inquiry) : ∀ mint : Mint σ τ,
    mint.performAll (deedsOfInquiry inquiry mint) = (inquire inquiry mint).2 := by
  induction inquiry with
  | answer accepted =>
    intro mint
    rfl
  | draw label next rest =>
    intro mint
    rw [deedsOfInquiry, inquire, performAll, List.foldl_cons, perform]
    rcases mint.issue label with ⟨fault | result, after⟩
    · rfl
    · exact rest result after
  | register constraint next _ rest =>
    intro mint
    exact rest (mint.register constraint)

theorem performAll_ask (mint : Mint σ τ) (candidate : Identifier) (member : Member × Constraint) :
    mint.performAll (mint.deedsOfAsk candidate member) = (mint.ask candidate member).2 :=
  performAll_inquiry _ _

theorem performAll_acceptedByAll (candidate : Identifier) (members : List (Member × Constraint)) :
    ∀ mint : Mint σ τ, mint.performAll (deedsOfMembers accepts candidate members mint) =
      (acceptedByAll candidate members mint).2 := by
  induction members with
  | nil =>
    intro mint
    rfl
  | cons member members rest =>
    intro mint
    rw [deedsOfMembers, acceptedByAll, performAll_append, performAll_ask]
    rcases mint.ask candidate member with ⟨fault | _ | _, after⟩
    · rfl
    · rfl
    · exact rest after

theorem performAll_askAll (candidate : Identifier) (members : List (Member × Constraint)) :
    ∀ mint : Mint σ τ, mint.performAll (deedsOfMembers Except.isOk candidate members mint) =
      (askAll candidate members mint).2 := by
  induction members with
  | nil =>
    intro mint
    rfl
  | cons member members rest =>
    intro mint
    rw [deedsOfMembers, askAll, performAll_append, performAll_ask]
    rcases mint.ask candidate member with ⟨fault | accepted, after⟩
    · rfl
    · have goesOn : (Except.ok accepted : Except ClockFault Bool).isOk = true := rfl
      dsimp only
      rw [if_pos goesOn, rest]
      rcases askAll candidate members after with ⟨fault | others, final⟩
      · rfl
      · rfl

theorem performAll_attempts (label : String) (members : List (Member × Constraint)) (attempts : Nat) :
    ∀ mint : Mint σ τ, mint.performAll (deedsOfAttempts label members attempts mint) =
      (attempt label members attempts mint).2 := by
  induction attempts with
  | zero =>
    intro mint
    rfl
  | succ attempts rest =>
    intro mint
    rw [deedsOfAttempts, attempt, performAll, List.foldl_cons, perform]
    rcases mint.issue label with ⟨fault | error | candidate, drawn⟩
    · rfl
    · rfl
    · dsimp only
      rw [← performAll, performAll_append, performAll_acceptedByAll]
      rcases acceptedByAll candidate members drawn with ⟨fault | _ | _, after⟩
      · rfl
      · exact rest after
      · rfl

theorem performAll_issueMany (label : String) (times : Nat) :
    ∀ (results : List (Except ClockFault (Except MintError Identifier))) (mint : Mint σ τ),
      mint.performAll (List.replicate times (.issue label)) = (issueMany label times results mint).2 := by
  induction times with
  | zero =>
    intro results mint
    rfl
  | succ times rest =>
    intro results mint
    exact rest _ _

theorem performAll_register (constraints : List Constraint) : ∀ mint : Mint σ τ,
    mint.performAll (constraints.map .register) = mint.registerAll constraints := by
  induction constraints with
  | nil =>
    intro mint
    rfl
  | cons constraint constraints rest =>
    intro mint
    exact rest (mint.register constraint)

theorem performAll_request (mint : Mint σ τ) (request : Request) :
    mint.performAll (mint.deedsOfRequest request) = (mint.respond request).2 := by
  cases request with
  | issueMany label times => exact performAll_issueMany label times [] mint
  | select label given applyRegistered => exact performAll_attempts label _ _ mint
  | register constraints => exact performAll_register constraints mint
  | verdicts candidate => exact performAll_askAll candidate _ mint
  | _ => rfl

theorem performAll_deeds (requests : List Request) : ∀ mint : Mint σ τ,
    mint.performAll (mint.deeds requests) = (mint.run requests).2 := by
  induction requests with
  | nil =>
    intro mint
    rfl
  | cons request requests rest =>
    intro mint
    rw [deeds, performAll_append, performAll_request, rest]
    rfl

theorem registered_performAll (deeds : List Deed) : ∀ mint : Mint σ τ,
    (mint.performAll deeds).registered = mint.registered ++ registrations deeds := by
  induction deeds with
  | nil =>
    intro mint
    exact (List.append_nil _).symm
  | cons deed deeds rest =>
    intro mint
    rw [performAll, List.foldl_cons, ← performAll, rest]
    cases deed with
    | issue label => exact congrArg (· ++ registrations deeds) (mint.issue_registered label)
    | register constraint => exact List.append_assoc ..
    | assignNode seed => rfl
    | ask member candidate => rfl

end Mint
end Mintmark
