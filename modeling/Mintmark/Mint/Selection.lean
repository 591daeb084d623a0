import Mintmark.Mint

/-!
Selection: candidates are issued until one is accepted by every constraint or the attempts are used
up. The constraints are those registered when the selection began and then those given with it; the
first that rejects a candidate is the last that is asked about it.
-/
namespace Mintmark.Mint
variable {σ τ : Type} [Sequencer σ] [Clock τ]

def inquire : Inquiry → Mint σ τ → Except ClockFault Bool × Mint σ τ
  | .answer accepted, mint => (.ok accepted, mint)
  | .draw label next, mint =>
    match mint.issue label with
    | (.error fault, after) => (.error fault, after)
    | (.ok result, after) => inquire (next result) after
  | .register constraint next, mint => inquire next (mint.register constraint)

def ask (mint : Mint σ τ) (candidate : Identifier) (member : Member × Constraint) :
    Except ClockFault Bool × Mint σ τ :=
  inquire (member.2 candidate) (mint.record (.asked member.1 candidate))

def acceptedByAll (candidate : Identifier) : List (Member × Constraint) → Mint σ τ →
    Except ClockFault Bool × Mint σ τ
  | [], mint => (.ok true, mint)
  | member :: members, mint =>
    match mint.ask candidate member with
    | (.ok true, after) => acceptedByAll candidate members after
    | (result, after) => (result, after)

/-- Makes at most so many attempts at a candidate that all members accept. -/
def attempt (label : String) (members : List (Member × Constraint)) : Nat → Mint σ τ →
    Except ClockFault (Except MintError (Option Identifier)) × Mint σ τ
  | 0, mint => (.ok (.ok none), mint)
  | attempts + 1, mint =>
    match mint.issue label with
    | (.error fault, after) => (.error fault, after)
    | (.ok (.error error), after) => (.ok (.error error), after)
    | (.ok (.ok candidate), drawn) =>
      match acceptedByAll candidate members drawn with
      | (.error fault, after) => (.error fault, after)
      | (.ok true, after) => (.ok (.ok (some candidate)), after)
      | (.ok false, after) => attempt label members attempts after

def numbered (member : Nat → Member) (constraints : List Constraint) : List (Member × Constraint) :=
  constraints.zipIdx.map fun (constraint, index) => (member index, constraint)

def members (mint : Mint σ τ) (given : List Constraint) (applyRegistered : Bool) :
    List (Member × Constraint) :=
  (if applyRegistered then numbered .registered mint.registered else []) ++
    numbered .given given

def select (mint : Mint σ τ) (label : String) (given : List Constraint)
    (applyRegistered : Bool) :
    Except ClockFault (Except MintError (Option Identifier)) × Mint σ τ :=
  attempt label (mint.members given applyRegistered) mint.attemptLimit mint

/-- Asks every member, whatever the others answer. -/
def askAll (candidate : Identifier) : List (Member × Constraint) → Mint σ τ →
    Except ClockFault (List Bool) × Mint σ τ
  | [], mint => (.ok [], mint)
  | member :: members, mint =>
    match mint.ask candidate member with
    | (.error fault, after) => (.error fault, after)
    | (.ok accepted, after) =>
      match askAll candidate members after with
      | (.error fault, final) => (.error fault, final)
      | (.ok others, final) => (.ok (accepted :: others), final)

def verdicts (mint : Mint σ τ) (candidate : Identifier) :
    Except ClockFault (List Bool) × Mint σ τ :=
  askAll candidate (numbered .registered mint.registered) mint

end Mintmark.Mint
