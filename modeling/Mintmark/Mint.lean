import Mintmark.Constraint
import Mintmark.Sequencer

/-!
Mints issue identifiers: a source of stamps, the node they are stamped with, and the constraints
registered for every selection among candidates. A journal keeps what was issued and which
constraint was asked about what. Whoever reads a failing clock is abandoned, and the state reached
so far stays.
-/
namespace Mintmark

/-- A constraint by its place, among those registered or among those given with the call. -/
inductive Member where
  | registered (index : Nat)
  | given (index : Nat)
deriving DecidableEq, Repr

inductive Event where
  | minted (identifier : Identifier)
  | asked (member : Member) (candidate : Identifier)
deriving DecidableEq, Repr

def defaultAttemptLimit : Nat := 1000

structure Mint (σ τ : Type) where
  source : Source σ τ
  node : NodeCell := {}
  registered : List Constraint := []
  attemptLimit : Nat := defaultAttemptLimit
  /-- The latest event comes first. -/
  journal : List Event := []

namespace Mint
variable {σ τ : Type}

/-- A limit below one is raised to one. -/
def withAttemptLimit (mint : Mint σ τ) (attempts : Nat) : Mint σ τ :=
  { mint with attemptLimit := max 1 attempts }

def assignNode (mint : Mint σ τ) (seed : Nat) : Node × Mint σ τ :=
  let (node, cell) := mint.node.assign seed
  (node, { mint with node := cell })

def nodeInForce (mint : Mint σ τ) : Except MintError Node :=
  match mint.node.held with
  | some node => .ok node
  | none => .error .uninitialized

def register (mint : Mint σ τ) (constraint : Constraint) : Mint σ τ :=
  { mint with registered := mint.registered ++ [constraint] }

def registerAll (mint : Mint σ τ) (constraints : List Constraint) : Mint σ τ :=
  constraints.foldl register mint

def record (mint : Mint σ τ) (event : Event) : Mint σ τ :=
  { mint with journal := event :: mint.journal }

def minted (mint : Mint σ τ) : List Identifier :=
  mint.journal.reverse.filterMap fun
    | .minted identifier => some identifier
    | .asked _ _ => none

def askedOf (mint : Mint σ τ) (member : Member) : List Identifier :=
  mint.journal.reverse.filterMap fun
    | .asked who candidate => if who = member then some candidate else none
    | .minted _ => none

def registeredDescription (mint : Mint σ τ) : String :=
  s!"ConstraintSet \x7b len: {mint.registered.length}, .. \x7d"

variable [Sequencer σ] [Clock τ]

/-- Issues an identifier. An empty label and a missing node are found before the clock is read; a
stamp that cannot be printed is used up. -/
def issue (mint : Mint σ τ) (label : String) :
    Except ClockFault (Except MintError Identifier) × Mint σ τ :=
  if label.isEmpty then (.ok (.error .emptyLabel), mint)
  else
    match mint.node.held with
    | none => (.ok (.error .uninitialized), mint)
    | some node =>
      match mint.source.next with
      | (.error (.clock fault), source) => (.error fault, { mint with source })
      | (.error .poisoned, source) => (.ok (.error .lockPoisoned), { mint with source })
      | (.ok stamp, source) =>
        let drawn := { mint with source }
        match Identifier.ofParts label (.ofMillis stamp.millis) node stamp.sequence with
        | .error error => (.ok (.error (.parts error)), drawn)
        | .ok identifier => (.ok (.ok identifier), drawn.record (.minted identifier))

/-- Issues identifiers of one label. The latest result comes first; a fault does not keep the next
identifier from being issued. -/
def issueMany (label : String) : Nat →
    List (Except ClockFault (Except MintError Identifier)) → Mint σ τ →
    List (Except ClockFault (Except MintError Identifier)) × Mint σ τ
  | 0, results, mint => (results, mint)
  | times + 1, results, mint =>
    let (result, after) := mint.issue label
    issueMany label times (result :: results) after

end Mint
end Mintmark
