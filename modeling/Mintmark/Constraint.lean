import Mintmark.Identifier
import Mintmark.Identifier.Parts
import Mintmark.Partition

/-!
Constraints on the identifiers that may be handed out. Asked about a candidate, a constraint may
itself draw identifiers from the mint that asks it, and register further constraints there, before
it answers.
-/
namespace Mintmark

inductive MintError where
  | uninitialized
  | emptyLabel
  | lockPoisoned
  | parts (error : PartsError)
deriving DecidableEq, Repr

namespace MintError

def message : MintError → String
  | uninitialized => "generator used before a node was initialized"
  | emptyLabel => PartsError.emptyLabel.message
  | lockPoisoned => "lock poisoned"
  | parts error => error.message

end MintError

/-- How a constraint goes about one candidate: it may draw and register, and answers in the end. It
cannot look at the set of registered constraints, and cannot make a call that applies that set; such
a call is `Inquiry.selecting` with the list that the call finds there. -/
inductive Inquiry where
  | answer (accepted : Bool)
  | draw (label : String) (next : Except MintError Identifier → Inquiry)
  | register (constraint : Identifier → Inquiry) (next : Inquiry)

abbrev Constraint := Identifier → Inquiry

namespace Constraint

def ofPredicate (accepts : Identifier → Bool) : Constraint := fun candidate => .answer (accepts candidate)

def accept : Constraint := ofPredicate fun _ => true

def reject : Constraint := ofPredicate fun _ => false

def sequenceModulo (modulus residue : Nat) : Constraint :=
  ofPredicate fun candidate => candidate.sequence.toNat % modulus = residue

def sequenceFrom (least : Nat) : Constraint :=
  ofPredicate fun candidate => least ≤ candidate.sequence.toNat

def millisFrom (least : Int) : Constraint :=
  ofPredicate fun candidate => least ≤ candidate.instant.millis

def ofNode (number : Nat) : Constraint :=
  ofPredicate fun candidate => candidate.node.number = number

def ofLabel (label : String) : Constraint := ofPredicate fun candidate => candidate.label = label

def registering (constraint : Constraint) : Constraint :=
  fun _ => .register constraint (.answer true)

def drawing : Constraint :=
  fun candidate => .draw candidate.label fun drawn => .answer drawn.toBool

end Constraint

structure Shard where
  partition : Nat
  division : Division
  inside : partition < division.partitions
  key : Identifier → String

namespace Shard

/-- The whole text is the key unless another one is given; a partition that nothing can fall into is
refused. -/
def new? (partition : Nat) (division : Division)
    (key : Identifier → String := Identifier.text) : Option Shard :=
  if inside : partition < division.partitions then some ⟨partition, division, inside, key⟩
  else none

def partitionOf (constraint : Shard) (candidate : Identifier) : Nat :=
  constraint.division.partition (constraint.key candidate)

def accepts (constraint : Shard) (candidate : Identifier) : Bool :=
  constraint.partitionOf candidate = constraint.partition

def toConstraint (constraint : Shard) : Constraint :=
  .ofPredicate constraint.accepts

def description (constraint : Shard) : String :=
  s!"PartitionConstraint \x7b partition: {constraint.partition}, " ++
  s!"partitions: {constraint.division.partitions}, .. \x7d"

end Shard
end Mintmark
