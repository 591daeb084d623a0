import Mintmark.CommandLine.Arguments

/-!
Settings: arguments that agree with each other.
-/
namespace Mintmark

inductive SettingsError where
  | noAttempts
  | targetIncomplete
  | noPartitions
  | partitionOutside (partition partitions : Nat)
  | emptyLabel
deriving DecidableEq, Repr

namespace SettingsError

def message : SettingsError → String
  | noAttempts => "STAMPID_MAX_ATTEMPTS must be greater than 0"
  | targetIncomplete => "STAMPID_PARTITION and STAMPID_PARTITIONS must be set together"
  | noPartitions => "STAMPID_PARTITIONS must be greater than 0"
  | partitionOutside partition partitions =>
    s!"STAMPID_PARTITION ({partition}) must be below STAMPID_PARTITIONS ({partitions})"
  | emptyLabel => "STAMPID_PREFIX must not be empty"

end SettingsError

structure Target where
  partition : Nat
  partitions : Nat
deriving DecidableEq, Repr

structure Settings where
  /-- The process id stands in where no seed is given. -/
  nodeSeed : Option Nat
  attemptLimit : Nat
  target : Option Target
  job : Job
deriving DecidableEq, Repr

namespace Settings

def readTarget : Option Nat → Option Nat → Except SettingsError (Option Target)
  | none, none => .ok none
  | some partition, some partitions =>
    if partitions = 0 then .error .noPartitions
    else if partitions ≤ partition then .error (.partitionOutside partition partitions)
    else .ok (some ⟨partition, partitions⟩)
  | _, _ => .error .targetIncomplete

def ofArguments (arguments : Arguments) : Except SettingsError Settings := do
  if arguments.attemptLimit = 0 then throw .noAttempts
  let target ← readTarget arguments.partition arguments.partitions
  match arguments.job with
  | .issue label _ => if label.isEmpty then throw .emptyLabel
  | .inspect _ => pure ()
  pure
    { nodeSeed := arguments.node
      attemptLimit := arguments.attemptLimit
      target
      job := arguments.job }

end Settings
end Mintmark
