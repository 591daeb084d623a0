import Mathlib.Data.Option.Basic
import Mintmark.Settings

/-!
Which arguments are settings. The rules are checked one after another, and arguments that break some
of them are refused for the first one.
-/
namespace Mintmark
namespace Arguments

inductive Targeted (arguments : Arguments) : Option Target → Prop
  | nowhere (partition : arguments.partition = none) (partitions : arguments.partitions = none) :
    Targeted arguments none
  | inside (target : Target) (partition : arguments.partition = some target.partition)
    (partitions : arguments.partitions = some target.partitions)
    (inside : target.partition < target.partitions) : Targeted arguments (some target)

/-- Half a target, or a target that is none of its partitions. -/
inductive Mistargeted (arguments : Arguments) : SettingsError → Prop
  | alone (alone : arguments.partition.isSome ≠ arguments.partitions.isSome) :
    Mistargeted arguments .targetIncomplete
  | nothing (partition : arguments.partition.isSome) (none : arguments.partitions = some 0) :
    Mistargeted arguments .noPartitions
  | outside (partition partitions : Nat) (given : arguments.partition = some partition)
    (count : arguments.partitions = some partitions) (positive : 0 < partitions)
    (outside : partitions ≤ partition) : Mistargeted arguments (.partitionOutside partition partitions)

def Labelled (arguments : Arguments) : Prop :=
  ∀ label count, arguments.job = .issue label count → label ≠ ""

/-- The rules for arguments, in the order in which they are checked. -/
structure Valid (arguments : Arguments) : Prop where
  attempts : 1 ≤ arguments.attemptLimit
  target : ∃ target, arguments.Targeted target
  label : arguments.Labelled

/-- The first rule that arguments break: all before it are kept. -/
inductive Breaks (arguments : Arguments) : SettingsError → Prop
  | attempts (none : arguments.attemptLimit = 0) : Breaks arguments .noAttempts
  | target (attempts : 1 ≤ arguments.attemptLimit) (error : SettingsError)
    (mistargeted : arguments.Mistargeted error) : Breaks arguments error
  | label (attempts : 1 ≤ arguments.attemptLimit) (target : ∃ target, arguments.Targeted target)
    (count : Nat) (job : arguments.job = .issue "" count) : Breaks arguments .emptyLabel

structure Settles (arguments : Arguments) (settings : Settings) : Prop where
  nodeSeed : settings.nodeSeed = arguments.node
  attemptLimit : settings.attemptLimit = arguments.attemptLimit
  target : arguments.Targeted settings.target
  job : settings.job = arguments.job

end Arguments

namespace Settings
variable {arguments : Arguments}

theorem readTarget_of_targeted {target : Option Target} (targeted : arguments.Targeted target) :
    readTarget arguments.partition arguments.partitions = .ok target := by
  cases targeted with
  | nowhere partition partitions =>
    rw [partition, partitions]
    rfl
  | inside target partition partitions inside =>
    have positive : target.partitions ≠ 0 := Nat.ne_zero_of_lt inside
    simp [partition, partitions, readTarget, positive, Nat.not_le.2 inside]

theorem readTarget_of_mistargeted {error : SettingsError} (mistargeted : arguments.Mistargeted error) :
    readTarget arguments.partition arguments.partitions = .error error := by
  cases mistargeted with
  | alone alone =>
    cases given : arguments.partition with
    | none =>
      cases count : arguments.partitions with
      | none => simp [given, count] at alone
      | some partitions => rfl
    | some partition =>
      cases count : arguments.partitions with
      | none => rfl
      | some partitions => simp [given, count] at alone
  | nothing partition none =>
    obtain ⟨partition, given⟩ := Option.isSome_iff_exists.1 partition
    simp [given, none, readTarget]
  | outside partition partitions given count positive outside =>
    simp [given, count, readTarget, Nat.ne_of_gt positive, outside]

theorem targeted_or_mistargeted (arguments : Arguments) :
    (∃ target, arguments.Targeted target) ∨ ∃ error, arguments.Mistargeted error := by
  cases given : arguments.partition with
  | none =>
    cases count : arguments.partitions with
    | none => exact .inl ⟨none, .nowhere given count⟩
    | some partitions => exact .inr ⟨_, .alone (by simp [given, count])⟩
  | some partition =>
    cases count : arguments.partitions with
    | none => exact .inr ⟨_, .alone (by simp [given, count])⟩
    | some partitions =>
      rcases Nat.eq_zero_or_pos partitions with rfl | positive
      · exact .inr ⟨_, .nothing (by simp [given]) count⟩
      · rcases Nat.lt_or_ge partition partitions with inside | outside
        · exact .inl ⟨some ⟨partition, partitions⟩, .inside _ given count inside⟩
        · exact .inr ⟨_, .outside partition partitions given count positive outside⟩

theorem ofArguments_of_valid {target : Option Target} (attempts : 1 ≤ arguments.attemptLimit)
    (targeted : arguments.Targeted target) (labelled : arguments.Labelled) :
    ofArguments arguments =
      .ok ⟨arguments.node, arguments.attemptLimit, target, arguments.job⟩ := by
  have limit : arguments.attemptLimit ≠ 0 := Nat.ne_of_gt attempts
  cases job : arguments.job with
  | issue label count =>
    have nonempty : label.isEmpty = false := by simpa using labelled label count job
    rw [ofArguments, if_neg limit, readTarget_of_targeted targeted, job]
    dsimp only [bind, Except.bind]
    rw [nonempty]
    rfl
  | inspect text =>
    rw [ofArguments, if_neg limit, readTarget_of_targeted targeted, job]
    rfl

theorem ofArguments_of_breaks {error : SettingsError} (breaks : arguments.Breaks error) :
    ofArguments arguments = .error error := by
  cases breaks with
  | attempts none =>
    rw [ofArguments, if_pos none]
    rfl
  | target attempts _ mistargeted =>
    have limit : arguments.attemptLimit ≠ 0 := Nat.ne_of_gt attempts
    rw [ofArguments, if_neg limit, readTarget_of_mistargeted mistargeted]
    rfl
  | label attempts targeted count job =>
    have limit : arguments.attemptLimit ≠ 0 := Nat.ne_of_gt attempts
    obtain ⟨target, targeted⟩ := targeted
    rw [ofArguments, if_neg limit, readTarget_of_targeted targeted, job]
    rfl

theorem valid_or_breaks (arguments : Arguments) :
    arguments.Valid ∨ ∃ error, arguments.Breaks error := by
  rcases Nat.eq_zero_or_pos arguments.attemptLimit with none | attempts
  · exact .inr ⟨_, .attempts none⟩
  rcases targeted_or_mistargeted arguments with targeted | ⟨error, mistargeted⟩
  · by_cases labelled : arguments.Labelled
    · exact .inl ⟨attempts, targeted, labelled⟩
    · simp only [Arguments.Labelled, not_forall, not_not] at labelled
      obtain ⟨label, count, job, rfl⟩ := labelled
      exact .inr ⟨_, .label attempts targeted count job⟩
  · exact .inr ⟨error, .target attempts error mistargeted⟩

theorem ofArguments_eq_ok_iff {settings : Settings} : ofArguments arguments = .ok settings ↔
    arguments.Valid ∧ arguments.Settles settings := by
  constructor
  · intro accepted
    rcases valid_or_breaks arguments with valid | ⟨error, breaks⟩
    · obtain ⟨target, targeted⟩ := valid.target
      rw [ofArguments_of_valid valid.attempts targeted valid.label] at accepted
      cases accepted
      exact ⟨valid, rfl, rfl, targeted, rfl⟩
    · rw [ofArguments_of_breaks breaks] at accepted
      cases accepted
  · rintro ⟨valid, nodeSeed, attemptLimit, targeted, job⟩
    rw [ofArguments_of_valid valid.attempts targeted valid.label, ← nodeSeed, ← attemptLimit, ← job]

theorem ofArguments_eq_error_iff {error : SettingsError} : ofArguments arguments = .error error ↔
    arguments.Breaks error := by
  refine ⟨fun refused => ?_, ofArguments_of_breaks⟩
  rcases valid_or_breaks arguments with valid | ⟨first, breaks⟩
  · obtain ⟨target, targeted⟩ := valid.target
    rw [ofArguments_of_valid valid.attempts targeted valid.label] at refused
    cases refused
  · rw [ofArguments_of_breaks breaks] at refused
    cases refused
    exact breaks

end Settings
end Mintmark
