import Mintmark.Proofs.Identifier.Writing
import Mintmark.Proofs.Program.Printing

/-!
How the program ends once it has its settings. The rules for arguments are those that its parts check
again, so none of these later checks can fail; what is left are stamps that cannot be printed and
attempts that are used up.
-/
namespace Mintmark

inductive Failure.Open (limit : Nat) : Failure → Prop
  | unprintable (error : PartsError) (labelled : error ≠ .emptyLabel) :
    Open limit (.mint (.parts error))
  | exhausted : Open limit (.exhausted limit)

namespace Program

section Reaching
variable {σ τ : Type} [Sequencer σ] [Clock τ]

theorem reaches_draw (label : String) (shard : Option Shard) (mint : Mint σ τ) :
    Mint.Reaches mint (draw label shard mint).2 := by
  cases shard with
  | none =>
    have same : (draw label none mint).2 = (mint.issue label).2 := by
      unfold draw
      rcases mint.issue label with ⟨_ | _ | _, _⟩ <;> rfl
    rw [same]
    exact (Mint.works_issue mint label).reaches
  | some shard =>
    have same : (draw label (some shard) mint).2 =
        (mint.select label [shard.toConstraint] true).2 := by
      unfold draw
      dsimp only
      rcases mint.select label [shard.toConstraint] true with ⟨_ | _ | _ | _, _⟩ <;> rfl
    rw [same]
    exact (Mint.works_attempt label _ _ mint).reaches

theorem reaches_drawAll (label : String) (shard : Option Shard) (count : Nat) :
    ∀ (drawn : List Identifier) (mint : Mint σ τ),
      Mint.Reaches mint (drawAll label shard count drawn mint).2 := by
  induction count with
  | zero =>
    intro drawn mint
    exact .refl mint
  | succ count rest =>
    intro drawn mint
    have reaches := reaches_draw label shard mint
    rw [drawAll]
    generalize draw label shard mint = done at reaches ⊢
    obtain ⟨_ | _ | identifier, after⟩ := done
    · exact reaches
    · exact reaches
    · exact reaches.trans (rest (identifier :: drawn) after)

end Reaching

variable {τ : Type} [Clock τ]

def unspent (settings : Settings) (processId : Nat) (clock : τ) : Mint GuardedSequencer τ :=
  mint settings processId ⟨{}, clock, []⟩

theorem reaches_spent (settings : Settings) (processId : Nat) (label : String) (count : Nat)
    (clock : τ) : Mint.Reaches (unspent settings processId clock)
      (spent settings processId label count clock) := by
  unfold spent
  dsimp only
  split
  · exact reaches_drawAll label _ count [] _
  · exact .refl _

theorem finishes_run {settings : Settings} {label : String} {count : Nat} (checked : settings.Checked)
    (job : settings.job = .issue label count) (processId : Nat) (clock : τ) :
    ∃ identifiers reached result,
      Serving label (.ofSeed (settings.nodeSeed.getD processId)) settings.attemptLimit reached ∧
      Tally (Target.fits settings.target) identifiers reached ∧
      Finishes label (.ofSeed (settings.nodeSeed.getD processId)) settings.attemptLimit
        (Target.fits settings.target) count identifiers reached result
        (spent settings processId label count clock) ∧
      run settings processId clock =
        result.map fun (drawn, failure) => { output := lines drawn.reverse, failure } := by
  obtain ⟨shard, aimed, same⟩ := shard_of_checked checked
  have start := serving_fresh settings processId clock label checked.attempts
  obtain ⟨identifiers, reached, serving, tally, -, ends⟩ :=
    finishes_drawAll (checked.label label count job) (Nat.pos_of_ne_zero checked.attempts) shard same
      count [] _ start ⟨rfl, rfl⟩
  rw [List.length_nil, Nat.zero_add, List.reverse_nil] at ends
  refine ⟨identifiers, reached,
    (drawAll label shard count [] (unspent settings processId clock)).1, serving, tally, ?_, ?_⟩
  · rw [spent, aimed]
    exact ends
  · rw [run, job]
    dsimp only
    rw [issue, aimed]
    rfl

theorem Finishes.open_ {label : String} {node : Node} {limit : Nat} {fits : Identifier → Bool}
    {count : Nat} {identifiers drawn : List Identifier} {reached last : Mint GuardedSequencer τ}
    {failure : Failure} (nonempty : label ≠ "")
    (finishes : Finishes label node limit fits count identifiers reached
      (.ok (drawn, some failure)) last) : failure.Open limit := by
  cases finishes with
  | failed _ _ _ draws =>
    cases draws with
    | refused _ rejected _ _ stamp error _ _ refused =>
      refine .unprintable error ?_
      rintro rfl
      cases (Identifier.ofParts_eq_iff _).1 refused.made with
      | unlabelled empty => exact nonempty empty
    | exhausted => exact .exhausted

/-- What the program makes of its settings while it issues identifiers, and what cannot happen then. -/
structure Keeps (settings : Settings) (label : String) (count : Nat) (processId : Nat) (clock : τ) :
    Prop where
  shard : ∃ shard, Program.shard settings.target = .ok shard ∧
    Option.Rel Target.Aims settings.target shard
  attempts : ∀ mint, Mint.Reaches (unspent settings processId clock) mint →
    mint.attemptLimit = settings.attemptLimit
  last : Mint.Reaches (unspent settings processId clock)
    (spent settings processId label count clock)
  targeted : ∀ outcome, run settings processId clock = .ok outcome →
    outcome.failure ≠ some .invalidTarget
  labelled : ∀ outcome, run settings processId clock = .ok outcome →
    outcome.failure ≠ some (.mint .emptyLabel)
  assigned : ∀ outcome, run settings processId clock = .ok outcome →
    outcome.failure ≠ some (.mint .uninitialized)
  fails : ∀ outcome failure, run settings processId clock = .ok outcome →
    outcome.failure = some failure → failure.Open settings.attemptLimit

theorem keeps_of_checked {settings : Settings} {label : String} {count : Nat}
    (checked : settings.Checked) (job : settings.job = .issue label count) (processId : Nat)
    (clock : τ) : Keeps settings label count processId clock := by
  obtain ⟨identifiers, reached, result, -, -, finishes, runs⟩ := finishes_run checked job processId clock
  have fails : ∀ outcome failure, run settings processId clock = .ok outcome →
      outcome.failure = some failure → failure.Open settings.attemptLimit := by
    intro outcome failure ended failed
    rw [runs] at ended
    cases result with
    | error cause => cases ended
    | ok done =>
      obtain ⟨drawn, last⟩ := done
      cases ended
      obtain rfl : last = some failure := failed
      exact finishes.open_ (checked.label label count job)
  refine ⟨exists_shard checked, ?_, reaches_spent settings processId label count clock, ?_, ?_, ?_, fails⟩
  · intro mint reaches
    rw [reaches.attemptLimit]
    exact (serving_fresh settings processId clock label checked.attempts).attempts
  · intro outcome ended failed
    cases fails outcome _ ended failed
  · intro outcome ended failed
    cases fails outcome _ ended failed
  · intro outcome ended failed
    cases fails outcome _ ended failed

/-- Arguments are settings if they keep all rules, and else refused for the first rule that they break.
Settings hold what the arguments say, and whatever is issued by them, the checks that come later have
nothing left to find. -/
theorem rules_suffice (arguments : Arguments) :
    ((∃ settings, Settings.ofArguments arguments = .ok settings) ↔ arguments.Valid) ∧
    (∀ error, Settings.ofArguments arguments = .error error ↔ arguments.Breaks error) ∧
    ∀ settings, Settings.ofArguments arguments = .ok settings →
      arguments.Settles settings ∧
        ∀ label count, settings.job = .issue label count →
          ∀ (processId : Nat) (clock : τ), Keeps settings label count processId clock := by
  refine ⟨?_, fun error => Settings.ofArguments_eq_error_iff, ?_⟩
  · constructor
    · rintro ⟨settings, accepted⟩
      exact (Settings.ofArguments_eq_ok_iff.1 accepted).1
    · intro valid
      obtain ⟨target, targeted⟩ := valid.target
      exact ⟨_, Settings.ofArguments_of_valid valid.attempts targeted valid.label⟩
  · intro settings accepted
    refine ⟨(Settings.ofArguments_eq_ok_iff.1 accepted).2, fun label count job processId clock => ?_⟩
    exact keeps_of_checked (Settings.checked_of_ofArguments accepted) job processId clock

theorem rules_suffice_oddPair :
    Settings.ofArguments ⟨some 7, 1, some 2, some 2, .issue "" 2⟩ = .error (.partitionOutside 2 2) ∧
      Settings.ofArguments ⟨some 7, 1, some 1, some 2, .issue "A" 2⟩ = .ok oddPair ∧
      Keeps oddPair "A" 2 0 sameReadings ∧
      (run oddPair 0 sameReadings).map (·.failure) = .ok (some (.exhausted 1)) := by
  have refused := (rules_suffice (τ := List Moment) ⟨some 7, 1, some 2, some 2, .issue "" 2⟩).2.1
  have accepted : Settings.ofArguments ⟨some 7, 1, some 1, some 2, .issue "A" 2⟩ = .ok oddPair := rfl
  refine ⟨(refused _).2 ?_, accepted, ?_, ?_⟩
  · exact .target (by decide) _ (.outside 2 2 rfl rfl (by decide) (by decide))
  · exact ((rules_suffice _).2.2 oddPair accepted).2 "A" 2 rfl 0 sameReadings
  · with_unfolding_all rfl

end Program
end Mintmark
