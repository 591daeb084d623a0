import Mathlib.Logic.Function.Basic
import Mintmark.Proofs.Sequencer.Holding

/-!
Polls of one word that are under way at the same time. A poll loads the word, reads the clock and
exchanges the word; the steps of any number of polls come in any order. Whatever the order, the word
moves by exchanges that succeed and moves up, so a word that has changed never comes back.
-/
namespace Mintmark

inductive Phase where
  | idle
  | loaded (word : WordSequencer)
  | proposing (word : WordSequencer) (stamp : Stamp)
  | answered (answer : Attempt)
deriving DecidableEq, Repr

inductive PollStep where
  | load
  | read (now : UInt64)
  | exchange
deriving DecidableEq, Repr

/-- The word, how far each poll has come, and the answers in the order they were given. -/
structure Race where
  word : WordSequencer
  phase : Nat → Phase := fun _ => .idle
  answers : List (Nat × Attempt) := []

namespace Race

def enter (race : Race) (poll : Nat) (phase : Phase) : Race :=
  { race with phase := Function.update race.phase poll phase }

def settle (race : Race) (poll : Nat) (answer : Attempt) (word : WordSequencer) : Race :=
  { word, phase := Function.update race.phase poll (.answered answer)
    answers := race.answers ++ [(poll, answer)] }

def step (race : Race) (poll : Nat) : PollStep → Option Race
  | .load =>
    match race.phase poll with
    | .idle => some (race.enter poll (.loaded race.word))
    | _ => none
  | .read now =>
    match race.phase poll with
    | .loaded word =>
      match word.proposal now with
      | .retry wait => some (race.settle poll (.retry wait) race.word)
      | .issued stamp => some (race.enter poll (.proposing word stamp))
    | _ => none
  | .exchange =>
    match race.phase poll with
    | .proposing word stamp =>
      let (answer, after) := word.exchange race.word stamp
      some (race.settle poll answer after)
    | _ => none

/-- What a step can do: a poll waits, or proposes the successor of the word it loaded, and wins if it
finds that word again. -/
inductive Steps (race : Race) (poll : Nat) : PollStep → Race → Prop
  | load (idle : race.phase poll = .idle) :
    Steps race poll .load (race.enter poll (.loaded race.word))
  | wait (word : WordSequencer) (now wait : UInt64) (loaded : race.phase poll = .loaded word)
    (proposed : word.proposal now = .retry wait) :
    Steps race poll (.read now) (race.settle poll (.retry wait) race.word)
  | propose (word : WordSequencer) (now : UInt64) (stamp : Stamp)
    (loaded : race.phase poll = .loaded word) (proposed : word.proposal now = .issued stamp) :
    Steps race poll (.read now) (race.enter poll (.proposing word stamp))
  | win (stamp : Stamp) (proposing : race.phase poll = .proposing race.word stamp) :
    Steps race poll .exchange (race.settle poll (.issued stamp) ⟨stamp.toWord⟩)
  | lose (word : WordSequencer) (stamp : Stamp) (proposing : race.phase poll = .proposing word stamp)
    (changed : race.word ≠ word) :
    Steps race poll .exchange (race.settle poll (.retry 0) race.word)

theorem steps_of_step {race next : Race} {poll : Nat} {step : PollStep}
    (taken : race.step poll step = some next) : Steps race poll step next := by
  cases step with
  | load =>
    simp only [Race.step] at taken
    split at taken
    · rename_i idle
      cases taken
      exact .load idle
    · cases taken
  | read now =>
    simp only [Race.step] at taken
    split at taken
    · rename_i word loaded
      split at taken
      · rename_i wait proposed
        cases taken
        exact .wait word now wait loaded proposed
      · rename_i stamp proposed
        cases taken
        exact .propose word now stamp loaded proposed
    · cases taken
  | exchange =>
    simp only [Race.step] at taken
    split at taken
    · rename_i word stamp proposing
      unfold WordSequencer.exchange at taken
      split at taken
      · rename_i same
        subst same
        cases taken
        exact .win stamp proposing
      · rename_i changed
        cases taken
        exact .lose word stamp proposing changed
    · cases taken

/-- Steps of polls, one after another, from one state to another. -/
inductive Runs : Race → List (Nat × PollStep) → Race → Prop
  | refl (race : Race) : Runs race [] race
  | cons {race next last : Race} {poll : Nat} {step : PollStep} {schedule : List (Nat × PollStep)}
    (taken : race.step poll step = some next) (rest : Runs next schedule last) :
    Runs race ((poll, step) :: schedule) last

theorem Runs.append {first second third : Race} {before after : List (Nat × PollStep)}
    (early : Runs first before second) (late : Runs second after third) :
    Runs first (before ++ after) third := by
  induction early with
  | refl race => exact late
  | cons taken _ rest => exact .cons taken (rest late)

theorem Runs.split {before after : List (Nat × PollStep)} {first last : Race}
    (runs : Runs first (before ++ after) last) :
    ∃ middle, Runs first before middle ∧ Runs middle after last := by
  induction before generalizing first with
  | nil => exact ⟨first, .refl first, runs⟩
  | cons head before rest =>
    cases runs with
    | cons taken runs =>
      obtain ⟨middle, early, late⟩ := rest runs
      exact ⟨middle, .cons taken early, late⟩

variable {race next last : Race} {poll other : Nat} {step : PollStep}

@[simp] theorem phase_enter (race : Race) (poll : Nat) (phase : Phase) :
    (race.enter poll phase).phase poll = phase := Function.update_self ..

@[simp] theorem phase_settle (race : Race) (poll : Nat) (answer : Attempt) (word : WordSequencer) :
    (race.settle poll answer word).phase poll = .answered answer := Function.update_self ..

theorem phase_enter_other (different : other ≠ poll) (phase : Phase) :
    (race.enter poll phase).phase other = race.phase other := Function.update_of_ne different ..

theorem phase_settle_other (different : other ≠ poll) (answer : Attempt) (word : WordSequencer) :
    (race.settle poll answer word).phase other = race.phase other := Function.update_of_ne different ..

theorem Steps.phase_other (steps : Steps race poll step next) (different : other ≠ poll) :
    next.phase other = race.phase other := by
  cases steps with
  | load idle => exact phase_enter_other different _
  | wait word now wait loaded => exact phase_settle_other different _ _
  | propose word now stamp loaded proposed => exact phase_enter_other different _
  | win stamp proposing => exact phase_settle_other different _ _
  | lose word stamp proposing => exact phase_settle_other different _ _

theorem Steps.answered (steps : Steps race poll step next) {answer : Attempt}
    (answered : race.phase other = .answered answer) : next.phase other = .answered answer := by
  by_cases same : other = poll
  · subst same
    cases steps with
    | load idle => simp [idle] at answered
    | wait word now wait loaded => simp [loaded] at answered
    | propose word now stamp loaded => simp [loaded] at answered
    | win stamp proposing => simp [proposing] at answered
    | lose word stamp proposing => simp [proposing] at answered
  · rw [steps.phase_other same, answered]

theorem Runs.answered {schedule : List (Nat × PollStep)} (runs : Runs race schedule last)
    {answer : Attempt} (answered : race.phase other = .answered answer) :
    last.phase other = .answered answer := by
  induction runs with
  | refl race => exact answered
  | cons taken _ rest => exact rest ((steps_of_step taken).answered answered)

/-- What holds of every race: proposals follow what was loaded, and every answer is recorded. -/
structure Sound (race : Race) : Prop where
  proposed : ∀ poll word stamp, race.phase poll = .proposing word stamp →
    ∃ now, word.proposal now = .issued stamp
  listed : ∀ poll answer, race.phase poll = .answered answer ↔ (poll, answer) ∈ race.answers

theorem sound_start (word : WordSequencer) : Sound { word } where
  proposed _ _ _ phase := nomatch phase
  listed _ _ := by
    constructor
    · intro phase
      cases phase
    · intro member
      cases member

theorem Sound.enter (sound : Sound race) {phase : Phase}
    (before : ∀ answer, race.phase poll ≠ .answered answer) (after : ∀ answer, phase ≠ .answered answer)
    (proposed : ∀ word stamp, phase = .proposing word stamp → ∃ now, word.proposal now = .issued stamp) :
    Sound (race.enter poll phase) where
  proposed other word stamp entered := by
    by_cases same : other = poll
    · subst same
      rw [phase_enter] at entered
      exact proposed word stamp entered
    · rw [phase_enter_other same] at entered
      exact sound.proposed other word stamp entered
  listed other answer := by
    have kept : (race.enter poll phase).answers = race.answers := rfl
    rw [kept, ← sound.listed]
    by_cases same : other = poll
    · subst same
      simp only [phase_enter, after, before]
    · rw [phase_enter_other same]

theorem Sound.settle (sound : Sound race) (before : ∀ answer, race.phase poll ≠ .answered answer)
    (answer : Attempt) (word : WordSequencer) : Sound (race.settle poll answer word) where
  proposed other loaded stamp proposing := by
    by_cases same : other = poll
    · subst same
      rw [phase_settle] at proposing
      cases proposing
    · rw [phase_settle_other same] at proposing
      exact sound.proposed other loaded stamp proposing
  listed other given := by
    have appended : (race.settle poll answer word).answers = race.answers ++ [(poll, answer)] := rfl
    rw [appended, List.mem_append, List.mem_singleton, Prod.mk.injEq, ← sound.listed]
    by_cases same : other = poll
    · subst same
      simp [before, eq_comm]
    · simp [phase_settle_other same, same]

theorem Steps.sound (steps : Steps race poll step next) (sound : Sound race) : Sound next := by
  cases steps with
  | load idle => exact sound.enter (by simp [idle]) (by simp) (by simp)
  | wait word now wait loaded => exact sound.settle (by simp [loaded]) _ _
  | propose word now stamp loaded proposed =>
    refine sound.enter (by simp [loaded]) (by simp) ?_
    rintro _ _ ⟨⟩
    exact ⟨now, proposed⟩
  | win stamp proposing => exact sound.settle (by simp [proposing]) _ _
  | lose word stamp proposing => exact sound.settle (by simp [proposing]) _ _

def stamps (answers : List (Nat × Attempt)) : List Stamp :=
  answers.filterMap fun (_, answer) =>
    match answer with
    | .issued stamp => some stamp
    | .retry _ => none

theorem mem_stamps {answers : List (Nat × Attempt)} {stamp : Stamp} :
    stamp ∈ stamps answers ↔ ∃ poll, (poll, .issued stamp) ∈ answers := by
  simp only [stamps, List.mem_filterMap, Prod.exists]
  constructor
  · rintro ⟨poll, answer, member, found⟩
    cases answer with
    | issued other =>
      cases found
      exact ⟨poll, member⟩
    | retry wait => cases found
  · rintro ⟨poll, member⟩
    exact ⟨poll, _, member, rfl⟩

theorem stamps_append (before after : List (Nat × Attempt)) :
    stamps (before ++ after) = stamps before ++ stamps after := List.filterMap_append

/-- From one state to a later one: the stamps issued meanwhile lie above what was held before, and
only they move what is held. -/
structure Grows (race : Race) (schedule : List (Nat × PollStep)) (last : Race)
    (meanwhile : List (Nat × Attempt)) : Prop where
  answers : last.answers = race.answers ++ meanwhile
  exchanged : ∀ poll stamp, (poll, .issued stamp) ∈ meanwhile → (poll, .exchange) ∈ schedule
  above : ∀ stamp ∈ stamps meanwhile, race.word.held < stamp ∧ stamp ≤ last.word.held
  kept : stamps meanwhile = [] → last.word = race.word

theorem Grows.le {schedule : List (Nat × PollStep)} {meanwhile : List (Nat × Attempt)}
    (grows : Grows race schedule last meanwhile) : race.word.held ≤ last.word.held := by
  cases issued : stamps meanwhile with
  | nil => exact Stamp.le_of_eq (congrArg WordSequencer.held (grows.kept issued).symm)
  | cons stamp others =>
    obtain ⟨above, below⟩ := grows.above stamp (by simp [issued])
    exact Stamp.le_of_lt (Stamp.lt_of_lt_of_le above below)

theorem Grows.trans {middle : Race} {first second : List (Nat × PollStep)}
    {early late : List (Nat × Attempt)} (before : Grows race first middle early)
    (after : Grows middle second last late) : Grows race (first ++ second) last (early ++ late) where
  answers := by rw [after.answers, before.answers, List.append_assoc]
  exchanged poll stamp member := by
    rcases List.mem_append.1 member with member | member
    · exact List.mem_append_left _ (before.exchanged poll stamp member)
    · exact List.mem_append_right _ (after.exchanged poll stamp member)
  above stamp member := by
    rw [stamps_append, List.mem_append] at member
    rcases member with member | member
    · obtain ⟨above, below⟩ := before.above stamp member
      exact ⟨above, Stamp.le_trans below after.le⟩
    · obtain ⟨above, below⟩ := after.above stamp member
      exact ⟨Stamp.lt_of_le_of_lt before.le above, below⟩
  kept none := by
    rw [stamps_append, List.append_eq_nil_iff] at none
    rw [after.kept none.2, before.kept none.1]

theorem Grows.quiet {schedule : List (Nat × PollStep)} {answers meanwhile : List (Nat × Attempt)}
    {phase : Nat → Phase} (appended : answers = race.answers ++ meanwhile)
    (none : stamps meanwhile = []) : Grows race schedule ⟨race.word, phase, answers⟩ meanwhile where
  answers := appended
  exchanged poll stamp member := by
    have issued := mem_stamps.2 ⟨poll, member⟩
    rw [none] at issued
    cases issued
  above := by simp [none]
  kept _ := rfl

theorem Steps.grows (steps : Steps race poll step next) (sound : Sound race) :
    ∃ meanwhile, Grows race [(poll, step)] next meanwhile := by
  cases steps with
  | load idle => exact ⟨[], .quiet (List.append_nil _).symm rfl⟩
  | wait word now wait loaded => exact ⟨[(poll, .retry wait)], .quiet rfl rfl⟩
  | propose word now stamp loaded proposed => exact ⟨[], .quiet (List.append_nil _).symm rfl⟩
  | lose word stamp proposing => exact ⟨[(poll, .retry 0)], .quiet rfl rfl⟩
  | win stamp proposing =>
    obtain ⟨now, proposed⟩ := sound.proposed poll race.word stamp proposing
    have above : race.word.held < stamp := (Stamp.successor_issued proposed).1
    have holds := WordSequencer.held_of_proposal proposed
    refine ⟨[(poll, .issued stamp)], rfl, ?_, ?_, fun none => nomatch none⟩
    · intro other issued member
      cases List.mem_singleton.1 member
      exact List.mem_singleton_self _
    · intro other member
      rw [List.mem_singleton.1 member]
      have after : (race.settle poll (.issued stamp) ⟨stamp.toWord⟩).word.held = stamp := holds
      exact ⟨above, Stamp.le_of_eq after.symm⟩

theorem Runs.grows {schedule : List (Nat × PollStep)} (runs : Runs race schedule last)
    (sound : Sound race) : Sound last ∧ ∃ meanwhile, Grows race schedule last meanwhile := by
  induction runs with
  | refl race => exact ⟨sound, [], .quiet (List.append_nil _).symm rfl⟩
  | cons taken _ rest =>
    have steps := steps_of_step taken
    obtain ⟨early, before⟩ := steps.grows sound
    obtain ⟨soundLast, late, after⟩ := rest (steps.sound sound)
    exact ⟨soundLast, early ++ late, before.trans after⟩

end Race
end Mintmark
