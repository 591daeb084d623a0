import Mintmark.Proofs.Sequencer.Race

/-!
What the steps of a schedule say about answers: where a poll was answered, whose exchanges succeeded
in a stretch of the schedule, and that the word moved in it exactly if one did.
-/
namespace Mintmark.Race
variable {race middle next last : Race} {poll : Nat} {step : PollStep}
  {schedule : List (Nat × PollStep)}

theorem Steps.unanswered (steps : Steps race poll step next) (answer : Attempt) :
    race.phase poll ≠ .answered answer := by
  cases steps with
  | load idle => simp [idle]
  | wait word now wait loaded => simp [loaded]
  | propose word now stamp loaded => simp [loaded]
  | win stamp proposing => simp [proposing]
  | lose word stamp proposing => simp [proposing]

theorem Runs.at_step {before after : List (Nat × PollStep)}
    (runs : Runs race (before ++ (poll, step) :: after) last) :
    ∃ middle next, Runs race before middle ∧ Steps middle poll step next ∧ Runs next after last := by
  obtain ⟨middle, early, late⟩ := runs.split
  cases late with
  | cons taken rest => exact ⟨middle, _, early, steps_of_step taken, rest⟩

theorem Runs.unanswered (runs : Runs race schedule last) (member : (poll, step) ∈ schedule)
    (answer : Attempt) : race.phase poll ≠ .answered answer := by
  obtain ⟨before, after, rfl⟩ := List.append_of_mem member
  obtain ⟨middle, next, early, steps, -⟩ := runs.at_step
  intro answered
  exact steps.unanswered answer (early.answered answered)

theorem Runs.answered_of_exchange (runs : Runs race schedule last)
    (member : (poll, .exchange) ∈ schedule) : ∃ answer, last.phase poll = .answered answer := by
  obtain ⟨before, after, rfl⟩ := List.append_of_mem member
  obtain ⟨middle, next, -, steps, late⟩ := runs.at_step
  cases steps with
  | win stamp => exact ⟨_, late.answered (phase_settle ..)⟩
  | lose word stamp => exact ⟨_, late.answered (phase_settle ..)⟩

theorem Runs.phase_kept {rest : List (Nat × PollStep)} (runs : Runs race schedule middle)
    (member : (poll, .exchange) ∈ schedule) (late : Runs middle rest last) :
    last.phase poll = middle.phase poll := by
  obtain ⟨answer, answered⟩ := runs.answered_of_exchange member
  rw [answered, late.answered answered]

theorem Runs.first_step (runs : Runs race schedule last) (moved : last.phase poll ≠ race.phase poll) :
    ∃ before step after middle next, schedule = before ++ (poll, step) :: after ∧
      Runs race before middle ∧ middle.phase poll = race.phase poll ∧
      Steps middle poll step next ∧ Runs next after last := by
  induction runs with
  | refl race => exact absurd rfl moved
  | @cons race next last other step schedule taken rest ih =>
    have steps := steps_of_step taken
    by_cases same : poll = other
    · subst same
      exact ⟨[], step, schedule, race, next, rfl, .refl race, rfl, steps, rest⟩
    · have stays := steps.phase_other same
      rw [← stays] at moved
      obtain ⟨before, own, after, middle, reached, rfl, early, before_, ownSteps, late⟩ := ih moved
      exact ⟨(other, step) :: before, own, after, middle, reached, rfl, .cons taken early,
        before_.trans stays, ownSteps, late⟩

theorem Runs.load (runs : Runs race schedule last) (idle : race.phase poll = .idle) {answer : Attempt}
    (answered : last.phase poll = .answered answer) :
    ∃ before after middle, schedule = before ++ (poll, .load) :: after ∧ Runs race before middle ∧
      Runs (middle.enter poll (.loaded middle.word)) after last := by
  have moved : last.phase poll ≠ race.phase poll := by simp [idle, answered]
  obtain ⟨before, step, after, middle, next, split, early, stays, steps, late⟩ := runs.first_step moved
  rw [idle] at stays
  cases steps with
  | load => exact ⟨before, after, middle, split, early, late⟩
  | wait word now wait loaded => simp [loaded] at stays
  | propose word now stamp loaded => simp [loaded] at stays
  | win stamp proposing => simp [proposing] at stays
  | lose word stamp proposing => simp [proposing] at stays

theorem Runs.read (runs : Runs race schedule last) {word : WordSequencer}
    (loaded : race.phase poll = .loaded word) {answer : Attempt}
    (answered : last.phase poll = .answered answer) :
    ∃ before now after middle, schedule = before ++ (poll, .read now) :: after ∧
      Runs race before middle ∧
      ((∃ wait, word.proposal now = .retry wait ∧ answer = .retry wait) ∨
        ∃ stamp, word.proposal now = .issued stamp ∧
          Runs (middle.enter poll (.proposing word stamp)) after last) := by
  have moved : last.phase poll ≠ race.phase poll := by simp [loaded, answered]
  obtain ⟨before, step, after, middle, next, split, early, stays, steps, late⟩ := runs.first_step moved
  rw [loaded] at stays
  cases steps with
  | load idle => simp [idle] at stays
  | wait other now wait loaded proposed =>
    obtain rfl : other = word := by simpa [loaded] using stays
    have waits := late.answered (phase_settle middle poll (.retry wait) middle.word)
    obtain rfl : answer = .retry wait := by simpa [answered] using waits
    exact ⟨before, now, after, middle, split, early, .inl ⟨wait, proposed, rfl⟩⟩
  | propose other now stamp loaded proposed =>
    obtain rfl : other = word := by simpa [loaded] using stays
    exact ⟨before, now, after, middle, split, early, .inr ⟨stamp, proposed, late⟩⟩
  | win stamp proposing => simp [proposing] at stays
  | lose word stamp proposing => simp [proposing] at stays

theorem Runs.exchange (runs : Runs race schedule last) {word : WordSequencer} {stamp : Stamp}
    (proposing : race.phase poll = .proposing word stamp) {answer : Attempt}
    (answered : last.phase poll = .answered answer) :
    ∃ before after, schedule = before ++ (poll, .exchange) :: after := by
  have moved : last.phase poll ≠ race.phase poll := by simp [proposing, answered]
  obtain ⟨before, step, after, middle, next, split, early, stays, steps, late⟩ := runs.first_step moved
  rw [proposing] at stays
  cases steps with
  | load idle => simp [idle] at stays
  | wait word now wait loaded => simp [loaded] at stays
  | propose word now stamp loaded => simp [loaded] at stays
  | win => exact ⟨before, after, split⟩
  | lose => exact ⟨before, after, split⟩

def Follows (word : WordSequencer) : Phase → Prop
  | .idle => False
  | .loaded own => own = word
  | .proposing own _ => own = word
  | .answered _ => True

theorem Steps.follows {word : WordSequencer} {other : Nat} (steps : Steps race poll step next)
    (follows : Follows word (race.phase other)) : Follows word (next.phase other) := by
  by_cases same : other = poll
  · subst same
    cases steps with
    | load idle =>
      rw [idle] at follows
      exact follows.elim
    | wait own now wait loaded =>
      rw [phase_settle]
      trivial
    | propose own now stamp loaded =>
      rw [loaded] at follows
      rw [phase_enter]
      exact follows
    | win stamp proposing =>
      rw [phase_settle]
      trivial
    | lose own stamp proposing =>
      rw [phase_settle]
      trivial
  · rw [steps.phase_other same]
    exact follows

theorem Runs.follows {word : WordSequencer} (runs : Runs race schedule last)
    (follows : Follows word (race.phase poll)) : Follows word (last.phase poll) := by
  induction runs with
  | refl race => exact follows
  | cons taken _ rest => exact rest ((steps_of_step taken).follows follows)

theorem Grows.mem_stamps_iff {meanwhile : List (Nat × Attempt)}
    (grows : Grows race schedule last meanwhile) (runs : Runs race schedule last)
    (sound : Sound race) {stamp : Stamp} : stamp ∈ stamps meanwhile ↔
      ∃ poll, (poll, .exchange) ∈ schedule ∧ last.phase poll = .answered (.issued stamp) := by
  have soundLast := (runs.grows sound).1
  rw [mem_stamps]
  constructor
  · rintro ⟨poll, member⟩
    refine ⟨poll, grows.exchanged poll stamp member, ?_⟩
    rw [soundLast.listed, grows.answers]
    exact List.mem_append_right _ member
  · rintro ⟨poll, exchanged, issued⟩
    rw [soundLast.listed, grows.answers, List.mem_append, ← sound.listed] at issued
    exact ⟨poll, issued.resolve_left (runs.unanswered exchanged _)⟩

/-- The word moves over a stretch of a schedule exactly if an exchange in it succeeds: it never
comes back to what it was. -/
theorem Runs.word_ne_iff (runs : Runs race schedule last) (sound : Sound race) :
    last.word ≠ race.word ↔ ∃ poll stamp, (poll, .exchange) ∈ schedule ∧
      last.phase poll = .answered (.issued stamp) := by
  obtain ⟨-, meanwhile, grows⟩ := runs.grows sound
  rw [exists_comm]
  simp only [← grows.mem_stamps_iff runs sound]
  constructor
  · intro changed
    exact List.exists_mem_of_ne_nil _ fun none => changed (grows.kept none)
  · rintro ⟨stamp, member⟩ same
    obtain ⟨above, below⟩ := grows.above stamp member
    rw [same] at below
    exact Stamp.lt_irrefl _ (Stamp.lt_of_lt_of_le above below)

end Mintmark.Race
