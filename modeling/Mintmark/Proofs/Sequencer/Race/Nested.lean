import Mintmark.Proofs.Sequencer.Race
import Mintmark.Proofs.Sequencer.Source

/-!
Polls inside a reading of the clock as steps of a race: a poll, with everything that runs to its end
while it reads the clock, is one of the schedules of a race.
-/
namespace Mintmark
namespace Race

theorem settle_enter (race : Race) (poll : Nat) (phase : Phase) (answer : Attempt)
    (word : WordSequencer) : (race.enter poll phase).settle poll answer word =
      race.settle poll answer word := by
  simp only [settle, enter, Function.update_idem]

theorem runs_settle {race : Race} {poll : Nat} {loaded : WordSequencer}
    (phase : race.phase poll = .loaded loaded) (now : UInt64) :
    ∃ schedule, Runs race schedule (race.settle poll (loaded.settle race.word now).1
      (loaded.settle race.word now).2) := by
  cases proposed : loaded.proposal now with
  | retry wait =>
    have read : race.step poll (.read now) = some (race.settle poll (.retry wait) race.word) := by
      simp only [step, phase, proposed]
    rw [WordSequencer.settle_of_retry proposed]
    exact ⟨_, .cons read (.refl _)⟩
  | issued stamp =>
    have read : race.step poll (.read now) = some (race.enter poll (.proposing loaded stamp)) := by
      simp only [step, phase, proposed]
    have exchange : (race.enter poll (.proposing loaded stamp)).step poll .exchange =
        some (race.settle poll (loaded.exchange race.word stamp).1
          (loaded.exchange race.word stamp).2) := by
      simp only [step, phase_enter, settle_enter]
      rfl
    rw [WordSequencer.settle_of_issued proposed]
    exact ⟨_, .cons read (.cons exchange (.refl _))⟩

def given (race : Race) : List Attempt := race.answers.map Prod.snd

theorem given_settle (race : Race) (poll : Nat) (answer : Attempt) (word : WordSequencer) :
    (race.settle poll answer word).given = race.given ++ [answer] := by
  simp [given, settle]

/-- The polls inside a reading are a schedule of polls that had not begun before. -/
theorem runs_overlap (moment : Moment) : ∀ (race : Race) (least : Nat),
    (∀ poll, least ≤ poll → race.phase poll = .idle) →
    ∃ schedule last most, Runs race schedule last ∧
      last.word = (WordSequencer.overlap race.word moment).1 ∧
      last.given = race.given ++ (WordSequencer.overlap race.word moment).2 ∧
      (∀ poll, poll < least → last.phase poll = race.phase poll) ∧
      ∀ poll, most ≤ poll → last.phase poll = .idle := by
  induction moment with
  | reading now =>
    intro race least fresh
    exact ⟨[], race, least, .refl race, rfl, (List.append_nil _).symm, fun _ _ => rfl, fresh⟩
  | fault cause =>
    intro race least fresh
    exact ⟨[], race, least, .refl race, rfl, (List.append_nil _).symm, fun _ _ => rfl, fresh⟩
  | during inner rest innerRuns restRuns =>
    intro race least fresh
    -- The inner poll takes the first free place, and what is nested in it the places after that.
    have load : race.step least .load = some (race.enter least (.loaded race.word)) := by
      simp only [step, fresh least (Nat.le_refl _)]
    have later : ∀ poll, least + 1 ≤ poll →
        (race.enter least (.loaded race.word)).phase poll = .idle := by
      intro poll beyond
      rw [phase_enter_other (by omega), fresh poll (by omega)]
    obtain ⟨nested, reached, most, runs, word, answers, kept, open_⟩ := innerRuns _ _ later
    have below : ∀ poll, poll < least → reached.phase poll = race.phase poll := by
      intro poll before
      rw [kept poll (by omega), phase_enter_other (by omega)]
    have begun : (race.enter least (.loaded race.word)).word = race.word := rfl
    rw [begun] at word answers
    unfold WordSequencer.overlap
    cases outcome : inner.outcome with
    | error cause => exact ⟨_, reached, most, .cons load runs, word, answers, below, open_⟩
    | ok now =>
      have waiting : reached.phase least = .loaded race.word := by
        rw [kept least (by omega), phase_enter]
      obtain ⟨own, settles⟩ := runs_settle waiting now
      rw [word] at settles
      generalize settled : race.word.settle (WordSequencer.overlap race.word inner).1 now = ends at settles
      obtain ⟨answer, next⟩ := ends
      have freshAgain : ∀ poll, max most (least + 1) ≤ poll →
          (reached.settle least answer next).phase poll = .idle := by
        intro poll beyond
        rw [phase_settle_other (by omega), open_ poll (by omega)]
      obtain ⟨after, last, bound, restRun, restWord, restAnswers, restKept, restOpen⟩ :=
        restRuns _ _ freshAgain
      have begun : (reached.settle least answer next).word = next := rfl
      rw [begun] at restWord restAnswers
      refine ⟨_, last, bound, (Runs.cons load runs).append (settles.append restRun), ?_, ?_, ?_, restOpen⟩
      · simp only [settled]
        exact restWord
      · simp only [settled]
        rw [restAnswers, given_settle, answers, List.append_assoc, List.append_assoc,
          List.singleton_append]
        rfl
      · intro poll before
        rw [restKept poll (by omega), phase_settle_other (by omega), below poll before]

end Race

namespace Source
open Race
variable {τ : Type} [Clock τ]

/-- A poll of a source is a schedule of a race: it leaves the word and gives the answers that the
race does. -/
theorem runs_poll (source : Source WordSequencer τ) : ∃ schedule race inside,
    Runs { word := source.sequencer } schedule race ∧ race.word = source.poll.2.sequencer ∧
      source.poll.2.overlapped = source.overlapped ++ inside ∧
      race.given = inside ++ source.poll.1.toOption.toList ∧
      ∀ answer, source.poll.1 = .ok answer → race.phase 0 = .answered answer := by
  have load : Race.step { word := source.sequencer } 0 .load =
      some (enter { word := source.sequencer } 0 (.loaded source.sequencer)) := rfl
  have later : ∀ poll, 1 ≤ poll →
      (enter { word := source.sequencer } 0 (.loaded source.sequencer)).phase poll = .idle := by
    intro poll beyond
    rw [phase_enter_other (by omega)]
  obtain ⟨nested, reached, -, runs, word, answers, kept, -⟩ :=
    runs_overlap (Clock.read source.clock).1 _ _ later
  have begun := Runs.cons load runs
  have reads : source.read = ((Clock.read source.clock).1.outcome,
      ⟨(WordSequencer.overlap source.sequencer (Clock.read source.clock).1).1,
        (Clock.read source.clock).2, source.overlapped ++
          (WordSequencer.overlap source.sequencer (Clock.read source.clock).1).2⟩) := rfl
  cases outcome : (Clock.read source.clock).1.outcome with
  | error fault =>
    rw [outcome] at reads
    have polled : source.poll = (.error (.clock fault), source.read.2) := by
      simp only [poll, reads]
      rfl
    rw [polled, reads]
    refine ⟨_, reached, _, begun, word, rfl, ?_, fun _ answered => nomatch answered⟩
    rw [answers]
    exact (List.append_nil _).symm
  | ok now =>
    rw [outcome] at reads
    have waiting : reached.phase 0 = .loaded source.sequencer := by
      rw [kept 0 (by omega), phase_enter]
    obtain ⟨own, settles⟩ := runs_settle waiting now
    have polled : source.poll = (.ok (source.sequencer.settle reached.word now).1,
        { source.read.2 with sequencer := (source.sequencer.settle reached.word now).2 }) := by
      rw [word]
      simp only [poll, reads]
      rfl
    rw [polled, reads]
    refine ⟨_, _, _, begun.append settles, rfl, rfl, ?_, ?_⟩
    · rw [given_settle, answers]
      rfl
    · rintro answer ⟨⟩
      exact phase_settle ..

end Source
end Mintmark
