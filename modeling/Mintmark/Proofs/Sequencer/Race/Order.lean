import Mintmark.Proofs.Sequencer.Race.History
import Mintmark.Proofs.Sequencer.Race.Nested

/-!
Polls that race for one word. However their steps are mixed, stamps are issued in increasing order,
and a poll loses exactly if another one won after it had loaded the word.
-/
namespace Mintmark.Race
variable {race last : Race} {schedule : List (Nat × PollStep)}

/-- The poll came to its exchange after another poll had exchanged the word that it had loaded. -/
def Overtaken (schedule : List (Nat × PollStep)) (race : Race) (poll : Nat) : Prop :=
  ∃ before between after,
    schedule = before ++ (poll, .load) :: (between ++ (poll, .exchange) :: after) ∧
      ∃ other stamp, other ≠ poll ∧ (other, .exchange) ∈ between ∧
        race.phase other = .answered (.issued stamp)

theorem Runs.lt_later (runs : Runs race schedule last) (sound : Sound race)
    {before between after : List (Nat × PollStep)} {early late : Nat} {step : PollStep}
    (split : schedule = before ++ (early, .exchange) :: (between ++ (late, step) :: after))
    {first second : Stamp} (earlyIssued : last.phase early = .answered (.issued first))
    (lateIssued : last.phase late = .answered (.issued second)) : first < second := by
  have regrouped : schedule =
      (before ++ (early, .exchange) :: between) ++ (late, step) :: after := by
    rw [split, List.append_assoc, List.cons_append]
  rw [regrouped] at runs
  obtain ⟨middle, front, back⟩ := runs.split
  obtain ⟨soundMiddle, _, frontGrows⟩ := front.grows sound
  obtain ⟨-, _, backGrows⟩ := back.grows soundMiddle
  obtain ⟨soundLast, -⟩ := runs.grows sound
  have below : first ≤ middle.word.held := by
    have exchanged : (early, PollStep.exchange) ∈ before ++ (early, .exchange) :: between := by simp
    rw [front.phase_kept exchanged back] at earlyIssued
    have member := (frontGrows.mem_stamps_iff front sound).2 ⟨early, exchanged, earlyIssued⟩
    exact (frontGrows.above first member).2
  have above : middle.word.held < second := by
    have open_ := back.unanswered List.mem_cons_self (.issued second)
    rw [soundLast.listed, backGrows.answers, List.mem_append, ← soundMiddle.listed] at lateIssued
    exact (backGrows.above second (mem_stamps.2 ⟨late, lateIssued.resolve_left open_⟩)).1
  exact Stamp.lt_of_le_of_lt below above

theorem Runs.exchange_of_issued (runs : Runs race schedule last) (sound : Sound race) {poll : Nat}
    (idle : race.phase poll = .idle) {stamp : Stamp}
    (issued : last.phase poll = .answered (.issued stamp)) : (poll, .exchange) ∈ schedule := by
  obtain ⟨soundLast, meanwhile, grows⟩ := runs.grows sound
  rw [soundLast.listed, grows.answers, List.mem_append, ← sound.listed, idle] at issued
  exact grows.exchanged poll stamp (issued.resolve_left nofun)

theorem Runs.lost_iff {poll : Nat} {before between after : List (Nat × PollStep)}
    (runs : Runs race (before ++ (poll, .load) :: (between ++ (poll, .exchange) :: after)) last)
    (sound : Sound race) : last.phase poll = .answered (.retry 0) ↔
      ∃ other stamp, other ≠ poll ∧ (other, .exchange) ∈ between ∧
        last.phase other = .answered (.issued stamp) := by
  obtain ⟨start, loaded, early, loads, rest⟩ := runs.at_step
  obtain ⟨found, meanwhile, back⟩ := rest.split
  have soundLoaded := loads.sound (early.grows sound).1
  cases loads with
  | load idle =>
    have follows : Follows start.word (found.phase poll) := meanwhile.follows (by rw [phase_enter]; rfl)
    have moved : found.word ≠ start.word ↔ _ := meanwhile.word_ne_iff soundLoaded
    have kept {other : Nat} (exchanged : (other, PollStep.exchange) ∈ between) :
        last.phase other = found.phase other := meanwhile.phase_kept exchanged back
    cases back with
    | cons taken late =>
      cases steps_of_step taken with
      | win stamp proposing =>
        rw [proposing] at follows
        have issued := late.answered (phase_settle found poll (.issued stamp) ⟨stamp.toWord⟩)
        have won : last.phase poll ≠ .answered (.retry 0) := by simp [issued]
        refine iff_of_false won ?_
        rintro ⟨other, earlier, -, exchanged, wins⟩
        rw [kept exchanged] at wins
        exact moved.2 ⟨other, earlier, exchanged, wins⟩ follows
      | lose word stamp proposing changed =>
        rw [proposing] at follows
        cases follows
        have answered := late.answered (phase_settle found poll (.retry 0) found.word)
        obtain ⟨other, issued, exchanged, wins⟩ := moved.1 changed
        have different : other ≠ poll := by
          rintro rfl
          rw [proposing] at wins
          cases wins
        exact iff_of_true answered ⟨other, issued, different, exchanged, by rw [kept exchanged, wins]⟩

theorem Runs.overtaken_iff (runs : Runs race schedule last) (sound : Sound race) {poll : Nat}
    (idle : race.phase poll = .idle) :
    last.phase poll = .answered (.retry 0) ↔ Overtaken schedule last poll := by
  constructor
  · intro answered
    obtain ⟨before, rest, start, rfl, -, loaded⟩ := runs.load idle answered
    obtain ⟨between, now, later, reached, rfl, -, outcome⟩ := loaded.read (phase_enter ..) answered
    rcases outcome with ⟨wait, waits, same⟩ | ⟨stamp, proposed, proposing⟩
    · cases same
      exact absurd rfl (WordSequencer.wait_of_proposal waits)
    · obtain ⟨more, after, rfl⟩ := proposing.exchange (phase_enter ..) answered
      have regrouped : between ++ (poll, .read now) :: (more ++ (poll, .exchange) :: after) =
          (between ++ (poll, .read now) :: more) ++ (poll, .exchange) :: after := by
        rw [List.append_assoc, List.cons_append]
      rw [regrouped] at runs
      exact ⟨before, _, after, by rw [regrouped], (runs.lost_iff sound).1 answered⟩
  · rintro ⟨before, between, after, rfl, won⟩
    exact (runs.lost_iff sound).2 won

theorem Runs.distinct (runs : Runs race schedule last) (sound : Sound race) {one other : Nat}
    (oneIdle : race.phase one = .idle) (otherIdle : race.phase other = .idle) {stamp : Stamp}
    (oneIssued : last.phase one = .answered (.issued stamp))
    (otherIssued : last.phase other = .answered (.issued stamp)) : one = other := by
  by_contra different
  obtain ⟨before, after, split⟩ :=
    List.append_of_mem (runs.exchange_of_issued sound oneIdle oneIssued)
  have member := runs.exchange_of_issued sound otherIdle otherIssued
  rw [split, List.mem_append, List.mem_cons, Prod.mk.injEq] at member
  rcases member with early | ⟨same, -⟩ | late
  · obtain ⟨front, between, rfl⟩ := List.append_of_mem early
    rw [List.append_assoc, List.cons_append] at split
    exact Stamp.lt_irrefl _ (runs.lt_later sound split otherIssued oneIssued)
  · exact different same.symm
  · obtain ⟨between, back, rfl⟩ := List.append_of_mem late
    exact Stamp.lt_irrefl _ (runs.lt_later sound split oneIssued otherIssued)

theorem Sound.word_moves (sound : Sound race) {poll : Nat} {step : PollStep}
    (taken : race.step poll step = some last) :
    (last.word ≠ race.word ↔ ∃ stamp, last.phase poll = .answered (.issued stamp)) ∧
      ∀ stamp, last.phase poll = .answered (.issued stamp) →
        step = .exchange ∧ last.word.held = stamp := by
  have runs : Runs race [(poll, step)] last := .cons taken (.refl _)
  have moved := runs.word_ne_iff sound
  have settles : ∀ stamp, last.phase poll = .answered (.issued stamp) →
      step = .exchange ∧ last.word.held = stamp := by
    intro stamp issued
    cases steps_of_step taken with
    | load idle => simp at issued
    | wait word now wait loaded => simp at issued
    | propose word now other loaded => simp at issued
    | lose word other proposing => simp at issued
    | win other proposing =>
      obtain ⟨now, proposed⟩ := sound.proposed poll race.word other proposing
      obtain rfl : other = stamp := by simpa using issued
      exact ⟨rfl, WordSequencer.held_of_proposal proposed⟩
  refine ⟨⟨?_, ?_⟩, settles⟩
  · intro changed
    obtain ⟨other, stamp, member, issued⟩ := moved.1 changed
    cases List.mem_singleton.1 member
    exact ⟨stamp, issued⟩
  · rintro ⟨stamp, issued⟩
    obtain ⟨rfl, -⟩ := settles stamp issued
    exact moved.2 ⟨poll, stamp, List.mem_singleton_self _, issued⟩

/-- What is promised of polls that race, in terms of the schedule of their steps. -/
structure Linear (schedule : List (Nat × PollStep)) (race : Race) : Prop where
  exchanged : ∀ poll stamp, race.phase poll = .answered (.issued stamp) → (poll, .exchange) ∈ schedule
  increasing : ∀ before between after early late first second,
    schedule = before ++ (early, .exchange) :: (between ++ (late, .exchange) :: after) →
    race.phase early = .answered (.issued first) → race.phase late = .answered (.issued second) →
      first < second
  distinct : ∀ one other stamp, race.phase one = .answered (.issued stamp) →
    race.phase other = .answered (.issued stamp) → one = other
  later : ∀ before between after early late first second,
    schedule = before ++ (early, .exchange) :: (between ++ (late, .load) :: after) →
    race.phase early = .answered (.issued first) → race.phase late = .answered (.issued second) →
      first < second
  moves : ∀ poll step next, race.step poll step = some next →
    (next.word ≠ race.word ↔ ∃ stamp, next.phase poll = .answered (.issued stamp)) ∧
      ∀ stamp, next.phase poll = .answered (.issued stamp) → step = .exchange ∧ next.word.held = stamp
  lost : ∀ poll, race.phase poll = .answered (.retry 0) ↔ Overtaken schedule race poll

/-- From whichever stamp on, in every order of their steps and at all readings, polls of one word are
linear; a poll of a source, with the polls inside its readings, is such an order of steps. -/
theorem polls_linear (last : Stamp) :
    (∀ schedule race, Runs { word := .ofStamp last } schedule race → Linear schedule race) ∧
      ∀ {τ : Type} [Clock τ] (source : Source WordSequencer τ), ∃ schedule race inside,
        Runs { word := source.sequencer } schedule race ∧ race.word = source.poll.2.sequencer ∧
          source.poll.2.overlapped = source.overlapped ++ inside ∧
          race.given = inside ++ source.poll.1.toOption.toList ∧
          ∀ answer, source.poll.1 = .ok answer → race.phase 0 = .answered answer := by
  refine ⟨?_, fun source => source.runs_poll⟩
  intro schedule race runs
  have sound := sound_start (.ofStamp last)
  exact
    { exchanged := fun _ _ => runs.exchange_of_issued sound rfl
      increasing := fun _ _ _ _ _ _ _ split => runs.lt_later sound split
      distinct := fun _ _ _ => runs.distinct sound rfl rfl
      later := fun _ _ _ _ _ _ _ split => runs.lt_later sound split
      moves := fun _ _ _ => (runs.grows sound).1.word_moves
      lost := fun _ => runs.overtaken_iff sound rfl }

def twoPolls : List (Nat × PollStep) :=
  [(0, .load), (1, .load), (0, .read 5), (1, .read 7), (1, .exchange), (0, .exchange)]

theorem polls_linear_twoPolls : ∃ race, Runs { word := .ofStamp .zero } twoPolls race ∧
    race.phase 0 = .answered (.retry 0) ∧ Overtaken twoPolls race 0 ∧
    race.phase 1 = .answered (.issued ⟨7, 0⟩) := by
  obtain ⟨race, runs, lost, won⟩ : ∃ race, Runs { word := .ofStamp .zero } twoPolls race ∧
      race.phase 0 = .answered (.retry 0) ∧ race.phase 1 = .answered (.issued ⟨7, 0⟩) :=
    ⟨_, .cons rfl (.cons rfl (.cons rfl (.cons rfl (.cons rfl (.cons rfl (.refl _)))))), rfl, rfl⟩
  have linear := (polls_linear .zero).1 twoPolls race runs
  exact ⟨race, runs, lost, (linear.lost 0).1 lost, won⟩

end Mintmark.Race
