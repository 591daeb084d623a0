import Mintmark.Proofs.Sequencer.Race.Order
import Mintmark.Proofs.Sequencer.Trace

/-!
A clock that never goes back. What is held is then never ahead of a reading, so every stamp tells the
millisecond that its own poll read: under the lock, where polls come one after another, and on the
word, however the steps of the polls are mixed.
-/
namespace Mintmark

namespace Stamp

theorem millis_of_present {last stamp : Stamp} {now : UInt64} (present : last.millis ≤ now)
    (issued : last.successor now = .issued stamp) : stamp.millis = now := by
  obtain ⟨-, -, millis⟩ := successor_issued issued
  rw [UInt64.le_iff_toNat_le] at present
  apply UInt64.toNat_inj.1
  omega

end Stamp

namespace Source

/-- The readings to come never go back, nor behind what the lock guards. -/
def Ahead (source : Source GuardedSequencer (List Moment)) : Prop :=
  ∃ readings : List UInt64, source.clock = readings.map .reading ∧
    (source.sequencer.last.millis :: readings).Pairwise (· ≤ ·)

variable {source after : Source GuardedSequencer (List Moment)}

structure Presents (source : Source GuardedSequencer (List Moment)) (answer : Option Stamp)
    (after : Source GuardedSequencer (List Moment)) : Prop where
  ahead : after.Ahead
  consumed : ∃ own, source.clock = own ++ after.clock
  last : ∀ stamp, answer = some stamp →
    ∃ own, source.clock = own ++ .reading stamp.millis :: after.clock

def stampOf : Except Stop Attempt → Option Stamp
  | .ok (.issued stamp) => some stamp
  | _ => none

theorem presents_unissued (ahead : after.Ahead) (consumed : ∃ own, source.clock = own ++ after.clock) :
    Presents source none after where
  ahead := ahead
  consumed := consumed
  last := by rintro _ ⟨⟩

theorem Ahead.poll (ahead : source.Ahead) :
    Presents source (stampOf source.poll.1) source.poll.2 := by
  obtain ⟨sequencer, _, overlapped⟩ := source
  obtain ⟨readings, rfl, sorted⟩ := ahead
  cases poisoned : sequencer.poisoned with
  | true =>
    rw [poll_poisoned poisoned]
    exact presents_unissued ⟨readings, rfl, sorted⟩ ⟨[], rfl⟩
  | false =>
    cases readings with
    | nil =>
      rw [List.map_nil, poll_stuck poisoned]
      exact presents_unissued ⟨[], rfl, sorted⟩ ⟨[], rfl⟩
    | cons now readings =>
      have polled : Source.poll ⟨sequencer, (now :: readings).map Moment.reading, overlapped⟩ =
          (.ok (sequencer.settle now).1,
            ⟨(sequencer.settle now).2, readings.map Moment.reading, overlapped⟩) :=
        poll_lone poisoned now _
      rw [polled, GuardedSequencer.settle]
      cases answer : sequencer.last.successor now with
      | issued stamp =>
        have tells := Stamp.millis_of_present
          (List.rel_of_pairwise_cons sorted List.mem_cons_self) answer
        refine ⟨⟨readings, rfl, ?_⟩, ⟨[.reading now], rfl⟩, ?_⟩
        · rw [tells]
          exact sorted.tail
        · rintro _ ⟨⟩
          exact ⟨[], by rw [tells]; rfl⟩
      | retry wait =>
        have later := sorted.sublist (.cons_cons _ (List.sublist_cons_self now readings))
        exact presents_unissued ⟨readings, rfl, later⟩ ⟨[.reading now], rfl⟩

theorem Ahead.next (ahead : source.Ahead) :
    Presents source (stampOf (source.next.1.map .issued)) source.next.2 := by
  induction source using next_induction with
  | stopped source after stop polled =>
    have ends := ahead.poll
    rw [polled] at ends
    exact presents_unissued ends.ahead ends.consumed
  | issued source after stamp polled =>
    have ends := ahead.poll
    rw [polled] at ends
    exact ends
  | again source after wait polled rest =>
    have ends := ahead.poll
    rw [polled] at ends
    obtain ⟨first, before⟩ := ends.consumed
    obtain ⟨later, ⟨own, consumed⟩, last⟩ := rest ends.ahead
    refine ⟨later, ⟨first ++ own, by rw [before, consumed, List.append_assoc]⟩, ?_⟩
    intro stamp drawn
    obtain ⟨own, consumed⟩ := last stamp drawn
    exact ⟨first ++ own, by rw [before, consumed, List.append_assoc]⟩

theorem Ahead.respond (ahead : source.Ahead) (call : Call) :
    Presents source (stampOf (source.respond call).1) (source.respond call).2 := by
  cases call with
  | poll => exact ahead.poll
  | next => exact ahead.next

/-- Calls of one caller over a lock: no reading lies behind what the lock guards, and every stamp
tells the last reading that its own call took. -/
structure Punctual (source : Source GuardedSequencer (List Moment)) : Prop where
  never_behind : ∀ calls now rest, (source.afterAll calls).clock = .reading now :: rest →
    ¬ now < (source.afterAll calls).sequencer.last.millis
  present : ∀ calls, ∀ entry ∈ source.trace calls, ∀ stamp, entry.answer = .ok (.issued stamp) →
    entry.readings.getLast? = some (.reading stamp.millis)

theorem Ahead.afterAll (calls : List Call) : ∀ {source : Source GuardedSequencer (List Moment)},
    source.Ahead → (source.afterAll calls).Ahead := by
  induction calls with
  | nil =>
    intro source ahead
    exact ahead
  | cons call calls rest =>
    intro source ahead
    exact rest (ahead.respond call).ahead

theorem Ahead.present (calls : List Call) : ∀ {source : Source GuardedSequencer (List Moment)},
    source.Ahead → ∀ entry ∈ source.trace calls, ∀ stamp, entry.answer = .ok (.issued stamp) →
      entry.readings.getLast? = some (.reading stamp.millis) := by
  induction calls with
  | nil => nofun
  | cons call calls rest =>
    intro source ahead entry member stamp issued
    obtain ⟨later, ⟨own, consumed⟩, last⟩ := ahead.respond call
    rw [trace_cons rfl consumed, List.mem_cons] at member
    rcases member with rfl | member
    · obtain ⟨first, ends⟩ := last stamp (congrArg stampOf issued)
      have same : own = first ++ [.reading stamp.millis] := by
        rw [consumed, List.append_cons] at ends
        exact List.append_cancel_right ends
      rw [same, List.getLast?_concat]
    · exact rest later entry member stamp issued

theorem Ahead.punctual (ahead : source.Ahead) : source.Punctual where
  never_behind calls now rest clock := by
    obtain ⟨readings, same, sorted⟩ := ahead.afterAll calls
    rw [clock] at same
    obtain ⟨first, others, rfl, read, -⟩ := List.map_eq_cons_iff.1 same.symm
    cases read
    exact UInt64.not_lt.2 (List.rel_of_pairwise_cons sorted List.mem_cons_self)
  present calls := ahead.present calls

theorem ahead_start {readings : List UInt64} (sorted : readings.Pairwise (· ≤ ·)) :
    Ahead ⟨.ofStamp .zero, readings.map .reading, []⟩ := by
  refine ⟨readings, rfl, List.pairwise_cons.2 ⟨?_, sorted⟩⟩
  intro now member
  exact UInt64.zero_le

end Source

namespace Race

def readings (schedule : List (Nat × PollStep)) : List UInt64 :=
  schedule.filterMap fun
    | (_, .read now) => some now
    | _ => none

/-- The readings never go back, in the order in which they are taken, and fit into the word. -/
structure Forward (schedule : List (Nat × PollStep)) : Prop where
  sorted : (readings schedule).Pairwise (· ≤ ·)
  fits : ∀ now ∈ readings schedule, now ≤ WordSequencer.maxMillis

def Reached (past : List (Nat × PollStep)) (word : WordSequencer) : Prop :=
  ∀ bound, (∀ now ∈ readings past, now ≤ bound) → word.held.millis ≤ bound

def Unread (past : List (Nat × PollStep)) (poll : Nat) : Prop := ∀ now, (poll, .read now) ∉ past

def Tells (past : List (Nat × PollStep)) (poll : Nat) (stamp : Stamp) : Prop :=
  ∀ now, (poll, .read now) ∈ past ↔ now = stamp.millis

def OnTime (past : List (Nat × PollStep)) (poll : Nat) : Phase → Prop
  | .idle => Unread past poll
  | .loaded word => Unread past poll ∧ Reached past word
  | .proposing _ stamp | .answered (.issued stamp) => Tells past poll stamp
  | .answered (.retry _) => True

structure Timely (past : List (Nat × PollStep)) (race : Race) : Prop where
  word : Reached past race.word
  polls : ∀ poll, OnTime past poll (race.phase poll)

variable {past : List (Nat × PollStep)} {race next last : Race} {poll other : Nat} {step : PollStep}

theorem mem_readings {schedule : List (Nat × PollStep)} {now : UInt64} :
    now ∈ readings schedule ↔ ∃ poll, (poll, .read now) ∈ schedule := by
  simp only [readings, List.mem_filterMap, Prod.exists]
  constructor
  · rintro ⟨poll, step, member, found⟩
    cases step with
    | read taken =>
      cases found
      exact ⟨poll, member⟩
    | load => cases found
    | exchange => cases found
  · rintro ⟨poll, member⟩
    exact ⟨poll, _, member, rfl⟩

theorem Forward.before {schedule rest : List (Nat × PollStep)}
    (forward : Forward (schedule ++ rest)) : Forward schedule where
  sorted := by
    have sorted := forward.sorted
    rw [readings, List.filterMap_append] at sorted
    exact (List.pairwise_append.1 sorted).1
  fits now member := by
    obtain ⟨poll, taken⟩ := mem_readings.1 member
    exact forward.fits now (mem_readings.2 ⟨poll, List.mem_append_left rest taken⟩)

theorem Forward.le_last {now : UInt64} (forward : Forward (past ++ [(poll, .read now)]))
    (earlier : UInt64) (member : earlier ∈ readings past) : earlier ≤ now := by
  have sorted := forward.sorted
  rw [readings, List.filterMap_append] at sorted
  exact (List.pairwise_append.1 sorted).2.2 earlier member now (List.mem_singleton_self now)

theorem mem_read_append {now : UInt64} : (other, .read now) ∈ past ++ [(poll, step)] ↔
    (other, .read now) ∈ past ∨ other = poll ∧ step = .read now := by
  rw [List.mem_append, List.mem_singleton, Prod.mk.injEq, @eq_comm _ step]

theorem Reached.append {word : WordSequencer} (reached : Reached past word)
    (later : List (Nat × PollStep)) : Reached (past ++ later) word := by
  intro bound above
  apply reached
  intro now member
  obtain ⟨poll, taken⟩ := mem_readings.1 member
  exact above now (mem_readings.2 ⟨poll, List.mem_append_left later taken⟩)

theorem OnTime.append {phase : Phase} (present : OnTime past other phase)
    (silent : ∀ now, ¬ (other = poll ∧ step = .read now)) :
    OnTime (past ++ [(poll, step)]) other phase := by
  have same (now : UInt64) : (other, .read now) ∈ past ++ [(poll, step)] ↔ (other, .read now) ∈ past := by
    rw [mem_read_append, or_iff_left (silent now)]
  cases phase with
  | idle => exact fun now => mt (same now).1 (present now)
  | loaded word => exact ⟨fun now => mt (same now).1 (present.1 now), present.2.append _⟩
  | proposing word stamp => exact fun now => (same now).trans (present now)
  | answered answer =>
    cases answer with
    | issued stamp => exact fun now => (same now).trans (present now)
    | retry wait => trivial

theorem Reached.tells {word : WordSequencer} {now : UInt64} {stamp : Stamp}
    (reached : Reached past word) (unread : Unread past poll)
    (forward : Forward (past ++ [(poll, .read now)])) (proposed : word.proposal now = .issued stamp) :
    Tells (past ++ [(poll, .read now)]) poll stamp := by
  have fits : now ≤ WordSequencer.maxMillis :=
    forward.fits now (mem_readings.2 ⟨poll, List.mem_append_right past (List.mem_singleton_self _)⟩)
  have seen : min now WordSequencer.maxMillis = now := if_pos fits
  have issued : word.held.successor now = .issued stamp := seen ▸ proposed
  have tells := Stamp.millis_of_present (reached now forward.le_last) issued
  intro other
  rw [mem_read_append, or_iff_right (unread other), tells]
  simp [eq_comm]

theorem Timely.of_steps (timely : Timely past race) (steps : Steps race poll step next)
    (word : Reached (past ++ [(poll, step)]) next.word)
    (own : OnTime (past ++ [(poll, step)]) poll (next.phase poll)) :
    Timely (past ++ [(poll, step)]) next := by
  refine ⟨word, ?_⟩
  intro other
  by_cases same : other = poll
  · subst same
    exact own
  · rw [steps.phase_other same]
    exact (timely.polls other).append fun now taken => same taken.1

theorem Steps.timely (steps : Steps race poll step next) (sound : Sound race)
    (timely : Timely past race) (forward : Forward (past ++ [(poll, step)])) :
    Timely (past ++ [(poll, step)]) next := by
  have own := timely.polls poll
  have word := timely.word.append [(poll, step)]
  apply timely.of_steps steps
  · cases steps with
    | load | wait | propose | lose => exact word
    | win stamp proposing =>
      rw [proposing] at own
      obtain ⟨now, proposed⟩ := sound.proposed poll race.word stamp proposing
      have holds : WordSequencer.held ⟨stamp.toWord⟩ = stamp :=
        WordSequencer.held_of_proposal proposed
      have taken : stamp.millis ∈ readings past := mem_readings.2 ⟨poll, (own _).2 rfl⟩
      have reached : Reached past ⟨stamp.toWord⟩ := by
        intro bound above
        rw [holds]
        exact above _ taken
      exact reached.append _
  · cases steps with
    | load idle =>
      rw [idle] at own
      rw [phase_enter]
      exact ⟨OnTime.append own nofun, word⟩
    | wait loaded now wait =>
      rw [phase_settle]
      trivial
    | propose loaded now stamp phase proposed =>
      rw [phase] at own
      rw [phase_enter]
      exact own.2.tells own.1 forward proposed
    | win stamp proposing =>
      rw [proposing] at own
      rw [phase_settle]
      exact OnTime.append own nofun
    | lose word stamp proposing =>
      rw [phase_settle]
      trivial

theorem Runs.timely {schedule : List (Nat × PollStep)} (runs : Runs race schedule last)
    (sound : Sound race) : ∀ {past}, Timely past race → Forward (past ++ schedule) →
      Timely (past ++ schedule) last := by
  induction runs with
  | refl race =>
    intro past timely forward
    rw [List.append_nil]
    exact timely
  | @cons race next last poll step schedule taken rest ih =>
    intro past timely forward
    have steps := steps_of_step taken
    rw [List.append_cons] at forward ⊢
    exact ih (steps.sound sound) (steps.timely sound timely forward.before) forward

/-- Polls of one word, their steps in any order: no poll reads behind what it loaded, and every stamp
tells the one reading of its own poll. -/
structure Punctual (start : WordSequencer) (schedule : List (Nat × PollStep)) (race : Race) :
    Prop where
  never_behind : ∀ before poll now after middle word,
    schedule = before ++ (poll, .read now) :: after → Runs { word := start } before middle →
      middle.phase poll = .loaded word → ¬ min now WordSequencer.maxMillis < word.held.millis
  present : ∀ poll stamp, race.phase poll = .answered (.issued stamp) →
    ∀ now, (poll, .read now) ∈ schedule ↔ now = stamp.millis

theorem timely_start : Timely [] { word := .ofStamp .zero } where
  word _ _ := UInt64.zero_le
  polls _ := nofun

end Race

/-- As long as the clock does not go back, every stamp tells the time of the poll that drew it, over
the lock and over the word. -/
theorem stamps_present :
    (∀ readings : List UInt64, readings.Pairwise (· ≤ ·) →
      Source.Punctual ⟨.ofStamp .zero, readings.map .reading, []⟩) ∧
    ∀ schedule race, Race.Forward schedule → Race.Runs { word := .ofStamp .zero } schedule race →
      Race.Punctual (.ofStamp .zero) schedule race := by
  refine ⟨fun readings sorted => (Source.ahead_start sorted).punctual, ?_⟩
  intro schedule race forward runs
  have sound := Race.sound_start (.ofStamp .zero)
  refine ⟨?_, ?_⟩
  · rintro before poll now after middle word rfl early loaded
    rw [List.append_cons] at forward
    have reading := forward.before
    have timely := early.timely sound Race.timely_start reading.before
    have own := timely.polls poll
    rw [loaded] at own
    have fits : now ≤ WordSequencer.maxMillis := reading.fits now (by simp [Race.mem_readings])
    have seen : min now WordSequencer.maxMillis = now := if_pos fits
    rw [seen]
    exact UInt64.not_lt.2 (own.2 now reading.le_last)
  · intro poll stamp issued
    have own := (runs.timely sound Race.timely_start forward).polls poll
    rw [issued] at own
    exact own

theorem stamps_present_twoPolls : ∃ race, Race.Runs { word := .ofStamp .zero } Race.twoPolls race ∧
    race.phase 1 = .answered (.issued ⟨7, 0⟩) ∧
      (∀ now, (1, .read now) ∈ Race.twoPolls ↔ now = 7) ∧
      Source.Punctual ⟨.ofStamp .zero, [5, 5, 7].map .reading, []⟩ := by
  obtain ⟨race, runs, issued⟩ : ∃ race, Race.Runs { word := .ofStamp .zero } Race.twoPolls race ∧
      race.phase 1 = .answered (.issued ⟨7, 0⟩) :=
    ⟨_, .cons rfl (.cons rfl (.cons rfl (.cons rfl (.cons rfl (.cons rfl (.refl _)))))), rfl⟩
  have within : ∀ now ∈ [(5 : UInt64), 7], now ≤ WordSequencer.maxMillis :=
    List.forall_mem_cons.2 ⟨by decide, List.forall_mem_singleton.2 (by decide)⟩
  have forward : Race.Forward Race.twoPolls := ⟨by decide, within⟩
  have punctual := stamps_present.2 Race.twoPolls race forward runs
  exact ⟨race, runs, issued, punctual.present 1 ⟨7, 0⟩ issued,
    stamps_present.1 [5, 5, 7] (by decide)⟩

end Mintmark
