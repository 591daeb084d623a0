import Mintmark.Proofs.Sequencer.Holding

/-!
Polls and waits over a clock. A stamp that a source gives lies above the one held before and is held
from then on; the readings that the wait took, and what ran inside them, decide its millisecond.
-/
namespace Mintmark.Source
variable {σ τ : Type} [Sequencer σ] [Clock τ]

/-- The end of a poll that loaded this state of the sequencer when it began. Others may have moved
the sequencer on since. -/
def finish (source : Source σ τ) (loaded : σ) : Except Stop Attempt × Source σ τ :=
  if Sequencer.poisoned source.sequencer then (.error .poisoned, source)
  else
    match source.read with
    | (.error fault, after) =>
      (.error (.clock fault), { after with sequencer := Sequencer.abandon after.sequencer })
    | (.ok now, after) =>
      let (answer, sequencer) := Sequencer.settle loaded after.sequencer now
      (.ok answer, { after with sequencer })

theorem finish_sequencer (source : Source σ τ) : source.finish source.sequencer = source.poll := rfl

theorem finish_cases {source after : Source σ τ} {loaded : σ} {outcome : Except Stop Attempt}
    (finished : source.finish loaded = (outcome, after)) :
    (outcome = .error .poisoned ∧ after = source) ∨
      (∃ fault reached, source.read = (.error fault, reached) ∧ outcome = .error (.clock fault) ∧
        after = { reached with sequencer := Sequencer.abandon reached.sequencer }) ∨
      (∃ now reached answer sequencer, source.read = (.ok now, reached) ∧
        Sequencer.settle loaded reached.sequencer now = (answer, sequencer) ∧
        outcome = .ok answer ∧ after = { reached with sequencer }) := by
  unfold finish at finished
  split at finished
  · simp only [Prod.mk.injEq] at finished
    exact .inl ⟨finished.1.symm, finished.2.symm⟩
  · split at finished
    · rename_i fault reached read
      simp only [Prod.mk.injEq] at finished
      exact .inr (.inl ⟨fault, reached, read, finished.1.symm, finished.2.symm⟩)
    · rename_i now reached read
      simp only [Prod.mk.injEq] at finished
      exact .inr (.inr ⟨now, reached, _, _, read, rfl, finished.1.symm, finished.2.symm⟩)

/-- Whatever holds of the poll that ends a wait, and is handed back by every poll that prolongs it,
holds of the wait. -/
theorem next_induction {motive : Source σ τ → Except Stop Stamp → Source σ τ → Prop}
    (stopped : ∀ source after stop, source.poll = (.error stop, after) →
      motive source (.error stop) after)
    (issued : ∀ source after stamp, source.poll = (.ok (.issued stamp), after) →
      motive source (.ok stamp) after)
    (again : ∀ source after wait, source.poll = (.ok (.retry wait), after) →
      motive after after.next.1 after.next.2 → motive source after.next.1 after.next.2)
    (source : Source σ τ) : motive source source.next.1 source.next.2 := by
  induction source using next.induct with
  | case1 source stop after polled =>
    rw [next_of_stop polled]
    exact stopped source after stop polled
  | case2 source stamp after polled =>
    rw [next_of_issued polled]
    exact issued source after stamp polled
  | case3 source wait after polled rest =>
    rw [next_of_retry polled]
    exact again source after wait polled rest

theorem read_own {source reached : Source σ (List Moment)} {outcome : Except ClockFault UInt64}
    (read : source.read = (outcome, reached)) :
    ∃ own, source.clock = own ++ reached.clock ∧
      ∀ now, outcome = .ok now → ∃ moment ∈ own, moment.outcome = .ok now := by
  have outcomes : (Clock.read source.clock).1.outcome = outcome := congrArg Prod.fst read
  have clocks : (Clock.read source.clock).2 = reached.clock :=
    congrArg (fun answer => answer.2.clock) read
  cases written : source.clock with
  | nil =>
    rw [written] at outcomes clocks
    refine ⟨[], clocks, ?_⟩
    rintro now rfl
    cases outcomes
  | cons moment rest =>
    rw [written] at outcomes clocks
    refine ⟨[moment], congrArg (moment :: ·) clocks, ?_⟩
    rintro now rfl
    exact ⟨moment, List.mem_singleton_self moment, outcomes⟩

variable [Holding σ]
open Settling

theorem finish_issued {source after : Source σ τ} {loaded : σ} {stamp : Stamp}
    (finished : source.finish loaded = (.ok (.issued stamp), after)) :
    ∃ now reached, source.read = (.ok now, reached) ∧ after.clock = reached.clock ∧
      after.overlapped = reached.overlapped ∧ held after.sequencer = stamp ∧
      (held reached.sequencer).successor (seen σ now) = .issued stamp := by
  rcases finish_cases finished with ⟨stop, _⟩ | ⟨fault, reached, _, stop, _⟩ |
    ⟨now, reached, answer, sequencer, read, settled, same, rfl⟩
  · cases stop
  · cases stop
  · cases same
    obtain ⟨successor, holds⟩ := settle_issued settled
    exact ⟨now, reached, read, rfl, rfl, holds, successor⟩

theorem poll_retry {source after : Source σ τ} {wait : UInt64}
    (polled : source.poll = (.ok (.retry wait), after)) :
    ∃ now, source.read = (.ok now, after) := by
  rw [← finish_sequencer] at polled
  rcases finish_cases polled with ⟨stop, _⟩ | ⟨fault, reached, _, stop, _⟩ |
    ⟨now, reached, answer, sequencer, read, settled, same, rfl⟩
  · cases stop
  · cases stop
  · cases same
    rw [settle_retry settled]
    exact ⟨now, read⟩

theorem lt_held_read {source reached : Source σ τ} {outcome : Except ClockFault UInt64}
    (read : source.read = (outcome, reached)) :
    ∃ inside, reached.overlapped = source.overlapped ++ inside ∧ ∀ bound : Stamp,
      bound < held reached.sequencer ↔
        bound < held source.sequencer ∨ ∃ stamp, .issued stamp ∈ inside ∧ bound < stamp := by
  have same : reached = source.read.2 := by rw [read]
  refine ⟨(Sequencer.overlap source.sequencer (Clock.read source.clock).1).2, ?_, ?_⟩
  · rw [same]
    rfl
  · intro bound
    rw [same]
    exact Holding.lt_overlap source.sequencer (Clock.read source.clock).1 bound

theorem lt_held_finish {source after : Source σ τ} {loaded : σ} {outcome : Except Stop Attempt}
    (finished : source.finish loaded = (outcome, after)) :
    ∃ inside, after.overlapped = source.overlapped ++ inside ∧ ∀ bound : Stamp,
      bound < held after.sequencer ↔ bound < held source.sequencer ∨
        ∃ stamp, (.issued stamp ∈ inside ∨ outcome = .ok (.issued stamp)) ∧ bound < stamp := by
  rcases finish_cases finished with ⟨rfl, rfl⟩ | ⟨fault, reached, read, rfl, rfl⟩ |
    ⟨now, reached, answer, sequencer, read, settled, rfl, rfl⟩
  · exact ⟨[], by simp, by simp⟩
  · obtain ⟨inside, overlapped, holds⟩ := lt_held_read read
    refine ⟨inside, overlapped, ?_⟩
    intro bound
    rw [held_abandon, holds]
    simp
  · obtain ⟨inside, overlapped, holds⟩ := lt_held_read read
    refine ⟨inside, overlapped, ?_⟩
    intro bound
    rw [lt_settle settled, holds]
    simp only [Except.ok.injEq, or_and_right, exists_or, or_assoc]

theorem held_le_finish {source after : Source σ τ} {loaded : σ} {outcome : Except Stop Attempt}
    (finished : source.finish loaded = (outcome, after)) :
    held source.sequencer ≤ held after.sequencer := by
  obtain ⟨inside, _, grows⟩ := lt_held_finish finished
  exact Stamp.le_of_lt_iff grows

theorem held_finish {source after : Source σ τ} {loaded : σ} {stamp : Stamp}
    (finished : source.finish loaded = (.ok (.issued stamp), after)) :
    held source.sequencer < stamp ∧ held after.sequencer = stamp ∧
      stamp.sequence ≤ Stamp.maxSequence := by
  obtain ⟨now, reached, read, _, _, holds, successor⟩ := finish_issued finished
  obtain ⟨above, sequence, _⟩ := Stamp.successor_issued successor
  obtain ⟨inside, _, grows⟩ := lt_held_read read
  have reaches := Stamp.le_of_lt_iff grows
  exact ⟨Stamp.lt_of_le_of_lt reaches above, holds, UInt16.le_iff_toNat_le.2 sequence⟩

theorem lt_held_next (source : Source σ τ) :
    ∃ inside, source.next.2.overlapped = source.overlapped ++ inside ∧ ∀ bound : Stamp,
      bound < held source.next.2.sequencer ↔ bound < held source.sequencer ∨
        ∃ stamp, (.issued stamp ∈ inside ∨ source.next.1 = .ok stamp) ∧ bound < stamp := by
  induction source using next_induction with
  | stopped source after stop polled =>
    rw [← finish_sequencer] at polled
    obtain ⟨inside, overlapped, holds⟩ := lt_held_finish polled
    refine ⟨inside, overlapped, ?_⟩
    intro bound
    rw [holds]
    simp
  | issued source after stamp polled =>
    rw [← finish_sequencer] at polled
    obtain ⟨inside, overlapped, holds⟩ := lt_held_finish polled
    refine ⟨inside, overlapped, ?_⟩
    intro bound
    rw [holds]
    simp
  | again source after wait polled rest =>
    rw [← finish_sequencer] at polled
    obtain ⟨inside, overlapped, holds⟩ := lt_held_finish polled
    obtain ⟨later, added, ends⟩ := rest
    refine ⟨inside ++ later, ?_, ?_⟩
    · rw [added, overlapped, List.append_assoc]
    · intro bound
      rw [ends, holds]
      simp [or_and_right, exists_or, or_assoc]

theorem held_le_next (source : Source σ τ) :
    held source.sequencer ≤ held source.next.2.sequencer := by
  obtain ⟨inside, _, grows⟩ := lt_held_next source
  exact Stamp.le_of_lt_iff grows

theorem held_next (source : Source σ τ) (stamp : Stamp) (drawn : source.next.1 = .ok stamp) :
    held source.sequencer < stamp ∧ held source.next.2.sequencer = stamp ∧
      stamp.sequence ≤ Stamp.maxSequence := by
  induction source using next_induction with
  | stopped source after stop polled => cases drawn
  | issued source after other polled =>
    cases drawn
    rw [← finish_sequencer] at polled
    exact held_finish polled
  | again source after wait polled rest =>
    obtain ⟨above, holds, sequence⟩ := rest drawn
    rw [← finish_sequencer] at polled
    exact ⟨Stamp.lt_of_le_of_lt (held_le_finish polled) above, holds, sequence⟩

def ReadingsWithin (moments : List Moment) (least most : UInt64) : Prop :=
  ∀ moment ∈ moments, ∀ now, moment.outcome = .ok now → least ≤ now ∧ now ≤ most

theorem poll_own {source after : Source σ (List Moment)} {stamp : Stamp}
    (polled : source.poll = (.ok (.issued stamp), after)) :
    ∃ own inside, source.clock = own ++ after.clock ∧
      after.overlapped = source.overlapped ++ inside ∧
      ∀ least most, least ≤ WordSequencer.maxMillis → ReadingsWithin own least most →
        least ≤ stamp.millis ∧ (most < stamp.millis ↔ most < (held source.sequencer).millis ∨
          ∃ other, .issued other ∈ inside ∧ most < other.millis) := by
  rw [← finish_sequencer] at polled
  obtain ⟨now, reached, read, clock, overlapped, _, successor⟩ := finish_issued polled
  obtain ⟨_, _, millis⟩ := Stamp.successor_issued successor
  obtain ⟨own, consumed, outcomes⟩ := read_own read
  obtain ⟨inside, added, grows⟩ := lt_held_read read
  refine ⟨own, inside, by rw [consumed, clock], by rw [overlapped, added], ?_⟩
  intro least most small within
  obtain ⟨moment, member, outcome⟩ := outcomes now rfl
  obtain ⟨lower, upper⟩ := within moment member now outcome
  have begun : least ≤ seen σ now := le_seen small lower
  have ended : seen σ now ≤ now := seen_le now
  rw [UInt64.le_iff_toNat_le] at begun ended upper ⊢
  simp only [← Stamp.endOf_lt] at grows ⊢
  rw [← grows, Stamp.endOf_lt, Stamp.endOf_lt, UInt64.lt_iff_toNat_lt, UInt64.lt_iff_toNat_lt,
    millis]
  omega

theorem next_own (source : Source σ (List Moment)) :
    ∃ own inside, source.clock = own ++ source.next.2.clock ∧
      source.next.2.overlapped = source.overlapped ++ inside ∧
      ∀ least most stamp, least ≤ WordSequencer.maxMillis → ReadingsWithin own least most →
        source.next.1 = .ok stamp →
          least ≤ stamp.millis ∧ (most < stamp.millis ↔ most < (held source.sequencer).millis ∨
            ∃ other, .issued other ∈ inside ∧ most < other.millis) := by
  induction source using next_induction with
  | stopped source after stop polled =>
    rw [← finish_sequencer] at polled
    rcases finish_cases polled with ⟨_, rfl⟩ | ⟨fault, reached, read, _, rfl⟩ |
      ⟨now, reached, answer, sequencer, _, _, same, _⟩
    · exact ⟨[], [], rfl, (List.append_nil _).symm, fun _ _ _ _ _ drawn => nomatch drawn⟩
    · obtain ⟨own, consumed, _⟩ := read_own read
      obtain ⟨inside, overlapped, _⟩ := lt_held_read read
      exact ⟨own, inside, consumed, overlapped, fun _ _ _ _ _ drawn => nomatch drawn⟩
    · cases same
  | issued source after stamp polled =>
    obtain ⟨own, inside, consumed, overlapped, ends⟩ := poll_own polled
    refine ⟨own, inside, consumed, overlapped, ?_⟩
    rintro least most _ small within ⟨⟩
    exact ends least most small within
  | again source after wait polled rest =>
    obtain ⟨own, later, consumed, added, ends⟩ := rest
    obtain ⟨now, read⟩ := poll_retry polled
    obtain ⟨first, before, _⟩ := read_own read
    obtain ⟨inside, overlapped, grows⟩ := lt_held_read read
    refine ⟨first ++ own, inside ++ later, ?_, ?_, ?_⟩
    · rw [before, consumed, List.append_assoc]
    · rw [added, overlapped, List.append_assoc]
    · intro least most stamp small within drawn
      obtain ⟨begun, beyond⟩ := ends least most stamp small
        (fun moment member => within moment (List.mem_append_right first member)) drawn
      refine ⟨begun, ?_⟩
      simp only [← Stamp.endOf_lt] at beyond ⊢
      rw [beyond, grows]
      simp only [List.mem_append, or_and_right, exists_or, or_assoc]

end Mintmark.Source
