import Mintmark.Proofs.Sequencer.Count

/-!
The arithmetic of polls behind a lock. The place after the one held always fits, and so does the
difference that a wait is counted from. The wait itself fits but for one state: the last place of the
last millisecond of all, at a clock that reads zero.
-/
namespace Mintmark

namespace Stamp

/-- The numbers that a poll forms fit into their types. A later reading needs none. -/
structure InRange (held : Stamp) (now : UInt64) : Prop where
  place : ¬ held.millis < now → held.hasRoom → held.sequence.toNat + 1 < UInt16.size
  difference : ¬ held.millis < now → held.hasRoom = false → now.toNat ≤ held.millis.toNat
  wait : ¬ held.millis < now → held.hasRoom = false →
    held.millis.toNat - now.toNat + 1 < UInt64.size

theorem inRange_iff {held : Stamp} {now : UInt64} : held.InRange now ↔
    ¬ (now = 0 ∧ held.millis = GuardedSequencer.maxMillis ∧ held.hasRoom = false) := by
  have size : UInt64.size = GuardedSequencer.maxMillis.toNat + 1 := rfl
  have bound := UInt64.le_iff_toNat_le.1 (GuardedSequencer.le_maxMillis held.millis)
  constructor
  · rintro inRange ⟨rfl, last, full⟩
    have wait := inRange.wait (UInt64.not_lt.2 UInt64.zero_le) full
    rw [last, size] at wait
    exact Nat.lt_irrefl _ wait
  · intro elsewhere
    refine ⟨?_, ?_, ?_⟩
    · intro _ room
      have small := (toNat_sequence_succ room).2
      exact Nat.lt_trans (Nat.succ_lt_succ small) (by decide)
    · intro behind _
      exact UInt64.le_iff_toNat_le.1 (UInt64.not_lt.1 behind)
    · intro behind full
      have le := UInt64.le_iff_toNat_le.1 (UInt64.not_lt.1 behind)
      rw [size]
      apply Nat.lt_of_not_le
      intro beyond
      have zero : now.toNat = 0 := by omega
      have last : held.millis.toNat = GuardedSequencer.maxMillis.toNat := by omega
      exact elsewhere ⟨UInt64.toNat_inj.1 zero, UInt64.toNat_inj.1 last, full⟩

end Stamp

/-- The answer that numbers of any size would give. -/
def Attempt.Exact (held : Stamp) (now : UInt64) : Attempt → Prop
  | .issued stamp => stamp = ⟨now, 0⟩ ∨
      stamp.millis = held.millis ∧ stamp.sequence.toNat = held.sequence.toNat + 1
  | .retry wait => now.toNat + wait.toNat = held.millis.toNat + 1

namespace Stamp
variable {held : Stamp} {now : UInt64}

theorem InRange.exact (inRange : held.InRange now) : (held.successor now).Exact held now := by
  cases answer : held.successor now with
  | issued stamp => exact successor_exact answer
  | retry wait =>
    obtain ⟨behind, full, rfl⟩ := successor_eq_retry_iff.1 answer
    have le := inRange.difference behind full
    change now.toNat + (held.millis - now + 1).toNat = held.millis.toNat + 1
    rw [toNat_wait behind (inRange.wait behind full)]
    omega

theorem successor_of_not_inRange (outside : ¬ held.InRange now) : held.successor now = .retry 0 := by
  rw [inRange_iff, not_not] at outside
  obtain ⟨rfl, last, full⟩ := outside
  rw [successor_full (UInt64.not_lt.2 UInt64.zero_le) full, last]
  rfl

end Stamp

namespace Source
open Stamp

/-- Polls behind a lock stay in range unless one of them reads zero after the last millisecond of all
was filled. That one is told to wait for nothing; all others are answered with exact numbers. -/
theorem polls_in_range_iff (start : Stamp) (readings : List UInt64) :
    ((∀ k now, readings[k]? = some now →
        (afterEach (GuardedSequencer.ofStamp start) (readings.take k)).last.InRange now) ↔
      ∀ k, readings[k]? = some 0 →
        start.latest (readings.take k) = GuardedSequencer.maxMillis →
          start.place (readings.take k) < 999) ∧
    ∀ k now, readings[k]? = some now →
      let held := (afterEach (GuardedSequencer.ofStamp start) (readings.take k)).last
      ∃ answer, (pollEach (GuardedSequencer.ofStamp start) readings)[k]? = some (.ok answer) ∧
        (held.InRange now → answer.Exact held now) ∧ (¬ held.InRange now → answer = .retry 0) := by
  have inRange (k : Nat) (now : UInt64) : (afterEach (GuardedSequencer.ofStamp start)
      (readings.take k)).last.InRange now ↔ (now = 0 →
        start.latest (readings.take k) = GuardedSequencer.maxMillis →
          start.place (readings.take k) < 999) := by
    have stands := start.at_after (readings.take k)
    rw [last_afterEach, inRange_iff, stands.millis, ← Bool.not_eq_true, stands.room]
    simp only [not_and, not_not]
  constructor
  · simp only [inRange]
    exact ⟨fun each k read => each k 0 read rfl, fun each k now read zero => each k (zero ▸ read)⟩
  · intro k now read
    rw [last_afterEach]
    exact ⟨_, getElem?_pollEach read, InRange.exact, successor_of_not_inRange⟩

theorem filled_fresh (count : Nat) :
    let readings := List.replicate (count + 1) GuardedSequencer.maxMillis
    Stamp.zero.latest readings = GuardedSequencer.maxMillis ∧ Stamp.zero.place readings = count :=
  stands_later (by decide) count

theorem polls_in_range_iff_fresh : ¬ ∀ k now,
    (List.replicate 1000 GuardedSequencer.maxMillis ++ [0])[k]? = some now →
      (afterEach (GuardedSequencer.ofStamp .zero)
        ((List.replicate 1000 GuardedSequencer.maxMillis ++ [0]).take k)).last.InRange now := by
  have filled := filled_fresh 999
  have length : (List.replicate 1000 GuardedSequencer.maxMillis).length = 1000 := List.length_replicate
  generalize List.replicate 1000 GuardedSequencer.maxMillis = readings at filled length ⊢
  rw [(polls_in_range_iff .zero _).1]
  intro each
  have taken : (readings ++ [0]).take 1000 = readings := List.take_left' length
  have zero : (readings ++ [0])[1000]? = some 0 := length ▸ List.getElem?_concat_length
  have room := each 1000 zero
  rw [taken, filled.1, filled.2] at room
  exact Nat.lt_irrefl _ (room rfl)

/-- A wait that is one beyond the last number is told as zero. -/
theorem last_wait_out_of_range : ¬ Stamp.InRange ⟨GuardedSequencer.maxMillis, 999⟩ 0 ∧
    (facing (GuardedSequencer.ofStamp ⟨GuardedSequencer.maxMillis, 999⟩) [0]).poll.1 =
      .ok (.retry 0) :=
  ⟨fun inRange => inRange_iff.1 inRange ⟨rfl, rfl, rfl⟩, rfl⟩

end Source
end Mintmark
