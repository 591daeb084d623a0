import Mintmark.Clock.Anchored

/-!
Readings of anchored clocks. A later reading is never the smaller one. The anchor and the time since
are cut to milliseconds one by one, so a reading may be one short of their sum, and never more. Machine
words hold every number on the way.
-/
namespace Mintmark

/-- A span of time as it is measured: whole seconds, and nanoseconds short of one more. -/
structure Span where
  seconds : UInt64
  nanos : UInt32
  short : nanos.toNat < 1000000000

namespace Span

def nanoseconds (span : Span) : Nat := span.seconds.toNat * 1000000000 + span.nanos.toNat

def wideMillis (span : Span) : BitVec 128 :=
  span.seconds.toBitVec.setWidth 128 * 1000 + (span.nanos / 1000000).toBitVec.setWidth 128

def millis (span : Span) : UInt64 :=
  if span.wideMillis.toNat ≤ lastMillis then .ofBitVec (span.wideMillis.setWidth 64) else .ofNat lastMillis

theorem toNat_wideMillis (span : Span) : span.wideMillis.toNat = span.nanoseconds / 1000000 := by
  obtain ⟨seconds, nanos, short⟩ := span
  have size := seconds.toNat_lt
  have scaled : (seconds.toBitVec.setWidth 128 * 1000).toNat = seconds.toNat * 1000 := by
    rw [BitVec.toNat_mul, BitVec.toNat_setWidth, UInt64.toNat_toBitVec]
    simp
    omega
  have rest : ((nanos / 1000000).toBitVec.setWidth 128).toNat = nanos.toNat / 1000000 := by
    rw [BitVec.toNat_setWidth, UInt32.toNat_toBitVec, UInt32.toNat_div]
    simp
    omega
  rw [wideMillis, BitVec.toNat_add, scaled, rest]
  simp only [nanoseconds]
  omega

theorem toNat_millis (span : Span) :
    span.millis.toNat = min lastMillis (span.nanoseconds / 1000000) := by
  have last : lastMillis = 2 ^ 64 - 1 := rfl
  rw [millis, toNat_wideMillis]
  split
  · rename_i fits
    rw [UInt64.toNat_ofBitVec, BitVec.toNat_setWidth, toNat_wideMillis]
    omega
  · rename_i beyond
    rw [UInt64.toNat_ofNat']
    omega

end Span

def saturatingSum (left right : UInt64) : UInt64 :=
  if left + right < left then .ofNat lastMillis else left + right

theorem toNat_saturatingSum (left right : UInt64) :
    (saturatingSum left right).toNat = min lastMillis (left.toNat + right.toNat) := by
  have last : lastMillis = 2 ^ 64 - 1 := rfl
  have leftSize := left.toNat_lt
  have rightSize := right.toNat_lt
  have sum : (left + right).toNat = (left.toNat + right.toNat) % 2 ^ 64 := UInt64.toNat_add left right
  rw [saturatingSum]
  split
  · rename_i wrapped
    rw [UInt64.lt_iff_toNat_lt] at wrapped
    rw [UInt64.toNat_ofNat']
    omega
  · rename_i whole
    rw [UInt64.lt_iff_toNat_lt] at whole
    omega

namespace AnchoredClock

/-- The time of the anchor since 1970, if it does not lie before. -/
def Since (clock : AnchoredClock) : Option Span → Prop
  | some span => clock.anchor = span.nanoseconds
  | none => clock.anchor < 0

/-- The reading in machine words. -/
def wordReading (since : Option Span) (elapsed : Span) : UInt64 :=
  saturatingSum (since.elim 0 Span.millis) elapsed.millis

/-- The millisecond that an exact clock would show. -/
def trueMillis (clock : AnchoredClock) (elapsed : Nat) : Int := (clock.anchor + elapsed) / 1000000

variable {clock : AnchoredClock}

theorem toNat_wordReading {since : Option Span} (anchored : clock.Since since) (elapsed : Span) :
    (wordReading since elapsed).toNat = clock.reading elapsed.nanoseconds := by
  have start : (since.elim 0 Span.millis).toNat = wallMillis clock.anchor := by
    cases since with
    | none =>
      have early : clock.anchor < 0 := anchored
      have none : clock.anchor.toNat = 0 := by omega
      rw [wallMillis, none]
      rfl
    | some span =>
      have anchor : clock.anchor = span.nanoseconds := anchored
      have same : clock.anchor.toNat = span.nanoseconds := by omega
      rw [wallMillis, same]
      exact span.toNat_millis
  rw [wordReading, toNat_saturatingSum, start, elapsed.toNat_millis, reading]

theorem reading_eq (clock : AnchoredClock) (elapsed : Nat) :
    clock.reading elapsed = min lastMillis (clock.anchor.toNat / 1000000 + elapsed / 1000000) := by
  rw [reading, wallMillis]
  omega

theorem reading_le (clock : AnchoredClock) {earlier later : Nat} (le : earlier ≤ later) :
    clock.reading earlier ≤ clock.reading later := by
  have whole : earlier / 1000000 ≤ later / 1000000 := Nat.div_le_div_right le
  rw [reading_eq, reading_eq]
  omega

/-- What a reading is worth. One from before 1970 counts from zero; any other is the true millisecond,
or the one before if the parts below a millisecond come to a whole one, up to the last of all. -/
structure Tells (clock : AnchoredClock) (elapsed reading : Nat) : Prop where
  word : reading < UInt64.size
  early : clock.anchor < 0 → reading = min lastMillis (elapsed / 1000000)
  near : 0 ≤ clock.anchor → clock.trueMillis elapsed ≤ lastMillis →
    clock.trueMillis elapsed - 1 ≤ reading ∧ reading ≤ clock.trueMillis elapsed
  short_iff : 0 ≤ clock.anchor → clock.trueMillis elapsed ≤ lastMillis →
    (reading < clock.trueMillis elapsed ↔ 1000000 ≤ clock.anchor % 1000000 + elapsed % 1000000)
  full : 0 ≤ clock.anchor → lastMillis < clock.trueMillis elapsed → reading = lastMillis

theorem tells_reading (clock : AnchoredClock) (elapsed : Nat) :
    clock.Tells elapsed (clock.reading elapsed) := by
  have last : lastMillis = 2 ^ 64 - 1 := rfl
  have sum : clock.trueMillis elapsed = (clock.anchor + elapsed) / 1000000 := rfl
  have shown := clock.reading_eq elapsed
  have small : clock.reading elapsed ≤ lastMillis := Nat.min_le_left ..
  constructor
  · exact Nat.lt_succ_of_le small
  · intro early
    omega
  · intro late fits
    omega
  · intro late fits
    omega
  · intro late beyond
    omega

/-- Readings of a clock, and of its copies, which share the anchor, never go back and tell the time to
the millisecond. Machine words give the same readings, without a number that they cannot hold. -/
theorem readings_keep_pace (clock : AnchoredClock) :
    (∀ earlier later, earlier ≤ later → clock.reading earlier ≤ clock.reading later) ∧
    (∀ elapsed, clock.Tells elapsed (clock.reading elapsed)) ∧
    (∀ span : Span, span.wideMillis.toNat = span.nanoseconds / 1000000) ∧
    ∀ since elapsed, clock.Since since →
      (wordReading since elapsed).toNat = clock.reading elapsed.nanoseconds :=
  ⟨fun _ _ => clock.reading_le, clock.tells_reading, Span.toNat_wideMillis,
    fun _ elapsed anchored => toNat_wordReading anchored elapsed⟩

def lateAnchor : Span := ⟨1606298343, 63999999, by decide⟩

def lateClock : AnchoredClock := ⟨1606298343063999999⟩

def tick : Span := ⟨0, 1, by decide⟩

/-- One nanosecond on, the true millisecond is the next one and the reading is still the old one. -/
theorem readings_keep_pace_late :
    lateClock.Since lateAnchor ∧ lateClock.reading 0 ≤ lateClock.reading 1 ∧
      lateClock.Tells 1 1606298343063 ∧ lateClock.trueMillis 1 = 1606298343064 ∧
      (wordReading lateAnchor tick).toNat = 1606298343063 := by
  have since : lateClock.Since lateAnchor := by
    simp [Since, Span.nanoseconds, lateClock, lateAnchor]
  have shown : lateClock.reading 1 = 1606298343063 := by simp [reading_eq, lateClock, lastMillis]
  have later : lateClock.trueMillis 1 = 1606298343064 := by simp [trueMillis, lateClock]
  have passed : tick.nanoseconds = 1 := by simp [Span.nanoseconds, tick]
  obtain ⟨forward, tells, -, words⟩ := lateClock.readings_keep_pace
  have told := tells 1
  have word := words lateAnchor tick since
  rw [shown] at told
  rw [passed, shown] at word
  exact ⟨since, forward 0 1 (by decide), told, later, word⟩

end AnchoredClock
end Mintmark
