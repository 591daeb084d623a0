import Mathlib.Data.List.Basic
import Mintmark.Proofs.Calendar
import Mintmark.Proofs.Ordering
import Mintmark.Instant

/-!
Instants as numbers of nanoseconds, and those of whole milliseconds: the years they fall into, and
their order.
-/
namespace Mintmark.Instant

def nanoseconds (instant : Instant) : Int := instant.seconds * 1000000000 + instant.nanos

theorem millis_eq_div (instant : Instant) : instant.millis = instant.nanoseconds / 1000000 := by
  rw [millis, nanoseconds]
  omega

theorem compare_eq_compare_nanoseconds {left right : Instant} (leftLeapless : left.nanos < 1000000000)
    (rightLeapless : right.nanos < 1000000000) :
    compare left right = compare left.nanoseconds right.nanoseconds := by
  have parts : compare left right =
      (compare left.seconds right.seconds).then (compare left.nanos right.nanos) := rfl
  rw [parts, nanoseconds, nanoseconds]
  symm
  apply compare_eq_then
  · omega
  · omega
  · intro same
    apply compare_eq_compare <;> omega

theorem le_year_iff (year : Int) (instant : Instant) :
    year ≤ instant.date.year ↔
      (daysBeforeYear year - daysBeforeYear 1970) * 86400 ≤ instant.seconds := by
  have begun : year ≤ instant.date.year ↔
      daysBeforeYear year ≤ instant.seconds / 86400 + daysBeforeYear 1970 :=
    le_yearOfDay_iff year _
  rw [begun]
  omega

theorem firstYear_le_iff_seconds (instant : Instant) :
    2000 ≤ instant.date.year ↔ 946684800 ≤ instant.seconds :=
  le_year_iff 2000 instant

theorem lastYear_lt_iff_seconds (instant : Instant) :
    2099 < instant.date.year ↔ 4102444800 ≤ instant.seconds :=
  le_year_iff (2099 + 1) instant

theorem millis_latest : latest.millis = 8210266876799999 := rfl

theorem nanoseconds_latest : latest.nanoseconds = 8210266876799999999999 := rfl

section OfMillis
variable (millis : UInt64)

theorem seconds_ofMillis :
    (ofMillis millis).seconds = (min (millis.toNat / 1000) 8210266876799 : Nat) := by
  unfold ofMillis
  rw [millis_latest]
  split
  · dsimp only
    omega
  · dsimp only [latest]
    omega

theorem nanos_ofMillis_lt : (ofMillis millis).nanos < 1000000000 := by
  unfold ofMillis
  split
  · dsimp only
    omega
  · decide

theorem nanoseconds_ofMillis :
    (ofMillis millis).nanoseconds = min (millis.toNat * 1000000 : Int) latest.nanoseconds := by
  rw [nanoseconds_latest]
  unfold ofMillis
  rw [millis_latest]
  split
  · rw [nanoseconds]
    dsimp only
    omega
  · rw [nanoseconds_latest]
    omega

theorem millis_ofMillis_eq_min :
    (ofMillis millis).millis = min (millis.toNat : Int) 8210266876799999 := by
  rw [millis_eq_div, nanoseconds_ofMillis, nanoseconds_latest]
  omega

end OfMillis

theorem compare_ofMillis_eq_min (left right : UInt64) :
    compare (ofMillis left) (ofMillis right) =
      compare (min left.toNat 8210266876800000) (min right.toNat 8210266876800000) := by
  rw [compare_eq_compare_nanoseconds (nanos_ofMillis_lt left) (nanos_ofMillis_lt right),
    nanoseconds_ofMillis, nanoseconds_ofMillis, nanoseconds_latest]
  apply compare_eq_compare <;> omega

/-- The first millisecond of the year 2000. -/
def firstPrintable : UInt64 := 946684800000

/-- The last millisecond of the year 2099. -/
def lastPrintable : UInt64 := 4102444799999

theorem firstPrintable_le_iff {millis : UInt64} :
    firstPrintable ≤ millis ↔ 946684800000 ≤ millis.toNat := UInt64.le_iff_toNat_le

theorem le_lastPrintable_iff {millis : UInt64} :
    millis ≤ lastPrintable ↔ millis.toNat ≤ 4102444799999 := UInt64.le_iff_toNat_le

theorem firstYear_le_iff (millis : UInt64) :
    2000 ≤ (ofMillis millis).date.year ↔ firstPrintable ≤ millis := by
  rw [firstYear_le_iff_seconds, seconds_ofMillis, firstPrintable_le_iff]
  omega

theorem lastYear_lt_iff (millis : UInt64) :
    2099 < (ofMillis millis).date.year ↔ lastPrintable < millis := by
  rw [lastYear_lt_iff_seconds, seconds_ofMillis, ← UInt64.not_le, le_lastPrintable_iff]
  omega

theorem ofMillis_eq {millis : UInt64} (within : millis ≤ lastPrintable) :
    ofMillis millis = ⟨(millis.toNat / 1000 : Nat), millis.toNat % 1000 * 1000000⟩ := by
  rw [le_lastPrintable_iff] at within
  rw [ofMillis, millis_latest, if_pos (by omega)]

theorem millis_ofMillis {millis : UInt64} (within : millis ≤ lastPrintable) :
    (ofMillis millis).millis = millis.toNat := by
  rw [le_lastPrintable_iff] at within
  rw [millis_ofMillis_eq_min]
  omega

theorem truncate_ofMillis {millis : UInt64} (within : millis ≤ lastPrintable) :
    (ofMillis millis).truncate = ofMillis millis := by
  have whole : millis.toNat % 1000 * 1000000 / 1000000 * 1000000 = millis.toNat % 1000 * 1000000 := by
    omega
  rw [ofMillis_eq within, truncate, whole]

theorem compare_ofMillis {left right : UInt64} (leftWithin : left ≤ lastPrintable)
    (rightWithin : right ≤ lastPrintable) :
    compare (ofMillis left) (ofMillis right) = compare left right := by
  rw [le_lastPrintable_iff] at leftWithin rightWithin
  rw [compare_ofMillis_eq_min, Nat.min_eq_left (by omega), Nat.min_eq_left (by omega),
    ← UInt64.compare_eq_toNat_compare_toNat]

end Mintmark.Instant
