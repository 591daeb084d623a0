import Mintmark.Identifier.Suffix
import Mintmark.Identifier.Text
import Mintmark.Proofs.Calendar
import Mintmark.Proofs.Numeral

/-!
The fields of a suffix. Twenty-two digits and fields that fit their columns are the same thing;
fields without a flaw and the instants of the century, to the millisecond, are the same thing.
-/
namespace Mintmark.Suffix

def numbers (suffix : Suffix) : List Nat :=
  [suffix.year, suffix.month, suffix.day, suffix.hour, suffix.minute, suffix.second,
    suffix.millis, suffix.node, suffix.sequence]

def Fits (suffix : Suffix) : Prop := Numeral.Fits widths suffix.numbers

theorem digits_eq_row (suffix : Suffix) : suffix.digits = Numeral.row widths suffix.numbers := rfl

theorem digits_small (suffix : Suffix) : ∀ digit ∈ suffix.digits, digit < 10 :=
  Numeral.row_small widths suffix.numbers

theorem ofDigits_digits {suffix : Suffix} (fits : suffix.Fits) : ofDigits suffix.digits = suffix := by
  rw [digits_eq_row]
  unfold ofDigits
  rw [Numeral.columns_row fits]
  rfl

theorem numbers_ofDigits (digits : List Nat) :
    (ofDigits digits).numbers = Numeral.columns widths digits := rfl

theorem digits_ofDigits {digits : List Nat} (length : digits.length = width)
    (small : ∀ digit ∈ digits, digit < 10) : (ofDigits digits).digits = digits := by
  rw [digits_eq_row, numbers_ofDigits]
  exact Numeral.row_columns length small

theorem fits_ofDigits {digits : List Nat} (length : digits.length = width)
    (small : ∀ digit ∈ digits, digit < 10) : (ofDigits digits).Fits := by
  unfold Fits
  rw [numbers_ofDigits]
  exact Numeral.fits_columns length small

/-- Fields that name an instant of the century, a node and a sequence. -/
structure Real (suffix : Suffix) : Prop where
  year : suffix.year ≤ 99
  date : suffix.date.onCalendar
  hour : suffix.hour ≤ 23
  minute : suffix.minute ≤ 59
  second : suffix.second ≤ 59
  millis : suffix.millis ≤ 999
  node : suffix.node ≤ 9999
  sequence : suffix.sequence ≤ 999

theorem flaw_eq_none_iff (suffix : Suffix) : suffix.flaw = none ↔
    suffix.date.onCalendar ∧ suffix.hour ≤ 23 ∧ suffix.minute ≤ 59 ∧ suffix.second ≤ 59 := by
  have month (date : suffix.date.onCalendar) : suffix.date.validMonth := by
    simp only [Date.onCalendar, Bool.and_eq_true] at date
    exact date.1.1
  unfold flaw
  split
  · rename_i invalid
    simpa using fun date => absurd (month date) invalid
  split
  · simp_all
  split
  · simp
    omega
  split
  · simp
    omega
  split
  · simp
    omega
  · simp_all

theorem Real.fits {suffix : Suffix} (real : suffix.Real) : suffix.Fits := by
  have bounds : suffix.month ≤ 12 ∧ suffix.day ≤ 31 := Date.month_day_le real.date
  obtain ⟨year, _, hour, minute, second, millis, node, sequence⟩ := real
  simp only [Fits, numbers, widths, Numeral.Fits, and_true]
  omega

theorem real_of_flaw {suffix : Suffix} (fits : suffix.Fits) (flawless : suffix.flaw = none) :
    suffix.Real := by
  simp only [Fits, numbers, widths, Numeral.Fits] at fits
  obtain ⟨date, hour, minute, second⟩ := (flaw_eq_none_iff suffix).1 flawless
  exact ⟨by omega, date, hour, minute, second, by omega, by omega, by omega⟩

theorem Real.flaw {suffix : Suffix} (real : suffix.Real) : suffix.flaw = none :=
  (flaw_eq_none_iff suffix).2 ⟨real.date, real.hour, real.minute, real.second⟩

theorem date_ofParts {instant : Instant} (node : Node) (sequence : UInt16)
    (begun : firstYear ≤ instant.date.year) :
    (ofParts instant node sequence).date = instant.date := by
  have year : firstYear + (instant.date.year - firstYear).toNat = instant.date.year := by omega
  simp only [date, ofParts, year]

theorem ofParts_real {instant : Instant} (node : Node) {sequence : UInt16}
    (begun : firstYear ≤ instant.date.year) (open_ : instant.date.year ≤ lastYear)
    (leapless : instant.nanos < 1000000000) (fits : sequence ≤ Stamp.maxSequence) :
    (ofParts instant node sequence).Real := by
  have seconds : instant.secondOfDay < 86400 := by
    unfold Instant.secondOfDay
    omega
  have last : sequence.toNat ≤ 999 := UInt16.le_iff_toNat_le.1 fits
  refine ⟨?_, ?_, ?_, ?_, ?_, ?_, ?_, last⟩
  · simp only [ofParts, firstYear, lastYear] at begun open_ ⊢
    omega
  · rw [date_ofParts node sequence begun]
    exact (Date.dayNumber_ofDayNumber _).1
  · simp only [ofParts, Instant.hour]
    omega
  · simp only [ofParts, Instant.minute]
    omega
  · simp only [ofParts, Instant.second]
    omega
  · simp only [ofParts, Instant.subsecondMillis]
    omega
  · have small := node.number.isLt
    simp only [ofParts]
    omega

theorem instant_ofParts {instant : Instant} (node : Node) (sequence : UInt16)
    (begun : firstYear ≤ instant.date.year) :
    (ofParts instant node sequence).instant = instant.truncate := by
  have day := (Date.dayNumber_ofDayNumber (instant.seconds / 86400)).2
  have time : ((instant.hour * 60 + instant.minute) * 60 + instant.second : Nat) =
      instant.secondOfDay := by
    simp only [Instant.hour, Instant.minute, Instant.second]
    omega
  have whole : instant.seconds / 86400 * 86400 + instant.secondOfDay = instant.seconds := by
    simp only [Instant.secondOfDay]
    omega
  have seconds : (ofParts instant node sequence).instant.seconds = instant.seconds := by
    rw [← whole, ← time, ← day]
    simp only [Suffix.instant, date_ofParts node sequence begun]
    rfl
  exact congrArg (Instant.mk · (instant.nanos / 1000000 * 1000000)) seconds

theorem Real.dayNumber {suffix : Suffix} (real : suffix.Real) :
    suffix.instant.seconds / 86400 = suffix.date.dayNumber ∧
      suffix.instant.secondOfDay = (suffix.hour * 60 + suffix.minute) * 60 + suffix.second := by
  obtain ⟨_, _, hour, minute, second, _, _, _⟩ := real
  simp only [Instant.secondOfDay, Suffix.instant]
  omega

theorem Real.date_instant {suffix : Suffix} (real : suffix.Real) : suffix.instant.date = suffix.date := by
  rw [Instant.date, real.dayNumber.1, Date.ofDayNumber_dayNumber real.date]

theorem Real.ofParts_instant {suffix : Suffix} (real : suffix.Real) :
    ofParts suffix.instant (.ofSeed suffix.node) suffix.sequence.toUInt16 = suffix := by
  have time := real.dayNumber.2
  have date := real.date_instant
  obtain ⟨_, _, hour, minute, second, millis, node, sequence⟩ := real
  have hourEq : suffix.instant.hour = suffix.hour := by
    rw [Instant.hour, time]
    omega
  have minuteEq : suffix.instant.minute = suffix.minute := by
    rw [Instant.minute, time]
    omega
  have secondEq : suffix.instant.second = suffix.second := by
    rw [Instant.second, time]
    omega
  have millisEq : suffix.instant.subsecondMillis = suffix.millis := by
    simp only [Instant.subsecondMillis, Suffix.instant]
    omega
  have nodeEq : ((Node.ofSeed suffix.node).number : Nat) = suffix.node := by
    simp only [Node.ofSeed]
    omega
  have sequenceEq : suffix.sequence.toUInt16.toNat = suffix.sequence := by
    simp
    omega
  have yearEq : (firstYear + (suffix.year : Int) - firstYear).toNat = suffix.year := by omega
  simp only [ofParts, date, Suffix.date, yearEq, hourEq, minuteEq, secondEq, millisEq, nodeEq, sequenceEq]

end Mintmark.Suffix
