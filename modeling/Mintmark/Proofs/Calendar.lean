import Mathlib.Algebra.Ring.Nat
import Mintmark.Calendar
import Mintmark.Proofs.Ordering

/-!
Dates of the calendar and day numbers are two names of the same days: each goes to the other and
back, and dates come in the order of their numbers.
-/
namespace Mintmark

theorem daysBeforeYear_succ (year : Int) :
    daysBeforeYear (year + 1) = daysBeforeYear year + if leapYear year then 366 else 365 := by
  unfold daysBeforeYear leapYear
  split <;> simp_all <;> omega

theorem daysBeforeYear_mono {left right : Int} (le : left ≤ right) :
    daysBeforeYear left ≤ daysBeforeYear right := by
  unfold daysBeforeYear
  omega

theorem yearOfDay_bounds (day : Int) :
    daysBeforeYear (yearOfDay day) ≤ day ∧ day < daysBeforeYear (yearOfDay day + 1) := by
  unfold yearOfDay
  dsimp only
  split
  · unfold daysBeforeYear at *
    omega
  · split
    · unfold daysBeforeYear at *
      omega
    · omega

theorem le_yearOfDay_iff (year day : Int) : year ≤ yearOfDay day ↔ daysBeforeYear year ≤ day := by
  obtain ⟨lower, upper⟩ := yearOfDay_bounds day
  constructor
  · intro le
    have begun := daysBeforeYear_mono le
    omega
  · intro begun
    apply Int.le_of_not_gt
    intro before
    have ended := daysBeforeYear_mono (by omega : yearOfDay day + 1 ≤ year)
    omega

theorem yearOfDay_eq {year day : Int} (begun : daysBeforeYear year ≤ day)
    (open_ : day < daysBeforeYear (year + 1)) : yearOfDay day = year := by
  have least := (le_yearOfDay_iff year day).2 begun
  have most : ¬ year + 1 ≤ yearOfDay day := by
    rw [le_yearOfDay_iff]
    omega
  omega

theorem sum_take_add_lt {lengths : List Nat} {index length rest : Nat}
    (found : lengths[index]? = some length) (inside : rest < length) :
    (lengths.take index).sum + rest < lengths.sum := by
  induction lengths generalizing index with
  | nil => simp at found
  | cons first lengths ih =>
    cases index with
    | zero =>
      have equal : first = length := by simpa using found
      simp
      omega
    | succ index =>
      have shorter := ih (by simpa using found)
      simp
      omega

theorem sum_take_add_lt_sum_take {lengths : List Nat} {index later length rest : Nat}
    (found : lengths[index]? = some length) (inside : rest < length) (before : index < later) :
    (lengths.take index).sum + rest < (lengths.take later).sum := by
  have kept : (lengths.take later)[index]? = some length := by simpa [before] using found
  have below := sum_take_add_lt kept inside
  rwa [List.take_take, Nat.min_eq_left (by omega)] at below

theorem locate_sum_take {lengths : List Nat} {index length rest : Nat}
    (found : lengths[index]? = some length) (inside : rest < length) :
    locate lengths ((lengths.take index).sum + rest) = (index, rest) := by
  induction lengths generalizing index with
  | nil => simp at found
  | cons first lengths ih =>
    cases index with
    | zero =>
      have equal : first = length := by simpa using found
      simp [locate, equal, inside]
    | succ index =>
      have shorter := ih (by simpa using found)
      have past : first + (lengths.take index).sum + rest - first = (lengths.take index).sum + rest := by
        omega
      simp [locate, shorter, past]
      omega

theorem locate_inside (lengths : List Nat) (place : Nat) (inside : place < lengths.sum) :
    ∃ length, lengths[(locate lengths place).1]? = some length ∧ (locate lengths place).2 < length ∧
      (lengths.take (locate lengths place).1).sum + (locate lengths place).2 = place := by
  induction lengths generalizing place with
  | nil => simp at inside
  | cons first lengths ih =>
    by_cases here : place < first
    · exact ⟨first, by simp [locate, here]⟩
    · simp at inside
      obtain ⟨length, found, small, total⟩ := ih (place - first) (by omega)
      refine ⟨length, ?_, ?_, ?_⟩
      · simpa [locate, here] using found
      · simpa [locate, here] using small
      · simp [locate, here]
        omega

theorem sum_monthLengths (year : Int) :
    (monthLengths year).sum = if leapYear year then 366 else 365 := by
  cases leap : leapYear year <;> simp [monthLengths, leap]

theorem monthLengths_le (year : Int) : ∀ length ∈ monthLengths year, length ≤ 31 := by
  cases leap : leapYear year <;> simp [monthLengths, leap]

namespace Date

def dayOfYear (date : Date) : Nat :=
  ((monthLengths date.year).take (date.month - 1)).sum + (date.day - 1)

theorem dayNumber_eq (date : Date) :
    date.dayNumber = daysBeforeYear date.year - daysBeforeYear 1970 + date.dayOfYear := rfl

theorem onCalendar_iff (date : Date) : date.onCalendar ↔
    1 ≤ date.month ∧ 1 ≤ date.day ∧
      ∃ length, (monthLengths date.year)[date.month - 1]? = some length ∧ date.day ≤ length := by
  cases found : (monthLengths date.year)[date.month - 1]? with
  | none =>
    simp [onCalendar, found]
    omega
  | some length =>
    have bound : date.month - 1 < 12 := by
      have := (List.getElem?_eq_some_iff.1 found).1
      simpa [monthLengths] using this
    simp [onCalendar, validMonth, found]
    omega

theorem month_day_le {date : Date} (real : date.onCalendar) : date.month ≤ 12 ∧ date.day ≤ 31 := by
  obtain ⟨month, day, length, found, small⟩ := date.onCalendar_iff.1 real
  have bound := (List.getElem?_eq_some_iff.1 found).1
  have longest := monthLengths_le date.year length (List.mem_of_getElem? found)
  simp only [monthLengths, List.length_cons, List.length_nil] at bound
  omega

theorem dayOfYear_lt {date : Date} (real : date.onCalendar) :
    date.dayOfYear < (monthLengths date.year).sum := by
  obtain ⟨_, positive, length, found, small⟩ := date.onCalendar_iff.1 real
  exact sum_take_add_lt found (by omega)

theorem dayNumber_bounds {date : Date} (real : date.onCalendar) :
    daysBeforeYear date.year ≤ date.dayNumber + daysBeforeYear 1970 ∧
      date.dayNumber + daysBeforeYear 1970 < daysBeforeYear (date.year + 1) := by
  have inside := dayOfYear_lt real
  rw [sum_monthLengths] at inside
  rw [dayNumber_eq, daysBeforeYear_succ]
  split at inside <;> simp_all <;> omega

theorem ofDayNumber_dayNumber {date : Date} (real : date.onCalendar) :
    ofDayNumber date.dayNumber = date := by
  obtain ⟨begun, open_⟩ := dayNumber_bounds real
  obtain ⟨month, day, length, found, small⟩ := date.onCalendar_iff.1 real
  have year := yearOfDay_eq begun open_
  have place : (date.dayNumber + daysBeforeYear 1970 - daysBeforeYear date.year).toNat =
      ((monthLengths date.year).take (date.month - 1)).sum + (date.day - 1) := by
    rw [dayNumber_eq, dayOfYear]
    omega
  simp only [ofDayNumber, year, place, locate_sum_take found (by omega : date.day - 1 < length),
    Nat.sub_add_cancel month, Nat.sub_add_cancel day]

theorem dayNumber_ofDayNumber (number : Int) :
    (ofDayNumber number).onCalendar ∧ (ofDayNumber number).dayNumber = number := by
  obtain ⟨begun, open_⟩ := yearOfDay_bounds (number + daysBeforeYear 1970)
  have inside : (number + daysBeforeYear 1970 -
      daysBeforeYear (yearOfDay (number + daysBeforeYear 1970))).toNat <
        (monthLengths (yearOfDay (number + daysBeforeYear 1970))).sum := by
    rw [daysBeforeYear_succ] at open_
    rw [sum_monthLengths]
    split <;> simp_all <;> omega
  obtain ⟨length, found, small, total⟩ := locate_inside _ _ inside
  constructor
  · rw [onCalendar_iff]
    exact ⟨by simp [ofDayNumber], by simp [ofDayNumber], length, by simpa [ofDayNumber] using found,
      by simpa [ofDayNumber, Nat.succ_le_iff] using small⟩
  · rw [dayNumber_eq]
    simp only [ofDayNumber, dayOfYear, Nat.add_sub_cancel, total]
    omega

def Occurs (date : Date) : Prop := ∃ number, ofDayNumber number = date

theorem occurs_iff {date : Date} : date.Occurs ↔ date.onCalendar := by
  constructor
  · rintro ⟨number, rfl⟩
    exact (dayNumber_ofDayNumber number).1
  · intro real
    exact ⟨date.dayNumber, ofDayNumber_dayNumber real⟩

theorem compare_dayNumber {left right : Date} (leftReal : left.onCalendar)
    (rightReal : right.onCalendar) :
    compare left.dayNumber right.dayNumber =
      (compare left.year right.year).then
        ((compare left.month right.month).then (compare left.day right.day)) := by
  obtain ⟨leftBegun, leftOpen⟩ := dayNumber_bounds leftReal
  obtain ⟨rightBegun, rightOpen⟩ := dayNumber_bounds rightReal
  apply compare_eq_then
  · intro earlier
    have := daysBeforeYear_mono (earlier : left.year + 1 ≤ right.year)
    omega
  · intro later
    have := daysBeforeYear_mono (later : right.year + 1 ≤ left.year)
    omega
  · intro sameYear
    obtain ⟨leftMonth, leftDay, leftLength, leftFound, leftSmall⟩ := left.onCalendar_iff.1 leftReal
    obtain ⟨rightMonth, rightDay, rightLength, rightFound, rightSmall⟩ :=
      right.onCalendar_iff.1 rightReal
    simp only [dayNumber_eq, dayOfYear, ← sameYear] at rightFound ⊢
    apply compare_eq_then
    · intro earlier
      have := sum_take_add_lt_sum_take leftFound (by omega : left.day - 1 < leftLength)
        (by omega : left.month - 1 < right.month - 1)
      omega
    · intro later
      have := sum_take_add_lt_sum_take rightFound (by omega : right.day - 1 < rightLength)
        (by omega : right.month - 1 < left.month - 1)
      omega
    · intro sameMonth
      rw [sameMonth]
      apply compare_eq_compare <;> omega

end Date
end Mintmark
