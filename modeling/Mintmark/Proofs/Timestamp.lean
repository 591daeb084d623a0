import Mathlib.Data.List.Forall2
import Mintmark.Proofs.Identifier.Writing

/-!
Timestamps. They show an instant to the millisecond, so in the years of four digits they are read back.
-/
namespace Mintmark

namespace Numeral

def marked : List (Nat × Char) → List Nat → List Char
  | (width, mark) :: columns, number :: numbers =>
    (digits width number).map Nat.digitChar ++ mark :: marked columns numbers
  | _, _ => []

theorem isDigit_of_mem_digits {width number : Nat} :
    ∀ character ∈ (digits width number).map Nat.digitChar, character.isDigit = true := by
  intro character member
  obtain ⟨digit, present, rfl⟩ := List.mem_map.1 member
  simpa [Nat.isDigit_digitChar] using digit_lt width number digit present

theorem filter_marked {columns : List (Nat × Char)}
    (marks : ∀ column ∈ columns, column.2.isDigit = false) (numbers : List Nat) :
    (marked columns numbers).filter Char.isDigit =
      (row (columns.map Prod.fst) numbers).map Nat.digitChar := by
  induction columns generalizing numbers with
  | nil => rfl
  | cons column columns ih =>
    obtain ⟨mark, later⟩ := List.forall_mem_cons.1 marks
    cases numbers with
    | nil => rfl
    | cons number numbers =>
      rw [marked, List.filter_append, List.filter_eq_self.2 isDigit_of_mem_digits,
        List.filter_cons_of_neg (by simp [mark]), ih later, List.map_cons, row, List.map_append]

end Numeral

namespace Instant

/-- A digit stands for a zero, and every other character for itself. -/
def Slot (slot character : Char) : Prop :=
  if slot = '0' then character.isDigit = true else character = slot

instance (slot character : Char) : Decidable (Slot slot character) :=
  inferInstanceAs (Decidable (if slot = '0' then character.isDigit = true else character = slot))

def pattern : List Char := "0000-00-00T00:00:00.000Z".toList

def Timestamp (stamp : String) : Prop := List.Forall₂ Slot pattern stamp.toList

instance : DecidablePred Timestamp := fun stamp =>
  decidable_of_iff
    (pattern.length = stamp.toList.length ∧
      ∀ pair ∈ pattern.zip stamp.toList, Slot pair.1 pair.2)
    (by simp [Timestamp, List.forall₂_iff_zip])

def stampDigits (stamp : String) : List Char := stamp.toList.filter Char.isDigit

def stampColumns : List (Nat × Char) :=
  [(4, '-'), (2, '-'), (2, 'T'), (2, ':'), (2, ':'), (2, '.'), (3, 'Z')]

def stampNumbers (instant : Instant) : List Nat :=
  [instant.date.year.toNat, instant.date.month, instant.date.day, instant.hour, instant.minute,
    instant.second, instant.subsecondMillis]

/-- The instant that a timestamp shows, if there is such a date and such a time of day. -/
def ofTimestamp? (stamp : String) : Option Instant :=
  if Timestamp stamp then
    match Numeral.columns (stampColumns.map Prod.fst)
      ((stampDigits stamp).map fun character => character.toNat - 48) with
    | [year, month, day, hour, minute, second, millis] =>
      let date : Date := ⟨year, month, day⟩
      if date.onCalendar ∧ hour ≤ 23 ∧ minute ≤ 59 ∧ second ≤ 59 then
        some ⟨date.dayNumber * 86400 + ((hour * 60 + minute) * 60 + second : Nat), millis * 1000000⟩
      else none
    | _ => none
  else none

theorem toList_timestamp (instant : Instant) :
    instant.timestamp.toList = Numeral.marked stampColumns instant.stampNumbers := by
  simp [timestamp, toString, Numeral.padded, Numeral.marked, stampColumns, stampNumbers]

theorem forall₂_slot_digits (width number : Nat) :
    List.Forall₂ Slot ((Numeral.digits width 0).map Nat.digitChar)
      ((Numeral.digits width number).map Nat.digitChar) := by
  induction width generalizing number with
  | zero => exact .nil
  | succ width shorter =>
    have last : Slot '0' (Nat.digitChar (number % 10)) :=
      Nat.isDigit_digitChar.trans (decide_eq_true (Nat.mod_lt _ (by decide)))
    rw [Numeral.digits, Numeral.digits, List.map_append, List.map_append]
    exact List.rel_append (shorter (number / 10)) (.cons last .nil)

theorem forall₂_slot_marked {columns : List (Nat × Char)}
    (marks : ∀ column ∈ columns, column.2 ≠ '0') (numbers : List Nat) :
    List.Forall₂ Slot (Numeral.marked columns (numbers.map fun _ => 0))
      (Numeral.marked columns numbers) := by
  induction columns generalizing numbers with
  | nil => exact .nil
  | cons column columns ih =>
    obtain ⟨mark, later⟩ := List.forall_mem_cons.1 marks
    cases numbers with
    | nil => exact .nil
    | cons number numbers =>
      have same : Slot column.2 column.2 := by rw [Slot, if_neg mark]
      rw [List.map_cons, Numeral.marked, Numeral.marked]
      exact List.rel_append (forall₂_slot_digits column.1 number) (.cons same (ih later numbers))

theorem timestamp_timestamp (instant : Instant) : Timestamp instant.timestamp := by
  have zeros : pattern = Numeral.marked stampColumns [0, 0, 0, 0, 0, 0, 0] := by decide
  rw [Timestamp, toList_timestamp, zeros]
  exact forall₂_slot_marked (by decide) instant.stampNumbers

theorem stampDigits_timestamp (instant : Instant) : stampDigits instant.timestamp =
    (Numeral.row (stampColumns.map Prod.fst) instant.stampNumbers).map Nat.digitChar := by
  rw [stampDigits, toList_timestamp, Numeral.filter_marked (by decide)]

theorem ofTimestamp?_timestamp {instant : Instant} (begun : 0 ≤ instant.date.year)
    (open_ : instant.date.year ≤ 9999) (leapless : instant.nanos < 1000000000) :
    ofTimestamp? instant.timestamp = some instant.truncate := by
  have civil := instant.civil
  have bounds := Date.month_day_le civil.date
  have millis : instant.subsecondMillis ≤ 999 := by
    rw [subsecondMillis]
    omega
  have fits : Numeral.Fits (stampColumns.map Prod.fst) instant.stampNumbers := by
    have hour := civil.hour
    have minute := civil.minute
    have second := civil.second
    simp only [stampColumns, stampNumbers, List.map_cons, List.map_nil, Numeral.Fits, and_true]
    omega
  have year : (⟨(instant.date.year.toNat : Int), instant.date.month, instant.date.day⟩ : Date) =
      instant.date := by
    rw [Int.toNat_of_nonneg begun]
  rw [ofTimestamp?, if_pos (timestamp_timestamp instant), stampDigits_timestamp,
    Numeral.map_toNat_digitChars (Numeral.row_small _ _), Numeral.columns_row fits]
  simp only [stampNumbers, year]
  rw [if_pos ⟨civil.date, civil.hour, civil.minute, civil.second⟩, ← civil.seconds]
  rfl

end Instant
end Mintmark
