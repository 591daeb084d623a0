import Mathlib.Algebra.Ring.Nat
import Mintmark.Numeral
import Mintmark.Proofs.Ordering

/-!
Rows of numerals. Numbers that fit their columns can be read back out of the row, every row of
digits comes from such numbers, and rows come in the order of their numbers.
-/
namespace Mintmark.Numeral

def Fits : List Nat → List Nat → Prop
  | [], [] => True
  | width :: widths, number :: numbers => number < 10 ^ width ∧ Fits widths numbers
  | _, _ => False

theorem ofDigits_digits (width number : Nat) : ofDigits (digits width number) = number % 10 ^ width := by
  induction width generalizing number with
  | zero => simp [digits, ofDigits, Nat.mod_one]
  | succ width shorter =>
    rw [digits, ofDigits_append_singleton, shorter, Nat.pow_succ, Nat.mul_comm (10 ^ width) 10,
      Nat.mod_mul]
    omega

theorem compare_digits_append {width left right : Nat} {leftRest rightRest : List Nat}
    (leftFits : left < 10 ^ width) (rightFits : right < 10 ^ width) :
    compare (digits width left ++ leftRest) (digits width right ++ rightRest) =
      (compare left right).then (compare leftRest rightRest) := by
  induction width generalizing left right leftRest rightRest with
  | zero =>
    have leftZero : left = 0 := by simpa using leftFits
    have rightZero : right = 0 := by simpa using rightFits
    simp [digits, leftZero, rightZero]
  | succ width ih =>
    have leftFront : left / 10 < 10 ^ width := by rw [Nat.pow_succ] at leftFits; omega
    have rightFront : right / 10 < 10 ^ width := by rw [Nat.pow_succ] at rightFits; omega
    simp only [digits, List.append_assoc, List.cons_append, List.nil_append]
    rw [ih leftFront rightFront, List.compare_cons_cons, ← Ordering.then_assoc,
      compare_div_mod 10 left right]

theorem compare_row {widths lefts rights : List Nat} (leftFits : Fits widths lefts)
    (rightFits : Fits widths rights) :
    compare (row widths lefts) (row widths rights) = compare lefts rights := by
  induction widths generalizing lefts rights with
  | nil =>
    cases lefts with
    | nil =>
      cases rights with
      | nil => rfl
      | cons => exact rightFits.elim
    | cons => exact leftFits.elim
  | cons width widths ih =>
    cases lefts with
    | nil => exact leftFits.elim
    | cons left lefts =>
      cases rights with
      | nil => exact rightFits.elim
      | cons right rights =>
        rw [row, row, compare_digits_append leftFits.1 rightFits.1, ih leftFits.2 rightFits.2,
          List.compare_cons_cons]

theorem columns_row {widths numbers : List Nat} (fits : Fits widths numbers) :
    columns widths (row widths numbers) = numbers := by
  induction widths generalizing numbers with
  | nil =>
    cases numbers with
    | nil => rfl
    | cons => exact fits.elim
  | cons width widths ih =>
    cases numbers with
    | nil => exact fits.elim
    | cons number numbers =>
      have taken : (digits width number ++ row widths numbers).take width = digits width number := by
        simp [length_digits]
      have dropped : (digits width number ++ row widths numbers).drop width = row widths numbers := by
        simp [length_digits]
      simp only [row, columns, taken, dropped, ih fits.2, ofDigits_digits,
        Nat.mod_eq_of_lt fits.1]

theorem digits_ofDigits {row : List Nat} (small : ∀ digit ∈ row, digit < 10) :
    digits row.length (ofDigits row) = row := by
  induction length : row.length generalizing row with
  | zero => simpa [digits] using (List.length_eq_zero_iff.1 length).symm
  | succ width ih =>
    have nonempty : row ≠ [] := by
      rintro rfl
      simp at length
    obtain ⟨front, last, rfl⟩ : ∃ front last, row = front ++ [last] :=
      ⟨_, _, (List.dropLast_concat_getLast nonempty).symm⟩
    have lastSmall := small last (by simp)
    have frontSmall : ∀ digit ∈ front, digit < 10 := fun digit member => small digit (by simp [member])
    have frontDigits := ih frontSmall (by simpa using length)
    have shifted : (ofDigits front * 10 + last) / 10 = ofDigits front := by omega
    have kept : (ofDigits front * 10 + last) % 10 = last := by omega
    rw [ofDigits_append_singleton, digits, shifted, kept, frontDigits]

theorem ofDigits_lt {row : List Nat} (small : ∀ digit ∈ row, digit < 10) :
    ofDigits row < 10 ^ row.length := by
  have whole := ofDigits_digits row.length (ofDigits row)
  rw [digits_ofDigits small] at whole
  rw [whole]
  exact Nat.mod_lt _ (Nat.pow_pos (by decide))

theorem fits_columns {widths row : List Nat} (length : row.length = widths.sum)
    (small : ∀ digit ∈ row, digit < 10) : Fits widths (columns widths row) := by
  induction widths generalizing row with
  | nil => trivial
  | cons width widths ih =>
    rw [List.sum_cons] at length
    refine ⟨?_, ih (by simp; omega) fun digit member => small digit (List.mem_of_mem_drop member)⟩
    have first : ∀ digit ∈ row.take width, digit < 10 :=
      fun digit member => small digit (List.mem_of_mem_take member)
    have bound := ofDigits_lt first
    rwa [List.length_take, Nat.min_eq_left (by omega)] at bound

theorem row_columns {widths numbers : List Nat} (length : numbers.length = widths.sum)
    (small : ∀ digit ∈ numbers, digit < 10) : row widths (columns widths numbers) = numbers := by
  induction widths generalizing numbers with
  | nil => simpa [row] using (List.length_eq_zero_iff.1 length).symm
  | cons width widths ih =>
    rw [List.sum_cons] at length
    have first : ∀ digit ∈ numbers.take width, digit < 10 :=
      fun digit member => small digit (List.mem_of_mem_take member)
    have front := digits_ofDigits first
    rw [List.length_take, Nat.min_eq_left (by omega)] at front
    rw [columns, row, front, ih (by simp; omega) fun digit member =>
      small digit (List.mem_of_mem_drop member), List.take_append_drop]

theorem row_small (widths numbers : List Nat) : ∀ digit ∈ row widths numbers, digit < 10 := by
  induction widths generalizing numbers with
  | nil => simp [row]
  | cons width widths ih =>
    cases numbers with
    | nil => simp [row]
    | cons number numbers =>
      intro digit member
      rw [row, List.mem_append] at member
      rcases member with first | later
      · exact digit_lt width number digit first
      · exact ih numbers digit later

theorem map_toNat_digitChars {numerals : List Nat} (small : ∀ digit ∈ numerals, digit < 10) :
    (numerals.map Nat.digitChar).map (fun character => character.toNat - 48) = numerals := by
  rw [List.map_map]
  exact (List.map_congr_left fun digit member =>
    Nat.toNat_digitChar_sub_48_of_lt_ten (small digit member)).trans (List.map_id _)

end Mintmark.Numeral
