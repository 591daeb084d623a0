import Mathlib.Data.Int.ModEq
import Mathlib.Tactic.Ring
import Mintmark.Partition
import Mintmark.Proofs.Identifier.Suffix

/-!
The hash of a text is a polynomial in 31, cut down to 32 bits with a sign. The last three digits of a
suffix are its lowest coefficients; along a whole millisecond they lead into every partition, if there
are not too many.
-/
namespace Mintmark

def polynomial (units : List Nat) : Int :=
  units.foldl (fun (value : Int) (unit : Nat) => value * 31 + unit) 0

private theorem foldl_from (units : List Nat) : ∀ start : Int,
    units.foldl (fun (value : Int) (unit : Nat) => value * 31 + unit) start =
      start * 31 ^ units.length + polynomial units := by
  induction units with
  | nil =>
    intro start
    simp [polynomial]
  | cons unit units rest =>
    intro start
    rw [polynomial, List.foldl_cons, List.foldl_cons, rest, rest, List.length_cons]
    ring

theorem polynomial_append (front back : List Nat) :
    polynomial (front ++ back) = polynomial front * 31 ^ back.length + polynomial back := by
  rw [polynomial, List.foldl_append]
  exact foldl_from back (polynomial front)

theorem foldl_ofInt (units : List Nat) : ∀ start : Int,
    units.foldl (fun hash unit => hash * 31 + Int32.ofNat unit) (Int32.ofInt start) =
      Int32.ofInt (units.foldl (fun (value : Int) (unit : Nat) => value * 31 + unit) start) := by
  induction units with
  | nil =>
    intro start
    rfl
  | cons unit units rest =>
    intro start
    have step : Int32.ofInt start * 31 + Int32.ofNat unit = Int32.ofInt (start * 31 + unit) := by
      rw [Int32.ofInt_add, Int32.ofInt_mul, Int32.ofInt_eq_ofNat]
      rfl
    rw [List.foldl_cons, step, rest]
    rfl

theorem toInt_polynomialHash (text : String) :
    (polynomialHash text).toInt = (polynomial (Text.units text)).bmod (2 ^ 32) := by
  have whole : polynomialHash text = Int32.ofInt (polynomial (Text.units text)) :=
    foldl_ofInt (Text.units text) 0
  rw [whole, Int32.toInt_ofInt]
  rfl

theorem Text.units_digitChars {digits : List Nat} (small : ∀ digit ∈ digits, digit < 10)
    (front : String) : Text.units (front ++ String.ofList (digits.map Nat.digitChar)) =
      Text.units front ++ digits.map (48 + ·) := by
  have single : ∀ digit < 10, Text.unitsOf (Nat.digitChar digit) = [48 + digit] := by decide
  have each : (digits.map Nat.digitChar).flatMap Text.unitsOf = digits.map (48 + ·) := by
    rw [List.flatMap_map, List.map_eq_flatMap, List.flatMap_def, List.flatMap_def,
      List.map_congr_left fun digit member => single digit (small digit member)]
  rw [Text.units, String.toList_append, String.toList_ofList, List.flatMap_append, each]
  rfl

namespace Suffix

/-- What the three digits of a sequence add to the hash of a text that ends in them. -/
def weight (sequence : Nat) : Nat :=
  961 * (sequence / 100) + 31 * (sequence / 10 % 10) + sequence % 10

theorem polynomial_sequence {sequence : Nat} (small : sequence ≤ 999) :
    polynomial ((Numeral.digits 3 sequence).map (48 + ·)) = 47664 + weight sequence := by
  have digits : Numeral.digits 3 sequence =
      [sequence / 10 / 10 % 10, sequence / 10 % 10, sequence % 10] := rfl
  rw [digits, polynomial, weight]
  simp only [List.map_cons, List.map_nil, List.foldl_cons, List.foldl_nil]
  omega

/-- Behind one label, at one millisecond and on one node, the hash is that of the sequence but for a
constant. -/
theorem exists_base (label : String) (instant : Instant) (node : Node) : ∃ base : Int,
    ∀ sequence : UInt16, sequence ≤ Stamp.maxSequence →
      (polynomialHash (label ++ String.ofList (ofParts instant node sequence).characters)).toInt =
        (base + weight sequence.toNat).bmod (2 ^ 32) := by
  let front := (ofParts instant node 0).digits.take 19
  refine ⟨polynomial (Text.units label ++ front.map (48 + ·)) * 31 ^ 3 + 47664, ?_⟩
  intro sequence fits
  have small : sequence.toNat ≤ 999 := UInt16.le_iff_toNat_le.1 fits
  have split : (ofParts instant node sequence).digits = front ++ Numeral.digits 3 sequence.toNat := by
    simp [front, digits, ofParts, Numeral.row, widths, Numeral.digits]
  rw [toInt_polynomialHash, characters, Text.units_digitChars (digits_small _), split,
    List.map_append, ← List.append_assoc, polynomial_append, polynomial_sequence small,
    List.length_map, Numeral.length_digits, Int.add_assoc]

/-- The weights of two hundreds of sequences have every residue. One hundred would not do for the
largest of the moduli. -/
theorem exists_residue {count : Nat} (positive : 0 < count) (few : count ≤ 29) (target : Int) :
    ∃ sequence < 200, (weight sequence : Int) ≡ target [ZMOD count] := by
  have all : ∀ count < 30, ∀ residue < count,
      residue ∈ (List.range 200).map fun sequence => weight sequence % count := by
    decide +kernel
  have above := Int.emod_nonneg target (by omega : (count : Int) ≠ 0)
  have below := Int.emod_lt_of_pos target (by omega : (0 : Int) < count)
  obtain ⟨sequence, inside, residue⟩ :=
    List.mem_map.1 (all count (by omega) (target % count).toNat (by omega))
  refine ⟨sequence, List.mem_range.1 inside, ?_⟩
  rw [Int.ModEq]
  omega

theorem weight_lt {sequence : Nat} (inside : sequence < 200) : weight sequence ≤ 1249 := by
  unfold weight
  omega

theorem weight_top (sequence : Nat) : weight (800 + sequence) = 7688 + weight sequence := by
  unfold weight
  omega

/-- The absolute value of a signed number of 32 bits turns round at zero and at the ends. It does not
do so twice in one millisecond: along its first two hundreds or along its last two it goes up, or it
goes down. -/
theorem exists_run (base : Int) : ∃ first ≤ 800, ∃ offset : Int,
    (∀ sequence < 200,
      (((base + weight (first + sequence)).bmod (2 ^ 32)).natAbs : Int) =
        offset + weight sequence) ∨
    (∀ sequence < 200,
      (((base + weight (first + sequence)).bmod (2 ^ 32)).natAbs : Int) =
        offset - weight sequence) := by
  obtain ⟨least, most⟩ : -2 ^ 31 ≤ base.bmod (2 ^ 32) ∧ base.bmod (2 ^ 32) < 2 ^ 31 := by
    rw [Int.bmod_def]
    omega
  have reduced (added : Nat) : (base + added).bmod (2 ^ 32) =
      (base.bmod (2 ^ 32) + added).bmod (2 ^ 32) :=
    (Int.bmod_add_bmod ..).symm
  simp only [reduced]
  generalize base.bmod (2 ^ 32) = start at least most
  rcases lt_or_ge start 0 with negative | positive
  · rcases le_or_gt (start + 1249) 0 with falling | rising
    · refine ⟨0, by decide, -start, .inr fun sequence inside => ?_⟩
      have small := weight_lt inside
      rw [Nat.zero_add, Int.bmod_def]
      omega
    · refine ⟨800, by decide, start + 7688, .inl fun sequence inside => ?_⟩
      have small := weight_lt inside
      rw [weight_top, Int.bmod_def]
      omega
  · rcases lt_or_ge (start + 1249) (2 ^ 31) with rising | falling
    · refine ⟨0, by decide, start, .inl fun sequence inside => ?_⟩
      have small := weight_lt inside
      rw [Nat.zero_add, Int.bmod_def]
      omega
    · refine ⟨800, by decide, 2 ^ 32 - start - 7688, .inr fun sequence inside => ?_⟩
      have small := weight_lt inside
      rw [weight_top, Int.bmod_def]
      omega

/-- Wherever the constant puts them, the thousand hashes of a millisecond reach every partition. -/
theorem exists_inside (base : Int) {count partition : Nat} (few : count ≤ 29)
    (inside : partition < count) : ∃ sequence ≤ 999,
      ((base + weight sequence).bmod (2 ^ 32)).natAbs % count = partition := by
  have positive : 0 < count := by omega
  obtain ⟨first, low, offset, rising | falling⟩ := exists_run base
  · obtain ⟨sequence, small, residue⟩ := exists_residue positive few (partition - offset)
    refine ⟨first + sequence, by omega, ?_⟩
    have reached : ((((base + weight (first + sequence)).bmod (2 ^ 32)).natAbs : Nat) : Int) ≡
        partition [ZMOD count] := by
      have step := residue.add_left offset
      rwa [← rising sequence small, add_sub_cancel] at step
    exact Nat.mod_eq_of_modEq (Int.natCast_modEq_iff.1 reached) inside
  · obtain ⟨sequence, small, residue⟩ := exists_residue positive few (offset - partition)
    refine ⟨first + sequence, by omega, ?_⟩
    have reached : ((((base + weight (first + sequence)).bmod (2 ^ 32)).natAbs : Nat) : Int) ≡
        partition [ZMOD count] := by
      have step := residue.sub_left offset
      rwa [← falling sequence small, sub_sub_self] at step
    exact Nat.mod_eq_of_modEq (Int.natCast_modEq_iff.1 reached) inside

end Suffix
end Mintmark
