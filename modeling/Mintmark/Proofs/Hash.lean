import Mathlib.Algebra.BigOperators.Fin
import Mathlib.Algebra.Order.Group.Unbundled.Int
import Mintmark.Proofs.Partition

/-!
The hash as a sum. Each UTF-16 unit counts 31 times for every unit behind it, and the sum wraps into
32 bits with a sign. So the hash of two texts in a row follows from theirs, and a partition is the
remainder of its absolute value, which an unsigned word holds even for the least number.
-/
namespace Mintmark

/-- A number is brought into the range of 32 bits with a sign by multiples of the whole range. -/
structure Wraps (whole value : Int) : Prop where
  least : -2 ^ 31 ≤ value
  most : value ≤ 2 ^ 31 - 1
  residue : value ≡ whole [ZMOD 2 ^ 32]

theorem wraps_iff {whole value : Int} : Wraps whole value ↔ value = whole.bmod (2 ^ 32) := by
  constructor
  · rintro ⟨least, most, residue⟩
    rw [Int.ModEq] at residue
    rw [Int.bmod_def]
    omega
  · rintro rfl
    refine ⟨?_, ?_, Int.bmod_emod⟩
    · rw [Int.bmod_def]
      omega
    · rw [Int.bmod_def]
      omega

theorem Wraps.congr {whole other value : Int} (wraps : Wraps whole value)
    (same : whole ≡ other [ZMOD 2 ^ 32]) : Wraps other value :=
  ⟨wraps.least, wraps.most, wraps.residue.trans same⟩

namespace Text

/-- The sum of the units, each one times 31 to the number of units behind it. -/
def weightedUnits (text : String) : Int :=
  ∑ place : Fin (units text).length,
    ((units text)[place] : Int) * 31 ^ ((units text).length - 1 - place)

theorem polynomial_eq_sum (units : List Nat) : polynomial units =
    ∑ place : Fin units.length, (units[place] : Int) * 31 ^ (units.length - 1 - place) := by
  induction units with
  | nil => rfl
  | cons unit units rest =>
    have front : polynomial [unit] = unit := by simp [polynomial]
    have whole := Fin.sum_univ_succ fun place : Fin (units.length + 1) =>
      ((unit :: units)[place] : Int) * 31 ^ (units.length + 1 - 1 - place)
    have later (place : Fin units.length) :
        units.length + 1 - 1 - place.succ = units.length - 1 - place := by
      rw [Fin.val_succ]
      omega
    simp only [later] at whole
    rw [← List.singleton_append, polynomial_append, front, rest]
    exact whole.symm

theorem units_append (front back : String) : units (front ++ back) = units front ++ units back := by
  rw [units, String.toList_append, List.flatMap_append]
  rfl

/-- Characters in UTF-16. One beyond the basic plane is two halves of ten bits, each in its own range of
surrogates. -/
inductive Utf16 : List Char → List Nat → Prop
  | nil : Utf16 [] []
  | single {character : Char} {characters : List Char} {units : List Nat}
    (basic : character.toNat < 0x10000) (later : Utf16 characters units) :
    Utf16 (character :: characters) (character.toNat :: units)
  | pair {character : Char} {characters : List Char} {units : List Nat} {high low : Nat}
    (upper : high < 0x400) (lower : low < 0x400)
    (code : character.toNat = 0x10000 + high * 0x400 + low) (later : Utf16 characters units) :
    Utf16 (character :: characters) ((0xD800 + high) :: (0xDC00 + low) :: units)

theorem utf16_flatMap (characters : List Char) : Utf16 characters (characters.flatMap unitsOf) := by
  induction characters with
  | nil => exact .nil
  | cons character characters later =>
    have bound : character.toNat < 0x110000 := by
      rcases character.valid with low | ⟨-, high⟩
      · exact Nat.lt_trans low (by decide)
      · exact high
    rw [List.flatMap_cons, unitsOf]
    split
    · rename_i basic
      exact .single basic later
    · exact .pair (by omega) (by omega) (by omega) later

end Text

theorem wraps_polynomial (text : String) :
    Wraps (polynomial (Text.units text)) (polynomialHash text).toInt :=
  wraps_iff.2 (toInt_polynomialHash text)

theorem wraps_append (front back : String) :
    Wraps ((polynomialHash front).toInt * 31 ^ (Text.units back).length + (polynomialHash back).toInt)
      (polynomialHash (front ++ back)).toInt := by
  have whole := wraps_polynomial (front ++ back)
  rw [Text.units_append, polynomial_append] at whole
  have ahead := (wraps_polynomial front).residue.symm.mul_right (31 ^ (Text.units back).length)
  exact whole.congr (ahead.add (wraps_polynomial back).residue.symm)

/-- The absolute value of the least number wraps to itself, and reads as its opposite without a sign. -/
theorem toNat_abs (word : Int32) : word.abs.toUInt32.toNat = word.toInt.natAbs := by
  have magnitude := BitVec.toNat_abs (x := word.toBitVec)
  have signed := BitVec.toInt_eq_msb_cond word.toBitVec
  have bound := word.toBitVec.isLt
  change word.toBitVec.abs.toNat = word.toBitVec.toInt.natAbs
  rw [magnitude, signed]
  split <;> omega

/-- What a division makes of the hashes: the remainder of the absolute value, below the number of
partitions. Words of 32 bits come to the same. -/
structure Division.Remainders (division : Division) : Prop where
  remainder : ∀ text, (division.partition text : Int) =
    |(polynomialHash text).toInt| % division.partitions
  below : ∀ text, division.partition text < division.partitions
  words : division.partitions < 2 ^ 32 → ∀ text,
    ((polynomialHash text).abs.toUInt32 % .ofNat division.partitions).toNat = division.partition text

theorem Division.remainders (division : Division) : division.Remainders where
  remainder text := by
    rw [partition, Int.natCast_emod, Int.natCast_natAbs]
  below := division.partition_lt
  words small text := by
    rw [UInt32.toNat_mod, UInt32.toNat_ofNat_of_lt' small, toNat_abs, partition]

theorem exists_division {count : Nat} (positive : 1 ≤ count) :
    ∃ division, Division.ofCount? count = some division ∧ division.partitions = count :=
  ⟨_, dif_pos positive, rfl⟩

/-- The hash is the weighted sum of the units, wrapped; the hash of two texts in a row comes of theirs;
and every number of partitions but zero divides the texts by the absolute value of the hash. -/
theorem hash_wraps_sum :
    (∀ text, Text.Utf16 text.toList (Text.units text) ∧
      Wraps (Text.weightedUnits text) (polynomialHash text).toInt) ∧
    (∀ front back, Wraps ((polynomialHash front).toInt * 31 ^ (Text.units back).length +
      (polynomialHash back).toInt) (polynomialHash (front ++ back)).toInt) ∧
    ∀ count, 1 ≤ count → ∃ division, Division.ofCount? count = some division ∧
      division.partitions = count ∧ division.Remainders := by
  refine ⟨?_, wraps_append, ?_⟩
  · intro text
    refine ⟨Text.utf16_flatMap text.toList, ?_⟩
    rw [Text.weightedUnits, ← Text.polynomial_eq_sum]
    exact wraps_polynomial text
  · intro count positive
    obtain ⟨division, made, same⟩ := exists_division positive
    exact ⟨division, made, same, division.remainders⟩

theorem hash_wraps_sum_least : (polynomialHash "polygenelubricants").toInt = -2 ^ 31 ∧ 1 ≤ 7 ∧
    ∃ division, Division.ofCount? 7 = some division ∧
      division.partition "polygenelubricants" = 2 := by
  have least : (polynomialHash "polygenelubricants").toInt = -2 ^ 31 := by decide
  obtain ⟨division, made, same, remainders⟩ := hash_wraps_sum.2.2 7 (by decide)
  have magnitude : |(-2 ^ 31 : Int)| = 2147483648 := by decide
  have remainder := remainders.remainder "polygenelubricants"
  rw [least, same, magnitude] at remainder
  exact ⟨least, by decide, division, made, by omega⟩

end Mintmark
