import Mintmark.Proofs.Identifier.Suffix
import Mintmark.Proofs.Text.Digits

/-!
The texts that spell identifiers: a label of at least one character, and the digits of fields that
name a real instant.
-/
namespace Mintmark.Identifier

def spelled (label : List Char) (suffix : Suffix) : Identifier :=
  { text := String.ofList (label ++ suffix.characters)
    labelBytes := (Text.bytesOf label).length
    instant := suffix.instant
    node := .ofSeed suffix.node
    sequence := suffix.sequence.toUInt16 }

theorem bytesOf_characters (suffix : Suffix) :
    Text.bytesOf suffix.characters = suffix.digits.map Numeral.digitByte :=
  Text.bytesOf_digitChars suffix.digits_small

theorem length_bytesOf_spelled (label : List Char) (suffix : Suffix) :
    (Text.bytesOf (label ++ suffix.characters)).length =
      (Text.bytesOf label).length + Suffix.width := by
  rw [Text.bytesOf_append, List.length_append, bytesOf_characters, List.length_map,
    Suffix.length_digits]

theorem length_bytesOf_pos {characters : List Char} (nonempty : characters ≠ []) :
    0 < (Text.bytesOf characters).length := by
  obtain ⟨first, rest, rfl⟩ := List.exists_cons_of_ne_nil nonempty
  have positive := first.utf8Size_pos
  rw [Text.length_bytesOf_cons]
  omega

theorem ofText_spelled {label : List Char} {suffix : Suffix} (nonempty : label ≠ [])
    (real : suffix.Real) :
    ofText (String.ofList (label ++ suffix.characters)) = .ok (spelled label suffix) := by
  have positive := length_bytesOf_pos nonempty
  have length := length_bytesOf_spelled label suffix
  have labelBytes : (Text.bytesOf (label ++ suffix.characters)).length - Suffix.width =
      (Text.bytesOf label).length := by omega
  have tail : (Text.bytesOf (label ++ suffix.characters)).drop (Text.bytesOf label).length =
      suffix.digits.map Numeral.digitByte := by
    rw [Text.bytesOf_append, List.drop_left, bytesOf_characters]
  have digits := Numeral.ofBytes_digitBytes suffix.digits_small
  have fields := Suffix.ofDigits_digits real.fits
  simp only [ofText, Text.bytes, String.toList_ofList, labelBytes, tail, digits, fields, real.flaw]
  rw [if_neg (by omega), if_neg (by omega)]
  rfl

theorem spelled_of_ofText {text : String} {identifier : Identifier}
    (read : ofText text = .ok identifier) :
    ∃ label suffix, label ≠ [] ∧ suffix.Real ∧
      text = String.ofList (label ++ suffix.characters) ∧ identifier = spelled label suffix := by
  have original := read
  unfold ofText Text.bytes at read
  dsimp only at read
  split at read
  · contradiction
  split at read
  · contradiction
  rename_i _ long
  split at read
  · contradiction
  rename_i digits found
  split at read
  · contradiction
  rename_i flawless
  obtain ⟨label, cut, size, small⟩ := Text.exists_digits (Nat.sub_le _ _) found
  have length : digits.length = Suffix.width := by
    have sizes := congrArg List.length (Numeral.bytes_of_ofBytes found).2
    rw [List.length_drop, List.length_map] at sizes
    omega
  have nonempty : label ≠ [] := by
    rintro rfl
    have none : (Text.bytesOf []).length = 0 := rfl
    omega
  have real := Suffix.real_of_flaw (Suffix.fits_ofDigits length small) flawless
  have characters : (Suffix.ofDigits digits).characters = digits.map Nat.digitChar := by
    rw [Suffix.characters, Suffix.digits_ofDigits length small]
  have whole : text = String.ofList (label ++ (Suffix.ofDigits digits).characters) := by
    rw [characters, ← cut, String.ofList_toList]
  rw [whole, ofText_spelled nonempty real] at original
  exact ⟨label, Suffix.ofDigits digits, nonempty, real, whole, (Except.ok.inj original).symm⟩

theorem ofText_eq_ok_iff {text : String} {identifier : Identifier} : ofText text = .ok identifier ↔
    ∃ label suffix, label ≠ [] ∧ suffix.Real ∧
      text = String.ofList (label ++ suffix.characters) ∧ identifier = spelled label suffix := by
  constructor
  · exact spelled_of_ofText
  · rintro ⟨label, suffix, nonempty, real, rfl, rfl⟩
    exact ofText_spelled nonempty real

theorem label_spelled (label : List Char) (suffix : Suffix) :
    (spelled label suffix).label = String.ofList label := by
  simp only [Identifier.label, spelled, String.toList_ofList, Text.takeBytes_append]

end Mintmark.Identifier
