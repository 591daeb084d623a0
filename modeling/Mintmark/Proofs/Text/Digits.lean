import Mathlib.Data.UInt
import Mintmark.Numeral
import Mintmark.Text.Bytes

/-!
Digits as bytes. A digit is written as one byte, the bytes of digits are those of digit characters
alone, and a text can be cut in front of any byte of ASCII, since none stands inside a character.
-/
namespace Mintmark
namespace Numeral

def digitByte (digit : Nat) : UInt8 := UInt8.ofNat (48 + digit)

theorem toNat_digitByte {digit : Nat} (small : digit < 10) : (digitByte digit).toNat = 48 + digit := by
  simp [digitByte]
  omega

theorem digitOfByte?_eq_some_iff {byte : UInt8} {digit : Nat} :
    digitOfByte? byte = some digit ↔ digit < 10 ∧ byte = digitByte digit := by
  have bound := byte.toNat_lt
  simp only [digitOfByte?, UInt8.le_iff_toNat_le, Option.ite_none_right_eq_some, Option.some.injEq,
    UInt8.reduceToNat]
  constructor
  · rintro ⟨inside, rfl⟩
    refine ⟨by omega, UInt8.toNat.inj ?_⟩
    rw [toNat_digitByte (by omega)]
    omega
  · rintro ⟨small, rfl⟩
    rw [toNat_digitByte small]
    omega

theorem ofBytes_digitBytes {digits : List Nat} (small : ∀ digit ∈ digits, digit < 10) :
    ofBytes (digits.map digitByte) = .ok digits := by
  induction digits with
  | nil => rfl
  | cons digit digits ih =>
    have first : digitOfByte? (digitByte digit) = some digit :=
      digitOfByte?_eq_some_iff.2 ⟨small digit (by simp), rfl⟩
    have later := ih fun other member => small other (by simp [member])
    simp [ofBytes, first, later]

theorem bytes_of_ofBytes {bytes : List UInt8} {digits : List Nat} (read : ofBytes bytes = .ok digits) :
    (∀ digit ∈ digits, digit < 10) ∧ bytes = digits.map digitByte := by
  induction bytes generalizing digits with
  | nil =>
    cases digits with
    | nil => simp
    | cons => simp [ofBytes] at read
  | cons byte bytes ih =>
    cases first : digitOfByte? byte with
    | none => simp [ofBytes, first] at read
    | some digit =>
      cases later : ofBytes bytes with
      | error place => simp [ofBytes, first, later] at read
      | ok others =>
        obtain ⟨small, rfl⟩ := digitOfByte?_eq_some_iff.1 first
        obtain ⟨othersSmall, rfl⟩ := ih later
        have equal : digits = digit :: others := by simpa [ofBytes, first, later] using read.symm
        rw [equal]
        exact ⟨List.forall_mem_cons.2 ⟨small, othersSmall⟩, rfl⟩

theorem digitOfByte?_eq_none_iff {byte : UInt8} :
    digitOfByte? byte = none ↔ byte.isASCIIDigit = false := by
  simp [digitOfByte?, UInt8.isASCIIDigit]

theorem ofBytes_eq_error_iff {bytes : List UInt8} {place : Nat} : ofBytes bytes = .error place ↔
    bytes.findIdx? (fun byte => !byte.isASCIIDigit) = some place := by
  induction bytes generalizing place with
  | nil => simp [ofBytes]
  | cons byte bytes rest =>
    rw [ofBytes, List.findIdx?_cons]
    cases digit : digitOfByte? byte with
    | none =>
      rw [if_pos (by simp [digitOfByte?_eq_none_iff.1 digit])]
      simp
    | some number =>
      have ascii : byte.isASCIIDigit = true := by
        rw [← Bool.not_eq_false, ← digitOfByte?_eq_none_iff, digit]
        exact Option.some_ne_none number
      rw [if_neg (by simp [ascii])]
      cases later : ofBytes bytes with
      | error first => simp [rest.1 later]
      | ok digits =>
        have clean : bytes.findIdx? (fun byte => !byte.isASCIIDigit) = none := by
          rw [Option.eq_none_iff_forall_ne_some]
          intro first found
          rw [rest.2 found] at later
          cases later
        simp [clean]

theorem ofBytes_ok_iff {bytes : List UInt8} :
    (∃ digits, ofBytes bytes = .ok digits) ↔ ∀ byte ∈ bytes, byte.isASCIIDigit := by
  have whole : (∃ digits, ofBytes bytes = .ok digits) ↔
      bytes.findIdx? (fun byte => !byte.isASCIIDigit) = none := by
    simp only [Option.eq_none_iff_forall_ne_some, ne_eq, ← ofBytes_eq_error_iff]
    cases ofBytes bytes with
    | ok digits => simp
    | error place => simp
  rw [whole, List.findIdx?_eq_none_iff]
  simp

theorem utf8EncodeChar_digitChar {digit : Nat} (small : digit < 10) :
    String.utf8EncodeChar (Nat.digitChar digit) = [digitByte digit] := by
  have all : ∀ digit < 10, String.utf8EncodeChar (Nat.digitChar digit) = [digitByte digit] := by
    decide
  exact all digit small

end Numeral

namespace Text

theorem bytesOf_digitChars {digits : List Nat} (small : ∀ digit ∈ digits, digit < 10) :
    bytesOf (digits.map Nat.digitChar) = digits.map Numeral.digitByte := by
  induction digits with
  | nil => rfl
  | cons digit digits ih =>
    rw [List.map_cons, List.map_cons, bytesOf, List.flatMap_cons,
      Numeral.utf8EncodeChar_digitChar (small digit (by simp)), List.singleton_append,
      ← ih fun other member => small other (by simp [member])]
    rfl

theorem utf8EncodeChar_ascii {character : Char} {byte : UInt8} {rest : List UInt8}
    (encoded : String.utf8EncodeChar character = byte :: rest) (ascii : byte < 128) :
    rest = [] ∧ character.toNat = byte.toNat := by
  rw [UInt8.lt_iff_toNat_lt] at ascii
  unfold String.utf8EncodeChar at encoded
  dsimp only at encoded
  split at encoded
  · obtain ⟨rfl, rfl⟩ := List.cons.inj encoded
    refine ⟨rfl, ?_⟩
    rw [UInt8.toNat_ofNat']
    change character.val.toNat = character.val.toNat % 256
    omega
  · exfalso
    split at encoded
    · obtain ⟨rfl, -⟩ := List.cons.inj encoded
      simp at ascii
      omega
    · split at encoded
      · obtain ⟨rfl, -⟩ := List.cons.inj encoded
        simp at ascii
        omega
      · obtain ⟨rfl, -⟩ := List.cons.inj encoded
        simp at ascii
        omega

theorem utf8EncodeChar_continued {character : Char} {place : Nat} {byte : UInt8}
    (found : (String.utf8EncodeChar character)[place]? = some byte) (later : 0 < place) :
    128 ≤ byte := by
  have upper (number : Nat) : 128 ≤ UInt8.ofNat (number % 64 + 128) := by
    rw [UInt8.le_iff_toNat_le]
    simp
    omega
  obtain ⟨place, rfl⟩ : ∃ before, place = before + 1 := ⟨place - 1, by omega⟩
  unfold String.utf8EncodeChar at found
  dsimp only at found
  split at found
  · simp at found
  · split at found
    · rw [List.getElem?_cons_succ] at found
      have member := List.mem_of_getElem? found
      simp only [List.mem_cons, List.not_mem_nil, or_false] at member
      rcases member with rfl
      exact upper _
    · split at found
      · rw [List.getElem?_cons_succ] at found
        have member := List.mem_of_getElem? found
        simp only [List.mem_cons, List.not_mem_nil, or_false] at member
        rcases member with rfl | rfl <;> exact upper _
      · rw [List.getElem?_cons_succ] at found
        have member := List.mem_of_getElem? found
        simp only [List.mem_cons, List.not_mem_nil, or_false] at member
        rcases member with rfl | rfl | rfl <;> exact upper _

theorem eq_digitChars {characters : List Char} {digits : List Nat}
    (small : ∀ digit ∈ digits, digit < 10)
    (written : bytesOf characters = digits.map Numeral.digitByte) :
    characters = digits.map Nat.digitChar := by
  induction characters generalizing digits with
  | nil => simpa [bytesOf, eq_comm] using written
  | cons character characters ih =>
    have nonempty := String.utf8EncodeChar_ne_nil (c := character)
    cases digits with
    | nil => simp [bytesOf, nonempty] at written
    | cons digit digits =>
      obtain ⟨digitSmall, othersSmall⟩ := List.forall_mem_cons.1 small
      obtain ⟨byte, rest, encoded⟩ := List.exists_cons_of_ne_nil nonempty
      rw [bytesOf, List.flatMap_cons, encoded, List.map_cons, List.cons_append] at written
      obtain ⟨rfl, later⟩ := List.cons.inj written
      have number := Numeral.toNat_digitByte digitSmall
      obtain ⟨rfl, code⟩ := utf8EncodeChar_ascii encoded
        (by rw [UInt8.lt_iff_toNat_lt, number]; simp; omega)
      rw [List.map_cons, ih othersSmall later]
      congr 1
      apply Char.toNat_inj.1
      rw [code, number, Nat.toNat_digitChar_of_lt_ten digitSmall]

theorem exists_character {characters : List Char} {place : Nat}
    (inside : place < (bytesOf characters).length) :
    ∃ front character back, characters = front ++ character :: back ∧
      (bytesOf front).length ≤ place ∧ place < (bytesOf front).length + character.utf8Size := by
  induction characters generalizing place with
  | nil => cases inside
  | cons first rest later =>
    rw [length_bytesOf_cons] at inside
    rcases Nat.lt_or_ge place first.utf8Size with here | beyond
    · exact ⟨[], first, rest, rfl, Nat.zero_le _, by simpa [bytesOf] using here⟩
    · have shifted : place - first.utf8Size < (bytesOf rest).length := by omega
      obtain ⟨front, character, back, rfl, begun, open_⟩ := later shifted
      refine ⟨first :: front, character, back, rfl, ?_, ?_⟩
      · rw [length_bytesOf_cons]
        omega
      · rw [length_bytesOf_cons]
        omega

theorem getElem?_bytesOf {front back : List Char} {character : Char} {place : Nat}
    (begun : (bytesOf front).length ≤ place)
    (open_ : place < (bytesOf front).length + character.utf8Size) :
    (bytesOf (front ++ character :: back))[place]? =
      (String.utf8EncodeChar character)[place - (bytesOf front).length]? := by
  have short : place - (bytesOf front).length < (String.utf8EncodeChar character).length := by
    rw [String.length_utf8EncodeChar]
    omega
  rw [bytesOf_append, List.getElem?_append_right begun, bytesOf, List.flatMap_cons,
    List.getElem?_append_left short]

theorem exists_character_of_ascii {characters : List Char} {place : Nat} {byte : UInt8}
    (found : (bytesOf characters)[place]? = some byte) (ascii : byte < 128) :
    ∃ front character back, characters = front ++ character :: back ∧
      (bytesOf front).length = place ∧ String.utf8EncodeChar character = [byte] := by
  obtain ⟨front, character, back, rfl, begun, open_⟩ :=
    exists_character (List.getElem?_eq_some_iff.1 found).1
  rw [getElem?_bytesOf begun open_] at found
  have same : (bytesOf front).length = place := by
    apply Nat.le_antisymm begun
    apply Nat.le_of_not_lt
    intro earlier
    exact absurd (utf8EncodeChar_continued found (Nat.sub_pos_of_lt earlier)) (UInt8.not_le.2 ascii)
  obtain ⟨head, rest, encoded⟩ :=
    List.exists_cons_of_ne_nil (String.utf8EncodeChar_ne_nil (c := character))
  rw [same, Nat.sub_self, encoded] at found
  obtain rfl : head = byte := Option.some.inj found
  obtain ⟨rfl, -⟩ := utf8EncodeChar_ascii encoded ascii
  exact ⟨front, character, back, rfl, same, encoded⟩

/-- A text can be cut in front of a byte of ASCII, and at its end. -/
theorem exists_cut {characters : List Char} {size : Nat} (inside : size ≤ (bytesOf characters).length)
    (ascii : ∀ byte, (bytesOf characters)[size]? = some byte → byte < 128) :
    ∃ front back, characters = front ++ back ∧ (bytesOf front).length = size := by
  rcases Nat.lt_or_eq_of_le inside with within | whole
  · have found := List.getElem?_eq_getElem within
    obtain ⟨front, character, back, split, length, -⟩ :=
      exists_character_of_ascii found (ascii _ found)
    exact ⟨front, character :: back, split, length⟩
  · exact ⟨characters, [], (List.append_nil characters).symm, whole.symm⟩

/-- If digits alone stand behind some bytes of a text, the text is cut there between two characters. -/
theorem exists_digits {characters : List Char} {size : Nat} {digits : List Nat}
    (inside : size ≤ (bytesOf characters).length)
    (read : Numeral.ofBytes ((bytesOf characters).drop size) = .ok digits) :
    ∃ label, characters = label ++ digits.map Nat.digitChar ∧ (bytesOf label).length = size ∧
      ∀ digit ∈ digits, digit < 10 := by
  obtain ⟨small, tail⟩ := Numeral.bytes_of_ofBytes read
  have ascii : ∀ byte, (bytesOf characters)[size]? = some byte → byte < 128 := by
    intro byte found
    rw [← Nat.add_zero size, ← List.getElem?_drop, tail] at found
    obtain ⟨digit, member, rfl⟩ := List.mem_map.1 (List.mem_of_getElem? found)
    have bound := small digit member
    rw [UInt8.lt_iff_toNat_lt, Numeral.toNat_digitByte bound]
    simp
    omega
  obtain ⟨front, back, rfl, length⟩ := exists_cut inside ascii
  rw [bytesOf_append, ← length, List.drop_left] at tail
  exact ⟨front, by rw [← eq_digitChars small tail], length, small⟩

end Text
end Mintmark
