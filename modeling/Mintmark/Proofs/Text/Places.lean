import Mintmark.Proofs.Identifier.Parts
import Mintmark.Proofs.Text.Digits

/-!
Places of a text, counted in bytes. Each byte belongs to one character, and the text can be cut at a
place only if a character begins there or the text ends.
-/
namespace Mintmark.Text

/-- A character begins at this place of a text. -/
def Begins (text : String) (place : Nat) (character : Char) : Prop :=
  ∃ front back, text = front ++ String.singleton character ++ back ∧ front.utf8ByteSize = place

variable {text : String} {place start : Nat} {character : Char}

theorem begins_iff : Begins text start character ↔
    ∃ front back, text.toList = front ++ character :: back ∧ (bytesOf front).length = start := by
  constructor
  · rintro ⟨front, back, rfl, size⟩
    refine ⟨front.toList, back.toList, by simp, ?_⟩
    rw [← size, utf8ByteSize_eq_length_bytes]
    rfl
  · rintro ⟨front, back, whole, size⟩
    refine ⟨String.ofList front, String.ofList back, ?_, ?_⟩
    · rw [← String.toList_inj, whole]
      simp
    · rw [utf8ByteSize_eq_length_bytes, bytes, String.toList_ofList, size]

theorem isValid_iff : String.Pos.Raw.IsValid text ⟨place⟩ ↔
    ∃ front back, text.toList = front ++ back ∧ (bytesOf front).length = place := by
  rw [String.Pos.Raw.isValid_iff_exists_append]
  constructor
  · rintro ⟨front, back, rfl, size⟩
    refine ⟨front.toList, back.toList, String.toList_append, ?_⟩
    rw [String.Pos.Raw.ext_iff, String.byteIdx_rawEndPos, utf8ByteSize_eq_length_bytes] at size
    exact size.symm
  · rintro ⟨front, back, whole, size⟩
    refine ⟨String.ofList front, String.ofList back, ?_, ?_⟩
    · rw [← String.ofList_append, ← whole, String.ofList_toList]
    · rw [String.Pos.Raw.ext_iff, String.byteIdx_rawEndPos, utf8ByteSize_eq_length_bytes, bytes,
        String.toList_ofList, size]

theorem exists_begins (inside : place < text.utf8ByteSize) : ∃ start character,
    Begins text start character ∧ start ≤ place ∧ place < start + character.utf8Size := by
  rw [utf8ByteSize_eq_length_bytes] at inside
  obtain ⟨front, character, back, whole, begun, open_⟩ := exists_character inside
  exact ⟨_, character, begins_iff.2 ⟨front, back, whole, rfl⟩, begun, open_⟩

theorem Begins.byte (begins : Begins text start character) (begun : start ≤ place)
    (open_ : place < start + character.utf8Size) :
    (bytes text)[place]? = (String.utf8EncodeChar character)[place - start]? := by
  obtain ⟨front, back, whole, rfl⟩ := begins_iff.1 begins
  rw [bytes, whole, getElem?_bytesOf begun open_]

theorem Begins.isValid_iff (begins : Begins text start character) (begun : start ≤ place)
    (open_ : place < start + character.utf8Size) :
    String.Pos.Raw.IsValid text ⟨place⟩ ↔ start = place := by
  obtain ⟨front, back, whole, size⟩ := begins_iff.1 begins
  rw [Text.isValid_iff]
  constructor
  · rintro ⟨left, right, cut, rfl⟩
    rw [cut, List.append_eq_append_iff] at whole
    rcases whole with ⟨middle, rfl, -⟩ | ⟨middle, rfl, rest⟩
    · rw [bytesOf_append, List.length_append] at size
      omega
    · cases middle with
      | nil => rw [← size, List.append_nil]
      | cons first middle =>
        obtain ⟨rfl, -⟩ := List.cons.inj rest
        rw [bytesOf_append, List.length_append, length_bytesOf_cons] at open_
        omega
  · rintro rfl
    exact ⟨front, _, whole, size⟩

theorem Begins.isValid_end (begins : Begins text start character) :
    String.Pos.Raw.IsValid text ⟨start + character.utf8Size⟩ := by
  obtain ⟨front, back, whole, size⟩ := begins_iff.1 begins
  refine Text.isValid_iff.2 ⟨front ++ [character], back, ?_, ?_⟩
  · rw [whole, List.append_assoc, List.singleton_append]
  · rw [bytesOf_append, List.length_append, length_bytesOf_cons, size]
    rfl

theorem isValid_around {byte : UInt8} (found : (bytes text)[place]? = some byte)
    (ascii : byte < 128) : String.Pos.Raw.IsValid text ⟨place⟩ ∧
      String.Pos.Raw.IsValid text ⟨place + 1⟩ := by
  obtain ⟨front, character, back, whole, size, encoded⟩ := exists_character_of_ascii found ascii
  have single : character.utf8Size = 1 := by
    rw [← String.length_utf8EncodeChar, encoded]
    rfl
  have begins : Begins text place character := begins_iff.2 ⟨front, back, whole, size⟩
  refine ⟨(begins.isValid_iff (Nat.le_refl _) (by omega)).2 rfl, ?_⟩
  rw [← single]
  exact begins.isValid_end

end Mintmark.Text
