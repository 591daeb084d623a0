import Mintmark.Proofs.Identifier.Refusal
import Mintmark.Proofs.Text.Places

/-!
The character behind a refused byte. Digits are looked for byte by byte, from twenty-two bytes before
the end on. If that is inside a character, the place reported is in the middle of it; in every other
case the character that is no digit begins at the place.
-/
namespace Mintmark
open Text

theorem Numeral.isASCIIDigit_digitByte {digit : Nat} (small : digit < 10) :
    (digitByte digit).isASCIIDigit = true := by
  rw [← Bool.not_eq_false, ← digitOfByte?_eq_none_iff, digitOfByte?_eq_some_iff.2 ⟨small, rfl⟩]
  exact Option.some_ne_none digit

section Stray
variable {text : String} {place : Nat}

theorem Stray.inside (stray : Stray text place) : place < text.utf8ByteSize := by
  obtain ⟨byte, found, -⟩ := stray.byte
  rw [utf8ByteSize_eq_length_bytes]
  exact (List.getElem?_eq_some_iff.1 found).1

theorem Stray.isDigit_eq_false (stray : Stray text place) {start : Nat} {character : Char}
    (begins : Begins text start character) (begun : start ≤ place)
    (open_ : place < start + character.utf8Size) : character.isDigit = false := by
  obtain ⟨byte, found, other⟩ := stray.byte
  rw [begins.byte begun open_] at found
  rw [← Bool.not_eq_true]
  intro decimal
  obtain ⟨small, spelled⟩ := Suffix.digitChar_of_isDigit decimal
  rw [← spelled, Numeral.utf8EncodeChar_digitChar small] at found
  obtain rfl := List.mem_singleton.1 (List.mem_of_getElem? found)
  rw [Numeral.isASCIIDigit_digitByte small] at other
  cases other

theorem isValid_before (stray : Stray text place)
    (first : ∀ other, Stray text other → place ≤ other) {earlier : Nat}
    (late : text.utf8ByteSize - 22 ≤ earlier) (before : earlier < place) :
    String.Pos.Raw.IsValid text ⟨earlier⟩ ∧ String.Pos.Raw.IsValid text ⟨earlier + 1⟩ := by
  have inside := stray.inside
  rw [utf8ByteSize_eq_length_bytes] at inside
  have found := List.getElem?_eq_getElem (Nat.lt_trans before inside)
  refine isValid_around found ?_
  cases ascii : (bytes text)[earlier].isASCIIDigit with
  | false => exact absurd (first earlier ⟨late, _, found, ascii⟩) (Nat.not_le.2 before)
  | true =>
    simp only [UInt8.isASCIIDigit, Bool.and_eq_true, decide_eq_true_eq] at ascii
    exact UInt8.lt_of_le_of_lt ascii.2 (by decide)

theorem isValid_of_later (stray : Stray text place)
    (first : ∀ other, Stray text other → place ≤ other) (later : text.utf8ByteSize - 22 < place) :
    String.Pos.Raw.IsValid text ⟨text.utf8ByteSize - 22⟩ ∧ String.Pos.Raw.IsValid text ⟨place⟩ := by
  obtain ⟨before, rfl⟩ := Nat.exists_eq_succ_of_ne_zero (Nat.ne_zero_of_lt later)
  exact ⟨(isValid_before stray first (Nat.le_refl _) later).1,
    (isValid_before stray first (Nat.le_of_lt_succ later) (Nat.lt_succ_self _)).2⟩

end Stray

namespace Identifier

/-- A character that is no digit begins at this place, so the text can be cut there to show it. -/
def PointsAtOffender (text : String) (place : Nat) : Prop :=
  ∃ character, Begins text place character ∧ character.isDigit = false

theorem PointsAtOffender.isValid {text : String} {place : Nat}
    (points : PointsAtOffender text place) : String.Pos.Raw.IsValid text ⟨place⟩ := by
  obtain ⟨character, begins, -⟩ := points
  have positive := character.utf8Size_pos
  exact (begins.isValid_iff (Nat.le_refl _) (by omega)).2 rfl

/-- The place reported belongs to a character that is no digit. It is the place where that character
begins exactly if the text can be cut twenty-two bytes before its end; else it is that very place, and
the character begins before it. -/
theorem nonDigit_points_iff {text : String} {place : Nat}
    (refused : ofText text = .error (.nonDigit place)) :
    (PointsAtOffender text place ↔
        String.Pos.Raw.IsValid text ⟨text.utf8ByteSize - 22⟩) ∧
      ∃ start character, Begins text start character ∧ character.isDigit = false ∧
        place < start + character.utf8Size ∧
        (start = place ∨ start < place ∧ place = text.utf8ByteSize - 22) := by
  cases ofText_eq_error_iff.1 refused with
  | flawed _ _ _ _ _ _ _ flaw => cases flaw
  | nonDigit long place stray first =>
    obtain ⟨start, character, begins, begun, open_⟩ := exists_begins stray.inside
    have other := stray.isDigit_eq_false begins begun open_
    have starts := begins.isValid_iff begun open_
    rcases Nat.lt_or_eq_of_le stray.late with later | same
    · obtain ⟨cut, here⟩ := isValid_of_later stray first later
      have same := starts.1 here
      have points : PointsAtOffender text place := ⟨character, same ▸ begins, other⟩
      exact ⟨iff_of_true points cut, start, character, begins, other, open_, .inl same⟩
    · rw [same]
      refine ⟨⟨PointsAtOffender.isValid, ?_⟩, start, character, begins, other, open_, ?_⟩
      · intro valid
        exact ⟨character, starts.1 valid ▸ begins, other⟩
      · rcases Nat.lt_or_eq_of_le begun with before | together
        · exact .inr ⟨before, rfl⟩
        · exact .inl together

theorem nonDigit_points_accent :
    ofText "AB20112é509590306439722" = .error (.nonDigit 7) ∧
      PointsAtOffender "AB20112é509590306439722" 7 := by
  have refused : ofText "AB20112é509590306439722" = .error (.nonDigit 7) := rfl
  have cut : String.Pos.Raw.IsValid "AB20112é509590306439722" ⟨2⟩ :=
    String.Pos.Raw.isValid_iff_exists_append.2 ⟨"AB", "20112é509590306439722", by decide, rfl⟩
  exact ⟨refused, (nonDigit_points_iff refused).1.2 cut⟩

/-- The first of the last twenty-two bytes is the second one of a letter. -/
theorem offender_cut_apart :
    ofText "é111111111111111111111" = .error (.nonDigit 1) ∧
      ¬ String.Pos.Raw.IsValid "é111111111111111111111" ⟨1⟩ ∧
      ¬ PointsAtOffender "é111111111111111111111" 1 := by
  have begins : Begins "é111111111111111111111" 0 'é' :=
    ⟨"", "111111111111111111111", by decide, rfl⟩
  have inside : ¬ String.Pos.Raw.IsValid "é111111111111111111111" ⟨1⟩ := by
    rw [begins.isValid_iff (by decide) (by decide)]
    decide
  exact ⟨rfl, inside, fun points => inside points.isValid⟩

end Identifier
end Mintmark
