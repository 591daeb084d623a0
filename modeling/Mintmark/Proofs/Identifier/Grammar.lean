import Mintmark.Proofs.Identifier.Parts
import Mintmark.Proofs.Identifier.Text

/-!
The grammar of identifiers, in characters. A text is read exactly if it is a label followed by
twenty-two decimal characters whose columns name a date and a time of day, and what is read is what
the columns say.
-/
namespace Mintmark

/-- The number spelled by so many decimal characters, from a place on. -/
def column (digits : String) (place width : Nat) : Nat :=
  Nat.ofDigitChars 10 ((digits.toList.drop place).take width) 0

def columnDate (digits : String) : Date :=
  ⟨2000 + column digits 0 2, column digits 2 2, column digits 4 2⟩

/-- A label, and characters `YYMMDDHHmmSSmmmNNNNSSS` that name a date and a time of day. -/
structure Grammar (label digits : String) : Prop where
  label : label ≠ ""
  length : digits.length = 22
  decimal : ∀ character ∈ digits.toList, character.isDigit
  date : (columnDate digits).onCalendar
  hour : column digits 6 2 ≤ 23
  minute : column digits 8 2 ≤ 59
  second : column digits 10 2 ≤ 59

structure Instant.Shows (instant : Instant) (digits : String) : Prop where
  date : instant.date = columnDate digits
  hour : instant.hour = column digits 6 2
  minute : instant.minute = column digits 8 2
  second : instant.second = column digits 10 2
  nanos : instant.nanos = column digits 12 3 * 1000000

theorem Instant.Shows.unique {first second : Instant} {digits : String}
    (firstShows : first.Shows digits) (secondShows : second.Shows digits) : first = second := by
  have dates := firstShows.date.trans secondShows.date.symm
  have hours := firstShows.hour.trans secondShows.hour.symm
  have minutes := firstShows.minute.trans secondShows.minute.symm
  have seconds := firstShows.second.trans secondShows.second.symm
  have nanos := firstShows.nanos.trans secondShows.nanos.symm
  have days : first.seconds / 86400 = second.seconds / 86400 := by
    rw [← (Date.dayNumber_ofDayNumber (first.seconds / 86400)).2,
      ← (Date.dayNumber_ofDayNumber (second.seconds / 86400)).2]
    exact congrArg Date.dayNumber dates
  rw [Instant.mk.injEq]
  refine ⟨?_, nanos⟩
  simp only [Instant.hour, Instant.minute, Instant.second, Instant.secondOfDay] at hours minutes seconds
  omega

namespace Suffix

def ofCharacters (digits : String) : Suffix :=
  .ofDigits (digits.toList.map fun character => character.toNat - 48)

theorem ofDigits_map_toNat (characters : List Char) :
    Numeral.ofDigits (characters.map fun character => character.toNat - 48) =
      Nat.ofDigitChars 10 characters 0 := by
  rw [Numeral.ofDigits, List.foldl_map, Nat.ofDigitChars]
  simp only [Nat.mul_comm]
  rfl

theorem ofCharacters_eq (digits : String) : ofCharacters digits =
    { year := column digits 0 2, month := column digits 2 2, day := column digits 4 2
      hour := column digits 6 2, minute := column digits 8 2, second := column digits 10 2
      millis := column digits 12 3, node := column digits 15 4, sequence := column digits 19 3 } := by
  simp [ofCharacters, ofDigits, Numeral.columns, widths, column, ← ofDigits_map_toNat, List.map_drop,
    List.map_take]

theorem date_ofCharacters (digits : String) : (ofCharacters digits).date = columnDate digits := by
  rw [ofCharacters_eq]
  rfl

theorem digitChar_of_isDigit {character : Char} (decimal : character.isDigit) :
    character.toNat - 48 < 10 ∧ Nat.digitChar (character.toNat - 48) = character := by
  obtain ⟨least, most⟩ : 48 ≤ character.toNat ∧ character.toNat ≤ 57 := Char.isDigit_iff_toNat.1 decimal
  have small : character.toNat - 48 < 10 := by omega
  refine ⟨small, Char.toNat_inj.1 ?_⟩
  rw [Nat.toNat_digitChar_of_lt_ten small]
  omega

theorem characters_ofCharacters {digits : String} (length : digits.length = 22)
    (decimal : ∀ character ∈ digits.toList, character.isDigit) :
    (ofCharacters digits).Fits ∧ (ofCharacters digits).characters = digits.toList := by
  have size : (digits.toList.map fun character => character.toNat - 48).length = width := by
    rw [List.length_map, String.length_toList, length, width]
  have small : ∀ digit ∈ digits.toList.map fun character => character.toNat - 48, digit < 10 := by
    intro digit member
    obtain ⟨character, present, rfl⟩ := List.mem_map.1 member
    exact (digitChar_of_isDigit (decimal character present)).1
  have back : ∀ character ∈ digits.toList, Nat.digitChar (character.toNat - 48) = character :=
    fun character present => (digitChar_of_isDigit (decimal character present)).2
  refine ⟨fits_ofDigits size small, ?_⟩
  rw [characters, ofCharacters, digits_ofDigits size small, List.map_map]
  exact (List.map_congr_left back).trans (List.map_id _)

theorem ofCharacters_characters {suffix : Suffix} (fits : suffix.Fits) :
    ofCharacters (String.ofList suffix.characters) = suffix := by
  rw [ofCharacters, String.toList_ofList, characters, Numeral.map_toNat_digitChars suffix.digits_small,
    ofDigits_digits fits]

end Suffix

theorem Grammar.real {label digits : String} (grammar : Grammar label digits) :
    (Suffix.ofCharacters digits).Real := by
  have fits := (Suffix.characters_ofCharacters grammar.length grammar.decimal).1
  apply Suffix.real_of_flaw fits
  rw [Suffix.flaw_eq_none_iff, Suffix.ofCharacters_eq]
  exact ⟨grammar.date, grammar.hour, grammar.minute, grammar.second⟩

theorem Grammar.spelling {label digits : String} (grammar : Grammar label digits) :
    label ++ digits = String.ofList (label.toList ++ (Suffix.ofCharacters digits).characters) := by
  rw [(Suffix.characters_ofCharacters grammar.length grammar.decimal).2, String.ofList_append,
    String.ofList_toList, String.ofList_toList]

theorem Suffix.Real.grammar {label : List Char} {suffix : Suffix} (nonempty : label ≠ [])
    (real : suffix.Real) : Grammar (String.ofList label) (String.ofList suffix.characters) := by
  have same := Suffix.ofCharacters_characters real.fits
  generalize digits_def : String.ofList suffix.characters = digits at same ⊢
  have fields := Suffix.ofCharacters_eq digits
  have date := Suffix.date_ofCharacters digits
  rw [same] at fields date
  have hour : suffix.hour = column digits 6 2 := congrArg Suffix.hour fields
  have minute : suffix.minute = column digits 8 2 := congrArg Suffix.minute fields
  have second : suffix.second = column digits 10 2 := congrArg Suffix.second fields
  refine ⟨by simpa using nonempty, ?_, ?_, date ▸ real.date, hour ▸ real.hour, minute ▸ real.minute,
    second ▸ real.second⟩
  · rw [← digits_def, String.length_ofList, Suffix.characters, List.length_map, Suffix.length_digits,
      Suffix.width]
  · intro character member
    rw [← digits_def, String.toList_ofList, Suffix.characters] at member
    obtain ⟨digit, present, rfl⟩ := List.mem_map.1 member
    simpa [Nat.isDigit_digitChar] using suffix.digits_small digit present

namespace Identifier

/-- An identifier that says what its columns say, and whose label ends between two characters. -/
structure Says (identifier : Identifier) (label digits : String) : Prop where
  text : identifier.text = label ++ digits
  label : identifier.label = label
  boundary : String.Pos.Raw.IsValid identifier.text ⟨identifier.labelBytes⟩
  node : identifier.node.number.val = column digits 15 4
  sequence : identifier.sequence.toNat = column digits 19 3
  instant : ∀ instant : Instant, instant.Shows digits ↔ instant = identifier.instant

theorem shows_instant {label digits : String} (grammar : Grammar label digits) :
    (Suffix.ofCharacters digits).instant.Shows digits := by
  have real := grammar.real
  have date := real.date_instant
  have fields := real.ofParts_instant
  rw [Suffix.ofCharacters_eq] at date fields ⊢
  exact ⟨date, congrArg Suffix.hour fields, congrArg Suffix.minute fields,
    congrArg Suffix.second fields, rfl⟩

theorem says_spelled {label digits : String} (grammar : Grammar label digits) :
    (spelled label.toList (Suffix.ofCharacters digits)).Says label digits := by
  have shown := shows_instant grammar
  have real := grammar.real
  have fields := Suffix.ofCharacters_eq digits
  have text := grammar.spelling
  refine ⟨text.symm, ?_, ?_, ?_, ?_, ?_⟩
  · rw [label_spelled, String.ofList_toList]
  · refine String.Pos.Raw.isValid_iff_exists_append.2 ⟨label, digits, text.symm, ?_⟩
    rw [String.Pos.Raw.ext_iff, String.byteIdx_rawEndPos, Text.utf8ByteSize_eq_length_bytes]
    rfl
  · have node : (Suffix.ofCharacters digits).node = column digits 15 4 := congrArg Suffix.node fields
    have small := real.node
    simp only [spelled, Node.ofSeed]
    omega
  · have sequence : (Suffix.ofCharacters digits).sequence = column digits 19 3 :=
      congrArg Suffix.sequence fields
    have small := real.sequence
    rw [spelled, UInt16.toNat_ofNat']
    omega
  · intro instant
    constructor
    · intro shows_
      exact shows_.unique shown
    · rintro rfl
      exact shown

/-- Reading accepts exactly the texts of the grammar, and takes from them what their characters
say. -/
theorem ofText_iff_grammar (text : String) :
    ((∃ identifier, ofText text = .ok identifier) ↔
        ∃ label digits, text = label ++ digits ∧ Grammar label digits) ∧
      ∀ label digits, Grammar label digits → text = label ++ digits →
        ∃ identifier, ofText text = .ok identifier ∧ identifier.Says label digits := by
  have reads (label digits : String) (grammar : Grammar label digits) : ofText (label ++ digits) =
      .ok (spelled label.toList (Suffix.ofCharacters digits)) := by
    rw [grammar.spelling]
    exact ofText_spelled (by simpa using grammar.label) grammar.real
  refine ⟨⟨?_, ?_⟩, ?_⟩
  · rintro ⟨identifier, read⟩
    obtain ⟨label, suffix, nonempty, real, rfl, -⟩ := ofText_eq_ok_iff.1 read
    exact ⟨_, _, String.ofList_append, real.grammar nonempty⟩
  · rintro ⟨label, digits, rfl, grammar⟩
    exact ⟨_, reads label digits grammar⟩
  · rintro label digits grammar rfl
    exact ⟨_, reads label digits grammar, says_spelled grammar⟩

theorem ofText_grammar_leap_day : Grammar "ж9" "0002292359599990007999" ∧
    ∃ identifier, ofText "ж90002292359599990007999" = .ok identifier ∧
      identifier.Says "ж9" "0002292359599990007999" := by
  have grammar : Grammar "ж9" "0002292359599990007999" :=
    ⟨by decide, by decide, List.all_eq_true.1 (by decide), by decide, by decide, by decide, by decide⟩
  exact ⟨grammar, (ofText_iff_grammar _).2 _ _ grammar (by decide)⟩

end Identifier
end Mintmark
