import Mintmark.Proofs.Identifier.Grammar

/-!
Refusals. A text that is not read is empty, or too short, or has a byte among its last twenty-two
that is no digit, or spells a field out of its range. The first of these is reported, with the
numbers found.
-/
namespace Mintmark

def lastBytes (text : String) : List UInt8 := (Text.bytes text).drop (text.utf8ByteSize - 22)

/-- A place among the last twenty-two bytes of a text where no digit stands. -/
structure Stray (text : String) (place : Nat) : Prop where
  late : text.utf8ByteSize - 22 ≤ place
  byte : ∃ byte, (Text.bytes text)[place]? = some byte ∧ byte.isASCIIDigit = false

/-- The field that is refused, with the numbers that the columns spell. Every field before it is in its
range. -/
inductive Flaw (digits : String) : TextError → Prop
  | month (outside : column digits 2 2 < 1 ∨ 12 < column digits 2 2) :
    Flaw digits (.invalidMonth (column digits 2 2))
  | day (month : 1 ≤ column digits 2 2 ∧ column digits 2 2 ≤ 12)
    (absent : ¬ (columnDate digits).Occurs) :
    Flaw digits (.invalidDay (2000 + column digits 0 2) (column digits 2 2) (column digits 4 2))
  | hour (date : (columnDate digits).Occurs) (beyond : 23 < column digits 6 2) :
    Flaw digits (.invalidHour (column digits 6 2))
  | minute (date : (columnDate digits).Occurs) (hour : column digits 6 2 ≤ 23)
    (beyond : 59 < column digits 8 2) : Flaw digits (.invalidMinute (column digits 8 2))
  | second (date : (columnDate digits).Occurs) (hour : column digits 6 2 ≤ 23)
    (minute : column digits 8 2 ≤ 59) (beyond : 59 < column digits 10 2) :
    Flaw digits (.invalidSecond (column digits 10 2))

/-- Why a text is refused. The checks come in this order, each after those before it have passed. -/
inductive Refusal (text : String) : TextError → Prop
  | empty (empty : text = "") : Refusal text .empty
  | tooShort (nonempty : text ≠ "") (short : text.utf8ByteSize ≤ 22) :
    Refusal text (.tooShort text.utf8ByteSize)
  | nonDigit (long : 22 < text.utf8ByteSize) (place : Nat) (stray : Stray text place)
    (first : ∀ other, Stray text other → place ≤ other) : Refusal text (.nonDigit place)
  | flawed (long : 22 < text.utf8ByteSize) (clean : ∀ place, ¬ Stray text place)
    (label digits : String) (split : text = label ++ digits) (length : digits.length = 22)
    (error : TextError) (flaw : Flaw digits error) : Refusal text error

section Stray
variable {text : String}

theorem length_lastBytes (long : 22 < text.utf8ByteSize) : (lastBytes text).length = 22 := by
  rw [lastBytes, List.length_drop, ← Text.utf8ByteSize_eq_length_bytes]
  omega

theorem stray_iff {place : Nat} : Stray text (text.utf8ByteSize - 22 + place) ↔
    ∃ byte, (lastBytes text)[place]? = some byte ∧ byte.isASCIIDigit = false := by
  rw [lastBytes, List.getElem?_drop]
  exact ⟨Stray.byte, fun byte => ⟨Nat.le_add_right _ _, byte⟩⟩

theorem first_stray_iff {place : Nat} :
    Numeral.ofBytes (lastBytes text) = .error place ↔
      Stray text (text.utf8ByteSize - 22 + place) ∧
        ∀ other, Stray text other → text.utf8ByteSize - 22 + place ≤ other := by
  rw [Numeral.ofBytes_eq_error_iff, List.findIdx?_eq_some_iff_getElem, stray_iff]
  constructor
  · rintro ⟨inside, stray, before⟩
    refine ⟨⟨_, List.getElem?_eq_getElem inside, Bool.not_eq_eq_eq_not.1 stray⟩, ?_⟩
    intro other otherStray
    obtain ⟨later, rfl⟩ := Nat.exists_eq_add_of_le otherStray.late
    obtain ⟨byte, found, ascii⟩ := stray_iff.1 otherStray
    obtain ⟨bound, rfl⟩ := List.getElem?_eq_some_iff.1 found
    apply Nat.add_le_add_left
    apply Nat.le_of_not_lt
    intro earlier
    exact before later earlier (Bool.not_eq_eq_eq_not.2 ascii)
  · rintro ⟨⟨byte, found, ascii⟩, least⟩
    obtain ⟨inside, rfl⟩ := List.getElem?_eq_some_iff.1 found
    refine ⟨inside, Bool.not_eq_eq_eq_not.2 ascii, ?_⟩
    intro earlier before nonDigit
    have stray : Stray text (text.utf8ByteSize - 22 + earlier) := stray_iff.2
      ⟨_, List.getElem?_eq_getElem (Nat.lt_trans before inside), Bool.not_eq_eq_eq_not.1 nonDigit⟩
    have bound := least _ stray
    omega

theorem clean_iff : (∃ digits, Numeral.ofBytes (lastBytes text) = .ok digits) ↔
    ∀ place, ¬ Stray text place := by
  rw [Numeral.ofBytes_ok_iff]
  constructor
  · intro ascii place stray
    obtain ⟨later, rfl⟩ := Nat.exists_eq_add_of_le stray.late
    obtain ⟨byte, found, nonDigit⟩ := stray_iff.1 stray
    rw [ascii byte (List.mem_of_getElem? found)] at nonDigit
    cases nonDigit
  · intro clean byte member
    obtain ⟨place, found⟩ := List.mem_iff_getElem?.1 member
    rw [← Bool.not_eq_false]
    intro nonDigit
    exact clean _ (stray_iff.2 ⟨byte, found, nonDigit⟩)

end Stray

namespace Suffix

theorem validMonth_iff (digits : String) : (columnDate digits).validMonth ↔
    1 ≤ column digits 2 2 ∧ column digits 2 2 ≤ 12 := by
  rw [Date.validMonth, Bool.and_eq_true, decide_eq_true_eq, decide_eq_true_eq]
  rfl

theorem validMonth_of_occurs {digits : String} (date : (columnDate digits).Occurs) :
    (columnDate digits).validMonth := by
  have real := Date.occurs_iff.1 date
  simp only [Date.onCalendar, Bool.and_eq_true] at real
  exact real.1.1

theorem flaw_eq_some_of_flaw {digits : String} {error : TextError} (flaw : Flaw digits error) :
    (ofCharacters digits).flaw = some error := by
  rw [Suffix.flaw, date_ofCharacters, ofCharacters_eq]
  cases flaw with
  | month outside =>
    have invalid : ¬ (columnDate digits).validMonth := by
      rw [validMonth_iff]
      omega
    rw [if_pos invalid]
  | day month absent =>
    rw [if_neg (not_not.2 ((validMonth_iff digits).2 month)), if_pos (mt Date.occurs_iff.2 absent)]
    rfl
  | hour date beyond =>
    rw [if_neg (not_not.2 (validMonth_of_occurs date)), if_neg (not_not.2 (Date.occurs_iff.1 date)),
      if_pos beyond]
  | minute date hour beyond =>
    rw [if_neg (not_not.2 (validMonth_of_occurs date)), if_neg (not_not.2 (Date.occurs_iff.1 date)),
      if_neg (Nat.not_lt.2 hour), if_pos beyond]
  | second date hour minute beyond =>
    rw [if_neg (not_not.2 (validMonth_of_occurs date)), if_neg (not_not.2 (Date.occurs_iff.1 date)),
      if_neg (Nat.not_lt.2 hour), if_neg (Nat.not_lt.2 minute), if_pos beyond]

theorem exists_flaw {digits : String} (flawed : (ofCharacters digits).flaw ≠ none) :
    ∃ error, Flaw digits error := by
  by_cases month : 1 ≤ column digits 2 2 ∧ column digits 2 2 ≤ 12
  · by_cases date : (columnDate digits).Occurs
    · rcases Nat.lt_or_ge 23 (column digits 6 2) with beyond | hour
      · exact ⟨_, .hour date beyond⟩
      rcases Nat.lt_or_ge 59 (column digits 8 2) with beyond | minute
      · exact ⟨_, .minute date hour beyond⟩
      rcases Nat.lt_or_ge 59 (column digits 10 2) with beyond | second
      · exact ⟨_, .second date hour minute beyond⟩
      · rw [ne_eq, flaw_eq_none_iff, date_ofCharacters, ofCharacters_eq] at flawed
        exact absurd ⟨Date.occurs_iff.1 date, hour, minute, second⟩ flawed
    · exact ⟨_, .day month date⟩
  · exact ⟨_, .month (by omega)⟩

theorem flaw_eq_some_iff {digits : String} {error : TextError} :
    (ofCharacters digits).flaw = some error ↔ Flaw digits error := by
  refine ⟨?_, flaw_eq_some_of_flaw⟩
  intro found
  obtain ⟨other, flaw⟩ := exists_flaw (found ▸ Option.some_ne_none error)
  obtain rfl : error = other := Option.some.inj (found.symm.trans (flaw_eq_some_of_flaw flaw))
  exact flaw

theorem exists_ofCharacters {text : String} {digits : List Nat} (long : 22 < text.utf8ByteSize)
    (read : Numeral.ofBytes (lastBytes text) = .ok digits) :
    ∃ label last : String, text = label ++ last ∧ last.length = 22 ∧
      ofCharacters last = ofDigits digits := by
  have inside : text.utf8ByteSize - 22 ≤ (Text.bytes text).length := by
    rw [← Text.utf8ByteSize_eq_length_bytes]
    exact Nat.sub_le _ _
  obtain ⟨label, cut, -, small⟩ := Text.exists_digits inside read
  have length : digits.length = 22 := by
    rw [← length_lastBytes long, (Numeral.bytes_of_ofBytes read).2, List.length_map]
  refine ⟨String.ofList label, String.ofList (digits.map Nat.digitChar), ?_, ?_, ?_⟩
  · rw [← String.ofList_append, ← cut, String.ofList_toList]
  · rw [String.length_ofList, List.length_map, length]
  · rw [ofCharacters, String.toList_ofList, Numeral.map_toNat_digitChars small]

end Suffix

namespace Identifier
variable {text : String} {error : TextError}

theorem ofText_eq (text : String) : ofText text =
    if text.utf8ByteSize = 0 then .error .empty
    else if text.utf8ByteSize ≤ 22 then .error (.tooShort text.utf8ByteSize)
    else
      match Numeral.ofBytes (lastBytes text) with
      | .error place => .error (.nonDigit (text.utf8ByteSize - 22 + place))
      | .ok digits =>
        match (Suffix.ofDigits digits).flaw with
        | some error => .error error
        | none =>
          .ok
            { text, labelBytes := text.utf8ByteSize - 22
              instant := (Suffix.ofDigits digits).instant
              node := .ofSeed (Suffix.ofDigits digits).node
              sequence := (Suffix.ofDigits digits).sequence.toUInt16 } := by
  rw [lastBytes, Text.utf8ByteSize_eq_length_bytes]
  rfl

theorem refusal_of_ofText (refused : ofText text = .error error) : Refusal text error := by
  rw [ofText_eq] at refused
  split at refused
  · rename_i empty
    obtain rfl := Except.error.inj refused
    exact .empty (String.utf8ByteSize_eq_zero_iff.1 empty)
  rename_i positive
  have nonempty : text ≠ "" := mt String.utf8ByteSize_eq_zero_iff.2 positive
  split at refused
  · rename_i short
    obtain rfl := Except.error.inj refused
    exact .tooShort nonempty short
  rename_i short
  have long := Nat.lt_of_not_le short
  split at refused
  · rename_i place read
    obtain rfl := Except.error.inj refused
    obtain ⟨stray, first⟩ := first_stray_iff.1 read
    exact .nonDigit long _ stray first
  rename_i digits read
  have clean := clean_iff.1 ⟨digits, read⟩
  obtain ⟨label, last, whole, length, fields⟩ := Suffix.exists_ofCharacters long read
  rw [← fields] at refused
  split at refused
  · rename_i found
    obtain rfl := Except.error.inj refused
    exact .flawed long clean label last whole length _ (Suffix.flaw_eq_some_iff.1 found)
  · cases refused

theorem ofText_of_refusal (refusal : Refusal text error) : ofText text = .error error := by
  rw [ofText_eq]
  cases refusal with
  | empty empty => rw [if_pos (String.utf8ByteSize_eq_zero_iff.2 empty)]
  | tooShort nonempty short =>
    rw [if_neg (mt String.utf8ByteSize_eq_zero_iff.1 nonempty), if_pos short]
  | nonDigit long place stray first =>
    obtain ⟨place, rfl⟩ := Nat.exists_eq_add_of_le stray.late
    rw [if_neg (by omega), if_neg (by omega), first_stray_iff.2 ⟨stray, first⟩]
  | flawed long clean label digits whole length error flaw =>
    obtain ⟨numbers, read⟩ := clean_iff.2 clean
    obtain ⟨front, last, again, size, fields⟩ := Suffix.exists_ofCharacters long read
    have same : digits = last := by
      have ends := congrArg String.toList (whole.symm.trans again)
      rw [String.toList_append, String.toList_append] at ends
      have lengths : digits.toList.length = last.toList.length := by
        rw [String.length_toList, String.length_toList, length, size]
      exact String.toList_inj.1 (List.append_inj' ends lengths).2
    rw [if_neg (by omega), if_neg (by omega), read]
    dsimp only
    rw [← fields, ← same, Suffix.flaw_eq_some_iff.2 flaw]

theorem ofText_eq_error_iff : ofText text = .error error ↔ Refusal text error :=
  ⟨refusal_of_ofText, ofText_of_refusal⟩

end Identifier
end Mintmark
