import Mathlib
import Mintmark.Text.Quoted

/-!
Quoted texts. A grammar says how the characters of a text may be spelled between quotes, escapes of
every kind included. Reading accepts the spellings of a text and nothing else, and writing gives one
of them.
-/
namespace Mintmark.Text.Quoted

/-- A hexadecimal digit, in either case, with its value. -/
structure HexDigit (character : Char) (value : Nat) : Prop where
  small : value < 16
  either : character = Nat.digitChar value ∨ character = (Nat.digitChar value).toUpper

inductive UnitDigits : List Char → Nat → Prop
  | mk {first second third fourth : Char} {a b c d : Nat} (one : HexDigit first a)
    (two : HexDigit second b) (three : HexDigit third c) (four : HexDigit fourth d) :
    UnitDigits [first, second, third, fourth] (((a * 16 + b) * 16 + c) * 16 + d)

/-- The ways to spell a character between quotes: as it is, behind a backslash, by a letter that stands
for it, and by the hexadecimal digits of its one or two units. -/
inductive Spelling (character : Char) : List Char → Prop
  | plain (quote : character ≠ '"') (backslash : character ≠ '\\')
    (printable : 0x20 ≤ character.toNat) : Spelling character [character]
  | marked (mark : character = '"' ∨ character = '\\' ∨ character = '/') :
    Spelling character ['\\', character]
  | letter {letter : Char} (stands : (character, letter) ∈ letters) :
    Spelling character ['\\', letter]
  | unit {digits : List Char} (spells : UnitDigits digits character.toNat) :
    Spelling character ('\\' :: 'u' :: digits)
  | pair {high low : List Char} {upper lower : Nat} (upperSmall : upper < 0x400)
    (lowerSmall : lower < 0x400) (highSpells : UnitDigits high (0xD800 + upper))
    (lowSpells : UnitDigits low (0xDC00 + lower))
    (code : character.toNat = 0x10000 + upper * 0x400 + lower) :
    Spelling character ('\\' :: 'u' :: (high ++ '\\' :: 'u' :: low))

inductive Spelled : List Char → List Char → Prop
  | nil : Spelled [] []
  | cons {character : Char} {piece characters pieces : List Char} (first : Spelling character piece)
    (others : Spelled characters pieces) : Spelled (character :: characters) (piece ++ pieces)

theorem hexDigit_of_hexValue? {character : Char} {value : Nat}
    (read : hexValue? character = some value) : HexDigit character value := by
  have all : ∀ number < 103, ∀ value ∈ hexValue? (Char.ofNat number), value < 16 ∧
      (Char.ofNat number = Nat.digitChar value ∨
        Char.ofNat number = (Nat.digitChar value).toUpper) := by decide
  have last : 'f'.toNat = 102 ∧ 'F'.toNat = 70 ∧ '9'.toNat = 57 := by decide
  have ordered {left right : Char} : left ≤ right ↔ left.toNat ≤ right.toNat := Iff.rfl
  have inside : character.toNat < 103 := by
    unfold hexValue? at read
    simp only [ordered] at read
    split_ifs at read <;> omega
  have found := all character.toNat inside value
  rw [Char.ofNat_toNat] at found
  exact ⟨(found read).1, (found read).2⟩

theorem HexDigit.hexValue? {character : Char} {value : Nat} (digit : HexDigit character value) :
    hexValue? character = some value := by
  have all : ∀ value < 16, Quoted.hexValue? (Nat.digitChar value) = some value ∧
      Quoted.hexValue? (Nat.digitChar value).toUpper = some value := by decide
  obtain ⟨small, rfl | rfl⟩ := digit
  · exact (all value small).1
  · exact (all value small).2

theorem unit?_eq_some_iff {written rest : List Char} {number : Nat} :
    unit? written = some (number, rest) ↔
      ∃ digits, UnitDigits digits number ∧ written = digits ++ rest := by
  constructor
  · intro read
    match written with
    | first :: second :: third :: fourth :: others =>
      simp only [unit?, List.mapM_cons, List.mapM_nil, Option.bind_eq_bind, Option.bind_eq_some_iff,
        Option.pure_def, Option.some.injEq, Prod.mk.injEq] at read
      obtain ⟨_, ⟨a, one, _, ⟨b, two, _, ⟨c, three, _, ⟨d, four, _, rfl, rfl⟩, rfl⟩, rfl⟩, rfl⟩,
        rfl, rfl⟩ := read
      have spells := UnitDigits.mk (hexDigit_of_hexValue? one) (hexDigit_of_hexValue? two)
        (hexDigit_of_hexValue? three) (hexDigit_of_hexValue? four)
      simp only [List.foldl_cons, List.foldl_nil, Nat.zero_mul, Nat.zero_add]
      exact ⟨_, spells, rfl⟩
    | [] | [_] | [_, _] | [_, _, _] => cases read
  · rintro ⟨digits, spells, rfl⟩
    obtain ⟨one, two, three, four⟩ := spells
    simp [unit?, one.hexValue?, two.hexValue?, three.hexValue?, four.hexValue?]

theorem UnitDigits.lt {digits : List Char} {number : Nat} (spells : UnitDigits digits number) :
    number < 0x10000 := by
  obtain ⟨one, two, three, four⟩ := spells
  have := one.small
  have := two.small
  have := three.small
  have := four.small
  omega

theorem pair?_toNat (character : Char) (rest : List Char) :
    pair? character.toNat rest = some (character, rest) := by
  have valid : character.toNat < 0xD800 ∨ 0xE000 ≤ character.toNat := by
    rcases character.valid with low | ⟨high, -⟩
    · exact .inl low
    · exact .inr high
  unfold pair?
  rw [if_pos valid, Char.ofNat_toNat]

theorem spelling_surrogates {high low : List Char} {unit last : Nat}
    (highSpells : UnitDigits high unit) (lowSpells : UnitDigits low last)
    (highRange : 0xD800 ≤ unit ∧ unit < 0xDC00) (lowRange : 0xDC00 ≤ last ∧ last < 0xE000) :
    Spelling (Char.ofNat (0x10000 + (unit - 0xD800) * 0x400 + (last - 0xDC00)))
      ('\\' :: 'u' :: (high ++ '\\' :: 'u' :: low)) := by
  have code : (Char.ofNat (0x10000 + (unit - 0xD800) * 0x400 + (last - 0xDC00))).toNat = _ :=
    (Char.toNat_ofNat _).trans (if_pos (by unfold Nat.isValidChar; omega))
  have highUnit : 0xD800 + (unit - 0xD800) = unit := by omega
  have lowUnit : 0xDC00 + (last - 0xDC00) = last := by omega
  exact .pair (by omega) (by omega) (highUnit.symm ▸ highSpells) (lowUnit.symm ▸ lowSpells) code

theorem pair?_surrogates {character : Char} {low : List Char} {upper lower : Nat}
    (upperSmall : upper < 0x400) (lowerSmall : lower < 0x400)
    (lowSpells : UnitDigits low (0xDC00 + lower))
    (code : character.toNat = 0x10000 + upper * 0x400 + lower) (rest : List Char) :
    pair? (0xD800 + upper) ('\\' :: 'u' :: (low ++ rest)) = some (character, rest) := by
  have read : unit? (low ++ rest) = some (0xDC00 + lower, rest) :=
    unit?_eq_some_iff.2 ⟨low, lowSpells, rfl⟩
  have whole : 0x10000 + (0xD800 + upper - 0xD800) * 0x400 + (0xDC00 + lower - 0xDC00) =
      character.toNat := by omega
  have surrogate : ¬ (0xD800 + upper < 0xD800 ∨ 0xE000 ≤ 0xD800 + upper) := by omega
  have first : ¬ 0xDC00 ≤ 0xD800 + upper := by omega
  have second : 0xDC00 ≤ 0xDC00 + lower ∧ 0xDC00 + lower < 0xE000 := by omega
  simp only [pair?, if_neg surrogate, if_neg first, read, if_pos second, whole, Char.ofNat_toNat,
    Option.bind_eq_bind, Option.bind_some]
  rfl

theorem spelling_of_pair? {unit : Nat} {digits after rest : List Char} {character : Char}
    (spells : UnitDigits digits unit) (read : pair? unit after = some (character, rest)) :
    ∃ piece, Spelling character ('\\' :: 'u' :: (digits ++ piece)) ∧ after = piece ++ rest := by
  have small := spells.lt
  unfold pair? at read
  split at read
  · rename_i basic
    simp only [Option.some.injEq, Prod.mk.injEq] at read
    obtain ⟨rfl, rfl⟩ := read
    have code : (Char.ofNat unit).toNat = unit :=
      (Char.toNat_ofNat unit).trans (if_pos (by unfold Nat.isValidChar; omega))
    refine ⟨[], ?_, rfl⟩
    rw [List.append_nil]
    exact .unit (code.symm ▸ spells)
  split at read
  · cases read
  rename_i surrogate upper
  split at read
  · simp only [Option.bind_eq_bind, Option.bind_eq_some_iff] at read
    obtain ⟨⟨low, last⟩, lowRead, inside⟩ := read
    obtain ⟨lowDigits, lowSpells, rfl⟩ := unit?_eq_some_iff.1 lowRead
    split at inside
    · rename_i range
      simp only [Option.pure_def, Option.some.injEq, Prod.mk.injEq] at inside
      obtain ⟨rfl, rfl⟩ := inside
      exact ⟨'\\' :: 'u' :: lowDigits, spelling_surrogates spells lowSpells (by omega) range, rfl⟩
    · cases inside
  · cases read

theorem spelling_of_escaped? {written rest : List Char} {character : Char}
    (read : escaped? written = some (character, rest)) :
    ∃ piece, Spelling character ('\\' :: piece) ∧ written = piece ++ rest := by
  unfold escaped? at read
  split at read
  · simp only [Option.bind_eq_bind, Option.bind_eq_some_iff] at read
    obtain ⟨⟨unit, after⟩, digits, pair⟩ := read
    obtain ⟨high, spells, rfl⟩ := unit?_eq_some_iff.1 digits
    obtain ⟨piece, spelling, rfl⟩ := spelling_of_pair? spells pair
    exact ⟨_, spelling, by rw [List.cons_append, List.append_assoc]⟩
  · rename_i letter after _
    split at read
    · rename_i mark
      cases read
      exact ⟨[character], .marked mark, rfl⟩
    · simp only [Option.map_eq_some_iff, Prod.mk.injEq] at read
      obtain ⟨⟨meant, sign⟩, found, rfl, rfl⟩ := read
      have same : sign = letter := by simpa using List.find?_some found
      have member := List.mem_of_find?_eq_some found
      rw [same] at member
      exact ⟨[letter], .letter member, rfl⟩
  · cases read

theorem Spelling.escaped? {character : Char} {piece : List Char}
    (spelling : Spelling character ('\\' :: piece)) (rest : List Char) :
    Quoted.escaped? (piece ++ rest) = some (character, rest) := by
  cases spelling with
  | plain quote backslash => exact absurd rfl backslash
  | marked mark =>
    rcases mark with rfl | rfl | rfl <;> rfl
  | letter stands =>
    simp only [letters, List.mem_cons, Prod.mk.injEq, List.not_mem_nil, or_false] at stands
    rcases stands with ⟨rfl, rfl⟩ | ⟨rfl, rfl⟩ | ⟨rfl, rfl⟩ | ⟨rfl, rfl⟩ | ⟨rfl, rfl⟩ <;> rfl
  | @unit digits spells =>
    have read : unit? (digits ++ rest) = some (character.toNat, rest) :=
      unit?_eq_some_iff.2 ⟨digits, spells, rfl⟩
    rw [List.cons_append, Quoted.escaped?, read]
    exact pair?_toNat character rest
  | @pair high low upper lower upperSmall lowerSmall highSpells lowSpells code =>
    have read : unit? (high ++ '\\' :: 'u' :: (low ++ rest)) =
        some (0xD800 + upper, '\\' :: 'u' :: (low ++ rest)) :=
      unit?_eq_some_iff.2 ⟨high, highSpells, rfl⟩
    rw [List.cons_append, List.append_assoc, List.cons_append, List.cons_append, Quoted.escaped?, read]
    exact pair?_surrogates upperSmall lowerSmall lowSpells code rest

theorem Spelling.body? {character : Char} {piece : List Char} (spelling : Spelling character piece)
    (size : Nat) (rest : List Char) :
    Quoted.body? (size + 1) (piece ++ rest) = (Quoted.body? size rest).map (character :: ·) := by
  by_cases escape : ∃ behind, piece = '\\' :: behind
  · obtain ⟨behind, rfl⟩ := escape
    rw [List.cons_append, Quoted.body?, spelling.escaped?]
    cases later : Quoted.body? size rest <;> simp [later]
  · cases spelling with
    | plain quote backslash printable =>
      rw [List.singleton_append, Quoted.body?, if_neg (by simp [quote, printable])]
      · simp [quote]
      · simp [backslash]
    | marked => exact absurd ⟨_, rfl⟩ escape
    | letter => exact absurd ⟨_, rfl⟩ escape
    | unit => exact absurd ⟨_, rfl⟩ escape
    | pair => exact absurd ⟨_, rfl⟩ escape

theorem Spelling.length_pos {character : Char} {piece : List Char}
    (spelling : Spelling character piece) : 0 < piece.length := by
  cases spelling <;> exact Nat.succ_pos _

theorem Spelled.body? {characters written : List Char} (spelled : Spelled characters written) :
    ∀ {size : Nat}, written.length < size →
      Quoted.body? size (written ++ ['"']) = some characters := by
  -- Each character takes at least one of those that spell it, so the fuel lasts to the quote.
  induction spelled with
  | nil =>
    intro size enough
    obtain ⟨size, rfl⟩ := Nat.exists_eq_add_one.2 enough
    rfl
  | cons first _ rest =>
    intro size enough
    obtain ⟨size, rfl⟩ := Nat.exists_eq_add_one.2 (Nat.zero_lt_of_lt enough)
    have positive := first.length_pos
    rw [List.length_append] at enough
    rw [List.append_assoc, first.body?, rest (by omega)]
    rfl

theorem spelled_of_body? {size : Nat} {written characters : List Char}
    (read : body? size written = some characters) :
    ∃ inside, Spelled characters inside ∧ written = inside ++ ['"'] := by
  fun_induction body? size written generalizing characters with
  | case1 => cases read
  | case2 => cases read
  | case3 =>
    cases read
    exact ⟨[], .nil, rfl⟩
  | case4 size rest ih =>
    simp only [Option.bind_eq_bind, Option.bind_eq_some_iff, Option.pure_def,
      Option.some.injEq] at read
    obtain ⟨⟨character, after⟩, escaped, others, later, rfl⟩ := read
    obtain ⟨piece, spelling, rfl⟩ := spelling_of_escaped? escaped
    obtain ⟨inside, spelled, rfl⟩ := ih _ later
    exact ⟨_, .cons spelling spelled, by rw [List.cons_append, List.cons_append, List.append_assoc]⟩
  | case5 => cases read
  | case6 size character rest quote backslash plain ih =>
    rw [not_or, Nat.not_lt] at plain
    obtain ⟨others, later, rfl⟩ := Option.map_eq_some_iff.1 read
    obtain ⟨inside, spelled, rfl⟩ := ih later
    exact ⟨character :: inside, .cons (.plain plain.1 backslash plain.2) spelled, rfl⟩

/-- Reading accepts a text in quotes exactly if it is spelled there. -/
theorem read?_eq_some_iff {written text : String} : read? written = some text ↔
    ∃ inside, Spelled text.toList inside ∧ written.toList = '"' :: (inside ++ ['"']) := by
  constructor
  · intro read
    unfold read? at read
    split at read
    · rename_i rest shape
      obtain ⟨characters, body, rfl⟩ := Option.map_eq_some_iff.1 read
      obtain ⟨inside, spelled, rfl⟩ := spelled_of_body? body
      rw [String.toList_ofList]
      exact ⟨inside, spelled, shape⟩
    · cases read
  · rintro ⟨inside, spelled, shape⟩
    have body : Quoted.body? (inside ++ ['"']).length (inside ++ ['"']) = some text.toList := by
      apply spelled.body?
      rw [List.length_append]
      exact Nat.lt_succ_self _
    simp only [read?, shape, body, Option.map_some, String.ofList_toList]

theorem spelling_escape (character : Char) : Spelling character (escape character) := by
  unfold escape
  split
  · rename_i mark
    exact .marked (mark.imp_right .inl)
  rename_i mark
  rw [not_or] at mark
  split
  · rename_i letter found
    obtain ⟨before, after, split, -⟩ := List.lookup_eq_some_iff.1 found
    exact .letter (by simp [split])
  split
  · rename_i control
    have digit {value : Nat} (small : value < 16) : HexDigit (Nat.digitChar value) value :=
      ⟨small, .inl rfl⟩
    have zero : HexDigit '0' 0 := ⟨by decide, .inl rfl⟩
    have digits := UnitDigits.mk zero zero (digit (show character.toNat / 16 < 16 by omega))
      (digit (show character.toNat % 16 < 16 by omega))
    have number : ((0 * 16 + 0) * 16 + character.toNat / 16) * 16 + character.toNat % 16 =
        character.toNat := by omega
    rw [number] at digits
    exact .unit digits
  · rename_i printable
    exact .plain mark.1 mark.2 (Nat.le_of_not_lt printable)

theorem spelled_escape (characters : List Char) : Spelled characters (characters.flatMap escape) := by
  induction characters with
  | nil => exact .nil
  | cons character characters rest => exact .cons (spelling_escape character) rest

theorem toList_write (text : String) :
    (write text).toList = '"' :: (text.toList.flatMap escape ++ ['"']) := by
  rw [write, String.toList_ofList]
  rfl

end Mintmark.Text.Quoted
