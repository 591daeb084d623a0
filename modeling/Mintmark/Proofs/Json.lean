import Mathlib.Data.List.Forall2
import Mintmark.Proofs.Identifier.Grammar
import Mintmark.Proofs.Text.Quoted
import Mintmark.Report

/-!
Reading JSON objects whose members are texts and whole numbers. Blanks may stand between all parts. A
report is such an object, and its members are read back from it as they are.
-/
namespace Mintmark.Json

def blank (character : Char) : Bool :=
  character = ' ' || character = '\n' || character = '\t' || character = '\r'

def skip (characters : List Char) : List Char := characters.dropWhile blank

def quoted : List Char → Option (List Char × List Char)
  | [] => none
  | '"' :: rest => some ([], rest)
  | '\\' :: first :: rest =>
    (quoted rest).map fun (inside, after) => ('\\' :: first :: inside, after)
  | character :: rest => (quoted rest).map fun (inside, after) => (character :: inside, after)

def string? : List Char → Option (String × List Char)
  | '"' :: rest => do
    let (inside, after) ← quoted rest
    let value ← Text.Quoted.read? (String.ofList ('"' :: inside ++ ['"']))
    pure (value, after)
  | _ => none

/-- A number in decimal, which has no zeros in front. -/
def natural? (characters : List Char) : Option (Nat × List Char) :=
  let digits := characters.takeWhile Char.isDigit
  match Numeral.plain? digits with
  | none => none
  | some number =>
    if Nat.toDigits 10 number = digits then some (number, characters.dropWhile Char.isDigit) else none

def value? (characters : List Char) : Option (Json × List Char) :=
  match string? characters with
  | some (text, rest) => some (.string text, rest)
  | none => (natural? characters).map fun (number, rest) => (.integer number, rest)

def member? (characters : List Char) : Option ((String × Json) × List Char) := do
  let (name, rest) ← string? (skip characters)
  match skip rest with
  | ':' :: rest => (value? (skip rest)).map fun (value, after) => ((name, value), after)
  | _ => none

/-- The members up to the closing brace, behind which nothing but blanks may stand. -/
def members? : Nat → List Char → Option (List (String × Json))
  | 0, _ => none
  | size + 1, characters => do
    let (member, rest) ← member? characters
    match skip rest with
    | ',' :: rest => (members? size rest).map (member :: ·)
    | '\x7d' :: rest => if skip rest = [] then some [member] else none
    | _ => none

/-- Reads an object of at least one member. -/
def read? (text : String) : Option Json :=
  match skip text.toList with
  | '\x7b' :: rest => (members? rest.length rest).map .object
  | _ => none

def Passes (piece : List Char) : Prop :=
  ∀ rest, quoted (piece ++ rest) = (quoted rest).map fun (inside, after) => (piece ++ inside, after)

theorem Passes.append {first second : List Char} (one : Passes first) (two : Passes second) :
    Passes (first ++ second) := by
  intro rest
  rw [List.append_assoc, one, two, Option.map_map]
  simp only [Function.comp_def, List.append_assoc]

theorem passes_nil : Passes [] := by
  intro rest
  rw [List.nil_append]
  cases quoted rest <;> rfl

theorem passes_escape (behind : Char) : Passes ['\\', behind] := fun _ => rfl

theorem passes_bare {character : Char} (quote : character ≠ '"') (backslash : character ≠ '\\') :
    Passes [character] := by
  intro rest
  rw [List.singleton_append, quoted]
  · rfl
  · simp [quote]
  · simp [backslash]

section Spelling
open Text.Quoted (HexDigit UnitDigits Spelling Spelled)

theorem passes_digit {character : Char} {value : Nat} (digit : HexDigit character value) :
    Passes [character] := by
  have bare : ∀ value < 16, Nat.digitChar value ≠ '"' ∧ Nat.digitChar value ≠ '\\' ∧
      (Nat.digitChar value).toUpper ≠ '"' ∧ (Nat.digitChar value).toUpper ≠ '\\' := by decide
  obtain ⟨small, rfl | rfl⟩ := digit
  · exact passes_bare (bare value small).1 (bare value small).2.1
  · exact passes_bare (bare value small).2.2.1 (bare value small).2.2.2

theorem passes_digits {digits : List Char} {number : Nat} (spells : UnitDigits digits number) :
    Passes digits := by
  obtain ⟨one, two, three, four⟩ := spells
  exact (passes_digit one).append ((passes_digit two).append
    ((passes_digit three).append (passes_digit four)))

theorem passes_spelling {character : Char} {piece : List Char} (spelling : Spelling character piece) :
    Passes piece := by
  cases spelling with
  | plain quote backslash => exact passes_bare quote backslash
  | marked => exact passes_escape _
  | letter => exact passes_escape _
  | unit spells => exact (passes_escape 'u').append (passes_digits spells)
  | pair _ _ highSpells lowSpells =>
    exact (passes_escape 'u').append ((passes_digits highSpells).append
      ((passes_escape 'u').append (passes_digits lowSpells)))

theorem passes_spelled {characters written : List Char} (spelled : Spelled characters written) :
    Passes written := by
  induction spelled with
  | nil => exact passes_nil
  | cons first _ rest => exact (passes_spelling first).append rest

end Spelling

theorem quoted_eq_some {written inside after : List Char} (found : quoted written = some (inside, after)) :
    written = inside ++ '"' :: after := by
  fun_induction quoted written generalizing inside with
  | case1 => cases found
  | case2 =>
    cases found
    rfl
  | case3 first rest ih =>
    obtain ⟨⟨front, back⟩, later, same⟩ := Option.map_eq_some_iff.1 found
    cases same
    rw [ih later]
    rfl
  | case4 character rest quote escape ih =>
    obtain ⟨⟨front, back⟩, later, same⟩ := Option.map_eq_some_iff.1 found
    cases same
    rw [ih later]
    rfl

theorem string?_eq_some_iff {written rest : List Char} {text : String} :
    string? written = some (text, rest) ↔
      ∃ inside, Text.Quoted.Spelled text.toList inside ∧ written = '"' :: (inside ++ '"' :: rest) := by
  constructor
  · intro read
    unfold string? at read
    split at read
    · rename_i behind
      simp only [Option.bind_eq_bind, Option.bind_eq_some_iff, Option.pure_def, Option.some.injEq,
        Prod.mk.injEq] at read
      obtain ⟨⟨front, after⟩, found, value, body, rfl, rfl⟩ := read
      obtain ⟨inside, spelled, shape⟩ := Text.Quoted.read?_eq_some_iff.1 body
      rw [String.toList_ofList] at shape
      obtain rfl : front = inside := by simpa using shape
      exact ⟨front, spelled, by rw [quoted_eq_some found]⟩
    · cases read
  · rintro ⟨inside, spelled, rfl⟩
    have found : quoted (inside ++ '"' :: rest) = some (inside, rest) := by
      rw [passes_spelled spelled, quoted, Option.map_some]
      exact congrArg (fun front => some (front, rest)) (List.append_nil inside)
    have body : Text.Quoted.read? (String.ofList ('"' :: inside ++ ['"'])) = some text :=
      Text.Quoted.read?_eq_some_iff.2 ⟨inside, spelled, by rw [String.toList_ofList, List.cons_append]⟩
    simp only [string?, found, body, Option.bind_eq_bind, Option.bind_some]
    rfl

theorem string?_write (text : String) (rest : List Char) :
    string? ((Text.Quoted.write text).toList ++ rest) = some (text, rest) := by
  apply string?_eq_some_iff.2
  refine ⟨_, Text.Quoted.spelled_escape text.toList, ?_⟩
  rw [Text.Quoted.toList_write, List.cons_append, List.append_assoc]
  rfl

theorem natural?_toDigits (number : Nat) {stop : Char} (other : stop.isDigit = false)
    (rest : List Char) :
    natural? (Nat.toDigits 10 number ++ stop :: rest) = some (number, stop :: rest) := by
  have decimal : ∀ character ∈ Nat.toDigits 10 number, character.isDigit = true :=
    fun _ member => Nat.isDigit_of_mem_toDigits (by decide) (by decide) member
  have digits : (Nat.toDigits 10 number ++ stop :: rest).takeWhile Char.isDigit =
      Nat.toDigits 10 number := by
    rw [List.takeWhile_append_of_pos decimal, List.takeWhile_cons_of_neg (by simp [other]),
      List.append_nil]
  have behind : (Nat.toDigits 10 number ++ stop :: rest).dropWhile Char.isDigit = stop :: rest := by
    rw [List.dropWhile_append_of_pos decimal, List.dropWhile_cons_of_neg (by simp [other])]
  have value : Numeral.plain? (Nat.toDigits 10 number) = some number := by
    rw [Numeral.plain?, if_pos ⟨Nat.toDigits_ne_nil, List.all_eq_true.2 decimal⟩,
      Suffix.ofDigits_map_toNat, Nat.ofDigitChars_toDigits (by decide) (by decide)]
  rw [natural?, digits, value, behind]
  exact if_pos rfl

/-- A member as it is written: its name stands as it is, and its value is read back from what is
written for it, up to the first character that is no digit. -/
structure Writes (written : String × String) (member : String × Json) : Prop where
  name : written.1 = member.1
  plain : (Text.Quoted.write written.1).toList = '"' :: (written.1.toList ++ ['"'])
  value : ∀ (stop : Char) (rest : List Char), stop.isDigit = false →
    value? (skip (written.2.toList ++ stop :: rest)) = some (member.2, stop :: rest)

theorem writes_string {name text : String}
    (plain : (Text.Quoted.write name).toList = '"' :: (name.toList ++ ['"'])) :
    Writes (name, Text.Quoted.write text) (name, .string text) where
  name := rfl
  plain := plain
  value stop rest _ := by
    have starts : skip ((Text.Quoted.write text).toList ++ stop :: rest) =
        (Text.Quoted.write text).toList ++ stop :: rest := by
      rw [Text.Quoted.toList_write]
      exact List.dropWhile_cons_of_neg (by decide)
    rw [starts, value?, string?_write]

theorem writes_integer {name : String} (number : Nat)
    (plain : (Text.Quoted.write name).toList = '"' :: (name.toList ++ ['"'])) :
    Writes (name, toString number) (name, .integer number) where
  name := rfl
  plain := plain
  value stop rest other := by
    obtain ⟨digit, digits, shape⟩ := List.exists_cons_of_ne_nil (Nat.toDigits_ne_nil (n := number) (b := 10))
    have decimal : digit.isDigit = true :=
      Nat.isDigit_of_mem_toDigits (by decide) (by decide) (shape ▸ List.mem_cons_self)
    have solid : ¬ blank digit ∧ digit ≠ '"' := by
      refine ⟨fun gap => ?_, ?_⟩
      · simp only [blank, Bool.or_eq_true, decide_eq_true_eq] at gap
        rcases gap with ((rfl | rfl) | rfl) | rfl <;> contradiction
      · rintro rfl
        contradiction
    have read := natural?_toDigits number other rest
    have text : (toString number).toList = Nat.toDigits 10 number := Nat.toList_repr
    have starts : skip (Nat.toDigits 10 number ++ stop :: rest) =
        Nat.toDigits 10 number ++ stop :: rest := by
      rw [shape]
      exact List.dropWhile_cons_of_neg solid.1
    have unquoted : string? (Nat.toDigits 10 number ++ stop :: rest) = none := by
      rw [shape, List.cons_append, string?]
      simp [solid.2]
    rw [text, starts, value?, unquoted, read]
    rfl

variable {written : String × String} {member : String × Json}

theorem member?_line (writes : Writes written member) {stop : Char} (other : stop.isDigit = false)
    (rest : List Char) :
    member? ('\n' :: ((Report.line written).toList ++ stop :: rest)) = some (member, stop :: rest) := by
  have shape : (Report.line written).toList =
      ' ' :: ' ' :: ((Text.Quoted.write written.1).toList ++ ':' :: ' ' :: written.2.toList) := by
    simp [Report.line, toString, writes.plain]
  have starts : skip ('\n' :: ((Report.line written).toList ++ stop :: rest)) =
      (Text.Quoted.write written.1).toList ++ ':' :: ' ' :: (written.2.toList ++ stop :: rest) := by
    rw [shape, writes.plain]
    simp [skip, blank]
  have colon : skip (':' :: ' ' :: (written.2.toList ++ stop :: rest)) =
      ':' :: ' ' :: (written.2.toList ++ stop :: rest) := rfl
  have gap : skip (' ' :: (written.2.toList ++ stop :: rest)) = skip (written.2.toList ++ stop :: rest) :=
    rfl
  rw [member?, starts, string?_write]
  dsimp only [bind, Option.bind]
  rw [colon]
  simp only [gap, writes.value stop rest other, writes.name, Option.map_some]

def block (members : List (String × String)) : List Char :=
  '\n' :: (String.intercalate ",\n" (members.map Report.line)).toList ++ ['\n', '\x7d', '\n']

theorem block_singleton (member : String × String) :
    block [member] = '\n' :: ((Report.line member).toList ++ ['\n', '\x7d', '\n']) := by
  simp [block]

theorem block_cons_cons (first second : String × String) (members : List (String × String)) :
    block (first :: second :: members) =
      '\n' :: ((Report.line first).toList ++ ',' :: block (second :: members)) := by
  simp [block, String.toList_intercalate]

theorem members?_block {members : List (String × String)} {meant : List (String × Json)}
    (writes : List.Forall₂ Writes members meant) (some_ : members ≠ []) :
    ∀ {size : Nat}, (block members).length ≤ size → members? size (block members) = some meant := by
  -- Each member takes at least one character, so the fuel lasts as long as there are characters left.
  induction writes with
  | nil => exact absurd rfl some_
  | @cons written member others later first writes ih =>
    intro size enough
    obtain ⟨size, rfl⟩ := Nat.exists_eq_add_one.2 (Nat.zero_lt_of_lt enough)
    cases writes with
    | nil =>
      rw [block_singleton, members?, member?_line first (by decide)]
      rfl
    | @cons next _ others _ second writes =>
      rw [block_cons_cons] at enough ⊢
      rw [List.length_cons, List.length_append, List.length_cons] at enough
      have rest := ih (List.cons_ne_nil _ _) (show (block (next :: others)).length ≤ size by omega)
      have comma : skip (',' :: block (next :: others)) = ',' :: block (next :: others) := rfl
      rw [members?, member?_line first (by decide)]
      dsimp only [bind, Option.bind]
      rw [comma]
      simp only [rest, Option.map_some]

/-- An object that is printed with a member to a line is read back. -/
theorem read?_lines {members : List (String × String)} {meant : List (String × Json)}
    (writes : List.Forall₂ Writes members meant) (some_ : members ≠ []) :
    read? ("\x7b\n" ++ String.intercalate ",\n" (members.map Report.line) ++ "\n\x7d" ++ "\n") =
      some (.object meant) := by
  have shape : ("\x7b\n" ++ String.intercalate ",\n" (members.map Report.line) ++ "\n\x7d" ++
      "\n").toList = '\x7b' :: block members := by
    simp [block]
  have starts : skip ('\x7b' :: block members) = '\x7b' :: block members := rfl
  rw [read?, shape, starts]
  simp only [members?_block writes some_ (Nat.le_refl _), Option.map_some]

end Mintmark.Json
