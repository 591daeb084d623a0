/-!
Quoted texts of JSON. Writing escapes quotes, backslashes and the controls below the space; reading
undoes every escape, pairs of surrogates included, and refuses controls and lone surrogates.
-/
namespace Mintmark.Text.Quoted

/-- The control characters that have an escape of one letter, with that letter. -/
def letters : List (Char × Char) :=
  [('\x08', 'b'), ('\t', 't'), ('\n', 'n'), ('\x0c', 'f'), ('\r', 'r')]

def hexDigits (number : Nat) : List Char := [Nat.digitChar (number / 16), Nat.digitChar (number % 16)]

def escape (character : Char) : List Char :=
  if character = '"' ∨ character = '\\' then ['\\', character]
  else
    match letters.lookup character with
    | some letter => ['\\', letter]
    | none =>
      if character.toNat < 0x20 then ['\\', 'u', '0', '0'] ++ hexDigits character.toNat
      else [character]

def write (text : String) : String := String.ofList ('"' :: text.toList.flatMap escape ++ ['"'])

def hexValue? (character : Char) : Option Nat :=
  if '0' ≤ character ∧ character ≤ '9' then some (character.toNat - 48)
  else if 'a' ≤ character ∧ character ≤ 'f' then some (character.toNat - 87)
  else if 'A' ≤ character ∧ character ≤ 'F' then some (character.toNat - 55)
  else none

def unit? : List Char → Option (Nat × List Char)
  | first :: second :: third :: fourth :: rest => do
    let digits ← [first, second, third, fourth].mapM hexValue?
    pure (digits.foldl (fun number digit => number * 16 + digit) 0, rest)
  | _ => none

/-- The character of a unit, or of it and the unit that an escape right behind it spells. -/
def pair? (unit : Nat) (rest : List Char) : Option (Char × List Char) :=
  if unit < 0xD800 ∨ 0xE000 ≤ unit then some (Char.ofNat unit, rest)
  else if 0xDC00 ≤ unit then none
  else
    match rest with
    | '\\' :: 'u' :: rest => do
      let (low, rest) ← unit? rest
      if 0xDC00 ≤ low ∧ low < 0xE000 then
        pure (Char.ofNat (0x10000 + (unit - 0xD800) * 0x400 + (low - 0xDC00)), rest)
      else none
    | _ => none

def escaped? : List Char → Option (Char × List Char)
  | 'u' :: rest => do
    let (unit, rest) ← unit? rest
    pair? unit rest
  | letter :: rest =>
    if letter = '"' ∨ letter = '\\' ∨ letter = '/' then some (letter, rest)
    else
      (letters.find? (·.2 = letter)).map fun (character, _) => (character, rest)
  | [] => none

/-- Reads up to the closing quote, which must be the last character. -/
def body? : Nat → List Char → Option (List Char)
  | 0, _ => none
  | _ + 1, [] => none
  | _ + 1, ['"'] => some []
  | size + 1, '\\' :: rest => do
    let (character, rest) ← escaped? rest
    let others ← body? size rest
    pure (character :: others)
  | size + 1, character :: rest =>
    if character = '"' ∨ character.toNat < 0x20 then none
    else (body? size rest).map (character :: ·)

def read? (written : String) : Option String :=
  match written.toList with
  | '"' :: rest => (body? rest.length rest).map String.ofList
  | _ => none

end Mintmark.Text.Quoted
