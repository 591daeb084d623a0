/-!
Decimal numerals. Digits are numbers below ten, the first one the most significant; a numeral of
fixed width keeps its leading zeros, so a row of them needs no separator.
-/
namespace Mintmark.Numeral

/-- The last `width` digits of a number, with leading zeros. -/
def digits : Nat → Nat → List Nat
  | 0, _ => []
  | width + 1, number => digits width (number / 10) ++ [number % 10]

def ofDigits (digits : List Nat) : Nat := digits.foldl (fun number digit => number * 10 + digit) 0

def padded (width number : Nat) : String :=
  String.ofList ((digits width number).map Nat.digitChar)

def row : List Nat → List Nat → List Nat
  | width :: widths, number :: numbers => digits width number ++ row widths numbers
  | _, _ => []

def columns : List Nat → List Nat → List Nat
  | [], _ => []
  | width :: widths, row => ofDigits (row.take width) :: columns widths (row.drop width)

def digitOfByte? (byte : UInt8) : Option Nat :=
  if 48 ≤ byte ∧ byte ≤ 57 then some (byte.toNat - 48) else none

/-- The digits that the bytes spell, or the place of the first byte that is no digit. -/
def ofBytes : List UInt8 → Except Nat (List Nat)
  | [] => .ok []
  | byte :: bytes =>
    match digitOfByte? byte with
    | none => .error 0
    | some digit =>
      match ofBytes bytes with
      | .error place => .error (place + 1)
      | .ok digits => .ok (digit :: digits)

def plain? (text : List Char) : Option Nat :=
  if text ≠ [] ∧ text.all Char.isDigit then some (ofDigits (text.map fun c => c.toNat - 48))
  else none

/-- Reads digits with an optional plus sign, up to a largest number. -/
def natural? (largest : Nat) (text : String) : Option Nat :=
  let number := match text.toList with
    | '+' :: digits => plain? digits
    | digits => plain? digits
  number.filter (· ≤ largest)

/-- Reads digits with an optional sign; a minus sign is good for zero only. -/
def signed? (largest : Nat) (text : String) : Option Nat :=
  match text.toList with
  | '-' :: digits => (plain? digits).filter (· = 0)
  | _ => natural? largest text

theorem length_digits (width number : Nat) : (digits width number).length = width := by
  induction width generalizing number with
  | zero => rfl
  | succ width shorter => simp [digits, shorter]

theorem digit_lt (width number : Nat) : ∀ digit ∈ digits width number, digit < 10 := by
  induction width generalizing number with
  | zero => simp [digits]
  | succ width shorter =>
    intro digit member
    rcases List.mem_append.1 member with first | last
    · exact shorter _ digit first
    · rw [List.mem_singleton.1 last]
      omega

theorem ofDigits_append_singleton (front : List Nat) (digit : Nat) :
    ofDigits (front ++ [digit]) = ofDigits front * 10 + digit := by
  simp [ofDigits]

end Mintmark.Numeral
