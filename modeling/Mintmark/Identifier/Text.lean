import Mintmark.Identifier
import Mintmark.Identifier.Suffix

/-!
Reading identifiers. The last twenty-two bytes must be digits that name a real instant; all before
them is the label. The first check that fails is reported.
-/
namespace Mintmark

inductive TextError where
  | empty
  | tooShort (length : Nat)
  | nonDigit (place : Nat)
  | invalidMonth (month : Nat)
  | invalidDay (year : Int) (month day : Nat)
  | invalidHour (hour : Nat)
  | invalidMinute (minute : Nat)
  | invalidSecond (second : Nat)
deriving DecidableEq, Repr

namespace TextError

def message : TextError → String
  | empty => "empty identifier"
  | tooShort length => s!"identifier too short: {length} bytes"
  | nonDigit place => s!"non-digit at byte {place}"
  | invalidMonth month => s!"invalid month: {month}"
  | invalidDay year month day =>
    s!"invalid day {day} for {Numeral.padded 4 year.toNat}-{Numeral.padded 2 month}"
  | invalidHour hour => s!"invalid hour: {hour}"
  | invalidMinute minute => s!"invalid minute: {minute}"
  | invalidSecond second => s!"invalid second: {second}"

end TextError

namespace Suffix

/-- The first field, in the order of writing, that is out of its range. -/
def flaw (suffix : Suffix) : Option TextError :=
  if ¬ suffix.date.validMonth then some (.invalidMonth suffix.month)
  else if ¬ suffix.date.onCalendar then
    some (.invalidDay suffix.date.year suffix.month suffix.day)
  else if 23 < suffix.hour then some (.invalidHour suffix.hour)
  else if 59 < suffix.minute then some (.invalidMinute suffix.minute)
  else if 59 < suffix.second then some (.invalidSecond suffix.second)
  else none

end Suffix

namespace Identifier

def ofText (text : String) : Except TextError Identifier :=
  let bytes := Text.bytes text
  let labelBytes := bytes.length - Suffix.width
  if bytes.length = 0 then .error .empty
  else if bytes.length ≤ Suffix.width then .error (.tooShort bytes.length)
  else
    match Numeral.ofBytes (bytes.drop labelBytes) with
    | .error place => .error (.nonDigit (labelBytes + place))
    | .ok digits =>
      let suffix := Suffix.ofDigits digits
      match suffix.flaw with
      | some error => .error error
      | none =>
        .ok
          { text, labelBytes
            instant := suffix.instant
            node := .ofSeed suffix.node
            sequence := suffix.sequence.toUInt16 }

def parse? (text : String) : Option Identifier := (ofText text).toOption

def readsBack (identifier : Identifier) : Bool :=
  match ofText identifier.text with
  | .ok read => read = identifier
  | .error _ => false

end Identifier
end Mintmark
