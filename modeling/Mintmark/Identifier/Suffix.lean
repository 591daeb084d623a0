import Mintmark.Instant
import Mintmark.Node

/-!
The digits at the end of an identifier: two each for year, month, day, hour, minute and second,
three for the millisecond, four for the node and three for the sequence.
-/
namespace Mintmark

structure Suffix where
  /-- The year within its century. -/
  year : Nat
  month : Nat
  day : Nat
  hour : Nat
  minute : Nat
  second : Nat
  millis : Nat
  node : Nat
  sequence : Nat
deriving DecidableEq, Repr

namespace Suffix

def widths : List Nat := [2, 2, 2, 2, 2, 2, 3, 4, 3]

def width : Nat := 22

def firstYear : Int := 2000

def lastYear : Int := 2099

def digits (suffix : Suffix) : List Nat :=
  Numeral.row widths
    [suffix.year, suffix.month, suffix.day, suffix.hour, suffix.minute, suffix.second,
      suffix.millis, suffix.node, suffix.sequence]

def characters (suffix : Suffix) : List Char := suffix.digits.map Nat.digitChar

def ofDigits (digits : List Nat) : Suffix :=
  let field := (Numeral.columns widths digits).getD
  { year := field 0 0, month := field 1 0, day := field 2 0
    hour := field 3 0, minute := field 4 0, second := field 5 0
    millis := field 6 0, node := field 7 0, sequence := field 8 0 }

def ofParts (instant : Instant) (node : Node) (sequence : UInt16) : Suffix :=
  let date := instant.date
  { year := (date.year - firstYear).toNat, month := date.month, day := date.day
    hour := instant.hour, minute := instant.minute, second := instant.second
    millis := instant.subsecondMillis, node := node.number, sequence := sequence.toNat }

def date (suffix : Suffix) : Date := ⟨firstYear + suffix.year, suffix.month, suffix.day⟩

/-- The instant that the fields name, if each of them is in its range. -/
def instant (suffix : Suffix) : Instant :=
  { seconds := suffix.date.dayNumber * 86400 +
      ((suffix.hour * 60 + suffix.minute) * 60 + suffix.second : Nat)
    nanos := suffix.millis * 1000000 }

theorem length_digits (suffix : Suffix) : suffix.digits.length = width := by
  simp [digits, Numeral.row, widths, Numeral.length_digits, width]

end Suffix
end Mintmark
