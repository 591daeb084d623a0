/-!
The Gregorian calendar, for every year before and after its adoption. Dates correspond to days
counted from 1970-01-01.
-/
namespace Mintmark

def leapYear (year : Int) : Bool := year % 4 = 0 && (year % 100 ≠ 0 || year % 400 = 0)

def monthLengths (year : Int) : List Nat :=
  [31, if leapYear year then 29 else 28, 31, 30, 31, 30, 31, 31, 30, 31, 30, 31]

/-- Days from 0001-01-01 to the first day of a year. -/
def daysBeforeYear (year : Int) : Int :=
  365 * (year - 1) + (year - 1) / 4 - (year - 1) / 100 + (year - 1) / 400

/-- The year of the day that comes so many days after 0001-01-01: the mean length of a year points
at it or at a neighbour. -/
def yearOfDay (day : Int) : Int :=
  let near := day * 400 / 146097 + 1
  if day < daysBeforeYear near then near - 1
  else if daysBeforeYear (near + 1) ≤ day then near + 1
  else near

/-- The stretch that a place falls into, of stretches laid end to end, and its place in there. -/
def locate : List Nat → Nat → Nat × Nat
  | [], place => (0, place)
  | length :: lengths, place =>
    if place < length then (0, place)
    else
      let (index, rest) := locate lengths (place - length)
      (index + 1, rest)

structure Date where
  year : Int
  month : Nat
  day : Nat
deriving DecidableEq, Repr

namespace Date

def validMonth (date : Date) : Bool := 1 ≤ date.month && date.month ≤ 12

def onCalendar (date : Date) : Bool :=
  date.validMonth && 1 ≤ date.day && date.day ≤ (monthLengths date.year)[date.month - 1]?.getD 0

def dayNumber (date : Date) : Int :=
  daysBeforeYear date.year - daysBeforeYear 1970 +
    (((monthLengths date.year).take (date.month - 1)).foldr (· + ·) 0 + (date.day - 1) : Nat)

def ofDayNumber (number : Int) : Date :=
  let day := number + daysBeforeYear 1970
  let year := yearOfDay day
  let (month, place) := locate (monthLengths year) (day - daysBeforeYear year).toNat
  ⟨year, month + 1, place + 1⟩

end Date
end Mintmark
