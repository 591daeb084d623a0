import Mintmark.Calendar
import Mintmark.Numeral

/-!
Instants of UTC, to the nanosecond. A nanosecond count of a whole second or more stands for a leap
second.
-/
namespace Mintmark

structure Instant where
  /-- Whole seconds since 1970. -/
  seconds : Int
  nanos : Nat
deriving DecidableEq, Repr

namespace Instant

instance : Ord Instant where
  compare left right :=
    (compare left.seconds right.seconds).then (compare left.nanos right.nanos)

def earliest : Instant := ⟨-8334601228800, 0⟩

def latest : Instant := ⟨8210266876799, 999999999⟩

def leapSecond (instant : Instant) : Bool := 1000000000 ≤ instant.nanos

/-- Milliseconds since 1970, rounded down. -/
def millis (instant : Instant) : Int := instant.seconds * 1000 + (instant.nanos / 1000000 : Nat)

/-- The instant so many milliseconds after 1970, or the latest one if that lies beyond it. -/
def ofMillis (millis : UInt64) : Instant :=
  if (millis.toNat : Int) ≤ latest.millis then
    ⟨(millis.toNat / 1000 : Nat), millis.toNat % 1000 * 1000000⟩
  else latest

def truncate (instant : Instant) : Instant :=
  { instant with nanos := instant.nanos / 1000000 * 1000000 }

def date (instant : Instant) : Date := Date.ofDayNumber (instant.seconds / 86400)

def secondOfDay (instant : Instant) : Nat := (instant.seconds % 86400).toNat

def hour (instant : Instant) : Nat := instant.secondOfDay / 3600

def minute (instant : Instant) : Nat := instant.secondOfDay / 60 % 60

def second (instant : Instant) : Nat := instant.secondOfDay % 60

def subsecondMillis (instant : Instant) : Nat := instant.nanos / 1000000

/-- Year, month, day and time in the order of their size, with a `T` and a `Z`, to the millisecond;
for years of four digits. -/
def timestamp (instant : Instant) : String :=
  let date := instant.date
  s!"{Numeral.padded 4 date.year.toNat}-{Numeral.padded 2 date.month}-{Numeral.padded 2 date.day}" ++
  s!"T{Numeral.padded 2 instant.hour}:{Numeral.padded 2 instant.minute}" ++
  s!":{Numeral.padded 2 instant.second}.{Numeral.padded 3 instant.subsecondMillis}Z"

end Instant
end Mintmark
