import Mintmark.Clock

/-!
Clocks anchored once to the wall and moved on by elapsed time alone, so they never go back. Both
durations are cut to whole milliseconds, and whatever does not fit the range ends at its edge.
-/
namespace Mintmark

def lastMillis : Nat := 0xFFFFFFFFFFFFFFFF

/-- Milliseconds since 1970 at a time given in nanoseconds since 1970: none before 1970. -/
def wallMillis (nanos : Int) : Nat := min lastMillis (nanos.toNat / 1000000)

/-- An anchored clock by the wall time of its anchor, in nanoseconds since 1970. -/
structure AnchoredClock where
  anchor : Int
deriving DecidableEq, Repr

namespace AnchoredClock

def reading (clock : AnchoredClock) (elapsed : Nat) : Nat :=
  min lastMillis (wallMillis clock.anchor + min lastMillis (elapsed / 1000000))

end AnchoredClock
end Mintmark
