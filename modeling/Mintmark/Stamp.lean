/-!
Stamps: a millisecond since 1970 and a place inside it. One reading of the clock advances a stamp,
and a reading that lies behind holds the millisecond, so stamps never move back.
-/
namespace Mintmark

structure Stamp where
  millis : UInt64
  sequence : UInt16
deriving DecidableEq, Repr, Inhabited

/-- The answer to one attempt at the next stamp. A retry says how many milliseconds the clock has
to go on before another attempt can succeed. -/
inductive Attempt where
  | issued (stamp : Stamp)
  | retry (wait : UInt64)
deriving DecidableEq, Repr

namespace Stamp

def maxSequence : UInt16 := 999

def zero : Stamp := ⟨0, 0⟩

def hasRoom (stamp : Stamp) : Bool := stamp.sequence < maxSequence

instance : Ord Stamp where
  compare left right :=
    (compare left.millis right.millis).then (compare left.sequence right.sequence)

instance : LT Stamp := ltOfOrd
instance : LE Stamp := leOfOrd

/-- The stamp after `last` at the reading `now`: the start of a later millisecond, or else the next
place in the millisecond held. -/
def successor (last : Stamp) (now : UInt64) : Attempt :=
  if last.millis < now then .issued ⟨now, 0⟩
  else if last.hasRoom then .issued ⟨last.millis, last.sequence + 1⟩
  else .retry (last.millis - now + 1)

theorem successor_later {last : Stamp} {now : UInt64} (later : last.millis < now) :
    last.successor now = .issued ⟨now, 0⟩ := by simp [successor, later]

theorem successor_room {last : Stamp} {now : UInt64} (held : ¬ last.millis < now)
    (room : last.hasRoom) : last.successor now = .issued ⟨last.millis, last.sequence + 1⟩ := by
  simp [successor, held, room]

theorem successor_full {last : Stamp} {now : UInt64} (held : ¬ last.millis < now)
    (full : last.hasRoom = false) : last.successor now = .retry (last.millis - now + 1) := by
  simp [successor, held, full]

end Stamp
end Mintmark
