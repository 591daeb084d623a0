/-!
Clocks. A clock answers readings one after another; a reading is a number of milliseconds since
1970, or a fault that abandons whatever asked for it. While a reading is under way, other polls of
the same sequencer may run to their end: a moment keeps them as a tree.
-/
namespace Mintmark

inductive ClockFault where
  /-- No further reading is allowed. -/
  | stuck
  | failed
deriving DecidableEq, Repr

inductive Moment where
  | reading (now : UInt64)
  | fault (cause : ClockFault)
  /-- A whole poll, with a reading of its own, runs first; then the reading goes on. -/
  | during (inner rest : Moment)
deriving DecidableEq, Repr

namespace Moment

/-- The number that the reading gives in the end. A fault of a poll inside it abandons it too. -/
def outcome : Moment → Except ClockFault UInt64
  | reading now => .ok now
  | fault cause => .error cause
  | during inner rest =>
    match inner.outcome with
    | .error cause => .error cause
    | .ok _ => rest.outcome

end Moment

/-- A source of readings whose patience falls with every reading that succeeds, so whoever waits
for the clock to move on is answered in the end, by a reading or by a fault. -/
class Clock (τ : Type) where
  read : τ → Moment × τ
  patience : τ → Nat
  patience_read : ∀ (clock : τ) (now : UInt64), (read clock).1.outcome = .ok now →
    patience (read clock).2 < patience clock

instance : Clock (List Moment) where
  read
    | [] => (.fault .stuck, [])
    | moment :: rest => (moment, rest)
  patience := List.length
  patience_read
    | [], _, read => by simp [Moment.outcome] at read
    | _ :: _, _, _ => by simp

end Mintmark
