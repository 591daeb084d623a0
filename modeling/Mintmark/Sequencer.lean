import Mintmark.Clock
import Mintmark.Stamp

/-!
Sequencers hand out stamps. A sequencer says how one reading of the clock changes it; a source puts
a sequencer before a clock, polls it, and waits for stamps by polling again.
-/
namespace Mintmark

inductive Stop where
  /-- An earlier fault left the lock of the sequencer poisoned. -/
  | poisoned
  | clock (fault : ClockFault)
deriving DecidableEq, Repr

class Sequencer (σ : Type) where
  /-- A poisoned sequencer refuses every poll before the clock is read. -/
  poisoned : σ → Bool
  /-- Runs the polls that fall inside a reading, and lists their answers. -/
  overlap : σ → Moment → σ × List Attempt
  /-- The answer to a poll that began in the first state and read the clock in the second. -/
  settle : σ → σ → UInt64 → Attempt × σ
  /-- The state that a poll leaves when its reading fails. -/
  abandon : σ → σ

structure Source (σ τ : Type) where
  sequencer : σ
  clock : τ
  /-- Answers of the polls that ran inside readings, in the order they were given. -/
  overlapped : List Attempt := []

namespace Source
variable {σ τ : Type} [Sequencer σ] [Clock τ]

def read (source : Source σ τ) : Except ClockFault UInt64 × Source σ τ :=
  let (moment, clock) := Clock.read source.clock
  let (sequencer, inside) := Sequencer.overlap source.sequencer moment
  (moment.outcome, ⟨sequencer, clock, source.overlapped ++ inside⟩)

def poll (source : Source σ τ) : Except Stop Attempt × Source σ τ :=
  if Sequencer.poisoned source.sequencer then (.error .poisoned, source)
  else
    match source.read with
    | (.error fault, after) =>
      (.error (.clock fault), { after with sequencer := Sequencer.abandon after.sequencer })
    | (.ok now, after) =>
      let (answer, sequencer) := Sequencer.settle source.sequencer after.sequencer now
      (.ok answer, { after with sequencer })

theorem attempt_patience {source after : Source σ τ} {answer : Attempt}
    (polled : source.poll = (.ok answer, after)) :
    Clock.patience after.clock < Clock.patience source.clock := by
  unfold poll at polled
  split at polled
  · simp at polled
  · split at polled
    · simp at polled
    · rename_i now reached read
      have kept : after.clock = reached.clock := by
        rw [← (Prod.mk.inj polled).2]
      rw [kept, ← (Prod.mk.inj read).2]
      exact Clock.patience_read _ now (Prod.mk.inj read).1

/-- The next stamp, polling again while the answer is pending. -/
def next (source : Source σ τ) : Except Stop Stamp × Source σ τ :=
  match _polled : source.poll with
  | (.error stop, after) => (.error stop, after)
  | (.ok (.issued stamp), after) => (.ok stamp, after)
  | (.ok (.retry _), after) => after.next
termination_by Clock.patience source.clock
decreasing_by exact attempt_patience _polled

theorem next_of_stop {source after : Source σ τ} {stop : Stop}
    (polled : source.poll = (.error stop, after)) : source.next = (.error stop, after) := by
  rw [next]; split <;> simp_all

theorem next_of_issued {source after : Source σ τ} {stamp : Stamp}
    (polled : source.poll = (.ok (.issued stamp), after)) : source.next = (.ok stamp, after) := by
  rw [next]; split <;> simp_all

theorem next_of_retry {source after : Source σ τ} {wait : UInt64}
    (polled : source.poll = (.ok (.retry wait), after)) : source.next = after.next := by
  rw [next]; split <;> simp_all

/-- Repeats an attempt. Each result is added in front, so the latest comes first; one that ends
without an answer does not keep the next from being made. -/
def repeating {α : Type} (attempt : Source σ τ → Except Stop α × Source σ τ) :
    Nat → List (Except Stop α) → Source σ τ → List (Except Stop α) × Source σ τ
  | 0, results, source => (results, source)
  | times + 1, results, source =>
    let (result, after) := attempt source
    repeating attempt times (result :: results) after

end Source
end Mintmark
