import Mintmark.Sequencer

/-!
A sequencer behind a lock. The clock is read inside the lock, so nothing else runs meanwhile, and a
reading that fails there poisons the lock for good.
-/
namespace Mintmark

structure GuardedSequencer where
  last : Stamp := .zero
  poisoned : Bool := false
deriving DecidableEq, Repr

namespace GuardedSequencer

/-- As if `last` were the last stamp issued. -/
def ofStamp (last : Stamp) : GuardedSequencer := { last }

def settle (sequencer : GuardedSequencer) (now : UInt64) : Attempt × GuardedSequencer :=
  match sequencer.last.successor now with
  | .issued stamp => (.issued stamp, { sequencer with last := stamp })
  | .retry wait => (.retry wait, sequencer)

instance : Sequencer GuardedSequencer where
  poisoned := poisoned
  overlap sequencer _ := (sequencer, [])
  settle _ sequencer := sequencer.settle
  abandon sequencer := { sequencer with poisoned := true }

end GuardedSequencer
end Mintmark
