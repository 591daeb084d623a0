import Mintmark.Sequencer

/-!
A sequencer in one word: the millisecond above ten bits of sequence, replaced only if nobody has
changed it since it was loaded. Whoever loses that race is told to poll again at once.
-/
namespace Mintmark

structure WordSequencer where
  word : UInt64 := 0
deriving DecidableEq, Repr

namespace Stamp

def toWord (stamp : Stamp) : UInt64 := (stamp.millis <<< 10) ||| stamp.sequence.toUInt64

def ofWord (word : UInt64) : Stamp := ⟨word >>> 10, (word &&& 1023).toUInt16⟩

end Stamp

namespace WordSequencer

/-- The largest millisecond that fits above the sequence. -/
def maxMillis : UInt64 := 0x3FFFFFFFFFFFFF

/-- As if `last` were the last stamp issued, cut down to what the word can hold. -/
def ofStamp (last : Stamp) : WordSequencer :=
  ⟨Stamp.toWord ⟨min last.millis maxMillis, min last.sequence Stamp.maxSequence⟩⟩

def exchange (loaded held : WordSequencer) (stamp : Stamp) : Attempt × WordSequencer :=
  if held = loaded then (.issued stamp, ⟨stamp.toWord⟩) else (.retry 0, held)

/-- The end of a poll that loaded one word, read the clock, and finds another word held. -/
def settle (loaded held : WordSequencer) (now : UInt64) : Attempt × WordSequencer :=
  match (Stamp.ofWord loaded.word).successor (min now maxMillis) with
  | .retry wait => (.retry wait, held)
  | .issued stamp => exchange loaded held stamp

def overlap (held : WordSequencer) : Moment → WordSequencer × List Attempt
  | .reading _ | .fault _ => (held, [])
  | .during inner rest =>
    let (reached, inside) := overlap held inner
    match inner.outcome with
    | .error _ => (reached, inside)
    | .ok now =>
      let (answer, next) := settle held reached now
      let (final, later) := overlap next rest
      (final, inside ++ answer :: later)

instance : Sequencer WordSequencer where
  poisoned _ := false
  overlap := overlap
  settle := settle
  abandon := id

end WordSequencer
end Mintmark
