import Mintmark.Proofs.Sequencer.Trace

/-!
Polls of one caller, with nothing inside their readings. Such a poll answers with the successor of
what is held, at the reading or at the last millisecond that the sequencer tells, so a row of polls
is told by stamps alone.
-/
namespace Mintmark

namespace Stamp

def keeping (held : Stamp) : Attempt → Stamp
  | .issued stamp => stamp
  | .retry _ => held

/-- The answers to a row of polls, each a successor of what the answers before it left. -/
def answers : Stamp → List UInt64 → List Attempt
  | _, [] => []
  | held, now :: readings =>
    let answer := held.successor now
    answer :: (held.keeping answer).answers readings

def after (start : Stamp) (readings : List UInt64) : Stamp :=
  readings.foldl (fun held now => held.keeping (held.successor now)) start

variable {start : Stamp} {first second : List UInt64}

theorem after_append : start.after (first ++ second) = (start.after first).after second :=
  List.foldl_append

theorem after_concat (now : UInt64) : start.after (first ++ [now]) =
    (start.after first).keeping ((start.after first).successor now) := after_append

theorem answers_append :
    start.answers (first ++ second) = start.answers first ++ (start.after first).answers second := by
  induction first generalizing start with
  | nil => rfl
  | cons now first rest => exact congrArg (start.successor now :: ·) rest

theorem getElem?_answers (readings : List UInt64) (k : Nat) : (start.answers readings)[k]? =
    readings[k]?.map (start.after (readings.take k)).successor := by
  induction readings generalizing start k with
  | nil => rfl
  | cons now readings rest =>
    cases k with
    | zero => rfl
    | succ k => exact rest k

end Stamp

/-- A sequencer answers a poll that nothing runs inside with the successor of what it holds. -/
class Answering (σ : Type) [Sequencer σ] [Settling σ] where
  /-- The last millisecond that the sequencer tells. -/
  edge : UInt64
  seen_eq : ∀ now : UInt64, Settling.seen σ now = min now edge
  answer_settle : ∀ (state : σ) (now : UInt64),
    (Sequencer.settle state state now).1 = (Settling.held state).successor (Settling.seen σ now)
  poisoned_settle : ∀ (state : σ) (now : UInt64),
    Sequencer.poisoned (Sequencer.settle state state now).2 = Sequencer.poisoned state

namespace GuardedSequencer

def maxMillis : UInt64 := 0xFFFFFFFFFFFFFFFF

theorem le_maxMillis (now : UInt64) : now ≤ maxMillis :=
  UInt64.le_iff_toNat_le.2 (Nat.le_of_lt_succ now.toNat_lt)

theorem answer_settle (sequencer : GuardedSequencer) (now : UInt64) :
    (sequencer.settle now).1 = sequencer.last.successor now := by
  unfold settle
  cases sequencer.last.successor now <;> rfl

instance : Answering GuardedSequencer where
  edge := maxMillis
  seen_eq now := (if_pos (le_maxMillis now)).symm
  answer_settle := answer_settle
  poisoned_settle := poisoned_settle

end GuardedSequencer

namespace WordSequencer

theorem answer_settle (sequencer : WordSequencer) (now : UInt64) :
    (sequencer.settle sequencer now).1 = sequencer.proposal now := by
  cases proposed : sequencer.proposal now with
  | retry wait => rw [settle_of_retry proposed]
  | issued stamp => rw [settle_of_issued proposed, exchange, if_pos rfl]

instance : Answering WordSequencer where
  edge := maxMillis
  seen_eq _ := rfl
  answer_settle := answer_settle
  poisoned_settle _ _ := rfl

end WordSequencer

section Settle
open Settling
variable {σ : Type} [Sequencer σ] [Settling σ] [Answering σ]

theorem held_settle (state : σ) (now : UInt64) : held (Sequencer.settle state state now).2 =
    (held state).keeping ((held state).successor (seen σ now)) := by
  rw [← Answering.answer_settle]
  cases settled : Sequencer.settle state state now with
  | mk answer after =>
    cases answer with
    | issued stamp => exact (settle_issued settled).2
    | retry wait => exact congrArg held (settle_retry settled)

theorem sound_settle {state : σ} (sound : Sequencer.poisoned state = false) (now : UInt64) :
    Sequencer.poisoned (Sequencer.settle state state now).2 = false :=
  (Answering.poisoned_settle state now).trans sound

end Settle

namespace Source
open Settling
variable {σ : Type} [Sequencer σ]

def facing (sequencer : σ) (readings : List UInt64) : Source σ (List Moment) :=
  ⟨sequencer, readings.map .reading, []⟩

def pollEach (sequencer : σ) (readings : List UInt64) : List (Except Stop Attempt) :=
  ((facing sequencer readings).trace (readings.map fun _ => .poll)).map Entry.answer

def afterEach (sequencer : σ) (readings : List UInt64) : σ :=
  ((facing sequencer readings).afterAll (readings.map fun _ => .poll)).sequencer

section Each
variable [Undisturbed σ] {sequencer : σ}

theorem respond_facing (sound : Sequencer.poisoned sequencer = false) (now : UInt64)
    (readings : List UInt64) : (facing sequencer (now :: readings)).respond .poll =
      (.ok (Sequencer.settle sequencer sequencer now).1,
        facing (Sequencer.settle sequencer sequencer now).2 readings) :=
  poll_shows sound rfl

theorem pollEach_cons (sound : Sequencer.poisoned sequencer = false) (now : UInt64)
    (readings : List UInt64) : pollEach sequencer (now :: readings) =
      .ok (Sequencer.settle sequencer sequencer now).1 ::
        pollEach (Sequencer.settle sequencer sequencer now).2 readings := by
  have consumed : (facing sequencer (now :: readings)).clock =
      [.reading now] ++ (facing (Sequencer.settle sequencer sequencer now).2 readings).clock := rfl
  exact congrArg (List.map Entry.answer)
    (trace_cons (respond_facing sound now readings) consumed (readings.map fun _ => .poll))

theorem afterEach_cons (sound : Sequencer.poisoned sequencer = false) (now : UInt64)
    (readings : List UInt64) : afterEach sequencer (now :: readings) =
      afterEach (Sequencer.settle sequencer sequencer now).2 readings :=
  congrArg Source.sequencer
    (afterAll_cons (respond_facing sound now readings) (readings.map fun _ => .poll))

variable [Settling σ] [Answering σ]

theorem pollEach_eq (readings : List UInt64) : ∀ {sequencer : σ},
    Sequencer.poisoned sequencer = false → pollEach sequencer readings =
      ((held sequencer).answers (readings.map (seen σ))).map .ok := by
  induction readings with
  | nil =>
    intro sequencer sound
    rfl
  | cons now readings rest =>
    intro sequencer sound
    rw [pollEach_cons sound, rest (sound_settle sound now), held_settle, Answering.answer_settle]
    rfl

theorem held_afterEach (readings : List UInt64) : ∀ {sequencer : σ},
    Sequencer.poisoned sequencer = false → held (afterEach sequencer readings) =
      (held sequencer).after (readings.map (seen σ)) := by
  induction readings with
  | nil =>
    intro sequencer sound
    rfl
  | cons now readings rest =>
    intro sequencer sound
    rw [afterEach_cons sound, rest (sound_settle sound now), held_settle]
    rfl

theorem sound_afterEach (readings : List UInt64) : ∀ {sequencer : σ},
    Sequencer.poisoned sequencer = false →
      Sequencer.poisoned (afterEach sequencer readings) = false := by
  induction readings with
  | nil =>
    intro sequencer sound
    exact sound
  | cons now readings rest =>
    intro sequencer sound
    rw [afterEach_cons sound, rest (sound_settle sound now)]

end Each

theorem map_seen (readings : List UInt64) : readings.map (seen GuardedSequencer) = readings :=
  List.map_id readings

theorem afterEach_ofStamp (readings : List UInt64) (start : Stamp) :
    afterEach (GuardedSequencer.ofStamp start) readings = .ofStamp (start.after readings) := by
  have sound : Sequencer.poisoned (GuardedSequencer.ofStamp start) = false := rfl
  have held := held_afterEach readings sound
  rw [map_seen] at held
  exact congrArg₂ GuardedSequencer.mk held (sound_afterEach readings sound)

theorem pollEach_ofStamp (start : Stamp) (readings : List UInt64) :
    pollEach (GuardedSequencer.ofStamp start) readings = (start.answers readings).map .ok := by
  have sound : Sequencer.poisoned (GuardedSequencer.ofStamp start) = false := rfl
  rw [pollEach_eq readings sound, map_seen]
  rfl

end Source
end Mintmark
