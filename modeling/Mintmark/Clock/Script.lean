import Mintmark.Clock

/-!
Scripted clocks. A script holds a time, an optional tick that moves it on after every so many
readings, a queue of readings that go before it, and an allowance of readings for each step of
whoever runs it.
-/
namespace Mintmark

inductive Planned where
  | time (now : UInt64)
  | broken
  /-- Another poll of the same sequencer reads `inner`, then this reading goes on with `outer`. -/
  | overlapped (inner outer : Planned)
deriving DecidableEq, Repr

structure Script where
  now : UInt64 := 0
  /-- Readings between two ticks; none if zero. -/
  tick : Nat := 0
  queue : List Planned := []
  reads : Nat := 0
  taken : Nat := 0
  allowance : Nat := 20000
deriving DecidableEq, Repr

namespace Script

def spent (script : Script) : Bool := script.allowance ≤ script.taken

def beginStep (script : Script) : Script := { script with taken := 0 }

def following (now : UInt64) : UInt64 := if now + 1 = 0 then now else now + 1

def observe (script : Script) : Moment × Script :=
  let reads := script.reads + 1
  let ticks := 0 < script.tick && reads % script.tick = 0
  (.reading script.now,
    { script with
      reads, taken := script.taken + 1
      now := if ticks then following script.now else script.now })

/-- Carries out a planned reading; what it does not come to stays at the front of the queue. -/
def take (script : Script) : Planned → Moment × Script
  | .time now =>
    if script.spent then (.fault .stuck, { script with queue := .time now :: script.queue })
    else observe { script with now }
  | .broken =>
    if script.spent then (.fault .stuck, { script with queue := .broken :: script.queue })
    else (.fault .failed, script)
  | .overlapped inner outer =>
    if script.spent then
      (.fault .stuck, { script with queue := .overlapped inner outer :: script.queue })
    else
      let (first, after) := take { script with queue := outer :: script.queue } inner
      match first.outcome with
      | .error _ => (first, after)
      | .ok _ =>
        let (second, final) := take { after with queue := script.queue } outer
        (.during first second, final)

def read (script : Script) : Moment × Script :=
  match script.queue with
  | [] => if script.spent then (.fault .stuck, script) else observe script
  | planned :: queue => take { script with queue } planned

def patience (script : Script) : Nat := script.allowance - script.taken

private theorem patience_observe (script : Script) (open_ : script.spent = false) :
    (observe script).2.patience < script.patience := by
  have bound : script.taken < script.allowance := by simpa [spent] using open_
  simp only [observe, patience]
  omega

private theorem patience_take (planned : Planned) : ∀ (script : Script) (now : UInt64),
    (take script planned).1.outcome = .ok now → (take script planned).2.patience < script.patience := by
  induction planned with
  | time now =>
    intro script read taken
    unfold take at taken ⊢
    split
    · rename_i spent
      simp [spent, Moment.outcome] at taken
    · rename_i open_
      exact patience_observe { script with now } (by simpa [spent] using open_)
  | broken =>
    intro script read taken
    unfold take at taken
    split at taken <;> simp [Moment.outcome] at taken
  | overlapped inner outer innerLess outerLess =>
    intro script read taken
    unfold take at taken ⊢
    split
    · rename_i spent
      simp [spent, Moment.outcome] at taken
    · rename_i open_
      simp only [open_, Bool.false_eq_true, if_false] at taken
      cases first : (take { script with queue := outer :: script.queue } inner).1.outcome with
      | error cause => simp [first] at taken
      | ok now =>
        have before := innerLess { script with queue := outer :: script.queue } now first
        simp only [first, Moment.outcome] at taken ⊢
        have after := outerLess _ _ taken
        simp only [patience] at before after ⊢
        omega

instance : Clock Script where
  read := read
  patience := patience
  patience_read script now taken := by
    cases shape : script.queue with
    | nil =>
      cases open_ : script.spent with
      | true => simp [read, shape, open_, Moment.outcome] at taken
      | false => simpa [read, shape, open_] using patience_observe script open_
    | cons planned queue =>
      simp only [read, shape] at taken ⊢
      exact patience_take planned { script with queue } now taken

end Script
end Mintmark
