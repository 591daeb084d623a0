import Mintmark.Proofs.Sequencer.Agreement

/-!
Calls of one caller, one after another, over readings with no poll inside them: what each answers,
and which readings it takes. A call that is answered depends on its own readings alone.
-/
namespace Mintmark

def Moment.lone : Except ClockFault UInt64 → Moment
  | .ok now => .reading now
  | .error cause => .fault cause

/-- The clock shows a reading that no poll runs inside, and goes on as the second clock. -/
def Clock.Shows {τ : Type} [Clock τ] (clock : τ) (now : UInt64) (rest : τ) : Prop :=
  Clock.read clock = (.reading now, rest)

/-- A sequencer to which nothing happens during a reading that no poll runs inside. -/
class Undisturbed (σ : Type) [Sequencer σ] : Prop where
  overlap_lone : ∀ (state : σ) (result : Except ClockFault UInt64),
    Sequencer.overlap state (.lone result) = (state, [])

instance : Undisturbed GuardedSequencer where
  overlap_lone _ _ := rfl

instance : Undisturbed WordSequencer where
  overlap_lone _ result := by cases result <;> rfl

namespace Source
open Settling
variable {σ : Type}

def Lone (source : Source σ (List Moment)) : Prop :=
  ∀ moment ∈ source.clock, ∃ result, moment = .lone result

theorem Lone.suffix {source after : Source σ (List Moment)} (lone : source.Lone) {own : List Moment}
    (consumed : source.clock = own ++ after.clock) : after.Lone := by
  intro moment member
  apply lone moment
  rw [consumed]
  exact List.mem_append_right own member

theorem lone_map {sequencer : σ} (readings : List (Except ClockFault UInt64)) :
    Lone ⟨sequencer, readings.map .lone, []⟩ := by
  intro moment member
  obtain ⟨result, -, rfl⟩ := List.mem_map.1 member
  exact ⟨result, rfl⟩

variable [Sequencer σ]

theorem poll_poisoned {τ : Type} [Clock τ] {source : Source σ τ}
    (poisoned : Sequencer.poisoned source.sequencer = true) :
    source.poll = (.error .poisoned, source) := if_pos poisoned

theorem poll_refused {τ : Type} [Clock τ] {source after : Source σ τ}
    (refused : source.poll = (.error .poisoned, after)) :
    Sequencer.poisoned source.sequencer = true := by
  by_contra sound
  rw [poll, if_neg sound] at refused
  split at refused <;> cases refused

structure Entry where
  call : Call
  readings : List Moment
  answer : Except Stop Attempt

/-- Calls one after another. One that fails does not keep the next from being made. -/
def trace (source : Source σ (List Moment)) : List Call → List Entry
  | [] => []
  | call :: calls =>
    let (answer, after) := source.respond call
    ⟨call, source.clock.take (source.clock.length - after.clock.length), answer⟩ :: after.trace calls

def afterAll (source : Source σ (List Moment)) (calls : List Call) : Source σ (List Moment) :=
  calls.foldl (fun source call => (source.respond call).2) source

variable {source : Source σ (List Moment)}

/-- How a call ends over readings with no poll inside them, and which readings it takes. One that is
answered can be made again over its own readings, whatever comes after them. -/
inductive Served (source : Source σ (List Moment)) (call : Call) :
    List Moment → Except Stop Attempt → Source σ (List Moment) → Prop
  | answered (own : List Moment) (answer : Attempt) (after : Source σ (List Moment))
    (consumed : source.clock = own ++ after.clock) (sound : ∀ cause, .fault cause ∉ own)
    (again : ∀ rest, respond { source with clock := own ++ rest } call =
      (.ok answer, { after with clock := rest }))
    (waits : ∀ wait, answer = .retry wait → after = { source with clock := after.clock }) :
    Served source call own (.ok answer) after
  | refused (poisoned : Sequencer.poisoned source.sequencer = true) :
    Served source call [] (.error .poisoned) source
  | failed (own : List Moment) (cause : ClockFault) (left : List Moment)
    (consumed : source.clock = own ++ left)
    (fault : left ≠ [] → ∀ other, .fault other ∈ own ↔ other = cause) :
    Served source call own (.error (.clock cause))
      ⟨Sequencer.abandon source.sequencer, left, source.overlapped⟩

theorem Served.consumed {call : Call} {own : List Moment} {answer : Except Stop Attempt}
    {after : Source σ (List Moment)} (served : Served source call own answer after) :
    source.clock = own ++ after.clock := by
  cases served with
  | answered _ _ _ consumed => exact consumed
  | refused => rfl
  | failed _ _ _ consumed => exact consumed

theorem Served.prolong {left own others : List Moment} {wait : UInt64}
    {answer : Except Stop Attempt} {last : Source σ (List Moment)}
    (consumed : source.clock = own ++ left) (sound : ∀ cause, .fault cause ∉ own)
    (again : ∀ rest, poll { source with clock := own ++ rest } =
      (.ok (.retry wait), { source with clock := rest }))
    (later : Served { source with clock := left } .next others answer last) :
    Served source .next (own ++ others) answer last := by
  cases later with
  | answered _ answer _ after clean same waits =>
    refine .answered (own ++ others) answer last ?_ ?_ ?_ waits
    · rw [consumed, List.append_assoc]
      exact congrArg (own ++ ·) after
    · intro cause member
      exact (List.mem_append.1 member).elim (sound cause) (clean cause)
    · intro rest
      have polled := again (others ++ rest)
      rw [← List.append_assoc] at polled
      rw [respond, next_of_retry polled]
      exact same rest
  | refused poisoned =>
    have refused : poll { source with clock := own ++ left } = _ := poll_poisoned poisoned
    rw [again] at refused
    cases refused
  | failed _ cause rest after fault =>
    refine .failed (own ++ others) cause rest ?_ ?_
    · rw [consumed, List.append_assoc]
      exact congrArg (own ++ ·) after
    · intro unspent other
      rw [List.mem_append, or_iff_right (sound other)]
      exact fault unspent other

theorem trace_cons {call : Call} {own : List Moment} {answer : Except Stop Attempt}
    {after : Source σ (List Moment)} (responds : source.respond call = (answer, after))
    (consumed : source.clock = own ++ after.clock) (calls : List Call) :
    source.trace (call :: calls) = ⟨call, own, answer⟩ :: after.trace calls := by
  simp [trace, responds, consumed]

theorem afterAll_cons {call : Call} {answer : Except Stop Attempt} {after : Source σ (List Moment)}
    (responds : source.respond call = (answer, after)) (calls : List Call) :
    source.afterAll (call :: calls) = after.afterAll calls := by
  rw [afterAll, List.foldl_cons, responds]
  rfl

section Lone
variable [Undisturbed σ]

theorem read_lone {sequencer : σ} {overlapped : List Attempt} (result : Except ClockFault UInt64)
    (rest : List Moment) : read ⟨sequencer, .lone result :: rest, overlapped⟩ =
      (result, ⟨sequencer, rest, overlapped⟩) := by
  have outcome : (Moment.lone result).outcome = result := by cases result <;> rfl
  have quiet := Undisturbed.overlap_lone sequencer result
  simp only [read, Clock.read, quiet, outcome, List.append_nil]

theorem poll_shows {τ : Type} [Clock τ] {source : Source σ τ} {now : UInt64} {rest : τ}
    (sound : Sequencer.poisoned source.sequencer = false) (shows : Clock.Shows source.clock now rest) :
    source.poll = (.ok (Sequencer.settle source.sequencer source.sequencer now).1,
      ⟨(Sequencer.settle source.sequencer source.sequencer now).2, rest, source.overlapped⟩) := by
  have shown : Clock.read source.clock = (.reading now, rest) := shows
  have quiet : Sequencer.overlap source.sequencer (.reading now) = (source.sequencer, []) :=
    Undisturbed.overlap_lone source.sequencer (.ok now)
  have read : source.read = (.ok now, ⟨source.sequencer, rest, source.overlapped⟩) := by
    simp only [Source.read, shown, quiet, Moment.outcome, List.append_nil]
  simp only [poll, sound, read, Bool.false_eq_true, if_false]

theorem poll_lone {sequencer : σ} (sound : Sequencer.poisoned sequencer = false)
    {overlapped : List Attempt} (now : UInt64) (rest : List Moment) :
    poll ⟨sequencer, .lone (.ok now) :: rest, overlapped⟩ =
      (.ok (Sequencer.settle sequencer sequencer now).1,
        ⟨(Sequencer.settle sequencer sequencer now).2, rest, overlapped⟩) :=
  poll_shows sound rfl

theorem poll_lone_fault {sequencer : σ} (sound : Sequencer.poisoned sequencer = false)
    {overlapped : List Attempt} (cause : ClockFault) (rest : List Moment) :
    poll ⟨sequencer, .lone (.error cause) :: rest, overlapped⟩ =
      (.error (.clock cause), ⟨Sequencer.abandon sequencer, rest, overlapped⟩) := by
  simp only [poll, sound, read_lone, Bool.false_eq_true, if_false]

theorem poll_stuck {sequencer : σ} (sound : Sequencer.poisoned sequencer = false)
    {overlapped : List Attempt} : poll ⟨sequencer, ([] : List Moment), overlapped⟩ =
      (.error (.clock .stuck), ⟨Sequencer.abandon sequencer, [], overlapped⟩) := by
  have quiet : Sequencer.overlap sequencer (.fault .stuck) = (sequencer, []) :=
    Undisturbed.overlap_lone sequencer (.error .stuck)
  have stuck : read ⟨sequencer, ([] : List Moment), overlapped⟩ =
      (.error .stuck, ⟨sequencer, [], overlapped⟩) := by
    simp only [read, Clock.read, quiet, Moment.outcome, List.append_nil]
  simp only [poll, sound, stuck, Bool.false_eq_true, if_false]

variable [Settling σ]

theorem served_poll (lone : source.Lone) :
    ∃ own, Served source .poll own source.poll.1 source.poll.2 := by
  obtain ⟨sequencer, clock, overlapped⟩ := source
  cases poisoned : Sequencer.poisoned sequencer with
  | true =>
    rw [poll_poisoned poisoned]
    exact ⟨[], .refused poisoned⟩
  | false =>
    cases clock with
    | nil =>
      rw [poll_stuck poisoned]
      exact ⟨[], .failed [] .stuck [] rfl fun left => absurd rfl left⟩
    | cons moment rest =>
      obtain ⟨result, rfl⟩ := lone moment List.mem_cons_self
      cases result with
      | error cause =>
        rw [poll_lone_fault poisoned]
        refine ⟨_, .failed [.fault cause] cause rest rfl ?_⟩
        intro _ other
        rw [List.mem_singleton, Moment.fault.injEq]
      | ok now =>
        rw [poll_lone poisoned]
        refine ⟨_, .answered [.reading now] _ _ rfl ?_ ?_ ?_⟩
        · intro cause member
          cases List.mem_singleton.1 member
        · intro rest
          exact poll_lone poisoned now rest
        · intro wait answer
          exact congrArg (Source.mk · rest overlapped) (settle_retry (Prod.ext answer rfl))

theorem served_next (lone : source.Lone) :
    ∃ own, Served source .next own (source.next.1.map .issued) source.next.2 := by
  -- The polls that prolong the wait leave the sequencer as it was, so the last one decides.
  induction source using next_induction with
  | stopped source after stop polled =>
    obtain ⟨own, served⟩ := served_poll lone
    rw [polled] at served
    refine ⟨own, ?_⟩
    cases served with
    | refused poisoned => exact .refused poisoned
    | failed _ cause left consumed fault => exact .failed own cause left consumed fault
  | issued source after stamp polled =>
    obtain ⟨own, served⟩ := served_poll lone
    rw [polled] at served
    refine ⟨own, ?_⟩
    cases served with
    | answered _ _ _ consumed sound again waits =>
      refine .answered own _ _ consumed sound ?_ nofun
      intro rest
      rw [respond, next_of_issued (again rest)]
      rfl
  | again source after wait polled rest =>
    obtain ⟨own, served⟩ := served_poll lone
    rw [polled] at served
    cases served with
    | answered _ _ _ consumed sound again waits =>
      obtain ⟨others, later⟩ := rest (lone.suffix consumed)
      have same : after = { source with clock := after.clock } := waits wait rfl
      generalize after.next.1.map Attempt.issued = result, after.next.2 = last at later ⊢
      rw [same] at later
      have kept (rest : List Moment) : poll { source with clock := own ++ rest } =
          (.ok (.retry wait), { source with clock := rest }) :=
        (again rest).trans (congrArg (fun reached => (_, { reached with clock := rest })) same)
      exact ⟨own ++ others, .prolong consumed sound kept later⟩

theorem served (call : Call) (lone : source.Lone) :
    ∃ own, Served source call own (source.respond call).1 (source.respond call).2 := by
  cases call with
  | poll => exact served_poll lone
  | next => exact served_next lone

theorem clock_afterAll (calls : List Call) : ∀ {source : Source σ (List Moment)}, source.Lone →
    ∃ own, source.clock = own ++ (source.afterAll calls).clock := by
  induction calls with
  | nil =>
    intro source lone
    exact ⟨[], rfl⟩
  | cons call calls rest =>
    intro source lone
    obtain ⟨own, ends⟩ := served call lone
    obtain ⟨others, left⟩ := rest (lone.suffix ends.consumed)
    refine ⟨own ++ others, ?_⟩
    rw [ends.consumed, left, List.append_assoc]
    rfl

end Lone
end Source
end Mintmark
