import Mintmark.Proofs.Sequencer.Trace

/-!
Readings that fail, among the calls of one caller. To the word a call that fails is a call that was
never made: the others get the answers they would have got without it. The lock is poisoned by the
first one, and from then on answers nobody, reads nothing and keeps its stamp.
-/
namespace Mintmark

namespace Clock
variable {τ : Type} [Clock τ]

inductive Reads : τ → τ → Prop
  | refl (clock : τ) : Reads clock clock
  | reading {clock last : τ} {now : UInt64} (succeeds : (read clock).1.outcome = .ok now)
    (rest : Reads (read clock).2 last) : Reads clock last

theorem Reads.trans {first second third : τ} (before : Reads first second)
    (after : Reads second third) : Reads first third := by
  induction before with
  | refl clock => exact after
  | reading succeeds _ rest => exact .reading succeeds (rest after)

/-- Readings succeed up to one that fails, and leave this clock. -/
inductive Fails (cause : ClockFault) : τ → τ → Prop
  | reading {clock last : τ} (reads : Reads clock last)
    (fails : (read last).1.outcome = .error cause) : Fails cause clock (read last).2

theorem Reads.fails {clock reached left : τ} {cause : ClockFault} (reads : Reads clock reached)
    (fails : Fails cause reached left) : Fails cause clock left := by
  cases fails with
  | reading later fails => exact .reading (reads.trans later) fails

end Clock

namespace Source
variable {σ τ : Type} [Sequencer σ] [Clock τ]

theorem reads_poll {source after : Source σ τ} {answer : Attempt}
    (polled : source.poll = (.ok answer, after)) : Clock.Reads source.clock after.clock := by
  rw [← finish_sequencer] at polled
  rcases finish_cases polled with ⟨stop, _⟩ | ⟨_, _, _, stop, _⟩ |
    ⟨now, reached, _, _, read, _, _, rfl⟩
  · cases stop
  · cases stop
  · have left : (Clock.read source.clock).2 = reached.clock :=
      congrArg (fun reading => reading.2.clock) read
    exact .reading (congrArg Prod.fst read) (left ▸ .refl _)

theorem fails_poll {source after : Source σ τ} {cause : ClockFault}
    (polled : source.poll = (.error (.clock cause), after)) :
    Clock.Fails cause source.clock after.clock := by
  rw [← finish_sequencer] at polled
  rcases finish_cases polled with ⟨stop, _⟩ | ⟨fault, reached, read, stop, rfl⟩ |
    ⟨_, _, _, _, _, _, stop, _⟩
  · cases stop
  · cases stop
    have left : (Clock.read source.clock).2 = reached.clock :=
      congrArg (fun reading => reading.2.clock) read
    exact left ▸ .reading (.refl _) (congrArg Prod.fst read)
  · cases stop

theorem reads_next (source : Source σ τ) {stamp : Stamp} (drawn : source.next.1 = .ok stamp) :
    Clock.Reads source.clock source.next.2.clock := by
  induction source using next_induction with
  | stopped source after stop polled => cases drawn
  | issued source after other polled => exact reads_poll polled
  | again source after wait polled rest => exact (reads_poll polled).trans (rest drawn)

theorem fails_next (source : Source σ τ) {cause : ClockFault}
    (failed : source.next.1 = .error (.clock cause)) :
    Clock.Fails cause source.clock source.next.2.clock := by
  induction source using next_induction with
  | stopped source after stop polled =>
    cases failed
    exact fails_poll polled
  | issued source after stamp polled => cases failed
  | again source after wait polled rest => exact (reads_poll polled).fails (rest failed)

end Source

namespace GuardedSequencer
variable {τ : Type} [Clock τ]

theorem poll_sound {source after : Source GuardedSequencer τ} {answer : Attempt}
    (polled : source.poll = (.ok answer, after)) : after.sequencer.poisoned = false := by
  cases poisoned : source.sequencer.poisoned with
  | true =>
    rw [Source.poll_poisoned poisoned] at polled
    cases polled
  | false =>
    rw [← Source.finish_sequencer] at polled
    rcases Source.finish_cases polled with ⟨stop, _⟩ | ⟨_, _, _, stop, _⟩ |
      ⟨now, reached, _, sequencer, read, settled, _, rfl⟩
    · cases stop
    · cases stop
    · have untouched : reached.sequencer = source.sequencer :=
        congrArg (fun answer => answer.2.sequencer) read.symm
      have settles : reached.sequencer.settle now = (_, sequencer) := settled
      have kept := reached.sequencer.poisoned_settle now
      rwa [settles, untouched, poisoned] at kept

theorem poll_issued {source after : Source GuardedSequencer τ} {stamp : Stamp}
    (polled : source.poll = (.ok (.issued stamp), after)) : after.sequencer = .ofStamp stamp := by
  have sound := poll_sound polled
  rw [← Source.finish_sequencer] at polled
  obtain ⟨-, last, -⟩ := Source.held_finish polled
  exact congrArg₂ GuardedSequencer.mk last sound

theorem next_issued (source : Source GuardedSequencer τ) {stamp : Stamp}
    (drawn : source.next.1 = .ok stamp) : source.next.2.sequencer = .ofStamp stamp := by
  induction source using Source.next_induction with
  | stopped source after stop polled => cases drawn
  | issued source after other polled =>
    cases drawn
    exact poll_issued polled
  | again source after wait polled rest => exact rest drawn

theorem next_fault (source : Source GuardedSequencer τ) {cause : ClockFault}
    (failed : source.next.1 = .error (.clock cause)) :
    source.next.2.sequencer.poisoned = true := by
  induction source using Source.next_induction with
  | stopped source after stop polled =>
    cases failed
    rw [← Source.finish_sequencer] at polled
    rcases Source.finish_cases polled with ⟨stop, _⟩ | ⟨_, _, _, _, rfl⟩ |
      ⟨_, _, _, _, _, _, stop, _⟩
    · cases stop
    · rfl
    · cases stop
  | issued source after stamp polled => cases failed
  | again source after wait polled rest => exact rest failed

theorem next_refused (source : Source GuardedSequencer τ)
    (refused : source.next.1 = .error .poisoned) : source.sequencer.poisoned = true := by
  induction source using Source.next_induction with
  | stopped source after stop polled =>
    cases refused
    exact Source.poll_refused polled
  | issued source after stamp polled => cases refused
  | again source after wait polled rest =>
    rw [poll_sound polled] at rest
    cases rest refused

theorem respond_sound {source after : Source GuardedSequencer τ} {call : Source.Call}
    {answer : Attempt} (responds : source.respond call = (.ok answer, after)) :
    after.sequencer.poisoned = false := by
  cases call with
  | poll => exact poll_sound responds
  | next =>
    have answers : source.next.1.map .issued = .ok answer := congrArg Prod.fst responds
    have leaves : source.next.2 = after := congrArg Prod.snd responds
    cases drawn : source.next.1 with
    | error stop => simp [drawn, Except.map] at answers
    | ok stamp => rw [← leaves, next_issued source drawn, ofStamp]

end GuardedSequencer

namespace Source
variable {σ : Type} [Sequencer σ] {source : Source σ (List Moment)}

/-- As long as readings are left, a call fails exactly by a reading of its own that fails. -/
def FailsByReadings (source : Source σ (List Moment)) (calls : List Call) : Prop :=
  (source.afterAll calls).clock ≠ [] → ∀ entry ∈ source.trace calls, ∀ cause,
    entry.answer = .error (.clock cause) ↔ .fault cause ∈ entry.readings

theorem failsByReadings [Undisturbed σ] [Settling σ] (calls : List Call) :
    ∀ {source : Source σ (List Moment)}, source.Lone → source.FailsByReadings calls := by
  induction calls with
  | nil =>
    intro source lone unspent entry member
    cases member
  | cons call calls rest =>
    intro source lone unspent entry member
    obtain ⟨own, ends⟩ := served call lone
    cases responds : source.respond call with
    | mk answer after =>
      rw [responds] at ends
      rw [afterAll_cons responds] at unspent
      rw [trace_cons responds ends.consumed] at member
      have later := lone.suffix ends.consumed
      rcases List.mem_cons.1 member with rfl | member
      · intro cause
        cases ends with
        | answered _ _ _ _ sound => exact iff_of_false nofun (sound cause)
        | refused => exact iff_of_false nofun nofun
        | failed _ other left _ fault =>
          have open_ : left ≠ [] := by
            rintro rfl
            obtain ⟨others, spent⟩ := clock_afterAll calls later
            exact unspent (List.append_eq_nil_iff.1 spent.symm).2
          rw [fault open_, Except.error.injEq, Stop.clock.injEq, eq_comm]
      · exact rest later unspent entry member

def before (source : Source σ (List Moment)) (entries : List Entry) (rest : List Moment) :
    Source σ (List Moment) :=
  { source with clock := entries.flatMap Entry.readings ++ rest }

theorem respond_before {call : Call} {own : List Moment} {answer : Except Stop Attempt}
    {after : Source σ (List Moment)}
    (again : ∀ rest, respond { source with clock := own ++ rest } call =
      (answer, { after with clock := rest })) (entries : List Entry) (rest : List Moment) :
    (source.before (⟨call, own, answer⟩ :: entries) rest).respond call =
      (answer, after.before entries rest) := by
  rw [before, List.flatMap_cons, List.append_assoc]
  exact again _

theorem trace_before {call : Call} {own : List Moment} {answer : Except Stop Attempt}
    {after : Source σ (List Moment)}
    (again : ∀ rest, respond { source with clock := own ++ rest } call =
      (answer, { after with clock := rest })) (entries : List Entry) (rest : List Moment)
    (calls : List Call) : (source.before (⟨call, own, answer⟩ :: entries) rest).trace (call :: calls) =
      ⟨call, own, answer⟩ :: (after.before entries rest).trace calls := by
  apply trace_cons (respond_before again entries rest)
  rw [before, List.flatMap_cons, List.append_assoc]
  rfl

def answered (entries : List Entry) : List Entry :=
  entries.filter fun entry => entry.answer.isOk

/-- The calls that fail can be taken out, with the readings they took: the others are answered as
they were, and leave what they left. -/
structure Recovers (source : Source WordSequencer (List Moment)) (calls : List Call) : Prop where
  fails : source.FailsByReadings calls
  same : ∀ rest, (source.before (answered (source.trace calls)) rest).trace
    ((answered (source.trace calls)).map Entry.call) = answered (source.trace calls)
  leaves : ∀ rest, (source.before (answered (source.trace calls)) rest).afterAll
    ((answered (source.trace calls)).map Entry.call) = { source.afterAll calls with clock := rest }

theorem recovers (calls : List Call) : ∀ {source : Source WordSequencer (List Moment)},
    source.Lone → source.Recovers calls := by
  induction calls with
  | nil =>
    intro source lone
    exact ⟨failsByReadings [] lone, fun rest => rfl, fun rest => rfl⟩
  | cons call calls ih =>
    intro source lone
    obtain ⟨own, ends⟩ := served call lone
    have fails := failsByReadings (call :: calls) lone
    rcases responds : source.respond call with ⟨answer, after⟩
    rw [responds] at ends
    have later := ih (lone.suffix ends.consumed)
    have entries := trace_cons responds ends.consumed calls
    have reached := afterAll_cons responds calls
    cases ends with
    | answered _ answer _ consumed sound again =>
      have kept : answered (source.trace (call :: calls)) =
          ⟨call, own, .ok answer⟩ :: answered (after.trace calls) := by
        rw [entries]
        rfl
      refine ⟨fails, fun rest => ?_, fun rest => ?_⟩
      · rw [kept, List.map_cons, trace_before again, later.same]
      · rw [kept, List.map_cons, afterAll_cons (respond_before again _ rest), later.leaves, reached]
    | refused poisoned => cases poisoned
    | failed _ cause left =>
      have kept : answered (source.trace (call :: calls)) =
          answered (Source.trace ⟨source.sequencer, left, source.overlapped⟩ calls) := by
        rw [entries]
        rfl
      refine ⟨fails, fun rest => ?_, fun rest => ?_⟩
      · rw [kept]
        exact later.same rest
      · rw [kept, reached]
        exact later.leaves rest

/-- A run of calls up to one that a fault ends, and after it. -/
structure Broken (source : Source GuardedSequencer (List Moment)) (calls : List Call)
    (early late : List Entry) : Prop where
  sound : ∀ entry ∈ early, entry.answer.isOk = true
  /-- The calls before the fault are answered as in every script that begins with them. -/
  same : ∀ rest more, early <+: (source.before early rest).trace (early.map Entry.call ++ more)
  silent : ∀ entry ∈ late, entry.answer = .error .poisoned ∧ entry.readings = []
  stamp : (source.afterAll calls).sequencer =
    { (source.afterAll (early.map Entry.call)).sequencer with poisoned := true }

/-- The first call that a fault ends is the last that takes a reading. -/
structure Poisons (source : Source GuardedSequencer (List Moment)) (calls : List Call) : Prop where
  fails : source.FailsByReadings calls
  broken : ∀ early failed late cause, source.trace calls = early ++ failed :: late →
    failed.answer = .error (.clock cause) → source.Broken calls early late

theorem respond_poisoned {source : Source σ (List Moment)}
    (poisoned : Sequencer.poisoned source.sequencer = true) (call : Call) :
    source.respond call = (.error .poisoned, source) := by
  cases call with
  | poll => exact poll_poisoned poisoned
  | next =>
    rw [respond, next_of_stop (poll_poisoned poisoned)]
    rfl

theorem trace_poisoned {source : Source σ (List Moment)}
    (poisoned : Sequencer.poisoned source.sequencer = true) (calls : List Call) :
    source.afterAll calls = source ∧
      ∀ entry ∈ source.trace calls, entry.answer = .error .poisoned ∧ entry.readings = [] := by
  induction calls with
  | nil => exact ⟨rfl, List.forall_mem_nil _⟩
  | cons call calls rest =>
    have responds := respond_poisoned poisoned call
    have nothing : source.clock = [] ++ source.clock := rfl
    rw [afterAll_cons responds, trace_cons responds nothing]
    exact ⟨rest.1, List.forall_mem_cons.2 ⟨⟨rfl, rfl⟩, rest.2⟩⟩

theorem broken (calls : List Call) : ∀ {source : Source GuardedSequencer (List Moment)},
    source.Lone → source.sequencer.poisoned = false →
      ∀ {early failed late cause}, source.trace calls = early ++ failed :: late →
        failed.answer = .error (.clock cause) → source.Broken calls early late := by
  induction calls with
  | nil =>
    intro source lone sound early failed late cause split
    simp [trace] at split
  | cons call calls ih =>
    intro source lone sound early failed late cause split fault
    obtain ⟨own, ends⟩ := served call lone
    rcases responds : source.respond call with ⟨answer, after⟩
    rw [responds] at ends
    rw [trace_cons responds ends.consumed] at split
    have reached := afterAll_cons responds calls
    cases ends with
    | refused poisoned => exact absurd poisoned (Bool.eq_false_iff.1 sound)
    | failed _ cause left =>
      have poisoned : Sequencer.poisoned (Sequencer.abandon source.sequencer) = true := rfl
      obtain ⟨still, refusals⟩ := trace_poisoned
        (show Sequencer.poisoned (Source.mk _ left source.overlapped).sequencer = true from poisoned)
        calls
      rcases List.cons_eq_append_iff.1 split with ⟨rfl, same⟩ | ⟨others, rfl, same⟩
      · obtain ⟨-, rfl⟩ := List.cons.inj same
        exact ⟨List.forall_mem_nil _, fun rest more => List.nil_prefix, refusals, by rw [reached, still]; rfl⟩
      · have refused := (refusals failed (by simp [same])).1
        rw [fault] at refused
        cases refused
    | answered _ answer _ consumed clean again =>
      rcases List.cons_eq_append_iff.1 split with ⟨rfl, same⟩ | ⟨others, rfl, same⟩
      · obtain ⟨rfl, -⟩ := List.cons.inj same
        cases fault
      · obtain ⟨answers, keeps, silent, stamp⟩ := ih (lone.suffix consumed)
          (GuardedSequencer.respond_sound responds) same fault
        refine ⟨List.forall_mem_cons.2 ⟨rfl, answers⟩, ?_, silent, ?_⟩
        · intro rest more
          rw [List.map_cons, List.cons_append, trace_before again]
          exact List.cons_prefix_cons.2 ⟨rfl, keeps rest more⟩
        · rw [reached, stamp, List.map_cons, afterAll_cons responds]

end Source
end Mintmark
