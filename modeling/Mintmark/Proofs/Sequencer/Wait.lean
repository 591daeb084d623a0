import Mintmark.Proofs.Sequencer.Polling

/-!
Waits. A poll that finds no place left says how far the clock has to go on, no less and no more. A
caller that polls on is served at the first reading beyond what is held, and waits for ever if none
comes.
-/
namespace Mintmark.Source
open Settling

/-- A poll read the clock and was told to wait. At the end of the wait the next poll is served, and
not before, with the first place of its own reading. -/
structure Suffices {σ τ : Type} [Sequencer σ] [Settling σ] [Clock τ] (source after : Source σ τ)
    (now wait : UInt64) : Prop where
  positive : 1 ≤ wait
  unchanged : after.sequencer = source.sequencer
  served_iff : ∀ (clock rest : τ) (next : UInt64) (stamp : Stamp), Clock.Shows clock next rest →
    ((poll { after with clock }).1 = .ok (.issued stamp) ↔
      now.toNat + wait.toNat ≤ next.toNat ∧ stamp = ⟨seen σ next, 0⟩)

theorem toNat_seen (σ : Type) [Sequencer σ] [Settling σ] [Answering σ] (now : UInt64) :
    (seen σ now).toNat = min now.toNat (Answering.edge σ).toNat := by
  rw [Answering.seen_eq, UInt64.toNat_min]

section Poll
variable {σ τ : Type} [Sequencer σ] [Clock τ] {source after : Source σ τ} {now wait : UInt64} {rest : τ}

theorem sound_of_retry (polled : source.poll = (.ok (.retry wait), after)) :
    Sequencer.poisoned source.sequencer = false := by
  rw [← Bool.not_eq_true]
  intro poisoned
  rw [poll_poisoned poisoned] at polled
  cases polled

variable [Undisturbed σ] [Settling σ] [Answering σ]

theorem poll_answers (sound : Sequencer.poisoned source.sequencer = false)
    (shows : Clock.Shows source.clock now rest) :
    source.poll.1 = .ok ((held source.sequencer).successor (seen σ now)) := by
  rw [poll_shows sound shows, Answering.answer_settle]

theorem poll_full (sound : Sequencer.poisoned source.sequencer = false)
    (full : (held source.sequencer).hasRoom = false) (shows : Clock.Shows source.clock now rest)
    (behind : ¬ (held source.sequencer).millis < seen σ now) :
    source.poll = (.ok (.retry ((held source.sequencer).millis - seen σ now + 1)),
      { source with clock := rest }) := by
  have answer := Answering.answer_settle source.sequencer now
  rw [Stamp.successor_full behind full] at answer
  have kept : (Sequencer.settle source.sequencer source.sequencer now).2 = source.sequencer :=
    settle_retry (Prod.ext answer rfl)
  rw [poll_shows sound shows, answer, kept]

theorem served_of_full (source : Source σ τ) (sound : Sequencer.poisoned source.sequencer = false)
    (full : (held source.sequencer).hasRoom = false) (shows : Clock.Shows source.clock now rest)
    {stamp : Stamp} : source.poll.1 = .ok (.issued stamp) ↔
      (held source.sequencer).millis < seen σ now ∧ stamp = ⟨seen σ now, 0⟩ := by
  rw [poll_answers sound shows, Except.ok.injEq, Stamp.successor_eq_issued_iff, full]
  simp

theorem suffices_of_retry (below : (held source.sequencer).millis < Answering.edge σ)
    (shows : Clock.Shows source.clock now rest)
    (polled : source.poll = (.ok (.retry wait), after)) : Suffices source after now wait := by
  have sound := sound_of_retry polled
  have answer := poll_answers sound shows
  rw [polled, Except.ok.injEq] at answer
  obtain ⟨behind, full, rfl⟩ := Stamp.successor_eq_retry_iff.1 answer.symm
  rw [poll_full sound full shows behind, Prod.mk.injEq] at polled
  obtain ⟨-, rfl⟩ := polled
  have size := (Answering.edge σ).toNat_lt
  have reading := toNat_seen σ now
  rw [UInt64.lt_iff_toNat_lt] at below
  have exact_wait := Stamp.toNat_wait behind (by omega)
  rw [UInt64.lt_iff_toNat_lt] at behind
  refine ⟨?_, rfl, ?_⟩
  · rw [UInt64.le_iff_toNat_le, exact_wait]
    exact Nat.le_add_left _ _
  · intro clock rest next stamp later
    have following := toNat_seen σ next
    have served : (poll { source with clock }).1 = .ok (.issued stamp) ↔
        (held source.sequencer).millis < seen σ next ∧ stamp = ⟨seen σ next, 0⟩ :=
      served_of_full { source with clock } sound full later
    rw [served, UInt64.lt_iff_toNat_lt, exact_wait]
    apply and_congr_left'
    omega

end Poll

/-- Waits are exact: over the lock below the last millisecond of all, over the word below the last one
that it can tell. -/
theorem waits_suffice :
    (∀ (τ : Type) [Clock τ] (source after : Source GuardedSequencer τ) (now wait : UInt64) (rest : τ),
      source.sequencer.last.millis < GuardedSequencer.maxMillis →
        Clock.Shows source.clock now rest → source.poll = (.ok (.retry wait), after) →
          Suffices source after now wait) ∧
    ∀ (τ : Type) [Clock τ] (source after : Source WordSequencer τ) (now wait : UInt64) (rest : τ),
      source.sequencer.held.millis < WordSequencer.maxMillis →
        Clock.Shows source.clock now rest → source.poll = (.ok (.retry wait), after) →
          Suffices source after now wait := by
  constructor
  · intro τ _ source after now wait rest
    exact fun below shows polled => suffices_of_retry below shows polled
  · intro τ _ source after now wait rest
    exact fun below shows polled => suffices_of_retry below shows polled

theorem waits_suffice_behind :
    (facing (GuardedSequencer.ofStamp ⟨7, 999⟩) [5]).poll =
        (.ok (.retry 3), facing (.ofStamp ⟨7, 999⟩) []) ∧
      Suffices (facing (GuardedSequencer.ofStamp ⟨7, 999⟩) [5]) (facing (.ofStamp ⟨7, 999⟩) []) 5 3 ∧
      (facing (WordSequencer.ofStamp ⟨7, 999⟩) [5]).poll =
        (.ok (.retry 3), facing (.ofStamp ⟨7, 999⟩) []) ∧
      Suffices (facing (WordSequencer.ofStamp ⟨7, 999⟩) [5]) (facing (.ofStamp ⟨7, 999⟩) []) 5 3 :=
  ⟨rfl, waits_suffice.1 _ _ _ 5 3 _ (by decide) rfl rfl, rfl,
    waits_suffice.2 _ _ _ 5 3 _ (by decide) rfl rfl⟩

inductive Waits {σ τ : Type} [Sequencer σ] [Clock τ] : Source σ τ → Nat → Source σ τ → Prop
  | none (source : Source σ τ) : Waits source 0 source
  | again {source after last : Source σ τ} {wait : UInt64} {count : Nat}
    (polled : source.poll = (.ok (.retry wait), after)) (rest : Waits after count last) :
    Waits source (count + 1) last

theorem Waits.next {σ τ : Type} [Sequencer σ] [Clock τ] {source last : Source σ τ} {count : Nat}
    (waits : Waits source count last) : source.next = last.next := by
  induction waits with
  | none source => rfl
  | again polled _ rest => rw [next_of_retry polled, rest]

section Endless
variable {σ : Type}

/-- Before a number of readings of an endless row, from one place in it on. -/
def among (sequencer : σ) (readings : Nat → UInt64) (first count : Nat) : Source σ (List Moment) :=
  facing sequencer ((List.range' first count).map readings)

/-- A wait that is not over after a number of readings: every one of them went into a poll that was
told to wait, and the sequencer is as it was. -/
structure Unfinished [Sequencer σ] (sequencer : σ) (readings : Nat → UInt64) (count : Nat) : Prop where
  waits : Waits (among sequencer readings 0 count) count (among sequencer readings count 0)
  stuck : (among sequencer readings 0 count).next.1 = .error (.clock .stuck)

/-- A wait that is over after a number of readings, and with no fewer: it takes these readings and no
other, however many there are. -/
structure Ends [Sequencer σ] [Settling σ] (sequencer : σ) (readings : Nat → UInt64) (count : Nat)
    (stamp : Stamp) : Prop where
  unfinished : ∀ fewer < count, Unfinished sequencer readings fewer
  ends : ∀ more, ∃ after, held after = stamp ∧
    (among sequencer readings 0 (count + more)).next = (.ok stamp, among after readings count more)

/-- When a wait over an endless row of readings ends. -/
structure Spins [Sequencer σ] [Settling σ] (sequencer : σ) : Prop where
  room : (held sequencer).hasRoom → ∀ readings, ∃ stamp, Ends sequencer readings 1 stamp
  full : (held sequencer).hasRoom = false → ∀ readings first,
    (held sequencer).millis < seen σ (readings first) →
      (∀ earlier < first, seen σ (readings earlier) ≤ (held sequencer).millis) →
        Ends sequencer readings (first + 1) ⟨seen σ (readings first), 0⟩
  endless : (held sequencer).hasRoom = false → ∀ readings,
    (∀ k, seen σ (readings k) ≤ (held sequencer).millis) →
      ∀ count, Unfinished sequencer readings count

theorem shows_among (sequencer : σ) (readings : Nat → UInt64) (first count : Nat) :
    Clock.Shows (among sequencer readings first (count + 1)).clock (readings first)
      (among sequencer readings (first + 1) count).clock := rfl

variable [Sequencer σ] [Undisturbed σ] {sequencer : σ} {readings : Nat → UInt64}

theorem unfinished_of_waits (sound : Sequencer.poisoned sequencer = false) {count : Nat}
    (waits : Waits (among sequencer readings 0 count) count (among sequencer readings count 0)) :
    Unfinished sequencer readings count where
  waits := waits
  stuck := by
    have stuck : (among sequencer readings count 0).poll = _ := poll_stuck sound
    rw [waits.next, next_of_stop stuck]

variable [Settling σ] [Answering σ]

theorem waits_among (sound : Sequencer.poisoned sequencer = false)
    (full : (held sequencer).hasRoom = false) (more : Nat) : ∀ count first,
      (∀ k < first + count, seen σ (readings k) ≤ (held sequencer).millis) →
        Waits (among sequencer readings first (count + more)) count
          (among sequencer readings (first + count) more) := by
  intro count
  -- The place in the row is left open, since every poll moves it on by one.
  induction count with
  | zero =>
    intro first behind
    rw [Nat.zero_add]
    exact .none _
  | succ count rest =>
    intro first behind
    have polled := poll_full sound full (shows_among sequencer readings first (count + more))
      (UInt64.not_lt.2 (behind first (by omega)))
    have later := rest (first + 1) (fun k before => behind k (by omega))
    rw [Nat.add_assoc, Nat.add_comm 1] at later
    rw [Nat.succ_add]
    exact .again polled later

theorem unfinished_of_behind (sound : Sequencer.poisoned sequencer = false)
    (full : (held sequencer).hasRoom = false) {count : Nat}
    (behind : ∀ k < count, seen σ (readings k) ≤ (held sequencer).millis) :
    Unfinished sequencer readings count := by
  have waits := waits_among sound full 0 count 0 (by rwa [Nat.zero_add])
  rw [Nat.zero_add] at waits
  exact unfinished_of_waits sound waits

theorem next_of_successor (sound : Sequencer.poisoned sequencer = false) {first : Nat} {stamp : Stamp}
    (issued : (held sequencer).successor (seen σ (readings first)) = .issued stamp) (more : Nat) :
    ∃ after, held after = stamp ∧ (among sequencer readings first (more + 1)).next =
      (.ok stamp, among after readings (first + 1) more) := by
  have answer := Answering.answer_settle sequencer (readings first)
  have holds := held_settle sequencer (readings first)
  have polled : (among sequencer readings first (more + 1)).poll =
      (.ok (Sequencer.settle sequencer sequencer (readings first)).1,
        among (Sequencer.settle sequencer sequencer (readings first)).2 readings (first + 1) more) :=
    poll_shows sound (shows_among sequencer readings first more)
  rw [issued] at answer holds
  rw [answer] at polled
  exact ⟨_, holds, next_of_issued polled⟩

theorem spins_of_sound (sound : Sequencer.poisoned sequencer = false) : Spins sequencer where
  room room readings := by
    obtain ⟨stamp, issued⟩ : ∃ stamp,
        (held sequencer).successor (seen σ (readings 0)) = .issued stamp := by
      by_cases later : (held sequencer).millis < seen σ (readings 0)
      · exact ⟨_, Stamp.successor_later later⟩
      · exact ⟨_, Stamp.successor_room later room⟩
    refine ⟨stamp, ?_, ?_⟩
    · intro fewer before
      cases Nat.lt_one_iff.1 before
      exact unfinished_of_waits sound (.none _)
    · intro more
      rw [Nat.add_comm]
      exact next_of_successor sound issued more
  full full readings first later behind := by
    refine ⟨?_, ?_⟩
    · intro fewer before
      exact unfinished_of_behind sound full (fun k earlier => behind k (by omega))
    · intro more
      have waits := waits_among sound full (more + 1) first 0 (by rwa [Nat.zero_add])
      rw [Nat.zero_add, ← Nat.add_assoc, Nat.add_right_comm] at waits
      rw [waits.next]
      exact next_of_successor sound (Stamp.successor_later later) more
  endless full readings behind count := unfinished_of_behind sound full (fun k _ => behind k)

end Endless

/-- A wait takes one reading if there is room, and else ends with the first reading beyond what is
held: over the lock, unless it is poisoned, and over the word. -/
theorem next_spins :
    (∀ sequencer : GuardedSequencer, sequencer.poisoned = false → Spins sequencer) ∧
      ∀ sequencer : WordSequencer, Spins sequencer :=
  ⟨fun _ sound => spins_of_sound sound, fun _ => spins_of_sound rfl⟩

theorem next_spins_full :
    Ends (GuardedSequencer.ofStamp ⟨7, 999⟩) .ofNat 9 ⟨8, 0⟩ ∧
      Ends (WordSequencer.ofStamp ⟨7, 999⟩) .ofNat 9 ⟨8, 0⟩ ∧
      ∀ count, Unfinished (WordSequencer.ofStamp ⟨WordSequencer.maxMillis, 999⟩) .ofNat count := by
  have behind : ∀ earlier < 8, UInt64.ofNat earlier ≤ 7 := by decide
  have word : ∀ earlier < 8, min (UInt64.ofNat earlier) WordSequencer.maxMillis ≤ 7 := by decide
  refine ⟨?_, ?_, ?_⟩
  · exact (next_spins.1 _ rfl).full rfl .ofNat 8 (by decide) behind
  · exact (next_spins.2 _).full rfl .ofNat 8 (by decide) word
  · exact (next_spins.2 _).endless rfl .ofNat (fun _ => Std.min_le_right)

end Mintmark.Source
