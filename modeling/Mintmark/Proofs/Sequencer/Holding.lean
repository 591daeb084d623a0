import Mintmark.Proofs.Stamp
import Mintmark.Sequencer.Guarded
import Mintmark.Sequencer.Word

/-!
Sequencers hold the last stamp that was issued. Both kinds move on by issuing the successor of what
they hold, and by nothing else, so every stamp lies above all that were issued before it.
-/
namespace Mintmark

class Settling (σ : Type) [Sequencer σ] where
  held : σ → Stamp
  /-- A reading as the sequencer takes it. -/
  seen : UInt64 → UInt64
  seen_le : ∀ now : UInt64, seen now ≤ now
  le_seen : ∀ {least now : UInt64}, least ≤ WordSequencer.maxMillis → least ≤ now → least ≤ seen now
  settle_issued : ∀ {loaded reached after : σ} {now : UInt64} {stamp : Stamp},
    Sequencer.settle loaded reached now = (.issued stamp, after) →
      (held reached).successor (seen now) = .issued stamp ∧ held after = stamp
  settle_retry : ∀ {loaded reached after : σ} {now wait : UInt64},
    Sequencer.settle loaded reached now = (.retry wait, after) → after = reached
  held_abandon : ∀ state : σ, held (Sequencer.abandon state) = held state

class Holding (σ : Type) [Sequencer σ] extends Settling σ where
  /-- What is held afterwards is the latest of what was held and what was issued meanwhile. -/
  lt_overlap : ∀ (state : σ) (moment : Moment) (bound : Stamp),
    bound < held (Sequencer.overlap state moment).1 ↔
      bound < held state ∨
        ∃ stamp, .issued stamp ∈ (Sequencer.overlap state moment).2 ∧ bound < stamp

theorem Settling.seen_of_le {σ : Type} [Sequencer σ] [Settling σ] {now : UInt64}
    (within : now ≤ WordSequencer.maxMillis) : seen σ now = now :=
  UInt64.le_antisymm (seen_le now) (le_seen within (UInt64.le_refl now))

theorem Settling.lt_settle {σ : Type} [Sequencer σ] [Settling σ] {loaded reached after : σ}
    {now : UInt64} {answer : Attempt}
    (settled : Sequencer.settle loaded reached now = (answer, after)) (bound : Stamp) :
    bound < held after ↔ bound < held reached ∨ ∃ stamp, answer = .issued stamp ∧ bound < stamp := by
  cases answer with
  | issued stamp =>
    obtain ⟨issued, holds⟩ := settle_issued settled
    have above := (Stamp.successor_issued issued).1
    rw [holds]
    constructor
    · intro below
      exact .inr ⟨stamp, rfl, below⟩
    · rintro (below | ⟨next, same, below⟩)
      · exact Stamp.lt_trans below above
      · cases same
        exact below
  | retry wait => simp [settle_retry settled]

namespace Stamp

theorem toNat_ofWord (word : UInt64) :
    (ofWord word).millis.toNat = word.toNat / 1024 ∧
      (ofWord word).sequence.toNat = word.toNat % 1024 := by
  constructor
  · simp [ofWord, Nat.shiftRight_eq_div_pow]
  · have masked : (word &&& 1023).toNat = word.toNat % 1024 := by
      rw [UInt64.toNat_and]
      exact Nat.and_two_pow_sub_one_eq_mod _ 10
    rw [ofWord, UInt64.toNat_toUInt16, masked]
    omega

theorem toNat_toWord {stamp : Stamp} (millis : stamp.millis.toNat < 2 ^ 54)
    (sequence : stamp.sequence.toNat < 1024) :
    stamp.toWord.toNat = stamp.millis.toNat * 1024 + stamp.sequence.toNat := by
  have shifted : (stamp.millis <<< 10).toNat = stamp.millis.toNat * 1024 := by
    rw [UInt64.toNat_shiftLeft, Nat.shiftLeft_eq]
    simp
    omega
  have joined : stamp.millis.toNat <<< 10 + stamp.sequence.toNat =
      stamp.millis.toNat <<< 10 ||| stamp.sequence.toNat :=
    Nat.shiftLeft_add_eq_or_of_lt sequence _
  rw [Nat.shiftLeft_eq] at joined
  rw [toWord, UInt64.toNat_or, shifted, UInt16.toNat_toUInt64]
  exact joined.symm

theorem ofWord_toWord {stamp : Stamp} (millis : stamp.millis.toNat < 2 ^ 54)
    (sequence : stamp.sequence.toNat < 1024) : ofWord stamp.toWord = stamp := by
  obtain ⟨high, low⟩ := toNat_ofWord stamp.toWord
  rw [toNat_toWord millis sequence] at high low
  rw [Stamp.mk.injEq]
  constructor
  · apply UInt64.toNat_inj.1
    omega
  · apply UInt16.toNat_inj.1
    omega
end Stamp

namespace GuardedSequencer

theorem settle_issued {sequencer after : GuardedSequencer} {now : UInt64} {stamp : Stamp}
    (settled : sequencer.settle now = (.issued stamp, after)) :
    sequencer.last.successor now = .issued stamp ∧ after.last = stamp := by
  unfold settle at settled
  cases answer : sequencer.last.successor now with
  | issued next =>
    simp only [answer, Prod.mk.injEq, Attempt.issued.injEq] at settled
    obtain ⟨rfl, rfl⟩ := settled
    exact ⟨rfl, rfl⟩
  | retry wait => simp [answer] at settled

theorem settle_retry {sequencer after : GuardedSequencer} {now wait : UInt64}
    (settled : sequencer.settle now = (.retry wait, after)) : after = sequencer := by
  unfold settle at settled
  cases answer : sequencer.last.successor now with
  | issued next => simp [answer] at settled
  | retry other =>
    simp only [answer, Prod.mk.injEq] at settled
    exact settled.2.symm

theorem poisoned_settle (sequencer : GuardedSequencer) (now : UInt64) :
    (sequencer.settle now).2.poisoned = sequencer.poisoned := by
  unfold settle
  split <;> rfl

instance : Holding GuardedSequencer where
  held := last
  seen := id
  seen_le _ := UInt64.le_refl _
  le_seen _ le := le
  settle_issued := settle_issued
  settle_retry := settle_retry
  held_abandon _ := rfl
  lt_overlap _ _ _ := by simp [Sequencer.overlap]

end GuardedSequencer

namespace WordSequencer

def held (sequencer : WordSequencer) : Stamp := .ofWord sequencer.word

theorem held_ofWord {stamp : Stamp} (millis : stamp.millis.toNat < 2 ^ 54)
    (sequence : stamp.sequence.toNat ≤ 999) : held ⟨stamp.toWord⟩ = stamp := by
  exact Stamp.ofWord_toWord millis (by omega)

theorem millis_held_lt (sequencer : WordSequencer) : sequencer.held.millis.toNat < 2 ^ 54 := by
  have bound := sequencer.word.toNat_lt
  rw [held, (Stamp.toNat_ofWord sequencer.word).1]
  omega

/-- What a poll makes of the word it loaded at a reading: a stamp to exchange it for, or a wait. -/
def proposal (loaded : WordSequencer) (now : UInt64) : Attempt :=
  loaded.held.successor (min now maxMillis)

theorem settle_of_retry {loaded : WordSequencer} {now wait : UInt64}
    (proposed : loaded.proposal now = .retry wait) (reached : WordSequencer) :
    loaded.settle reached now = (.retry wait, reached) := by
  have same : (Stamp.ofWord loaded.word).successor (min now maxMillis) = .retry wait := proposed
  simp only [settle, same]

theorem settle_of_issued {loaded : WordSequencer} {now : UInt64} {stamp : Stamp}
    (proposed : loaded.proposal now = .issued stamp) (reached : WordSequencer) :
    loaded.settle reached now = loaded.exchange reached stamp := by
  have same : (Stamp.ofWord loaded.word).successor (min now maxMillis) = .issued stamp := proposed
  simp only [settle, same]

theorem held_of_proposal {loaded : WordSequencer} {now : UInt64} {stamp : Stamp}
    (proposed : loaded.proposal now = .issued stamp) : held ⟨stamp.toWord⟩ = stamp := by
  obtain ⟨_, sequence, millis⟩ := Stamp.successor_issued proposed
  have bound := loaded.millis_held_lt
  have edge : maxMillis.toNat = 2 ^ 54 - 1 := rfl
  rw [UInt64.toNat_min, edge] at millis
  exact held_ofWord (by omega) sequence

theorem wait_of_proposal {loaded : WordSequencer} {now wait : UInt64}
    (proposed : loaded.proposal now = .retry wait) : wait ≠ 0 := by
  have bound := loaded.millis_held_lt
  obtain ⟨behind, -, rfl⟩ := Stamp.successor_eq_retry_iff.1 proposed
  intro zero
  have positive := Stamp.toNat_wait behind (by omega)
  rw [zero] at positive
  cases positive

theorem settle_issued {loaded reached after : WordSequencer} {now : UInt64} {stamp : Stamp}
    (settled : loaded.settle reached now = (.issued stamp, after)) :
    reached.proposal now = .issued stamp ∧ after.held = stamp := by
  cases proposed : loaded.proposal now with
  | retry wait => simp [settle_of_retry proposed] at settled
  | issued next =>
    rw [settle_of_issued proposed, exchange] at settled
    -- Only the word that was loaded is exchanged, so its successor is the successor of what is held.
    split at settled
    · rename_i same
      simp only [Prod.mk.injEq, Attempt.issued.injEq] at settled
      obtain ⟨rfl, rfl⟩ := settled
      exact ⟨same ▸ proposed, held_of_proposal proposed⟩
    · simp at settled

theorem settle_retry {loaded reached after : WordSequencer} {now wait : UInt64}
    (settled : loaded.settle reached now = (.retry wait, after)) : after = reached := by
  cases proposed : loaded.proposal now with
  | retry other =>
    rw [settle_of_retry proposed, Prod.mk.injEq] at settled
    exact settled.2.symm
  | issued next =>
    rw [settle_of_issued proposed, exchange] at settled
    split at settled
    · simp at settled
    · simp only [Prod.mk.injEq] at settled
      exact settled.2.symm

instance : Settling WordSequencer where
  held := held
  seen now := min now maxMillis
  seen_le now := by
    rw [UInt64.le_iff_toNat_le, UInt64.toNat_min]
    omega
  le_seen within le := by
    rw [UInt64.le_iff_toNat_le] at *
    rw [UInt64.toNat_min]
    omega
  settle_issued := settle_issued
  settle_retry := settle_retry
  held_abandon _ := rfl

theorem lt_overlap (bound : Stamp) (moment : Moment) : ∀ state : WordSequencer,
    bound < (overlap state moment).1.held ↔
      bound < state.held ∨ ∃ stamp, .issued stamp ∈ (overlap state moment).2 ∧ bound < stamp := by
  induction moment with
  | reading now => simp [overlap]
  | fault cause => simp [overlap]
  | during inner rest innerHolds restHolds =>
    intro state
    have first := innerHolds state
    unfold overlap
    cases outcome : inner.outcome with
    | error cause => exact first
    | ok now =>
      cases settled : settle state (overlap state inner).1 now with
      | mk answer next =>
        have settles : Sequencer.settle state (overlap state inner).1 now = (answer, next) := settled
        have second : bound < next.held ↔ bound < (overlap state inner).1.held ∨
            ∃ stamp, answer = .issued stamp ∧ bound < stamp :=
          Settling.lt_settle settles bound
        simp only [settled]
        rw [restHolds, second, first]
        simp only [List.mem_append, List.mem_cons, or_and_right, exists_or, or_assoc, eq_comm]

instance : Holding WordSequencer where
  lt_overlap state moment bound := lt_overlap bound moment state

end WordSequencer
end Mintmark
