import Mintmark.Proofs.Sequencer.Count

/-!
Polls while the clock stands still. They are given the places of the millisecond in order, and none
after the last. A new sequencer holds the first place of the first millisecond of all as if it had
issued it, so this place alone is given to nobody.
-/
namespace Mintmark

namespace Stamp

def placeFrom (start : Stamp) (now : UInt64) : Nat :=
  if start.millis < now then 0 else start.sequence.toNat + 1

theorem answers_stand {start : Stamp} {now : UInt64} (reaches : start.millis ≤ now) {polls k : Nat}
    (inside : k < polls) : ∃ answer, (start.answers (List.replicate polls now))[k]? = some answer ∧
      answer.Gives now (start.placeFrom now + k) := by
  have read : (List.replicate polls now)[k]? = some now := List.getElem?_replicate_of_lt inside
  have before : (List.replicate polls now).take k = List.replicate k now := by
    rw [List.take_replicate, Nat.min_eq_left (Nat.le_of_lt inside)]
  have gives := ((start.at_after (List.replicate k now)).successor now).1
  rw [← List.replicate_succ'] at gives
  rw [getElem?_answers, read, before]
  refine ⟨_, rfl, ?_⟩
  rw [placeFrom]
  by_cases later : start.millis < now
  · obtain ⟨latest, place⟩ := stands_later later k
    rw [if_pos later, Nat.zero_add]
    rwa [latest, place] at gives
  · obtain ⟨latest, place⟩ := stands_held later (k + 1)
    have same : start.millis = now := UInt64.le_antisymm reaches (UInt64.not_lt.1 later)
    rw [if_neg later, Nat.add_assoc, Nat.add_comm 1]
    rwa [latest, place, same] at gives

end Stamp

namespace Source
open Settling

/-- Polls at one millisecond are given its places from this one on, and told to wait after the last. -/
def Offers {σ : Type} [Sequencer σ] (sequencer : σ) (millis : UInt64) (first : Nat) : Prop :=
  ∀ polls, ∀ k < polls, ∃ answer,
    (pollEach sequencer (List.replicate polls millis))[k]? = some (.ok answer) ∧
      answer.Gives millis (first + k)

section Offers
variable {σ : Type} [Sequencer σ] {sequencer : σ} {millis : UInt64}

theorem Offers.first {first : Nat} (small : first ≤ 999) (offers : Offers sequencer millis first) :
    (pollEach sequencer [millis])[0]? = some (.ok (.issued ⟨millis, .ofNat first⟩)) := by
  obtain ⟨answer, polled, gives⟩ := offers 1 0 Nat.one_pos
  rw [Nat.add_zero, Attempt.Gives, if_pos small] at gives
  rw [← gives]
  exact polled

variable [Undisturbed σ] [Settling σ] [Answering σ]

theorem offers_of_sound (sound : Sequencer.poisoned sequencer = false)
    (seen_eq : seen σ millis = millis) (reaches : (held sequencer).millis ≤ millis) :
    Offers sequencer millis ((held sequencer).placeFrom millis) := by
  intro polls k inside
  obtain ⟨answer, found, gives⟩ := Stamp.answers_stand reaches inside
  refine ⟨answer, ?_, gives⟩
  rw [pollEach_eq _ sound, List.map_replicate, seen_eq, List.getElem?_map, found]
  rfl

end Offers

/-- What a new sequencer offers of a millisecond: its places but for the first one of all, so the
whole of every millisecond but zero. -/
def OffersAnew {σ : Type} [Sequencer σ] (sequencer : σ) (millis : UInt64) : Prop :=
  Offers sequencer millis (if millis = 0 then 1 else 0) ∧ (Offers sequencer millis 0 ↔ millis ≠ 0)

theorem offersAnew_of_held {σ : Type} [Sequencer σ] [Undisturbed σ] [Settling σ] [Answering σ]
    {sequencer : σ} {millis : UInt64} (sound : Sequencer.poisoned sequencer = false)
    (new : held sequencer = .zero) (seen_eq : seen σ millis = millis) :
    OffersAnew sequencer millis := by
  have later : Stamp.zero.millis < millis ↔ ¬ millis = 0 := by
    rw [UInt64.lt_iff_toNat_lt, ← UInt64.toNat_inj]
    exact Nat.pos_iff_ne_zero
  have first : Stamp.zero.placeFrom millis = if millis = 0 then 1 else 0 := by
    simp only [Stamp.placeFrom, later, ite_not]
    rfl
  have reaches : (held sequencer).millis ≤ millis := by
    rw [new]
    exact UInt64.zero_le
  have offers := offers_of_sound sound seen_eq reaches
  rw [new, first] at offers
  refine ⟨offers, ?_, ?_⟩
  · rintro all rfl
    have second := offers.first (by decide)
    rw [all.first (by decide)] at second
    cases second
  · intro later
    rwa [if_neg later] at offers

/-- A new sequencer offers every millisecond whole, but for millisecond zero, which it offers from its
second place on. -/
theorem fresh_offers_all_iff (millis : UInt64) : OffersAnew ({} : GuardedSequencer) millis ∧
    (millis ≤ WordSequencer.maxMillis → OffersAnew ({} : WordSequencer) millis) := by
  refine ⟨offersAnew_of_held rfl rfl rfl, ?_⟩
  intro within
  exact offersAnew_of_held rfl rfl (seen_of_le within)

theorem fresh_offers_all_last : WordSequencer.maxMillis ≤ WordSequencer.maxMillis ∧
    Offers ({} : WordSequencer) WordSequencer.maxMillis 0 := by
  have within : WordSequencer.maxMillis ≤ WordSequencer.maxMillis := UInt64.le_refl _
  exact ⟨within, ((fresh_offers_all_iff WordSequencer.maxMillis).2 within).2.2 (by decide)⟩

theorem first_place_withheld :
    ¬ Offers ({} : GuardedSequencer) 0 0 ∧ ¬ Offers ({} : WordSequencer) 0 0 ∧
      (facing ({} : GuardedSequencer) [0]).poll.1 = .ok (.issued ⟨0, 1⟩) := by
  refine ⟨?_, ?_, rfl⟩
  · intro offers
    cases offers.first (by decide)
  · intro offers
    cases offers.first (by decide)

end Source
end Mintmark
