import Mathlib.Logic.Relation
import Mintmark.Proofs.Sequencer.Race.Nested
import Mintmark.Proofs.Sequencer.Range

/-!
Stamps in one word. A stamp that fits keeps all its bits there, and words are ordered as the stamps
that they hold. Whatever polls do to a word, it goes on holding a stamp that fits and never falls, and
no number that a poll forms outgrows its type.
-/
namespace Mintmark

namespace Stamp

/-- Neither part runs over its place in a word. -/
structure Fits (stamp : Stamp) : Prop where
  millis : stamp.millis ≤ WordSequencer.maxMillis
  sequence : stamp.sequence ≤ maxSequence

theorem fits_iff {stamp : Stamp} :
    stamp.Fits ↔ stamp.millis.toNat < 2 ^ 54 ∧ stamp.sequence.toNat ≤ 999 := by
  constructor
  · rintro ⟨millis, sequence⟩
    exact ⟨Nat.lt_succ_of_le (UInt64.le_iff_toNat_le.1 millis), UInt16.le_iff_toNat_le.1 sequence⟩
  · rintro ⟨millis, sequence⟩
    exact ⟨UInt64.le_iff_toNat_le.2 (Nat.le_of_lt_succ millis), UInt16.le_iff_toNat_le.2 sequence⟩

theorem toNat_shift_iff (millis : UInt64) :
    (millis <<< 10).toNat = millis.toNat * 2 ^ 10 ↔ millis ≤ WordSequencer.maxMillis := by
  have size := millis.toNat_lt
  have edge : WordSequencer.maxMillis.toNat = 2 ^ 54 - 1 := rfl
  have shifted : (millis <<< 10).toNat = millis.toNat * 2 ^ 10 % 2 ^ 64 := by
    rw [UInt64.toNat_shiftLeft, Nat.shiftLeft_eq]
    rfl
  rw [shifted, UInt64.le_iff_toNat_le, edge]
  omega

theorem toWord_ofWord (word : UInt64) : (ofWord word).toWord = word := by
  obtain ⟨millis, sequence⟩ := toNat_ofWord word
  have size := word.toNat_lt
  apply UInt64.toNat_inj.1
  rw [toNat_toWord (by omega) (by omega), millis, sequence]
  exact Nat.div_add_mod' word.toNat 1024

theorem ofWord_lt_iff (left right : UInt64) : ofWord left < ofWord right ↔ left < right := by
  obtain ⟨leftMillis, leftSequence⟩ := toNat_ofWord left
  obtain ⟨rightMillis, rightSequence⟩ := toNat_ofWord right
  rw [lt_iff, rank, rank, leftMillis, leftSequence, rightMillis, rightSequence,
    UInt64.lt_iff_toNat_lt]
  omega

namespace Fits
variable {stamp other : Stamp}

theorem ofWord_toWord (fits : stamp.Fits) : ofWord stamp.toWord = stamp := by
  obtain ⟨millis, sequence⟩ := fits_iff.1 fits
  exact Stamp.ofWord_toWord millis (Nat.lt_of_le_of_lt sequence (by decide))

theorem toWord_lt_iff (fits : stamp.Fits) (otherFits : other.Fits) :
    stamp.toWord < other.toWord ↔ stamp < other := by
  rw [← ofWord_lt_iff, fits.ofWord_toWord, otherFits.ofWord_toWord]

end Fits
end Stamp

namespace WordSequencer
variable {loaded : WordSequencer} {now : UInt64} {stamp : Stamp}

/-- The word holds a stamp that fits, and nothing besides. -/
structure Packed (sequencer : WordSequencer) : Prop where
  fits : sequencer.held.Fits
  repacks : sequencer.held.toWord = sequencer.word

theorem packed_toWord (fits : stamp.Fits) : Packed ⟨stamp.toWord⟩ where
  fits := by
    rw [held, fits.ofWord_toWord]
    exact fits
  repacks := Stamp.toWord_ofWord stamp.toWord

theorem packed_ofStamp (last : Stamp) : (ofStamp last).Packed := by
  apply packed_toWord
  apply Stamp.fits_iff.2
  have edge : maxMillis.toNat = 2 ^ 54 - 1 := rfl
  have sequence : min last.sequence Stamp.maxSequence ≤ Stamp.maxSequence := Std.min_le_right
  refine ⟨?_, UInt16.le_iff_toNat_le.1 sequence⟩
  rw [UInt64.toNat_min, edge]
  omega

theorem word_le_iff {first second : WordSequencer} :
    first.word ≤ second.word ↔ first.held ≤ second.held := by
  have behind := not_congr (Stamp.ofWord_lt_iff second.word first.word)
  rw [UInt64.not_lt, Stamp.lt_iff, Nat.not_lt] at behind
  exact behind.symm.trans Stamp.le_iff.symm

theorem fits_of_proposal (proposed : loaded.proposal now = .issued stamp) : stamp.Fits := by
  obtain ⟨-, sequence, millis⟩ := Stamp.successor_issued proposed
  have bound := loaded.millis_held_lt
  have edge : maxMillis.toNat = 2 ^ 54 - 1 := rfl
  rw [UInt64.toNat_min, edge] at millis
  exact Stamp.fits_iff.2 ⟨by omega, sequence⟩

/-- The numbers that a poll forms fit into their types, up to the word of the stamp that it proposes,
so its answer is the one that numbers of any size would give. -/
structure InRange (loaded : WordSequencer) (now : UInt64) : Prop where
  successor : loaded.held.InRange (min now maxMillis)
  packs : ∀ stamp, loaded.proposal now = .issued stamp → stamp.Fits
  exact : (loaded.proposal now).Exact loaded.held (min now maxMillis)

theorem inRange (loaded : WordSequencer) (now : UInt64) : loaded.InRange now := by
  have successor : loaded.held.InRange (min now maxMillis) := by
    apply Stamp.inRange_iff.2
    rintro ⟨-, last, -⟩
    have bound := loaded.millis_held_lt
    rw [last] at bound
    exact absurd bound (by decide)
  exact ⟨successor, fun _ => fits_of_proposal, successor.exact⟩

end WordSequencer

namespace Race
variable {race next last : Race} {poll : Nat} {step : PollStep} {schedule : List (Nat × PollStep)}

theorem Steps.packed (steps : Steps race poll step next) (sound : Sound race)
    (packed : race.word.Packed) : next.word.Packed := by
  cases steps with
  | load idle => exact packed
  | wait word now wait loaded proposed => exact packed
  | propose word now stamp loaded proposed => exact packed
  | lose word stamp proposing changed => exact packed
  | win stamp proposing =>
    obtain ⟨now, proposed⟩ := sound.proposed poll race.word stamp proposing
    exact WordSequencer.packed_toWord (WordSequencer.fits_of_proposal proposed)

theorem Runs.packed (runs : Runs race schedule last) (sound : Sound race)
    (packed : race.word.Packed) : last.word.Packed := by
  induction runs with
  | refl race => exact packed
  | cons taken _ rest =>
    have steps := steps_of_step taken
    exact rest (steps.sound sound) (steps.packed sound packed)

theorem Runs.word_le (runs : Runs race schedule last) (sound : Sound race) :
    race.word.word ≤ last.word.word := by
  obtain ⟨-, meanwhile, grows⟩ := runs.grows sound
  exact WordSequencer.word_le_iff.2 grows.le

end Race

namespace Source
variable {τ : Type} [Clock τ] {source after : Source WordSequencer τ}

structure Climbs (first second : WordSequencer) : Prop where
  packed : first.Packed → second.Packed
  le : first.word ≤ second.word

theorem Climbs.trans {first second third : WordSequencer} (early : Climbs first second)
    (late : Climbs second third) : Climbs first third where
  packed packed := late.packed (early.packed packed)
  le := UInt64.le_trans early.le late.le

theorem climbs_poll (source : Source WordSequencer τ) :
    Climbs source.sequencer source.poll.2.sequencer := by
  obtain ⟨schedule, race, inside, runs, word, -⟩ := source.runs_poll
  have sound := Race.sound_start source.sequencer
  rw [← word]
  exact ⟨runs.packed sound, runs.word_le sound⟩

theorem climbs_next (source : Source WordSequencer τ) :
    Climbs source.sequencer source.next.2.sequencer := by
  induction source using next_induction with
  | stopped source after stop polled =>
    have climbs := source.climbs_poll
    rwa [polled] at climbs
  | issued source after stamp polled =>
    have climbs := source.climbs_poll
    rwa [polled] at climbs
  | again source after wait polled rest =>
    have climbs := source.climbs_poll
    rw [polled] at climbs
    exact climbs.trans rest

theorem climbs_respond (source : Source WordSequencer τ) (call : Call) :
    Climbs source.sequencer (source.respond call).2.sequencer := by
  cases call with
  | poll => exact source.climbs_poll
  | next => exact source.climbs_next

/-- One call, whatever its answer, leads from one state to the other. -/
def Called {σ : Type} [Sequencer σ] (source after : Source σ τ) : Prop :=
  ∃ call, (source.respond call).2 = after

theorem climbs_of_called (called : Relation.ReflTransGen Called source after) :
    Climbs source.sequencer after.sequencer := by
  induction called with
  | refl => exact ⟨id, UInt64.le_refl _⟩
  | tail _ last climbs =>
    obtain ⟨call, rfl⟩ := last
    exact climbs.trans (climbs_respond _ call)

end Source

namespace WordSequencer
open Relation

/-- Stamps that fit are packed whole and in their order. From every start stamp on, in every order of
the steps of any number of polls and over every clock, the word is the packing of a stamp that fits
and never falls, and nothing that a poll computes overflows. -/
theorem packed_in_order :
    (∀ stamp : Stamp, stamp.Fits → (stamp.millis <<< 10).toNat = stamp.millis.toNat * 2 ^ 10 ∧
      Stamp.ofWord stamp.toWord = stamp) ∧
    (∀ stamp other : Stamp, stamp.Fits → other.Fits →
      (stamp.toWord < other.toWord ↔ stamp < other)) ∧
    (∀ start schedule race, Race.Runs { word := .ofStamp start } schedule race →
      race.word.Packed ∧ ∀ rest last, Race.Runs race rest last → race.word.word ≤ last.word.word) ∧
    (∀ (τ : Type) [Clock τ] (start : Stamp) (clock : τ) (source : Source WordSequencer τ),
      ReflTransGen Source.Called { sequencer := .ofStamp start, clock } source →
        source.sequencer.Packed ∧ ∀ after, ReflTransGen Source.Called source after →
          source.sequencer.word ≤ after.sequencer.word) ∧
    ∀ (loaded : WordSequencer) (now : UInt64), loaded.InRange now := by
  refine ⟨?_, fun _ _ => Stamp.Fits.toWord_lt_iff, ?_, ?_, inRange⟩
  · intro stamp fits
    exact ⟨(Stamp.toNat_shift_iff stamp.millis).2 fits.millis, fits.ofWord_toWord⟩
  · intro start schedule race runs
    have sound := Race.sound_start (.ofStamp start)
    refine ⟨runs.packed sound (packed_ofStamp start), ?_⟩
    intro rest last later
    exact later.word_le (runs.grows sound).1
  · intro τ _ start clock source called
    refine ⟨(Source.climbs_of_called called).packed (packed_ofStamp start), ?_⟩
    intro after later
    exact (Source.climbs_of_called later).le

/-- The start is cut down to the last stamp that fits, and a poll there finds no later one. -/
theorem packed_in_order_last :
    Stamp.Fits ⟨maxMillis, 998⟩ ∧ Stamp.Fits ⟨maxMillis, 999⟩ ∧
      Stamp.ofWord (Stamp.toWord ⟨maxMillis, 999⟩) = ⟨maxMillis, 999⟩ ∧
      (Stamp.toWord ⟨maxMillis, 998⟩ < Stamp.toWord ⟨maxMillis, 999⟩ ↔
        (⟨maxMillis, 998⟩ : Stamp) < ⟨maxMillis, 999⟩) ∧
      (∃ race, Race.Runs { word := .ofStamp ⟨0xFFFFFFFFFFFFFFFF, 0xFFFF⟩ }
        [(0, .load), (0, .read 0xFFFFFFFFFFFFFFFF)] race ∧
          race.word.word = 0xFFFFFFFFFFFFFFE7 ∧ race.word.Packed) ∧
      (Source.poll { sequencer := ofStamp ⟨5, 1023⟩, clock := [Moment.reading 4] }).2.sequencer.Packed := by
  have before : Stamp.Fits ⟨maxMillis, 998⟩ := ⟨by decide, by decide⟩
  have last : Stamp.Fits ⟨maxMillis, 999⟩ := ⟨by decide, by decide⟩
  obtain ⟨whole, ordered, races, sources, -⟩ := packed_in_order
  refine ⟨before, last, (whole _ last).2, ordered _ _ before last, ?_, ?_⟩
  · have runs : Race.Runs { word := .ofStamp ⟨0xFFFFFFFFFFFFFFFF, 0xFFFF⟩ }
        [(0, .load), (0, .read 0xFFFFFFFFFFFFFFFF)] _ := .cons rfl (.cons rfl (.refl _))
    exact ⟨_, runs, rfl, (races _ _ _ runs).1⟩
  · exact (sources _ _ _ _ (.single ⟨.poll, rfl⟩)).1

end WordSequencer
end Mintmark
