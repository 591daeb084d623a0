import Mathlib.Algebra.Ring.Nat
import Mathlib.Data.List.Basic
import Mintmark.Proofs.Ordering
import Mintmark.Stamp

/-!
The order of stamps, and what one reading can do to a stamp: whatever is issued lies above it, at
the later one of its own millisecond and the reading.
-/
namespace Mintmark.Stamp

def rank (stamp : Stamp) : Nat := stamp.millis.toNat * 65536 + stamp.sequence.toNat

theorem rank_parts (stamp : Stamp) :
    stamp.rank / 65536 = stamp.millis.toNat ∧ stamp.rank % 65536 = stamp.sequence.toNat := by
  have bound := stamp.sequence.toNat_lt
  unfold rank
  omega

theorem compare_rank (left right : Stamp) : compare left right = compare left.rank right.rank := by
  obtain ⟨leftMillis, leftSequence⟩ := left.rank_parts
  obtain ⟨rightMillis, rightSequence⟩ := right.rank_parts
  rw [← compare_div_mod 65536, leftMillis, leftSequence, rightMillis, rightSequence,
    ← UInt64.compare_eq_toNat_compare_toNat, ← UInt16.compare_eq_toNat_compare_toNat]
  rfl

theorem lt_iff {left right : Stamp} : left < right ↔ left.rank < right.rank := by
  rw [← Nat.compare_eq_lt, ← compare_rank]
  rfl

theorem le_iff {left right : Stamp} : left ≤ right ↔ left.rank ≤ right.rank := by
  rw [← Nat.isLE_compare, ← compare_rank]
  rfl

theorem lt_trans {first second third : Stamp} (before : first < second) (after : second < third) :
    first < third := by
  rw [lt_iff] at *
  omega

theorem le_trans {first second third : Stamp} (before : first ≤ second) (after : second ≤ third) :
    first ≤ third := by
  rw [le_iff] at *
  omega

theorem lt_of_le_of_lt {first second third : Stamp} (before : first ≤ second)
    (after : second < third) : first < third := by
  rw [lt_iff] at *
  rw [le_iff] at before
  omega

theorem lt_of_lt_of_le {first second third : Stamp} (before : first < second)
    (after : second ≤ third) : first < third := by
  rw [lt_iff] at *
  rw [le_iff] at after
  omega

theorem le_of_lt {first second : Stamp} (before : first < second) : first ≤ second :=
  le_iff.2 (Nat.le_of_lt (lt_iff.1 before))

theorem lt_irrefl (stamp : Stamp) : ¬ stamp < stamp := fun absurd => Nat.lt_irrefl _ (lt_iff.1 absurd)

theorem le_refl (stamp : Stamp) : stamp ≤ stamp := le_iff.2 (Nat.le_refl _)

theorem le_of_eq {first second : Stamp} (same : first = second) : first ≤ second :=
  same ▸ le_refl first

theorem le_of_lt_iff {first second : Stamp} {issued : Stamp → Prop}
    (grows : ∀ bound, bound < second ↔ bound < first ∨ issued bound) : first ≤ second := by
  apply le_iff.2
  apply Nat.le_of_not_lt
  intro behind
  have absurd := lt_iff.1 ((grows second).2 (.inl (lt_iff.2 behind)))
  omega

def endOf (millis : UInt64) : Stamp := ⟨millis, 0xFFFF⟩

theorem endOf_lt {millis : UInt64} {stamp : Stamp} : endOf millis < stamp ↔ millis < stamp.millis := by
  have bound := stamp.sequence.toNat_lt
  have last : (endOf millis).rank = millis.toNat * 65536 + 65535 := rfl
  rw [lt_iff, last, UInt64.lt_iff_toNat_lt, rank]
  omega

theorem successor_eq_issued_iff {last stamp : Stamp} {now : UInt64} :
    last.successor now = .issued stamp ↔
      (last.millis < now ∧ stamp = ⟨now, 0⟩) ∨
        (¬ last.millis < now ∧ last.hasRoom ∧ stamp = ⟨last.millis, last.sequence + 1⟩) := by
  by_cases later : last.millis < now
  · rw [successor_later later, Attempt.issued.injEq]
    simp only [later, true_and, not_true, false_and, or_false, eq_comm]
  · cases room : last.hasRoom with
    | true =>
      rw [successor_room later room, Attempt.issued.injEq]
      simp only [later, false_and, false_or, not_false_eq_true, true_and, eq_comm]
    | false =>
      rw [successor_full later room]
      simp only [later, false_and, Bool.false_eq_true, and_false, or_false, reduceCtorEq]

theorem successor_eq_retry_iff {last : Stamp} {now wait : UInt64} :
    last.successor now = .retry wait ↔
      ¬ last.millis < now ∧ last.hasRoom = false ∧ wait = last.millis - now + 1 := by
  by_cases later : last.millis < now
  · simp only [successor_later later, later, reduceCtorEq, not_true, false_and]
  · cases room : last.hasRoom with
    | true => simp only [successor_room later room, reduceCtorEq, Bool.true_eq_false, false_and, and_false]
    | false =>
      simp only [successor_full later room, Attempt.retry.injEq, later, not_false_eq_true, true_and,
        eq_comm]

theorem toNat_wait {held now : UInt64} (behind : ¬ held < now)
    (fits : held.toNat - now.toNat + 1 < 2 ^ 64) :
    (held - now + 1).toNat = held.toNat - now.toNat + 1 := by
  have le : now ≤ held := UInt64.not_lt.1 behind
  rw [UInt64.toNat_add, UInt64.toNat_sub_of_le _ _ le]
  simp
  omega

theorem toNat_sequence_succ {last : Stamp} (room : last.hasRoom) :
    (last.sequence + 1).toNat = last.sequence.toNat + 1 ∧ last.sequence.toNat < 999 := by
  have small : last.sequence.toNat < 999 := UInt16.lt_iff_toNat_lt.1 (of_decide_eq_true room)
  rw [UInt16.toNat_add]
  simp
  omega

theorem successor_issued {last stamp : Stamp} {now : UInt64} (issued : last.successor now = .issued stamp) :
    last < stamp ∧ stamp.sequence.toNat ≤ 999 ∧
      stamp.millis.toNat = max last.millis.toNat now.toNat := by
  rw [lt_iff, rank, rank]
  have bound := last.sequence.toNat_lt
  rcases successor_eq_issued_iff.1 issued with ⟨later, rfl⟩ | ⟨held, room, rfl⟩
  · rw [UInt64.lt_iff_toNat_lt] at later
    simp
    omega
  · rw [UInt64.lt_iff_toNat_lt] at held
    obtain ⟨next, small⟩ := toNat_sequence_succ room
    simp only [next]
    omega

end Mintmark.Stamp
