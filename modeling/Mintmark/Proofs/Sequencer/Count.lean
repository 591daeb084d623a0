import Mathlib.Data.List.Induction
import Mathlib.Data.List.Basic
import Mintmark.Proofs.Sequencer.Polling

/-!
A row of polls behind a lock, told by its readings alone. The millisecond held is the latest one so
far, and the place asked for in it is the number of polls since it was first read; places up to the
last one are given, and no other.
-/
namespace Mintmark

instance lawfulOrderMax : Std.LawfulOrderMax UInt64 where
  max_eq_or first second := by
    rw [UInt64.max_def]
    split
    · exact .inr rfl
    · exact .inl rfl
  max_le_iff first second bound := by
    rw [UInt64.max_def]
    split
    · rename_i le
      exact ⟨fun below => ⟨UInt64.le_trans le below, below⟩, And.right⟩
    · rename_i lt
      have le := UInt64.le_of_lt (UInt64.not_le.1 lt)
      exact ⟨fun below => ⟨below, UInt64.le_trans le below⟩, And.left⟩

/-- A place up to the last one is given; beyond it there is a wait. -/
def Attempt.Gives (millis : UInt64) (place : Nat) (answer : Attempt) : Prop :=
  if place ≤ 999 then answer = .issued ⟨millis, .ofNat place⟩ else ∃ wait, answer = .retry wait

namespace Stamp

/-- The latest of the millisecond held at the start and of the readings. -/
def latest (start : Stamp) (readings : List UInt64) : UInt64 := readings.foldl max start.millis

/-- The place that the last poll asks for: counted from the first reading of the latest millisecond,
or on from the start if no reading goes beyond it. -/
def place (start : Stamp) (readings : List UInt64) : Nat :=
  if start.latest readings = start.millis then start.sequence.toNat + readings.length
  else readings.length - (readings.idxOf (start.latest readings) + 1)

variable {start held : Stamp} {readings : List UInt64} {now : UInt64}

theorem latest_concat : start.latest (readings ++ [now]) = max (start.latest readings) now :=
  List.foldl_append

theorem start_le_latest : start.millis ≤ start.latest readings :=
  List.le_max_of_mem List.mem_cons_self

theorem le_latest {reading : UInt64} (member : reading ∈ readings) : reading ≤ start.latest readings :=
  List.le_max_of_mem (List.mem_cons_of_mem start.millis member)

theorem latest_mem (beyond : start.latest readings ≠ start.millis) : start.latest readings ∈ readings := by
  have member : start.latest readings ∈ start.millis :: readings :=
    List.max_mem (List.cons_ne_nil start.millis readings)
  exact (List.mem_cons.1 member).resolve_left beyond

theorem latest_of_behind (behind : ¬ start.latest readings < now) :
    start.latest (readings ++ [now]) = start.latest readings := by
  rw [latest_concat, Std.max_eq_if, if_pos (UInt64.not_lt.1 behind)]

theorem latest_of_later (later : start.latest readings < now) :
    start.latest (readings ++ [now]) = now := by
  rw [latest_concat, Std.max_eq_if, if_neg (UInt64.not_le.2 later)]

theorem place_of_later (later : start.latest readings < now) : start.place (readings ++ [now]) = 0 := by
  have beyond : now ≠ start.millis := by
    rintro rfl
    exact UInt64.not_lt.2 start_le_latest later
  have fresh : now ∉ readings := fun member => UInt64.not_lt.2 (le_latest member) later
  rw [place, latest_of_later later, if_neg beyond, List.idxOf_append_of_notMem fresh]
  simp

theorem place_of_behind (behind : ¬ start.latest readings < now) :
    start.place (readings ++ [now]) = start.place readings + 1 := by
  rw [place, place, latest_of_behind behind, List.length_append, List.length_singleton]
  split
  · rfl
  · rename_i beyond
    have member : start.latest readings ∈ readings := latest_mem beyond
    have inside := List.idxOf_lt_length_of_mem member
    rw [List.idxOf_append_of_mem member]
    omega

theorem stands_later (later : start.millis < now) (count : Nat) :
    start.latest (List.replicate (count + 1) now) = now ∧
      start.place (List.replicate (count + 1) now) = count := by
  induction count with
  | zero =>
    change start.latest ([] ++ [now]) = now ∧ start.place ([] ++ [now]) = 0
    exact ⟨latest_of_later later, place_of_later later⟩
  | succ count rest =>
    have behind : ¬ start.latest (List.replicate (count + 1) now) < now := by
      rw [rest.1]
      exact UInt64.lt_irrefl now
    rw [List.replicate_succ', latest_of_behind behind, place_of_behind behind, rest.1, rest.2]
    exact ⟨rfl, rfl⟩

theorem stands_held (behind : ¬ start.millis < now) (count : Nat) :
    start.latest (List.replicate count now) = start.millis ∧
      start.place (List.replicate count now) = start.sequence.toNat + count := by
  have latest : start.latest (List.replicate count now) = start.millis := by
    induction count with
    | zero => rfl
    | succ count rest => rw [List.replicate_succ', latest_of_behind (by rwa [rest]), rest]
  refine ⟨latest, ?_⟩
  rw [place, if_pos latest, List.length_replicate]

theorem hasRoom_iff : held.hasRoom ↔ held.sequence.toNat < 999 := by
  rw [hasRoom, decide_eq_true_iff, UInt16.lt_iff_toNat_lt]
  rfl

/-- Held at a place of a millisecond. A start beyond the last place stays there, so the place is exact
only where there is one. -/
structure At (held : Stamp) (millis : UInt64) (place : Nat) : Prop where
  millis : held.millis = millis
  room : held.hasRoom ↔ place < 999
  sequence : place ≤ 999 → held.sequence.toNat = place

theorem At.successor (stands : held.At (start.latest readings) (start.place readings)) (now : UInt64) :
    (held.successor now).Gives (start.latest (readings ++ [now])) (start.place (readings ++ [now])) ∧
      (held.keeping (held.successor now)).At (start.latest (readings ++ [now]))
        (start.place (readings ++ [now])) := by
  obtain ⟨millis, room, sequence⟩ := stands
  by_cases later : start.latest readings < now
  · rw [successor_later (millis ▸ later), latest_of_later later, place_of_later later]
    exact ⟨rfl, rfl, by simp [keeping, hasRoom_iff], fun _ => rfl⟩
  · have behind : ¬ held.millis < now := millis ▸ later
    rw [latest_of_behind later, place_of_behind later]
    cases free : held.hasRoom with
    | true =>
      have before : start.place readings < 999 := room.1 free
      have next : (held.sequence + 1).toNat = start.place readings + 1 := by
        rw [(toNat_sequence_succ free).1, sequence (by omega)]
      have given : held.sequence + 1 = .ofNat (start.place readings + 1) := by
        rw [← next, UInt16.ofNat_toNat]
      rw [successor_room behind free, Attempt.Gives, if_pos (Nat.succ_le_of_lt before), millis, given]
      refine ⟨rfl, rfl, ?_, ?_⟩
      · rw [hasRoom_iff, keeping, ← given, next]
      · intro _
        rw [keeping, ← given, next]
    | false =>
      have full : ¬ start.place readings < 999 := by simp [← room, free]
      rw [successor_full behind free, Attempt.Gives, if_neg (by omega)]
      refine ⟨⟨_, rfl⟩, millis, ?_, ?_⟩
      · simp only [keeping, free, Bool.false_eq_true, false_iff]
        omega
      · omega

theorem at_after (start : Stamp) (readings : List UInt64) :
    (start.after readings).At (start.latest readings) (start.place readings) := by
  -- From the end, because the place counts back from the last reading.
  induction readings using List.reverseRecOn with
  | nil =>
    have first : start.place [] = start.sequence.toNat := if_pos rfl
    rw [first]
    exact ⟨rfl, hasRoom_iff, fun _ => rfl⟩
  | append_singleton readings now stands =>
    rw [after_concat]
    exact (stands.successor now).2

theorem latest_le {bound : UInt64} (started : start.millis ≤ bound)
    (below : ∀ reading ∈ readings, reading ≤ bound) : start.latest readings ≤ bound := by
  by_cases beyond : start.latest readings = start.millis
  · rwa [beyond]
  · exact below _ (latest_mem beyond)

theorem latest_take {k : Nat} (taken : start.latest readings ∈ readings.take k) :
    start.latest (readings.take k) = start.latest readings := by
  apply UInt64.le_antisymm
  · apply latest_le start_le_latest
    intro reading member
    exact le_latest (List.mem_of_mem_take member)
  · exact le_latest taken

theorem place_take {later : Nat} (beyond : start.latest readings ≠ start.millis)
    (inside : readings.idxOf (start.latest readings) + later < readings.length) :
    start.latest (readings.take (readings.idxOf (start.latest readings) + later + 1)) =
        start.latest readings ∧
      start.place (readings.take (readings.idxOf (start.latest readings) + later + 1)) = later := by
  have member : start.latest readings ∈ readings := latest_mem beyond
  have taken : start.latest readings ∈
      readings.take (readings.idxOf (start.latest readings) + later + 1) := by
    rw [List.mem_take_iff_idxOf_lt member]
    omega
  have same := latest_take taken
  refine ⟨same, ?_⟩
  rw [place, same, if_neg beyond,
    (List.take_prefix _ readings).idxOf_eq_of_mem taken, List.length_take]
  omega

theorem successor_exact {held stamp : Stamp} {now : UInt64}
    (issued : held.successor now = .issued stamp) : stamp = ⟨now, 0⟩ ∨
      stamp.millis = held.millis ∧ stamp.sequence.toNat = held.sequence.toNat + 1 := by
  rcases successor_eq_issued_iff.1 issued with ⟨-, rfl⟩ | ⟨-, room, rfl⟩
  · exact .inl rfl
  · exact .inr ⟨rfl, (toNat_sequence_succ room).1⟩

theorem successor_behind {held : Stamp} {now other : UInt64} (behind : now ≤ held.millis)
    (also : other ≤ held.millis) :
    held.keeping (held.successor other) = held.keeping (held.successor now) ∧
      (held.successor now = held.successor other ∨
        ∃ wait longer, held.successor now = .retry wait ∧ held.successor other = .retry longer) := by
  cases room : held.hasRoom with
  | true =>
    rw [successor_room (UInt64.not_lt.2 behind) room, successor_room (UInt64.not_lt.2 also) room]
    exact ⟨rfl, .inl rfl⟩
  | false =>
    rw [successor_full (UInt64.not_lt.2 behind) room, successor_full (UInt64.not_lt.2 also) room]
    exact ⟨rfl, .inr ⟨_, _, rfl, rfl⟩⟩

end Stamp

namespace Source
open Stamp
variable {start : Stamp} {readings : List UInt64}

theorem last_afterEach (start : Stamp) (readings : List UInt64) :
    (afterEach (GuardedSequencer.ofStamp start) readings).last = start.after readings :=
  congrArg GuardedSequencer.last (afterEach_ofStamp readings start)

theorem getElem?_pollEach {k : Nat} {now : UInt64} (read : readings[k]? = some now) :
    (pollEach (GuardedSequencer.ofStamp start) readings)[k]? =
      some (.ok ((start.after (readings.take k)).successor now)) := by
  rw [pollEach_ofStamp, List.getElem?_map, getElem?_answers, read]
  rfl

theorem pollEach_gives {k : Nat} (inside : k < readings.length) :
    ∃ answer, (pollEach (GuardedSequencer.ofStamp start) readings)[k]? = some (.ok answer) ∧
      answer.Gives (start.latest (readings.take (k + 1))) (start.place (readings.take (k + 1))) := by
  have read : readings[k]? = some readings[k] := List.getElem?_eq_getElem inside
  refine ⟨_, getElem?_pollEach read, ?_⟩
  rw [List.take_succ_eq_append_getElem inside]
  exact ((start.at_after (readings.take k)).successor readings[k]).1

theorem gives_reached (beyond : start.latest readings ≠ start.millis) {k : Nat}
    (inside : readings.idxOf (start.latest readings) + k < readings.length) :
    ∃ answer, (pollEach (GuardedSequencer.ofStamp start) readings)[
        readings.idxOf (start.latest readings) + k]? = some (.ok answer) ∧
      answer.Gives (start.latest readings) k := by
  obtain ⟨answer, polled, gives⟩ := pollEach_gives inside
  obtain ⟨latest, place⟩ := place_take beyond inside
  rw [latest, place] at gives
  exact ⟨answer, polled, gives⟩

theorem gives_stayed (stays : start.latest readings = start.millis) {k : Nat}
    (inside : k < readings.length) :
    ∃ answer, (pollEach (GuardedSequencer.ofStamp start) readings)[k]? = some (.ok answer) ∧
      answer.Gives start.millis (start.sequence.toNat + (k + 1)) := by
  obtain ⟨answer, polled, gives⟩ := pollEach_gives inside
  have same : start.latest (readings.take (k + 1)) = start.millis := by
    apply UInt64.le_antisymm _ start_le_latest
    apply latest_le (UInt64.le_refl _)
    intro reading member
    rw [← stays]
    exact le_latest (List.mem_of_mem_take member)
  have length : (readings.take (k + 1)).length = k + 1 := List.length_take_of_le inside
  rw [place, if_pos same, same, length] at gives
  exact ⟨answer, polled, gives⟩

/-- One poll at each reading from a stamp on, told by the readings. -/
structure Counts (start : Stamp) (readings : List UInt64) : Prop where
  held : (afterEach (GuardedSequencer.ofStamp start) readings).last.millis = start.latest readings
  /-- Places are counted from the first poll that reads the latest millisecond, -/
  reached : start.millis < start.latest readings → ∃ first,
    readings[first]? = some (start.latest readings) ∧
      (∀ earlier < first, readings[earlier]? ≠ some (start.latest readings)) ∧
      ∀ k, first + k < readings.length →
        ∃ answer, (pollEach (GuardedSequencer.ofStamp start) readings)[first + k]? =
          some (.ok answer) ∧ answer.Gives (start.latest readings) k
  /-- or on from the start, if no poll reads a later one. -/
  stayed : start.latest readings = start.millis → ∀ k < readings.length,
    ∃ answer, (pollEach (GuardedSequencer.ofStamp start) readings)[k]? = some (.ok answer) ∧
      answer.Gives start.millis (start.sequence.toNat + (k + 1))
  gapless : ∀ k now stamp, readings[k]? = some now →
    (pollEach (GuardedSequencer.ofStamp start) readings)[k]? = some (.ok (.issued stamp)) →
      let held := (afterEach (GuardedSequencer.ofStamp start) (readings.take k)).last
      stamp = ⟨now, 0⟩ ∨
        stamp.millis = held.millis ∧ stamp.sequence.toNat = held.sequence.toNat + 1
  /-- Two readings that are not beyond what is held differ in the wait of their own poll alone. -/
  behind : ∀ before now other later,
    now ≤ (afterEach (GuardedSequencer.ofStamp start) before).last.millis →
      other ≤ (afterEach (GuardedSequencer.ofStamp start) before).last.millis →
        readings = before ++ now :: later →
          afterEach (GuardedSequencer.ofStamp start) (before ++ other :: later) =
              afterEach (.ofStamp start) readings ∧
            ∃ first second rest,
              pollEach (GuardedSequencer.ofStamp start) readings =
                pollEach (GuardedSequencer.ofStamp start) before ++ .ok first :: rest ∧
              pollEach (GuardedSequencer.ofStamp start) (before ++ other :: later) =
                pollEach (GuardedSequencer.ofStamp start) before ++ .ok second :: rest ∧
              (first = second ∨ ∃ wait longer, first = .retry wait ∧ second = .retry longer)

theorem polls_counted (start : Stamp) (readings : List UInt64) : Counts start readings where
  held := by
    rw [last_afterEach]
    exact (start.at_after readings).millis
  reached later := by
    have beyond : start.latest readings ≠ start.millis := by
      intro same
      rw [same] at later
      exact UInt64.lt_irrefl _ later
    have member := latest_mem beyond
    refine ⟨readings.idxOf (start.latest readings), ?_, ?_, fun k => gives_reached beyond⟩
    · rw [List.getElem?_eq_getElem (List.idxOf_lt_length_of_mem member), List.getElem_idxOf]
    · intro earlier before read
      have taken : start.latest readings ∈ readings.take (earlier + 1) := by
        apply List.mem_of_getElem?
        rw [List.getElem?_take_of_lt (Nat.lt_succ_self earlier)]
        exact read
      rw [List.mem_take_iff_idxOf_lt member] at taken
      omega
  stayed stays k := gives_stayed stays
  gapless k now stamp read polled := by
    rw [getElem?_pollEach read, Option.some.injEq, Except.ok.injEq] at polled
    rw [last_afterEach]
    exact successor_exact polled
  behind before now other later behind also split := by
    rw [last_afterEach] at behind also
    obtain ⟨kept, answers⟩ := successor_behind behind also
    simp only [split, afterEach_ofStamp, pollEach_ofStamp, after_append, answers_append,
      List.map_append]
    have rest : (start.after before).after (other :: later) =
        (start.after before).after (now :: later) := congrArg (Stamp.after · later) kept
    refine ⟨congrArg GuardedSequencer.ofStamp rest, _, _, _, rfl, ?_, answers⟩
    simp only [Stamp.answers, kept, List.map_cons]

end Source
end Mintmark
