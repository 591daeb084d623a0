import Mintmark.Proofs.Identifier.Stamp
import Mintmark.Proofs.Mint.Selection
import Mintmark.Proofs.Mint.Shard
import Mintmark.Proofs.Partition
import Mintmark.Proofs.Sequencer.Count

/-!
Selections while the clock stands still. A mint that has issued nothing of the millisecond yet goes
through its places in order, and that is far enough for every partition, if there are not too many.
-/
namespace Mintmark

/-- The clock shows the same reading so many times. -/
def Clock.Stands {τ : Type} [Clock τ] (now : UInt64) : Nat → τ → Prop
  | 0, _ => True
  | readings + 1, clock => ∃ rest, Shows clock now rest ∧ Stands now readings rest

theorem Clock.stands_replicate (now : UInt64) (readings : Nat) :
    Stands now readings (List.replicate readings (Moment.reading now)) := by
  induction readings with
  | zero => exact trivial
  | succ readings rest => exact ⟨_, rfl, rest⟩

theorem Stamp.toNat_place {place : Nat} (small : place ≤ 999) : (UInt16.ofNat place).toNat = place :=
  UInt16.toNat_ofNat_of_lt' (Nat.lt_of_le_of_lt small (by decide))

theorem Stamp.successor_place {millis : UInt64} {place : Nat} (small : place < 999) :
    (⟨millis, .ofNat place⟩ : Stamp).successor millis = .issued ⟨millis, .ofNat (place + 1)⟩ := by
  have room : (⟨millis, .ofNat place⟩ : Stamp).hasRoom := by
    rw [hasRoom_iff, toNat_place (Nat.le_of_lt small)]
    exact small
  rw [successor_room (UInt64.lt_irrefl millis) room, UInt16.ofNat_add]
  rfl

namespace Identifier

def At (label : String) (node : Node) (millis : UInt64) (place : Nat) (identifier : Identifier) : Prop :=
  ofParts label (.ofMillis millis) node (.ofNat place) = .ok identifier

variable {label : String} {millis : UInt64}

theorem exists_at (nonempty : label ≠ "") (begun : Instant.firstPrintable ≤ millis)
    (open_ : millis ≤ Instant.lastPrintable) (node : Node) {place : Nat} (small : place ≤ 999) :
    ∃ identifier, At label node millis place identifier := by
  have fits : UInt16.ofNat place ≤ Stamp.maxSequence := by
    rw [UInt16.le_iff_toNat_le, Stamp.toNat_place small]
    exact small
  have printable : Stamp.Printable ⟨millis, .ofNat place⟩ := ⟨begun, open_, fits⟩
  exact printable.exists_ofParts nonempty node

/-- Of the identifiers that a node writes in one millisecond, some falls into each partition. -/
theorem exists_at_partition (nonempty : label ≠ "") (begun : Instant.firstPrintable ≤ millis)
    (open_ : millis ≤ Instant.lastPrintable) (node : Node) {division : Division}
    (few : division.partitions ≤ 29) {partition : Nat} (inside : partition < division.partitions) :
    ∃ place ≤ 999, ∃ identifier, At label node millis place identifier ∧
      division.partition identifier.text = partition := by
  obtain ⟨base, hashes⟩ := Suffix.exists_base label (.ofMillis millis) node
  obtain ⟨place, small, falls⟩ := Suffix.exists_inside base few inside
  obtain ⟨identifier, made⟩ := exists_at nonempty begun open_ node small
  obtain ⟨printable, written⟩ := ofParts_eq_ok_iff.1 made
  have hash := hashes _ printable.sequence
  rw [Stamp.toNat_place small] at hash
  refine ⟨place, small, identifier, made, ?_⟩
  rw [written, Division.partition, Identifier.written, hash, falls]

end Identifier

namespace Mint
open Settling
variable {σ τ : Type} [Sequencer σ] [Clock τ]

theorem Search.found {outcome : Nat → Issuing} {accepts : Identifier → Bool} {limit calls last : Nat}
    {result : Selecting} (search : Search outcome accepts limit result calls) (reached : last < limit)
    (issues : ∀ call ≤ last, ∃ candidate, outcome call = .ok (.ok candidate))
    (accepted : verdict accepts (outcome last) ≠ none) :
    ∃ call ≤ last, ∃ candidate, outcome call = .ok (.ok candidate) ∧ accepts candidate = true ∧
      result = .ok (.ok (some candidate)) := by
  cases search with
  | @stopped call _ inside before ends =>
    have early : call ≤ last := Nat.le_of_not_lt fun later => accepted (before last later)
    obtain ⟨candidate, issued⟩ := issues call early
    rw [issued, verdict] at ends
    split at ends
    · rename_i suits
      cases ends
      exact ⟨call, early, candidate, issued, suits, rfl⟩
    · cases ends
  | exhausted all => exact absurd (all last reached) accepted

theorem exists_search {mint : Mint σ τ} {applyRegistered : Bool}
    (alone : applyRegistered = true → mint.registered = []) {partition : Nat} {division : Division}
    {shard : Shard} (made : Shard.new? partition division = some shard) (label : String) :
    ∃ calls, Search (mint.outcome label)
      (fun candidate => division.partition candidate.text = partition) mint.attemptLimit
      (mint.select label [shard.toConstraint] applyRegistered).1 calls := by
  have accepts : (panelOf [] [shard.accepts]).accepts =
      fun candidate => decide (division.partition candidate.text = partition) := by
    funext candidate
    rw [accepts_panelOf, List.nil_append, List.all_cons, List.all_nil, Bool.and_true,
      Bool.eq_iff_iff, Shard.accepts_iff made, decide_eq_true_iff]
  have members : mint.members ([shard.accepts].map .ofPredicate) applyRegistered =
      (panelOf (if applyRegistered then [] else []) [shard.accepts]).members :=
    members_eq_panelOf [shard.accepts] alone
  rw [ite_self] at members
  obtain ⟨calls, search, -⟩ := attempt_search (distinct_panelOf [] [shard.accepts]) label
    mint.attemptLimit mint
  rw [accepts, ← members] at search
  exact ⟨calls, search⟩

section Offering
variable [Settling σ]

/-- The mint is given this place of the millisecond next, and its clock stands still until the last. -/
structure Offering (mint : Mint σ τ) (node : Node) (millis : UInt64) (place : Nat) : Prop where
  node : mint.node.held = some node
  sound : Sequencer.poisoned mint.source.sequencer = false
  next : (held mint.source.sequencer).successor millis = .issued ⟨millis, .ofNat place⟩
  stands : Clock.Stands millis (1000 - place) mint.source.clock

variable [Answering σ] [Undisturbed σ] {mint : Mint σ τ} {node : Node} {millis : UInt64} {label : String}

theorem Offering.issue {place : Nat} (offering : mint.Offering node millis place)
    (small : place ≤ 999) (nonempty : label ≠ "") (begun : Instant.firstPrintable ≤ millis)
    (open_ : millis ≤ Instant.lastPrintable) :
    ∃ identifier, (mint.issue label).1 = .ok (.ok identifier) ∧
      Identifier.At label node millis place identifier ∧
      (place < 999 → (mint.issue label).2.Offering node millis (place + 1)) := by
  obtain ⟨assigned, sound, next, stands⟩ := offering
  have left : 1000 - place = 1000 - (place + 1) + 1 := by omega
  rw [left] at stands
  obtain ⟨rest, shows, stands⟩ := stands
  have same : seen σ millis = millis := seen_of_le (UInt64.le_trans open_ (by decide))
  have answer : (Sequencer.settle mint.source.sequencer mint.source.sequencer millis).1 =
      .issued ⟨millis, .ofNat place⟩ := by
    rw [Answering.answer_settle, same, next]
  have keeps : held (Sequencer.settle mint.source.sequencer mint.source.sequencer millis).2 =
      ⟨millis, .ofNat place⟩ := by
    rw [held_settle, same, next]
    rfl
  have polled := Source.poll_shows sound shows
  rw [answer] at polled
  obtain ⟨identifier, made⟩ := Identifier.exists_at nonempty begun open_ node small
  rw [issue_of_drawn nonempty assigned (Source.next_of_issued polled) made]
  refine ⟨identifier, rfl, made, fun more => ⟨assigned, sound_settle sound millis, ?_, stands⟩⟩
  exact (congrArg (Stamp.successor · millis) keeps).trans (Stamp.successor_place more)

theorem Offering.afterCalls (offering : mint.Offering node millis 0) (nonempty : label ≠ "")
    (begun : Instant.firstPrintable ≤ millis) (open_ : millis ≤ Instant.lastPrintable) {call : Nat}
    (small : call ≤ 999) : (mint.afterCalls label call).Offering node millis call := by
  induction call with
  | zero => exact offering
  | succ call rest =>
    rw [afterCalls_succ]
    obtain ⟨_, _, _, later⟩ := (rest (by omega)).issue (by omega) nonempty begun open_
    exact later small

theorem Offering.outcome (offering : mint.Offering node millis 0) (nonempty : label ≠ "")
    (begun : Instant.firstPrintable ≤ millis) (open_ : millis ≤ Instant.lastPrintable) {call : Nat}
    (small : call ≤ 999) : ∃ identifier, mint.outcome label call = .ok (.ok identifier) ∧
      Identifier.At label node millis call identifier := by
  obtain ⟨identifier, issued, written, -⟩ :=
    (offering.afterCalls nonempty begun open_ small).issue small nonempty begun open_
  exact ⟨identifier, issued, written⟩

end Offering

/-- A mint with a node that has issued nothing of this millisecond, nor of a later one. Its clock
stands there for as many attempts as a mint makes that is not told otherwise. -/
structure Behind [Settling σ] (mint : Mint σ τ) (node : Node) (millis : UInt64) : Prop where
  node : mint.node.held = some node
  sound : Sequencer.poisoned mint.source.sequencer = false
  behind : (held mint.source.sequencer).millis < millis
  stands : Clock.Stands millis defaultAttemptLimit mint.source.clock
  limit : defaultAttemptLimit ≤ mint.attemptLimit

/-- Whatever shard of a small division a selection goes by, it returns an identifier of the
millisecond that falls into it. -/
def ServesShards (mint : Mint σ τ) (node : Node) (millis : UInt64) : Prop :=
  ∀ label : String, label ≠ "" → ∀ division : Division, division.partitions ≤ 29 →
    ∀ partition < division.partitions, ∀ applyRegistered : Bool,
      (applyRegistered = true → mint.registered = []) →
        ∃ shard, Shard.new? partition division = some shard ∧ ∃ place ≤ 999, ∃ identifier,
          (mint.select label [shard.toConstraint] applyRegistered).1 = .ok (.ok (some identifier)) ∧
            Identifier.At label node millis place identifier ∧
            division.partition identifier.text = partition

section Behind
variable [Settling σ] {mint : Mint σ τ} {node : Node} {millis : UInt64}

theorem Behind.offering (ready : mint.Behind node millis) : mint.Offering node millis 0 :=
  ⟨ready.node, ready.sound, Stamp.successor_later ready.behind, ready.stands⟩

variable [Answering σ] [Undisturbed σ]

theorem Behind.servesShards (ready : mint.Behind node millis)
    (begun : Instant.firstPrintable ≤ millis) (open_ : millis ≤ Instant.lastPrintable) :
    mint.ServesShards node millis := by
  intro label nonempty division few partition inside applyRegistered alone
  obtain ⟨shard, made⟩ : ∃ shard, Shard.new? partition division = some shard :=
    ⟨⟨partition, division, inside, Identifier.text⟩, Shard.new?_eq_some_iff.2 ⟨rfl, rfl, rfl⟩⟩
  have writes {call : Nat} (small : call ≤ 999) := ready.offering.outcome nonempty begun open_ small
  obtain ⟨calls, search⟩ := exists_search alone made label
  obtain ⟨last, small, suited, written, falls⟩ :=
    Identifier.exists_at_partition nonempty begun open_ node few inside
  have reached : last < mint.attemptLimit := Nat.lt_of_lt_of_le (Nat.lt_succ_of_le small) ready.limit
  have issues (call : Nat) (early : call ≤ last) :=
    (writes (Nat.le_trans early small)).imp fun _ => And.left
  have accepted : verdict (fun candidate => division.partition candidate.text = partition)
      (mint.outcome label last) ≠ none := by
    obtain ⟨other, issued, also⟩ := writes small
    cases also.symm.trans written
    rw [issued, verdict, if_pos (decide_eq_true falls)]
    exact Option.some_ne_none _
  obtain ⟨place, early, identifier, issued, suits, selected⟩ := search.found reached issues accepted
  have inside := Nat.le_trans early small
  obtain ⟨other, also, written⟩ := writes inside
  cases also.symm.trans issued
  exact ⟨shard, made, place, inside, identifier, selected, written, of_decide_eq_true suits⟩

end Behind

/-- One millisecond is enough for every shard of a division into at most twenty-nine. -/
theorem shards_served (τ : Type) [Clock τ] (node : Node) (millis : UInt64)
    (begun : Instant.firstPrintable ≤ millis) (open_ : millis ≤ Instant.lastPrintable) :
    (∀ mint : Mint GuardedSequencer τ, mint.Behind node millis → mint.ServesShards node millis) ∧
      ∀ mint : Mint WordSequencer τ, mint.Behind node millis → mint.ServesShards node millis :=
  ⟨fun _ ready => ready.servesShards begun open_, fun _ ready => ready.servesShards begun open_⟩

def twentyNine : Division := ⟨29, by decide⟩

theorem shards_served_twentyNine :
    let node : Node := .ofSeed 7
    let mint := ((fresh ({} : WordSequencer)
      (List.replicate defaultAttemptLimit (Moment.reading 1606298343064)) 1000).assignNode 7).2
    mint.Behind node 1606298343064 ∧ ∃ shard, Shard.new? 28 twentyNine = some shard ∧
      ∃ place ≤ 999, ∃ identifier,
        (mint.select "A" [shard.toConstraint] true).1 = .ok (.ok (some identifier)) ∧
          Identifier.At "A" node 1606298343064 place identifier ∧
          twentyNine.partition identifier.text = 28 := by
  intro node mint
  have behind : mint.Behind node 1606298343064 :=
    ⟨rfl, rfl, by decide, Clock.stands_replicate _ _, Nat.le_refl _⟩
  exact ⟨behind, (shards_served _ node 1606298343064 (by decide) (by decide)).2 mint behind
    "A" (by decide) twentyNine (by decide) 28 (by decide) true fun _ => rfl⟩

end Mint
end Mintmark
