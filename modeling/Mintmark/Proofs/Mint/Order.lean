import Mintmark.Proofs.Identifier.Stamp
import Mintmark.Proofs.Mint.Receipt
import Mintmark.Proofs.Sequencer.Source

/-!
The order of what a mint issues. Every identifier is made of a stamp that was drawn for it, no
stamp drawn later lies before it, and the digits of an identifier are in the order of its stamp.
-/
namespace Mintmark
namespace Identifier

structure Precedes (earlier later : Identifier) : Prop where
  stamps : (compare earlier.instant later.instant).then
    (compare earlier.sequence later.sequence) = .lt
  texts : earlier.label = later.label → Text.compareBytes earlier.text later.text = .lt

theorem precedes_of_stampedBy {first second : Stamp} {node : Node} {earlier later : Identifier}
    (before : first < second) (earlierStamped : StampedBy first node earlier)
    (laterStamped : StampedBy second node later) : Precedes earlier later := by
  obtain ⟨-, earlierWithin, earlierInstant, -, earlierSequence, -⟩ := earlierStamped.parts
  obtain ⟨-, laterWithin, laterInstant, -, laterSequence, -⟩ := laterStamped.parts
  have stamps : (compare earlier.instant later.instant).then
      (compare earlier.sequence later.sequence) = .lt := by
    rw [earlierInstant, laterInstant, earlierSequence, laterSequence,
      Instant.compare_ofMillis earlierWithin laterWithin]
    exact before
  exact ⟨stamps, fun label => (earlierStamped.compare_eq laterStamped label).trans before⟩

end Identifier

namespace Mint
open Identifier Settling
variable {σ τ : Type} [Sequencer σ] [Holding σ]

/-- What every step of a mint keeps. -/
structure Ordered (mint : Mint σ τ) : Prop where
  increasing : mint.minted.Pairwise Precedes
  drawn : ∀ identifier ∈ mint.minted, ∃ stamp node, mint.node.held = some node ∧
    StampedBy stamp node identifier ∧ stamp ≤ held mint.source.sequencer

theorem Ordered.assignNode {mint : Mint σ τ} (ordered : Ordered mint) (seed : Nat) :
    Ordered (mint.assignNode seed).2 where
  increasing := ordered.increasing
  drawn identifier member := by
    obtain ⟨stamp, node, assigned, stamped, below⟩ := ordered.drawn identifier member
    have kept : (mint.assignNode seed).2.node.held = some node := by
      simp [Mint.assignNode, NodeCell.assign, assigned]
    exact ⟨stamp, node, kept, stamped, below⟩

variable [Clock τ]

theorem Ordered.advance {mint : Mint σ τ} (ordered : Ordered mint) :
    Ordered { mint with source := mint.source.next.2 } where
  increasing := ordered.increasing
  drawn identifier member := by
    obtain ⟨stamp, node, assigned, stamped, below⟩ := ordered.drawn identifier member
    exact ⟨stamp, node, assigned, stamped, Stamp.le_trans below (Source.held_le_next mint.source)⟩

theorem Ordered.mint {mint : Mint σ τ} (ordered : Ordered mint) {node : Node}
    (assigned : mint.node.held = some node) {stamp : Stamp}
    (drawn : mint.source.next.1 = .ok stamp) {identifier : Identifier}
    (stamped : StampedBy stamp node identifier) :
    Ordered (({ mint with source := mint.source.next.2 } : Mint σ τ).record (.minted identifier)) := by
  obtain ⟨above, holds, -⟩ := Source.held_next mint.source stamp drawn
  constructor
  · rw [minted_record_minted, List.pairwise_append]
    refine ⟨ordered.increasing, List.pairwise_singleton _ _, ?_⟩
    intro earlier member later last
    rw [List.mem_singleton] at last
    subst last
    obtain ⟨before, other, held, earlierStamped, below⟩ := ordered.drawn earlier member
    have same : other = node := Option.some.inj (held.symm.trans assigned)
    subst same
    exact precedes_of_stampedBy (Stamp.lt_of_le_of_lt below above) earlierStamped stamped
  · intro other member
    rw [minted_record_minted, List.mem_append, List.mem_singleton] at member
    rcases member with earlier | rfl
    · exact ordered.advance.drawn other earlier
    · exact ⟨stamp, node, assigned, stamped, holds ▸ Stamp.le_refl stamp⟩

theorem Ordered.issue {mint : Mint σ τ} (ordered : Ordered mint) (label : String) :
    Ordered (mint.issue label).2 := by
  have ends := issue_ends mint label
  generalize (mint.issue label).1 = result, (mint.issue label).2 = after at ends ⊢
  cases ends with
  | unlabelled => exact ordered
  | unassigned => exact ordered
  | fault => exact ordered.advance
  | poisoned => exact ordered.advance
  | refused => exact ordered.advance
  | minted nonempty node assigned stamp drawn identifier made =>
    exact ordered.mint assigned drawn ⟨label, made⟩

theorem Ordered.reaches {mint last : Mint σ τ} (reaches : Reaches mint last)
    (ordered : Ordered mint) : Ordered last := by
  induction reaches with
  | refl mint => exact ordered
  | issue label _ rest => exact rest (ordered.issue label)
  | register constraint _ rest => exact rest ⟨ordered.increasing, ordered.drawn⟩
  | ask member candidate _ rest =>
    apply rest
    constructor
    · rw [minted_record_asked]
      exact ordered.increasing
    · rw [minted_record_asked]
      exact ordered.drawn

theorem Ordered.run {mint : Mint σ τ} (ordered : Ordered mint)
    (requests : List Request) : Ordered (mint.run requests).2 :=
  run_keeps (fun _ seed holds => holds.assignNode seed) (fun _ _ reaches holds => holds.reaches reaches)
    requests mint ordered

/-- What is promised of the identifiers that a run of requests issues. -/
structure Orderly (requests : List Request) (minted : List Identifier) : Prop where
  increasing : minted.Pairwise fun earlier later =>
    (compare earlier.instant later.instant).then (compare earlier.sequence later.sequence) = .lt
  sequence : ∀ identifier ∈ minted, identifier.sequence ≤ 999
  node : ∀ identifier ∈ minted, ∃ seed,
    requests.findSome? Request.seed? = some seed ∧ identifier.node = .ofSeed seed
  texts : minted.Pairwise fun earlier later =>
    earlier.label = later.label → Text.compareBytes earlier.text later.text = .lt

theorem orderly_run (sequencer : σ) (clock : τ) (attempts : Nat)
    (requests : List Request) :
    Orderly requests ((fresh sequencer clock attempts).run requests).2.minted := by
  have started : Ordered (fresh sequencer clock attempts) :=
    ⟨List.Pairwise.nil, fun _ member => nomatch member⟩
  have ordered := started.run requests
  refine ⟨ordered.increasing.imp Precedes.stamps, ?_, ?_, ordered.increasing.imp Precedes.texts⟩
  · intro identifier member
    obtain ⟨stamp, node, -, stamped, -⟩ := ordered.drawn identifier member
    obtain ⟨-, -, -, -, sequence, small⟩ := stamped.parts
    rw [sequence]
    exact small
  · intro identifier member
    obtain ⟨stamp, node, assigned, stamped, -⟩ := ordered.drawn identifier member
    obtain ⟨-, -, -, same, -, -⟩ := stamped.parts
    rw [run_node] at assigned
    obtain ⟨seed, first, rfl⟩ := Option.map_eq_some_iff.1 assigned
    exact ⟨seed, first, same⟩

/-- Whatever the clock reads and whatever is asked for, from whichever stamp on, the identifiers
come in the order of their stamps, and under one label in the order of their texts. What callers
receive is among them, in that order. -/
theorem minted_orderly (last : Stamp) (clock : τ) (attempts : Nat) (requests : List Request) :
    Orderly requests
        ((fresh (GuardedSequencer.ofStamp last) clock attempts).run requests).2.minted ∧
      Orderly requests
        ((fresh (WordSequencer.ofStamp last) clock attempts).run requests).2.minted ∧
      Recorded ((fresh (GuardedSequencer.ofStamp last) clock attempts).run requests) ∧
      Recorded ((fresh (WordSequencer.ofStamp last) clock attempts).run requests) :=
  ⟨orderly_run _ clock attempts requests, orderly_run _ clock attempts requests,
    recorded_run rfl requests, recorded_run rfl requests⟩

end Mint
end Mintmark
