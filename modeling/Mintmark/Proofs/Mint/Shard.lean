import Mathlib.Logic.ExistsUnique
import Mintmark.Proofs.Identifier.RoundTrip
import Mintmark.Proofs.Mint.Issue
import Mintmark.Sequencer.Guarded
import Mintmark.Sequencer.Word

/-!
Shards of a division. Every identifier falls into one of them, and what a selection returns falls
into the shard that it goes by, whatever else it goes by and whatever the mint has done before.
-/
namespace Mintmark

namespace Shard

theorem new?_eq_some_iff {partition : Nat} {division : Division} {key : Identifier → String}
    {shard : Shard} : new? partition division key = some shard ↔
      shard.partition = partition ∧ shard.division = division ∧ shard.key = key := by
  unfold new?
  constructor
  · intro made
    split at made
    · cases made
      exact ⟨rfl, rfl, rfl⟩
    · cases made
  · rintro ⟨rfl, rfl, rfl⟩
    rw [dif_pos shard.inside]

theorem accepts_iff {partition : Nat} {division : Division} {key : Identifier → String}
    {shard : Shard} (made : new? partition division key = some shard) (identifier : Identifier) :
    shard.accepts identifier ↔ division.partition (key identifier) = partition := by
  obtain ⟨rfl, rfl, rfl⟩ := new?_eq_some_iff.1 made
  exact decide_eq_true_iff

theorem existsUnique_accepts (division : Division) (key : Identifier → String)
    (identifier : Identifier) : ∃! partition, partition < division.partitions ∧
      ∃ shard, new? partition division key = some shard ∧ shard.accepts identifier := by
  refine ⟨division.partition (key identifier), ⟨division.partition_lt _, ?_⟩, ?_⟩
  · exact ⟨⟨_, division, division.partition_lt _, key⟩, new?_eq_some_iff.2 ⟨rfl, rfl, rfl⟩,
      decide_eq_true rfl⟩
  · rintro partition ⟨-, shard, made, accepted⟩
    exact ((accepts_iff made identifier).1 accepted).symm

/-- The hash is the least number of 32 bits, and its absolute value is not one of them. -/
example : (⟨3, by decide⟩ : Division).partition "polygenelubricants" = 2 := by
  with_unfolding_all rfl

end Shard

namespace Mint
variable {σ τ : Type}

theorem exists_numbered {constraint : Constraint} {constraints : List Constraint}
    (member : constraint ∈ constraints) (numbering : Nat → Member) :
    ∃ who, (who, constraint) ∈ numbered numbering constraints := by
  obtain ⟨index, found⟩ := List.mem_iff_getElem?.1 member
  refine ⟨numbering index, List.mem_map.2 ⟨(constraint, index), ?_, rfl⟩⟩
  exact List.mem_zipIdx_iff_getElem?.2 found

/-- A selection goes by the constraints that are given with it, and by those registered if they
apply. -/
def GoesBy (mint : Mint σ τ) (given : List Constraint) (applyRegistered : Bool)
    (constraint : Constraint) : Prop :=
  constraint ∈ given ∨ (applyRegistered = true ∧ constraint ∈ mint.registered)

theorem GoesBy.exists_member {mint : Mint σ τ} {given : List Constraint} {applyRegistered : Bool}
    {constraint : Constraint} (goes : mint.GoesBy given applyRegistered constraint) :
    ∃ who, (who, constraint) ∈ mint.members given applyRegistered := by
  rcases goes with member | ⟨applies, member⟩
  · obtain ⟨who, seated⟩ := exists_numbered member .given
    exact ⟨who, List.mem_append_right _ seated⟩
  · obtain ⟨who, seated⟩ := exists_numbered member .registered
    refine ⟨who, List.mem_append_left _ ?_⟩
    rw [if_pos applies]
    exact seated

variable [Sequencer σ] [Clock τ]

theorem accepts_of_acceptedByAll {candidate : Identifier} {who : Member}
    {accepts : Identifier → Bool} {members : List (Member × Constraint)}
    (seated : (who, .ofPredicate accepts) ∈ members) : ∀ mint : Mint σ τ,
    (acceptedByAll candidate members mint).1 = .ok true → accepts candidate = true := by
  induction members with
  | nil => cases seated
  | cons member members rest =>
    intro mint all
    rw [acceptedByAll] at all
    split at all
    · rename_i after accepted
      rcases List.mem_cons.1 seated with rfl | later
      · have answer : (mint.ask candidate (who, .ofPredicate accepts)).1 = .ok (accepts candidate) := rfl
        rw [accepted] at answer
        exact (Except.ok.inj answer).symm
      · exact rest later after all
    · rename_i result after rejected asked
      exact absurd all rejected

theorem attempt_selected {label : String} {members : List (Member × Constraint)} {attempts : Nat}
    {identifier : Identifier} : ∀ mint : Mint σ τ,
    (attempt label members attempts mint).1 = .ok (.ok (some identifier)) →
      identifier.Canonical ∧ ∀ who accepts, (who, .ofPredicate accepts) ∈ members →
        accepts identifier = true := by
  induction attempts with
  | zero =>
    intro mint selected
    cases selected
  | succ attempts rest =>
    intro mint selected
    rw [attempt] at selected
    split at selected
    · cases selected
    · cases selected
    · rename_i candidate drawn issued
      split at selected
      · cases selected
      · rename_i after asked
        cases selected
        obtain ⟨stamp, node, -, -, made, -⟩ := made_of_issue issued
        refine ⟨Identifier.canonical_of_ofParts made, ?_⟩
        intro who accepts seated
        exact accepts_of_acceptedByAll seated drawn (congrArg Prod.fst asked)
      · rename_i after asked
        exact rest after selected

end Mint

/-- An identifier that some mint, in whatever state, selected by the shard of a partition. -/
inductive SelectedFor (division : Division) (key : Identifier → String) (partition : Nat)
    (identifier : Identifier) : Prop
  | intro {σ τ : Type} [Sequencer σ] [Clock τ] (mint : Mint σ τ) (label : String)
    (given : List Constraint) (applyRegistered : Bool) (shard : Shard)
    (made : Shard.new? partition division key = some shard)
    (goes : mint.GoesBy given applyRegistered shard.toConstraint)
    (selected : (mint.select label given applyRegistered).1 = .ok (.ok (some identifier))) :
    SelectedFor division key partition identifier

namespace SelectedFor
variable {division : Division} {key : Identifier → String} {partition : Nat} {identifier : Identifier}

theorem inside (selected : SelectedFor division key partition identifier) :
    identifier.Canonical ∧ division.partition (key identifier) = partition := by
  obtain ⟨mint, label, given, applyRegistered, shard, made, goes, selected⟩ := selected
  obtain ⟨who, seated⟩ := goes.exists_member
  obtain ⟨canonical, accepted⟩ := Mint.attempt_selected mint selected
  exact ⟨canonical, (Shard.accepts_iff made identifier).1 (accepted who _ seated)⟩

/-- Every identifier belongs to one partition, selections return identifiers of the partition that
they go by, and selections for different partitions never return the same text. -/
theorem selected_for_partitions (division : Division) (key : Identifier → String) :
    (∀ identifier, ∃! partition, partition < division.partitions ∧
      ∃ shard, Shard.new? partition division key = some shard ∧ shard.accepts identifier) ∧
    (∀ partition identifier, SelectedFor division key partition identifier →
      division.partition (key identifier) = partition) ∧
    ∀ first second left right, first ≠ second → SelectedFor division key first left →
      SelectedFor division key second right → left ≠ right ∧ left.text ≠ right.text := by
  refine ⟨Shard.existsUnique_accepts division key, fun _ _ selected => selected.inside.2, ?_⟩
  intro first second left right different leftSelected rightSelected
  obtain ⟨leftCanonical, leftInside⟩ := leftSelected.inside
  obtain ⟨rightCanonical, rightInside⟩ := rightSelected.inside
  have distinct : left ≠ right := by
    rintro rfl
    exact different (leftInside.symm.trans rightInside)
  exact ⟨distinct, fun texts => distinct (leftCanonical.eq_of_text rightCanonical texts)⟩

def halves : Division := ⟨2, by decide⟩

def even : Shard := ⟨0, halves, by decide, Identifier.text⟩

def odd : Shard := ⟨1, halves, by decide, Identifier.text⟩

theorem selected_for_partitions_halves : ∃ left right,
    SelectedFor halves Identifier.text 0 left ∧ SelectedFor halves Identifier.text 1 right ∧
      left ≠ right ∧ left.text ≠ right.text := by
  have evenSelected : SelectedFor halves Identifier.text 0
      ⟨"A2011250959030640007001", 1, .ofMillis 1606298343064, .ofSeed 7, 1⟩ := by
    refine .intro
      ((Mint.fresh ({} : GuardedSequencer) (List.replicate 2 (Moment.reading 1606298343064))
        5).assignNode 7).2
      "A" [even.toConstraint] false even rfl (.inl (List.mem_singleton_self _)) ?_
    with_unfolding_all rfl
  have oddSelected : SelectedFor halves Identifier.text 1
      ⟨"A2011250959030640007000", 1, .ofMillis 1606298343064, .ofSeed 7, 0⟩ := by
    refine .intro
      (((Mint.fresh ({} : WordSequencer) (List.replicate 2 (Moment.reading 1606298343064))
        5).assignNode 7).2.register odd.toConstraint)
      "A" [] true odd rfl (.inr ⟨rfl, List.mem_singleton_self _⟩) ?_
    with_unfolding_all rfl
  exact ⟨_, _, evenSelected, oddSelected,
    (selected_for_partitions halves Identifier.text).2.2 0 1 _ _ (by decide) evenSelected oddSelected⟩

end SelectedFor
end Mintmark
