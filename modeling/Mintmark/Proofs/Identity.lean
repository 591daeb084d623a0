import Mintmark.Proofs.Mint.Shard

/-!
When two identifiers are the same. Everything about an identifier can be read off its text, however
it was come by, so equality of all fields, the order, and equality of texts tell the same identifiers
apart.
-/
namespace Mintmark

namespace Text

theorem bytes_inj {left right : String} : bytes left = bytes right ↔ left = right := by
  have encoded (text : String) : text.toByteArray = (bytes text).toByteArray := by
    rw [← String.ofList_toList (s := text), String.toByteArray_ofList, List.utf8Encode,
      String.ofList_toList]
    rfl
  rw [← List.toByteArray_inj, ← encoded, ← encoded, String.toByteArray_inj]

end Text

theorem mem_treeSet_iff {α : Type} [Ord α] [Std.TransOrd α] {items : List α} {sought : α} :
    sought ∈ Std.TreeSet.ofList items compare ↔ ∃ item ∈ items, compare sought item = .eq := by
  let _ : BEq α := beqOfOrd
  have same {left right : α} : compare left right = .eq ↔ (left == right) = true :=
    Ordering.isEq_iff_eq_eq.symm
  have : Std.LawfulBEqCmp (compare : α → α → Ordering) := ⟨same⟩
  rw [Std.TreeSet.mem_ofList, List.contains_iff_exists_mem_beq]
  simp only [same]

namespace Identifier

instance : Std.TransOrd Identifier :=
  have bytes : Std.TransOrd (List UInt8) := inferInstance
  { eq_swap := bytes.eq_swap
    isLE_trans := bytes.isLE_trans }

theorem compare_eq_iff {left right : Identifier} :
    compare left right = .eq ↔ left.text = right.text := by
  have texts : compare left right = compare (Text.bytes left.text) (Text.bytes right.text) := rfl
  rw [texts, Std.LawfulEqCmp.compare_eq_iff_eq, Text.bytes_inj]

/-- Written from parts, read off a text, or handed out by a mint of any kind in any state. -/
inductive Obtained : Identifier → Prop
  | written {label : String} {instant : Instant} {node : Node} {sequence : UInt16}
    {identifier : Identifier} (made : ofParts label instant node sequence = .ok identifier) :
    Obtained identifier
  | read {text : String} {identifier : Identifier} (read : ofText text = .ok identifier) :
    Obtained identifier
  | issued {σ τ : Type} [Sequencer σ] [Clock τ] (mint : Mint σ τ) (label : String)
    {identifier : Identifier} (issued : (mint.issue label).1 = .ok (.ok identifier)) :
    Obtained identifier
  | selected {σ τ : Type} [Sequencer σ] [Clock τ] (mint : Mint σ τ) (label : String)
    (given : List Constraint) (applyRegistered : Bool) {identifier : Identifier}
    (selected : (mint.select label given applyRegistered).1 = .ok (.ok (some identifier))) :
    Obtained identifier

theorem Obtained.canonical {identifier : Identifier} (obtained : Obtained identifier) :
    identifier.Canonical := by
  cases obtained with
  | written made => exact canonical_of_ofParts made
  | read read => exact canonical_of_ofText read
  | issued mint label issued =>
    obtain ⟨stamp, node, -, -, made, -⟩ := Mint.made_of_issue (Prod.ext issued rfl)
    exact canonical_of_ofParts made
  | selected mint label given applyRegistered selected =>
    exact (Mint.attempt_selected mint selected).1

theorem Obtained.eq_iff {left right : Identifier} (leftObtained : Obtained left)
    (rightObtained : Obtained right) : left = right ↔ left.text = right.text :=
  ⟨congrArg text, leftObtained.canonical.eq_of_text rightObtained.canonical⟩

/-- Neither the order nor a text can tell apart what was not obtained. -/
example : compare (⟨"A2011250959030640007001", 1, ⟨0, 0⟩, .ofSeed 7, 1⟩ : Identifier)
    ⟨"A2011250959030640007001", 2, ⟨0, 1⟩, .ofSeed 8, 2⟩ = .eq := by decide

theorem Obtained.mem_iff {identifiers : List Identifier}
    (all : ∀ identifier ∈ identifiers, Obtained identifier) {sought : Identifier}
    (obtained : Obtained sought) : sought ∈ identifiers ↔ sought.text ∈ identifiers.map text := by
  rw [List.mem_map]
  constructor
  · intro member
    exact ⟨sought, member, rfl⟩
  · rintro ⟨identifier, member, same⟩
    rwa [← ((all identifier member).eq_iff obtained).2 same]

/-- Identifiers are what their texts read as, so equality, order and texts agree on which are the same,
and sets that hash or compare identifiers hold what a set of their texts holds. -/
theorem equality_agrees :
    (∀ identifier, Obtained identifier → ofText identifier.text = .ok identifier) ∧
    (∀ left right, Obtained left → Obtained right →
      (left = right ↔ compare left right = .eq) ∧
        (compare left right = .eq ↔ left.text = right.text)) ∧
    ∀ [Hashable Identifier] (identifiers : List Identifier) (sought : Identifier),
      (∀ identifier ∈ identifiers, Obtained identifier) → Obtained sought →
        (sought ∈ Std.HashSet.ofList identifiers ↔ sought.text ∈ identifiers.map text) ∧
          (sought ∈ Std.TreeSet.ofList identifiers compare ↔ sought.text ∈ identifiers.map text) := by
  refine ⟨fun _ obtained => obtained.canonical.ofText_text, ?_, ?_⟩
  · intro left right leftObtained rightObtained
    rw [compare_eq_iff]
    exact ⟨leftObtained.eq_iff rightObtained, Iff.rfl⟩
  · intro _ identifiers sought all obtained
    constructor
    · rw [Std.HashSet.mem_ofList, List.contains_iff_mem, obtained.mem_iff all]
    · simp only [mem_treeSet_iff, compare_eq_iff, List.mem_map, eq_comm (a := sought.text)]

def leapDay : Identifier := ⟨"ж90002292359599990007999", 3, ⟨951868799, 999000000⟩, .ofSeed 7, 999⟩

def dayAfter : Identifier := ⟨"ж90003010000000000007000", 3, ⟨951868800, 0⟩, .ofSeed 7, 0⟩

theorem equality_agrees_leap_day :
    Obtained leapDay ∧ Obtained dayAfter ∧ ofText dayAfter.text = .ok dayAfter ∧
      (leapDay = dayAfter ↔ compare leapDay dayAfter = .eq) ∧
      (compare leapDay dayAfter = .eq ↔ leapDay.text = dayAfter.text) ∧
      (leapDay ∈ Std.TreeSet.ofList [dayAfter, leapDay] compare ↔
        leapDay.text ∈ [dayAfter, leapDay].map text) := by
  have made : ofParts "ж9" ⟨951868799, 999999999⟩ (.ofSeed 10007) 999 = .ok leapDay := rfl
  have issued : (((Mint.fresh (WordSequencer.ofStamp ⟨951868799999, 999⟩)
      [Moment.reading 951868800000] 1).assignNode 7).2.issue "ж9").1 = .ok (.ok dayAfter) := by
    with_unfolding_all rfl
  have written : Obtained leapDay := .written made
  have drawn : Obtained dayAfter := .issued _ _ issued
  obtain ⟨reads, same, sets⟩ := equality_agrees
  have both : ∀ identifier ∈ [dayAfter, leapDay], Obtained identifier := by simp [written, drawn]
  let _ : Hashable Identifier := ⟨fun identifier => hash identifier.text⟩
  exact ⟨written, drawn, reads _ drawn, (same _ _ written drawn).1, (same _ _ written drawn).2,
    (sets _ _ both written).2⟩

end Identifier
end Mintmark
