import Mintmark.Identifier.Parts

/-!
The parts that can be written, and the identifier that they make.
-/
namespace Mintmark
namespace Text

theorem utf8ByteSize_eq_length_bytes (text : String) : text.utf8ByteSize = (bytes text).length := by
  rw [← String.size_toByteArray, ← String.ofList_toList (s := text), String.toByteArray_ofList,
    List.utf8Encode, List.size_toByteArray, String.ofList_toList]
  rfl

end Text

namespace Identifier

structure Printable (label : String) (instant : Instant) (sequence : UInt16) : Prop where
  label : label ≠ ""
  sequence : sequence ≤ Stamp.maxSequence
  leapless : instant.nanos < 1000000000
  begun : Suffix.firstYear ≤ instant.date.year
  open_ : instant.date.year ≤ Suffix.lastYear

def written (label : String) (instant : Instant) (node : Node) (sequence : UInt16) : Identifier :=
  { text := label ++ String.ofList (Suffix.ofParts instant node sequence).characters
    labelBytes := label.utf8ByteSize
    instant := instant.truncate
    node, sequence }

theorem ofParts_eq_ok_iff {label : String} {instant : Instant} {node : Node} {sequence : UInt16}
    {identifier : Identifier} : ofParts label instant node sequence = .ok identifier ↔
      Printable label instant sequence ∧ identifier = written label instant node sequence := by
  constructor
  · intro made
    unfold ofParts at made
    dsimp only at made
    split at made
    · contradiction
    rename_i nonempty
    split at made
    · contradiction
    rename_i fits
    split at made
    · contradiction
    rename_i leapless
    split at made
    · contradiction
    rename_i century
    refine ⟨⟨by simpa using nonempty, UInt16.not_lt.1 fits, ?_, by omega, by omega⟩, ?_⟩
    · simpa [Instant.leapSecond] using leapless
    · exact (Except.ok.inj made).symm
  · rintro ⟨⟨nonempty, fits, leapless, begun, open_⟩, rfl⟩
    have century : ¬ (instant.date.year < Suffix.firstYear ∨ Suffix.lastYear < instant.date.year) := by
      omega
    simp [ofParts, nonempty, UInt16.not_lt.2 fits, Instant.leapSecond, Nat.not_le.2 leapless, century,
      written]

theorem exists_ofParts_iff_printable {label : String} {instant : Instant} {node : Node}
    {sequence : UInt16} : (∃ identifier, ofParts label instant node sequence = .ok identifier) ↔
      Printable label instant sequence := by
  simp only [ofParts_eq_ok_iff, exists_and_left, exists_eq, and_true]

end Identifier
end Mintmark
