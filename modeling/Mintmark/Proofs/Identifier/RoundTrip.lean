import Mintmark.Proofs.Identifier.Parts
import Mintmark.Proofs.Identifier.Text

/-!
Writing and reading identifiers. What is written reads back as it was written, and what reads as an
identifier is what its parts write.
-/
namespace Mintmark.Identifier

theorem printable_real {label : String} {instant : Instant} {sequence : UInt16} (node : Node)
    (printable : Printable label instant sequence) : (Suffix.ofParts instant node sequence).Real :=
  Suffix.ofParts_real node printable.begun printable.open_ printable.leapless printable.sequence

theorem written_eq_spelled {label : String} {instant : Instant} {sequence : UInt16} (node : Node)
    (printable : Printable label instant sequence) :
    written label instant node sequence =
      spelled label.toList (Suffix.ofParts instant node sequence) := by
  have text : label ++ String.ofList (Suffix.ofParts instant node sequence).characters =
      String.ofList (label.toList ++ (Suffix.ofParts instant node sequence).characters) := by
    rw [String.ofList_append, String.ofList_toList]
  have nodeSame : Node.ofSeed (Suffix.ofParts instant node sequence).node = node := node.ofSeed_number
  have sequenceSame : (Suffix.ofParts instant node sequence).sequence.toUInt16 = sequence := by
    simp [Suffix.ofParts]
  unfold written spelled
  rw [text, nodeSame, sequenceSame, Suffix.instant_ofParts node sequence printable.begun,
    Text.utf8ByteSize_eq_length_bytes]
  rfl

theorem printable_spelled {label : List Char} {suffix : Suffix} (nonempty : label ≠ [])
    (real : suffix.Real) :
    Printable (String.ofList label) suffix.instant suffix.sequence.toUInt16 := by
  have year := real.year
  have millis := real.millis
  have sequence := real.sequence
  have date : suffix.instant.date.year = Suffix.firstYear + suffix.year := by
    rw [real.date_instant]
    rfl
  refine ⟨by simpa using nonempty, ?_, ?_, by omega, ?_⟩
  · have largest : Stamp.maxSequence.toNat = 999 := rfl
    rw [UInt16.le_iff_toNat_le, UInt16.toNat_ofNat']
    omega
  · simp only [Suffix.instant]
    omega
  · simp only [date, Suffix.firstYear, Suffix.lastYear]
    omega

/-- An identifier that its own parts write. -/
def Canonical (identifier : Identifier) : Prop :=
  ofParts identifier.label identifier.instant identifier.node identifier.sequence = .ok identifier

theorem canonical_spelled {label : List Char} {suffix : Suffix} (nonempty : label ≠ [])
    (real : suffix.Real) : (spelled label suffix).Canonical := by
  have printable := printable_spelled nonempty real
  have same : written (String.ofList label) suffix.instant (.ofSeed suffix.node)
      suffix.sequence.toUInt16 = spelled label suffix := by
    rw [written_eq_spelled _ printable, String.toList_ofList, real.ofParts_instant]
  unfold Canonical
  rw [label_spelled]
  exact ofParts_eq_ok_iff.2 ⟨printable, same.symm⟩

theorem exists_spelled {label : String} {instant : Instant} {node : Node} {sequence : UInt16}
    {identifier : Identifier} (made : ofParts label instant node sequence = .ok identifier) :
    label.toList ≠ [] ∧ (Suffix.ofParts instant node sequence).Real ∧
      identifier = spelled label.toList (Suffix.ofParts instant node sequence) := by
  obtain ⟨printable, rfl⟩ := ofParts_eq_ok_iff.1 made
  exact ⟨by simpa using printable.label, printable_real node printable,
    written_eq_spelled node printable⟩

theorem canonical_of_ofParts {label : String} {instant : Instant} {node : Node} {sequence : UInt16}
    {identifier : Identifier} (made : ofParts label instant node sequence = .ok identifier) :
    identifier.Canonical := by
  obtain ⟨nonempty, real, rfl⟩ := exists_spelled made
  exact canonical_spelled nonempty real

theorem canonical_of_ofText {text : String} {identifier : Identifier}
    (read : ofText text = .ok identifier) : identifier.Canonical := by
  obtain ⟨label, suffix, nonempty, real, -, rfl⟩ := ofText_eq_ok_iff.1 read
  exact canonical_spelled nonempty real

theorem Canonical.ofText_text {identifier : Identifier} (canonical : identifier.Canonical) :
    ofText identifier.text = .ok identifier := by
  obtain ⟨nonempty, real, spelling⟩ := exists_spelled canonical
  rw [spelling]
  exact ofText_spelled nonempty real

theorem Canonical.eq_of_text {left right : Identifier} (leftCanonical : left.Canonical)
    (rightCanonical : right.Canonical) (texts : left.text = right.text) : left = right := by
  have read := leftCanonical.ofText_text
  rw [texts, rightCanonical.ofText_text] at read
  exact (Except.ok.inj read).symm

theorem label_of_ofParts {label : String} {instant : Instant} {node : Node} {sequence : UInt16}
    {identifier : Identifier} (made : ofParts label instant node sequence = .ok identifier) :
    identifier.label = label := by
  obtain ⟨-, -, rfl⟩ := exists_spelled made
  rw [label_spelled, String.ofList_toList]

theorem text_of_ofText {text : String} {identifier : Identifier}
    (read : ofText text = .ok identifier) : identifier.text = text := by
  obtain ⟨label, suffix, -, -, rfl, rfl⟩ := ofText_eq_ok_iff.1 read
  rfl

/-- Reading undoes writing: every field comes back, the instant cut down to its millisecond. -/
theorem ofText_ofParts {label : String} {instant : Instant} {node : Node} {sequence : UInt16}
    {identifier : Identifier} (made : ofParts label instant node sequence = .ok identifier) :
    ofText identifier.text = .ok identifier ∧ identifier.label = label ∧ identifier.node = node ∧
      identifier.sequence = sequence ∧ identifier.instant.seconds = instant.seconds ∧
      identifier.instant.nanos = instant.nanos / 1000000 * 1000000 := by
  obtain ⟨nonempty, real, spelling⟩ := exists_spelled made
  refine ⟨?_, label_of_ofParts made, ?_⟩
  · rw [spelling]
    exact ofText_spelled nonempty real
  · obtain ⟨-, rfl⟩ := ofParts_eq_ok_iff.1 made
    exact ⟨rfl, rfl, rfl, rfl⟩

theorem ofText_ofParts_leap_day :
    ofParts "ж9" ⟨951868799, 999999999⟩ (.ofSeed 7) 999 =
        .ok ⟨"ж90002292359599990007999", 3, ⟨951868799, 999000000⟩, .ofSeed 7, 999⟩ ∧
      ofText "ж90002292359599990007999" =
        .ok ⟨"ж90002292359599990007999", 3, ⟨951868799, 999000000⟩, .ofSeed 7, 999⟩ := by
  have made : ofParts "ж9" ⟨951868799, 999999999⟩ (.ofSeed 7) 999 =
      .ok ⟨"ж90002292359599990007999", 3, ⟨951868799, 999000000⟩, .ofSeed 7, 999⟩ := rfl
  exact ⟨made, (ofText_ofParts made).1⟩

/-- Writing undoes reading: the parts of what a text spells write that very text, so no two texts
spell the same parts. -/
theorem ofParts_ofText {text : String} {identifier : Identifier}
    (read : ofText text = .ok identifier) :
    ofParts identifier.label identifier.instant identifier.node identifier.sequence =
        .ok identifier ∧
      identifier.text = text ∧
      ∀ (other : String) (twin : Identifier), ofText other = .ok twin →
        twin.label = identifier.label → twin.instant = identifier.instant →
        twin.node = identifier.node → twin.sequence = identifier.sequence → other = text := by
  have canonical := canonical_of_ofText read
  refine ⟨canonical, text_of_ofText read, ?_⟩
  intro other twin twinRead label instant node sequence
  have twinCanonical := canonical_of_ofText twinRead
  unfold Canonical at twinCanonical
  rw [label, instant, node, sequence, canonical] at twinCanonical
  rw [← text_of_ofText twinRead, ← text_of_ofText read, Except.ok.inj twinCanonical]

theorem ofParts_ofText_leap_day :
    ofText "ж90002292359599990007999" =
        .ok ⟨"ж90002292359599990007999", 3, ⟨951868799, 999000000⟩, .ofSeed 7, 999⟩ ∧
      ofParts "ж9" ⟨951868799, 999000000⟩ (.ofSeed 7) 999 =
        .ok ⟨"ж90002292359599990007999", 3, ⟨951868799, 999000000⟩, .ofSeed 7, 999⟩ := by
  have read : ofText "ж90002292359599990007999" =
      .ok ⟨"ж90002292359599990007999", 3, ⟨951868799, 999000000⟩, .ofSeed 7, 999⟩ := rfl
  have label : (⟨"ж90002292359599990007999", 3, ⟨951868799, 999000000⟩, .ofSeed 7, 999⟩ :
      Identifier).label = "ж9" := rfl
  have made := (ofParts_ofText read).1
  rw [label] at made
  exact ⟨read, made⟩

end Mintmark.Identifier
