import Mintmark.Proofs.Identifier.Order
import Mintmark.Proofs.Instant

/-!
Identifiers and stamps. An identifier made of a stamp has it as its own, and behind one label the
identifiers of a node come in the order of their stamps.
-/
namespace Mintmark
namespace Instant

def Whole (instant : Instant) : Prop := instant.nanos < 1000000000 ∧ instant.nanos % 1000000 = 0

theorem compare_millis {left right : Instant} (leftWhole : left.Whole) (rightWhole : right.Whole) :
    compare left right = compare left.millis right.millis := by
  obtain ⟨leftSmall, leftMillis⟩ := leftWhole
  obtain ⟨rightSmall, rightMillis⟩ := rightWhole
  rw [compare_eq_compare_nanoseconds leftSmall rightSmall, millis_eq_div, millis_eq_div]
  symm
  unfold nanoseconds
  apply compare_eq_compare <;> omega

theorem ofMillis_millis {instant : Instant} (whole : instant.Whole) (begun : 2000 ≤ instant.date.year)
    (open_ : instant.date.year ≤ 2099) : ofMillis instant.millis.toNat.toUInt64 = instant := by
  obtain ⟨small, millis⟩ := whole
  rw [firstYear_le_iff_seconds] at begun
  rw [← Int.not_lt, lastYear_lt_iff_seconds] at open_
  have number : instant.millis.toNat.toUInt64.toNat = instant.millis.toNat := by
    simp only [Instant.millis, Nat.toUInt64_eq, UInt64.toNat_ofNat']
    omega
  have within : instant.millis.toNat.toUInt64 ≤ lastPrintable := by
    rw [le_lastPrintable_iff, number, Instant.millis]
    omega
  rw [ofMillis_eq within, number, Instant.mk.injEq, Instant.millis]
  omega

end Instant

namespace Identifier

theorem exists_ofParts_ofMillis_iff {label : String} {stamp : Stamp} {node : Node}
    (nonempty : label ≠ "")
    (small : stamp.sequence ≤ Stamp.maxSequence) :
    (∃ identifier, ofParts label (.ofMillis stamp.millis) node stamp.sequence = .ok identifier) ↔
      Instant.firstPrintable ≤ stamp.millis ∧ stamp.millis ≤ Instant.lastPrintable := by
  rw [exists_ofParts_iff_printable, ← Instant.firstYear_le_iff, ← UInt64.not_lt,
    ← Instant.lastYear_lt_iff, Int.not_lt]
  constructor
  · intro printable
    exact ⟨printable.begun, printable.open_⟩
  · rintro ⟨begun, open_⟩
    exact ⟨nonempty, small, Instant.nanos_ofMillis_lt _, begun, open_⟩

def StampedBy (stamp : Stamp) (node : Node) (identifier : Identifier) : Prop :=
  ∃ label, ofParts label (.ofMillis stamp.millis) node stamp.sequence = .ok identifier

theorem StampedBy.parts {stamp : Stamp} {node : Node} {identifier : Identifier}
    (stamped : StampedBy stamp node identifier) :
    identifier.Canonical ∧ stamp.millis ≤ Instant.lastPrintable ∧
      identifier.instant = .ofMillis stamp.millis ∧ identifier.node = node ∧
      identifier.sequence = stamp.sequence ∧ stamp.sequence ≤ Stamp.maxSequence := by
  obtain ⟨label, made⟩ := stamped
  obtain ⟨printable, written⟩ := ofParts_eq_ok_iff.1 made
  have within : stamp.millis ≤ Instant.lastPrintable := by
    rw [← UInt64.not_lt, ← Instant.lastYear_lt_iff]
    exact Int.not_lt.2 printable.open_
  have instant : identifier.instant = .ofMillis stamp.millis := by
    rw [written, Identifier.written, Instant.truncate_ofMillis within]
  have canonical := canonical_of_ofParts made
  subst written
  exact ⟨canonical, within, instant, rfl, rfl, printable.sequence⟩

theorem StampedBy.compare_eq {first second : Stamp} {node : Node} {earlier later : Identifier}
    (earlierStamped : StampedBy first node earlier) (laterStamped : StampedBy second node later)
    (label : earlier.label = later.label) : compare earlier later = compare first second := by
  obtain ⟨earlierCanonical, earlierWithin, earlierInstant, earlierNode, earlierSequence, -⟩ :=
    earlierStamped.parts
  obtain ⟨laterCanonical, laterWithin, laterInstant, laterNode, laterSequence, -⟩ :=
    laterStamped.parts
  have nodes : compare earlier.node.number later.node.number = .eq := by
    rw [earlierNode, laterNode]
    exact Std.ReflOrd.compare_self
  rw [earlierCanonical.compare_eq laterCanonical label, nodes, Ordering.eq_then, earlierInstant,
    laterInstant, earlierSequence, laterSequence, Instant.compare_ofMillis earlierWithin laterWithin]
  rfl

def stamp (identifier : Identifier) : Stamp :=
  ⟨identifier.instant.millis.toNat.toUInt64, identifier.sequence⟩

theorem Canonical.whole {identifier : Identifier} (canonical : identifier.Canonical) :
    identifier.instant.Whole := by
  obtain ⟨-, real, spelling⟩ := exists_spelled canonical
  have millis := real.millis
  rw [congrArg Identifier.instant spelling]
  simp only [Instant.Whole, spelled, Suffix.instant]
  omega

theorem Canonical.stampedBy {identifier : Identifier} (canonical : identifier.Canonical) :
    StampedBy identifier.stamp identifier.node identifier := by
  have printable := (ofParts_eq_ok_iff.1 canonical).1
  have instant : Instant.ofMillis identifier.stamp.millis = identifier.instant :=
    Instant.ofMillis_millis canonical.whole printable.begun printable.open_
  refine ⟨identifier.label, ?_⟩
  rw [instant]
  exact canonical

theorem StampedBy.stamp_eq {stamp : Stamp} {node : Node} {identifier : Identifier}
    (stamped : StampedBy stamp node identifier) : identifier.stamp = stamp := by
  obtain ⟨-, within, instant, -, sequence, -⟩ := stamped.parts
  rw [Identifier.stamp, instant, sequence, Instant.millis_ofMillis within]
  simp

inductive Made (label : String) : Identifier → Prop
  | written {instant : Instant} {node : Node} {sequence : UInt16} {identifier : Identifier}
    (made : ofParts label instant node sequence = .ok identifier) : Made label identifier
  | read {text : String} {identifier : Identifier} (read : ofText text = .ok identifier)
    (labelled : identifier.label = label) : Made label identifier

theorem Made.canonical {label : String} {identifier : Identifier} (made : Made label identifier) :
    identifier.Canonical ∧ identifier.label = label := by
  cases made with
  | written made => exact ⟨canonical_of_ofParts made, label_of_ofParts made⟩
  | read read labelled => exact ⟨canonical_of_ofText read, labelled⟩

end Identifier

/-- A stamp of the years that are printed, in a place that three digits print. -/
structure Stamp.Printable (stamp : Stamp) : Prop where
  begun : Instant.firstPrintable ≤ stamp.millis
  open_ : stamp.millis ≤ Instant.lastPrintable
  sequence : stamp.sequence ≤ Stamp.maxSequence

theorem Stamp.Printable.exists_ofParts {stamp : Stamp} (printable : stamp.Printable) {label : String}
    (nonempty : label ≠ "") (node : Node) : ∃ identifier,
      Identifier.ofParts label (.ofMillis stamp.millis) node stamp.sequence = .ok identifier :=
  (Identifier.exists_ofParts_ofMillis_iff nonempty printable.sequence).2
    ⟨printable.begun, printable.open_⟩

namespace Identifier

/-- The order of texts behind one label is that of milliseconds, nodes and sequences; on one node it
is the order of stamps, and every two stamps that can be printed are so compared. -/
theorem compare_made (label : String) (nonempty : label ≠ "") :
    (∀ left right, Made label left → Made label right →
      compare left right = (compare left.instant.millis right.instant.millis).then
          ((compare left.node.number right.node.number).then
            (compare left.sequence right.sequence)) ∧
        (left.node = right.node → compare left right = compare left.stamp right.stamp)) ∧
      ∀ (node : Node) (first second : Stamp), first.Printable → second.Printable →
        ∃ left right, ofParts label (.ofMillis first.millis) node first.sequence = .ok left ∧
          ofParts label (.ofMillis second.millis) node second.sequence = .ok right ∧
          compare left right = compare first second := by
  constructor
  · intro left right leftMade rightMade
    obtain ⟨leftCanonical, leftLabel⟩ := leftMade.canonical
    obtain ⟨rightCanonical, rightLabel⟩ := rightMade.canonical
    have labels : left.label = right.label := leftLabel.trans rightLabel.symm
    constructor
    · rw [leftCanonical.compare_eq rightCanonical labels,
        Instant.compare_millis leftCanonical.whole rightCanonical.whole]
    · intro node
      exact leftCanonical.stampedBy.compare_eq (node ▸ rightCanonical.stampedBy) labels
  · intro node first second firstPrintable secondPrintable
    obtain ⟨left, leftMade⟩ := firstPrintable.exists_ofParts nonempty node
    obtain ⟨right, rightMade⟩ := secondPrintable.exists_ofParts nonempty node
    have labels : left.label = right.label :=
      (label_of_ofParts leftMade).trans (label_of_ofParts rightMade).symm
    have leftStamped : StampedBy first node left := ⟨label, leftMade⟩
    have rightStamped : StampedBy second node right := ⟨label, rightMade⟩
    exact ⟨left, right, leftMade, rightMade, leftStamped.compare_eq rightStamped labels⟩

theorem compare_made_leap_day : "A" ≠ "" ∧ ∃ left right,
    ofParts "A" (.ofMillis 951868799999) (.ofSeed 7) 999 = .ok left ∧
      ofParts "A" (.ofMillis 951868800000) (.ofSeed 7) 0 = .ok right ∧ compare left right = .lt := by
  have nonempty : "A" ≠ "" := by decide
  have first : Stamp.Printable ⟨951868799999, 999⟩ := ⟨by decide, by decide, by decide⟩
  have second : Stamp.Printable ⟨951868800000, 0⟩ := ⟨by decide, by decide, by decide⟩
  exact ⟨nonempty, (compare_made "A" nonempty).2 (.ofSeed 7) _ _ first second⟩

end Identifier
end Mintmark
