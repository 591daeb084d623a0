import Mintmark.Proofs.Identifier.RoundTrip

/-!
The order of identifiers. Behind a common label, texts come in the order of their fields, which is
that of instants, then nodes, then sequences.
-/
namespace Mintmark

theorem compare_digitByte {left right : Nat} (leftSmall : left < 10) (rightSmall : right < 10) :
    compare (Numeral.digitByte left) (Numeral.digitByte right) = compare left right := by
  have leftByte := Numeral.toNat_digitByte leftSmall
  have rightByte := Numeral.toNat_digitByte rightSmall
  apply compare_eq_compare
  · rw [UInt8.lt_iff_toNat_lt]
    omega
  · rw [UInt8.lt_iff_toNat_lt]
    omega
  · exact congrArg Numeral.digitByte

namespace Suffix
variable {left right : Suffix}

theorem Real.time {suffix : Suffix} (real : suffix.Real) :
    suffix.instant.secondOfDay / 60 / 60 = suffix.hour ∧
      suffix.instant.secondOfDay / 60 % 60 = suffix.minute ∧
      suffix.instant.secondOfDay % 60 = suffix.second := by
  have whole := real.dayNumber.2
  obtain ⟨_, _, _, minute, second, _, _, _⟩ := real
  omega

theorem compare_day (leftReal : left.Real) (rightReal : right.Real) :
    compare left.date.dayNumber right.date.dayNumber =
      (compare left.year right.year).then
        ((compare left.month right.month).then (compare left.day right.day)) := by
  have year : compare left.date.year right.date.year = compare left.year right.year := by
    simp only [date]
    apply compare_eq_compare <;> omega
  rw [Date.compare_dayNumber leftReal.date rightReal.date, year]
  rfl

theorem compare_secondOfDay (leftReal : left.Real) (rightReal : right.Real) :
    compare left.instant.secondOfDay right.instant.secondOfDay =
      (compare left.hour right.hour).then
        ((compare left.minute right.minute).then (compare left.second right.second)) := by
  obtain ⟨leftHour, leftMinute, leftSecond⟩ := leftReal.time
  obtain ⟨rightHour, rightMinute, rightSecond⟩ := rightReal.time
  rw [← compare_div_mod 60, ← compare_div_mod 60 (_ / 60), leftHour, leftMinute, leftSecond,
    rightHour, rightMinute, rightSecond, Ordering.then_assoc]

theorem compare_seconds (left right : Instant) :
    compare left.seconds right.seconds =
      (compare (left.seconds / 86400) (right.seconds / 86400)).then
        (compare left.secondOfDay right.secondOfDay) := by
  simp only [Instant.secondOfDay]
  apply compare_eq_then
  · omega
  · omega
  · intro same
    apply compare_eq_compare <;> omega

theorem compare_numbers (leftReal : left.Real) (rightReal : right.Real) :
    compare left.numbers right.numbers =
      (compare left.instant right.instant).then
        ((compare left.node right.node).then (compare left.sequence right.sequence)) := by
  have nanos : compare left.instant.nanos right.instant.nanos =
      compare left.millis right.millis := by
    simp only [instant]
    apply compare_eq_compare <;> omega
  have instants : compare left.instant right.instant =
      (compare left.instant.seconds right.instant.seconds).then
        (compare left.instant.nanos right.instant.nanos) := rfl
  rw [instants, nanos, compare_seconds, leftReal.dayNumber.1, rightReal.dayNumber.1,
    compare_day leftReal rightReal, compare_secondOfDay leftReal rightReal]
  simp only [numbers, List.compare_cons_cons, List.compare_nil_nil, Ordering.then_assoc,
    Ordering.then_eq]

end Suffix

namespace Identifier

theorem bytes_spelled (label : List Char) (suffix : Suffix) :
    Text.bytes (spelled label suffix).text =
      Text.bytesOf label ++ suffix.digits.map Numeral.digitByte := by
  rw [Text.bytes, spelled, String.toList_ofList, Text.bytesOf_append, bytesOf_characters]

theorem compare_spelled {label : List Char} {left right : Suffix} (leftReal : left.Real)
    (rightReal : right.Real) :
    compare (spelled label left) (spelled label right) = compare left.numbers right.numbers := by
  have digits : compare (left.digits.map Numeral.digitByte) (right.digits.map Numeral.digitByte) =
      compare left.digits right.digits :=
    compare_map fun first member second present =>
      compare_digitByte (left.digits_small first member) (right.digits_small second present)
  have texts : compare (spelled label left) (spelled label right) =
      compare (Text.bytes (spelled label left).text) (Text.bytes (spelled label right).text) := rfl
  rw [texts, bytes_spelled, bytes_spelled, compare_append_left, digits, Suffix.digits_eq_row,
    Suffix.digits_eq_row, Numeral.compare_row leftReal.fits rightReal.fits]

/-- Behind one label, identifiers come in the order of their instants, nodes and sequences. -/
theorem Canonical.compare_eq {left right : Identifier} (leftCanonical : left.Canonical)
    (rightCanonical : right.Canonical) (label : left.label = right.label) :
    compare left right =
      (compare left.instant right.instant).then
        ((compare left.node.number right.node.number).then
          (compare left.sequence right.sequence)) := by
  obtain ⟨-, leftReal, leftSpelling⟩ := exists_spelled leftCanonical
  obtain ⟨-, rightReal, rightSpelling⟩ := exists_spelled rightCanonical
  have leftInstant := congrArg Identifier.instant leftSpelling
  have rightInstant := congrArg Identifier.instant rightSpelling
  simp only [spelled] at leftInstant rightInstant
  have spellings : compare left right =
      compare (spelled left.label.toList (Suffix.ofParts left.instant left.node left.sequence))
        (spelled left.label.toList (Suffix.ofParts right.instant right.node right.sequence)) := by
    rw [← leftSpelling, label, ← rightSpelling]
  rw [spellings, compare_spelled leftReal rightReal, Suffix.compare_numbers leftReal rightReal,
    ← leftInstant, ← rightInstant, UInt16.compare_eq_toNat_compare_toNat]
  rfl

end Identifier
end Mintmark
