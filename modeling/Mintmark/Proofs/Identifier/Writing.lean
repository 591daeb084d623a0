import Mathlib.Data.List.Basic
import Mintmark.Proofs.Identifier.Grammar
import Mintmark.Proofs.Identifier.RoundTrip
import Mintmark.Proofs.Instant

/-!
Writing, for every instant there is. Each refusal is told by the parts alone, the last one by the
millisecond; whatever is not refused fits its columns, so the zeros in front of each number fill the
column and the number never grows out of it.
-/
namespace Mintmark

namespace Numeral

/-- A number in decimal, with zeros in front up to a least width. A number that is longer stays whole. -/
def filled (width number : Nat) : List Char := (Nat.toDigits 10 number).leftpad width '0'

def filledRow : List Nat → List Nat → List Char
  | width :: widths, number :: numbers => filled width number ++ filledRow widths numbers
  | _, _ => []

theorem filled_succ (width number : Nat) :
    filled (width + 2) number = filled (width + 1) (number / 10) ++ [Nat.digitChar (number % 10)] := by
  rcases Nat.lt_or_ge number 10 with small | large
  · have front : number / 10 = 0 := by omega
    have last : number % 10 = number := by omega
    have zeros : List.replicate width '0' ++ ['0'] = List.replicate (width + 1) '0' :=
      List.replicate_succ'.symm
    simp [filled, front, last, Nat.toDigits_of_lt_base small, List.leftpad, zeros]
  · simp [filled, Nat.toDigits_of_base_le (by decide) large, List.leftpad]

theorem filled_eq (width : Nat) : ∀ {number : Nat}, number < 10 ^ (width + 1) →
    filled (width + 1) number = (digits (width + 1) number).map Nat.digitChar := by
  induction width with
  | zero =>
    intro number small
    have single : number < 10 := small
    have last : number % 10 = number := by omega
    simp [filled, Nat.toDigits_of_lt_base single, List.leftpad, digits, last]
  | succ width shorter =>
    intro number small
    have front : number / 10 < 10 ^ (width + 1) := by
      rw [Nat.pow_succ] at small
      omega
    have last : digits (width + 2) number = digits (width + 1) (number / 10) ++ [number % 10] := rfl
    rw [filled_succ, shorter front, last, List.map_append, List.map_singleton]

theorem filledRow_eq {widths numbers : List Nat} (positive : ∀ width ∈ widths, 0 < width)
    (fits : Fits widths numbers) :
    filledRow widths numbers = (row widths numbers).map Nat.digitChar := by
  induction widths generalizing numbers with
  | nil =>
    cases numbers with
    | nil => rfl
    | cons => exact fits.elim
  | cons width widths rest =>
    cases numbers with
    | nil => exact fits.elim
    | cons number numbers =>
      obtain ⟨width, rfl⟩ := Nat.exists_eq_add_one.2 (positive width List.mem_cons_self)
      rw [filledRow, row, List.map_append, filled_eq width fits.1,
        rest (fun width member => positive width (List.mem_cons_of_mem _ member)) fits.2]

end Numeral

namespace Instant

/-- The date and the time of day are those of the calendar, and they make up the seconds again. -/
structure Civil (instant : Instant) : Prop where
  date : instant.date.onCalendar
  hour : instant.hour ≤ 23
  minute : instant.minute ≤ 59
  second : instant.second ≤ 59
  seconds : instant.seconds = instant.date.dayNumber * 86400 +
    ((instant.hour * 60 + instant.minute) * 60 + instant.second : Nat)

theorem civil (instant : Instant) : instant.Civil := by
  obtain ⟨real, day⟩ := Date.dayNumber_ofDayNumber (instant.seconds / 86400)
  refine ⟨real, ?_, ?_, ?_, ?_⟩
  · simp only [hour, secondOfDay]
    omega
  · simp only [minute]
    omega
  · simp only [second]
    omega
  · rw [date, day]
    simp only [hour, minute, second, secondOfDay]
    omega

theorem year_inside_iff {instant : Instant} (leapless : instant.nanos < 1000000000) :
    (Suffix.firstYear ≤ instant.date.year ∧ instant.date.year ≤ Suffix.lastYear) ↔
      946684800000 ≤ instant.millis ∧ instant.millis ≤ 4102444799999 := by
  have begun := firstYear_le_iff_seconds instant
  have ended := lastYear_lt_iff_seconds instant
  rw [Suffix.firstYear, Suffix.lastYear, millis]
  omega

end Instant

namespace Identifier

/-- What is written: the label, the numbers in their columns, and the parts, the instant cut down to
its millisecond. -/
structure Prints (label : String) (instant : Instant) (node : Node) (sequence : UInt16)
    (identifier : Identifier) : Prop where
  text : identifier.text = label ++ String.ofList (Numeral.filledRow [2, 2, 2, 2, 2, 2, 3, 4, 3]
    [(instant.date.year - 2000).toNat, instant.date.month, instant.date.day, instant.hour,
      instant.minute, instant.second, instant.nanos / 1000000, node.number, sequence.toNat])
  labelBytes : identifier.labelBytes = label.utf8ByteSize
  instant : identifier.instant = ⟨instant.seconds, instant.nanos / 1000000 * 1000000⟩
  node : identifier.node = node
  sequence : identifier.sequence = sequence

/-- What writing comes to. The checks come in this order, each after those before it have passed. -/
inductive Writing (label : String) (instant : Instant) (node : Node) (sequence : UInt16) :
    Except PartsError Identifier → Prop
  | unlabelled (empty : label = "") : Writing label instant node sequence (.error .emptyLabel)
  | overflow (nonempty : label ≠ "") (beyond : 999 < sequence.toNat) :
    Writing label instant node sequence (.error (.sequenceOverflow sequence))
  | leap (nonempty : label ≠ "") (fits : sequence.toNat ≤ 999) (leap : 1000000000 ≤ instant.nanos) :
    Writing label instant node sequence (.error .leapSecond)
  | outside (nonempty : label ≠ "") (fits : sequence.toNat ≤ 999)
    (leapless : instant.nanos < 1000000000)
    (outside : instant.millis < 946684800000 ∨ 4102444799999 < instant.millis) :
    Writing label instant node sequence (.error (.yearOutOfRange instant.date.year))
  | printed (nonempty : label ≠ "") (fits : sequence.toNat ≤ 999)
    (leapless : instant.nanos < 1000000000)
    (inside : 946684800000 ≤ instant.millis ∧ instant.millis ≤ 4102444799999)
    (identifier : Identifier) (prints : identifier.Prints label instant node sequence) :
    Writing label instant node sequence (.ok identifier)

variable {label : String} {instant : Instant} {node : Node} {sequence : UInt16}

theorem printable_iff : Printable label instant sequence ↔ label ≠ "" ∧ sequence.toNat ≤ 999 ∧
    instant.nanos < 1000000000 ∧ 946684800000 ≤ instant.millis ∧ instant.millis ≤ 4102444799999 := by
  constructor
  · rintro ⟨nonempty, fits, leapless, begun, open_⟩
    exact ⟨nonempty, UInt16.le_iff_toNat_le.1 fits, leapless,
      (Instant.year_inside_iff leapless).1 ⟨begun, open_⟩⟩
  · rintro ⟨nonempty, fits, leapless, inside⟩
    obtain ⟨begun, open_⟩ := (Instant.year_inside_iff leapless).2 inside
    exact ⟨nonempty, UInt16.le_iff_toNat_le.2 fits, leapless, begun, open_⟩

theorem prints_iff (printable : Printable label instant sequence) (identifier : Identifier) :
    identifier.Prints label instant node sequence ↔
      identifier = written label instant node sequence := by
  have fits := (printable_real node printable).fits
  have columns : Numeral.filledRow Suffix.widths (Suffix.ofParts instant node sequence).numbers =
      (Suffix.ofParts instant node sequence).characters :=
    Numeral.filledRow_eq (by decide) fits
  constructor
  · rintro ⟨text, labelBytes, moment, same, place⟩
    rw [written, ← columns]
    cases identifier
    subst labelBytes moment same place
    exact congrArg (Identifier.mk · _ _ _ _) text
  · rintro rfl
    refine ⟨?_, rfl, rfl, rfl, rfl⟩
    rw [written, ← columns]
    rfl

theorem exists_writing (label : String) (instant : Instant) (node : Node) (sequence : UInt16) :
    ∃ result, Writing label instant node sequence result := by
  by_cases nonempty : label ≠ ""
  · rcases Nat.lt_or_ge 999 sequence.toNat with beyond | fits
    · exact ⟨_, .overflow nonempty beyond⟩
    rcases Nat.lt_or_ge instant.nanos 1000000000 with leapless | leap
    · by_cases inside : 946684800000 ≤ instant.millis ∧ instant.millis ≤ 4102444799999
      · have printable : Printable label instant sequence :=
          printable_iff.2 ⟨nonempty, fits, leapless, inside⟩
        exact ⟨_, .printed nonempty fits leapless inside _ ((prints_iff printable _).2 rfl)⟩
      · exact ⟨_, .outside nonempty fits leapless (by omega)⟩
    · exact ⟨_, .leap nonempty fits leap⟩
  · exact ⟨_, .unlabelled (not_not.1 nonempty)⟩

theorem Writing.ofParts_eq {result : Except PartsError Identifier}
    (writing : Writing label instant node sequence result) :
    ofParts label instant node sequence = result := by
  have within (fits : sequence.toNat ≤ 999) : ¬ Stamp.maxSequence < sequence :=
    UInt16.not_lt.2 (UInt16.le_iff_toNat_le.2 fits)
  cases writing with
  | unlabelled empty => simp [ofParts, empty]
  | overflow nonempty beyond =>
    have more : Stamp.maxSequence < sequence := UInt16.lt_iff_toNat_lt.2 beyond
    simp [ofParts, nonempty, more]
  | leap nonempty fits leap => simp [ofParts, nonempty, within fits, Instant.leapSecond, leap]
  | outside nonempty fits leapless outside =>
    have century : instant.date.year < Suffix.firstYear ∨ Suffix.lastYear < instant.date.year := by
      have inside := Instant.year_inside_iff leapless
      omega
    simp [ofParts, nonempty, within fits, Instant.leapSecond, Nat.not_le.2 leapless, century]
  | printed nonempty fits leapless inside identifier prints =>
    have printable := printable_iff.2 ⟨nonempty, fits, leapless, inside⟩
    exact ofParts_eq_ok_iff.2 ⟨printable, (prints_iff printable identifier).1 prints⟩

theorem ofParts_eq_iff (result : Except PartsError Identifier) :
    ofParts label instant node sequence = result ↔ Writing label instant node sequence result := by
  refine ⟨?_, Writing.ofParts_eq⟩
  rintro rfl
  obtain ⟨result, writing⟩ := exists_writing label instant node sequence
  rw [writing.ofParts_eq]
  exact writing

theorem digits_of_ofParts {identifier : Identifier}
    (made : ofParts label instant node sequence = .ok identifier) :
    ∃ digits : String, identifier.text = label ++ digits ∧ digits.length = 22 ∧
      ∀ character ∈ digits.toList, character.isDigit := by
  obtain ⟨nonempty, real, -⟩ := exists_spelled made
  have grammar := real.grammar nonempty
  exact ⟨_, congrArg text (ofParts_eq_ok_iff.1 made).2, grammar.length, grammar.decimal⟩

theorem ofParts_congr {twin : Instant} (leapless : instant.nanos < 1000000000)
    (also : twin.nanos < 1000000000) (same : twin.millis = instant.millis) :
    ofParts label twin node sequence = ofParts label instant node sequence := by
  obtain ⟨seconds, nanos⟩ := instant
  obtain ⟨twinSeconds, twinNanos⟩ := twin
  dsimp only [Instant.millis] at *
  obtain rfl : twinSeconds = seconds := by omega
  have millis : twinNanos / 1000000 = nanos / 1000000 := by omega
  simp only [ofParts, Suffix.ofParts, Instant.leapSecond, Instant.subsecondMillis, Instant.truncate, millis,
    Nat.not_le.2 leapless, Nat.not_le.2 also]
  rfl

/-- Writing goes by the label, the sequence and the millisecond. What it prints has its own length and
writes itself again. -/
structure Faithful (label : String) (instant : Instant) (node : Node) (sequence : UInt16) : Prop where
  ends : ∀ result, ofParts label instant node sequence = result ↔
    Writing label instant node sequence result
  civil : instant.Civil
  digits : ∀ identifier, ofParts label instant node sequence = .ok identifier →
    ∃ digits : String, identifier.text = label ++ digits ∧ digits.length = 22 ∧
      ∀ character ∈ digits.toList, character.isDigit
  again : ∀ identifier, ofParts label instant node sequence = .ok identifier →
    ofParts identifier.label identifier.instant identifier.node identifier.sequence = .ok identifier
  millis : ∀ twin : Instant, twin.millis = instant.millis → instant.nanos < 1000000000 →
    twin.nanos < 1000000000 →
      ofParts label twin node sequence = ofParts label instant node sequence

theorem ofParts_faithful (label : String) (instant : Instant) (node : Node) (sequence : UInt16) :
    Faithful label instant node sequence where
  ends := ofParts_eq_iff
  civil := instant.civil
  digits _ := digits_of_ofParts
  again _ := canonical_of_ofParts
  millis _ same leapless also := ofParts_congr leapless also same

theorem ofParts_faithful_leap_day :
    ofParts "ж9" ⟨951868799, 999999999⟩ (.ofSeed 7) 999 =
        .ok ⟨"ж90002292359599990007999", 3, ⟨951868799, 999000000⟩, .ofSeed 7, 999⟩ ∧
      ofParts "ж9" ⟨951868799, 999000000⟩ (.ofSeed 7) 999 =
        ofParts "ж9" ⟨951868799, 999999999⟩ (.ofSeed 7) 999 ∧
      ∃ digits : String, "ж90002292359599990007999" = "ж9" ++ digits ∧ digits.length = 22 ∧
        ∀ character ∈ digits.toList, character.isDigit := by
  have faithful := ofParts_faithful "ж9" ⟨951868799, 999999999⟩ (.ofSeed 7) 999
  have made : ofParts "ж9" ⟨951868799, 999999999⟩ (.ofSeed 7) 999 =
      .ok ⟨"ж90002292359599990007999", 3, ⟨951868799, 999000000⟩, .ofSeed 7, 999⟩ := rfl
  exact ⟨made, faithful.millis _ (by decide) (by decide) (by decide), faithful.digits _ made⟩

end Identifier
end Mintmark
