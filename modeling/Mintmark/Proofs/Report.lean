import Mintmark.Program
import Mintmark.Proofs.Json
import Mintmark.Proofs.Timestamp

/-!
Reports lose nothing. What is printed reads as an object, its members hold the text piece by piece, and
the parts that they name write it again.
-/
namespace Mintmark

theorem Numeral.digits_century {year : Nat} (small : year ≤ 99) :
    digits 4 (2000 + year) = 2 :: 0 :: digits 2 year := by
  simp only [digits, List.nil_append, List.cons_append, List.cons.injEq, and_true]
  omega

namespace Suffix

def dateCharacters (suffix : Suffix) : List Char :=
  (Numeral.row [2, 2, 2, 2, 2, 2, 3] [suffix.year, suffix.month, suffix.day, suffix.hour, suffix.minute,
    suffix.second, suffix.millis]).map Nat.digitChar

variable {suffix : Suffix}

theorem length_dateCharacters (suffix : Suffix) : suffix.dateCharacters.length = 15 := by
  simp [dateCharacters, Numeral.row, Numeral.length_digits]

theorem Real.characters (real : suffix.Real) : suffix.characters =
    suffix.dateCharacters ++ Numeral.filled 4 suffix.node ++ Numeral.filled 3 suffix.sequence := by
  have node : suffix.node < 10 ^ 4 := Nat.lt_succ_of_le real.node
  have sequence : suffix.sequence < 10 ^ 3 := Nat.lt_succ_of_le real.sequence
  rw [Numeral.filled_eq 3 node, Numeral.filled_eq 2 sequence]
  simp [Suffix.characters, digits, dateCharacters, Numeral.row, widths]

theorem Real.stampNumbers (real : suffix.Real) : suffix.instant.stampNumbers =
    [2000 + suffix.year, suffix.month, suffix.day, suffix.hour, suffix.minute, suffix.second,
      suffix.millis] := by
  have fields := real.ofParts_instant
  have date : suffix.instant.date = ⟨2000 + suffix.year, suffix.month, suffix.day⟩ := real.date_instant
  have hour : suffix.instant.hour = suffix.hour := congrArg Suffix.hour fields
  have minute : suffix.instant.minute = suffix.minute := congrArg Suffix.minute fields
  have second : suffix.instant.second = suffix.second := congrArg Suffix.second fields
  have millis : suffix.instant.subsecondMillis = suffix.millis := congrArg Suffix.millis fields
  have year : ((2000 : Int) + suffix.year).toNat = 2000 + suffix.year := by omega
  rw [Instant.stampNumbers, date, hour, minute, second, millis]
  dsimp only
  rw [year]

theorem Real.stampDigits (real : suffix.Real) :
    Instant.stampDigits suffix.instant.timestamp = '2' :: '0' :: suffix.dateCharacters := by
  rw [Instant.stampDigits_timestamp, real.stampNumbers]
  simp only [Instant.stampColumns, List.map_cons, List.map_nil, Numeral.row,
    Numeral.digits_century real.year, dateCharacters]
  rfl

theorem Real.ofTimestamp? (real : suffix.Real) :
    Instant.ofTimestamp? suffix.instant.timestamp = some suffix.instant := by
  have date : suffix.instant.date.year = 2000 + suffix.year := congrArg Date.year real.date_instant
  have year := real.year
  have millis := real.millis
  have leapless : suffix.instant.nanos < 1000000000 := by
    simp only [instant]
    omega
  have whole : suffix.instant.truncate = suffix.instant := by
    simp only [Instant.truncate, instant, Instant.mk.injEq, true_and]
    omega
  rw [Instant.ofTimestamp?_timestamp (by omega) (by omega) leapless, whole]

end Suffix

namespace Report

/-- What the members of a report tell about a text. The text stands in them piece by piece, and the
parts that they name write it again. -/
structure Restores (text label stamp : String) (node sequence : Nat) : Prop where
  front : Text.bytes label = (Text.bytes text).take ((Text.bytes text).length - 22)
  timestamp : Instant.Timestamp stamp
  node_le : node ≤ 9999
  sequence_le : sequence ≤ 999
  characters : ∃ date : List Char, Instant.stampDigits stamp = '2' :: '0' :: date ∧ date.length = 15 ∧
    text = label ++ String.ofList (date ++ Numeral.filled 4 node ++ Numeral.filled 3 sequence)
  again : ∃ instant identifier, Instant.ofTimestamp? stamp = some instant ∧
    Identifier.ofParts label instant (.ofSeed node) sequence.toUInt16 = .ok identifier ∧
      identifier.text = text

theorem restores_of_real {label : List Char} {suffix : Suffix} (nonempty : label ≠ [])
    (real : suffix.Real) : Restores (String.ofList (label ++ suffix.characters)) (String.ofList label)
      suffix.instant.timestamp suffix.node suffix.sequence where
  front := by
    have length := Identifier.length_bytesOf_spelled label suffix
    have width : Suffix.width = 22 := rfl
    have front : (Text.bytesOf (label ++ suffix.characters)).length - 22 = (Text.bytesOf label).length := by
      omega
    simp only [Text.bytes, String.toList_ofList, front]
    rw [Text.bytesOf_append, List.take_left]
  timestamp := Instant.timestamp_timestamp suffix.instant
  node_le := real.node
  sequence_le := real.sequence
  characters := by
    refine ⟨suffix.dateCharacters, real.stampDigits, suffix.length_dateCharacters, ?_⟩
    rw [← real.characters, String.ofList_append]
  again := by
    have canonical := Identifier.canonical_spelled nonempty real
    unfold Identifier.Canonical at canonical
    rw [Identifier.label_spelled] at canonical
    exact ⟨suffix.instant, _, real.ofTimestamp?, canonical, rfl⟩

theorem restores_of_ofText {text : String} {identifier : Identifier}
    (read : Identifier.ofText text = .ok identifier) :
    Restores text identifier.label identifier.instant.timestamp identifier.node.number.val
      identifier.sequence.toNat := by
  obtain ⟨label, suffix, nonempty, real, rfl, rfl⟩ := Identifier.ofText_eq_ok_iff.1 read
  have node : (Identifier.spelled label suffix).node.number.val = suffix.node :=
    Nat.mod_eq_of_lt (Nat.lt_succ_of_le real.node)
  have sequence : (Identifier.spelled label suffix).sequence.toNat = suffix.sequence := by
    have small := real.sequence
    rw [Identifier.spelled, UInt16.toNat_ofNat']
    omega
  rw [node, sequence, Identifier.label_spelled]
  exact restores_of_real nonempty real

theorem writes_members (identifier : Identifier) :
    List.Forall₂ Json.Writes (members identifier)
      [("id", .string identifier.text), ("prefix", .string identifier.label),
        ("generated_at", .string identifier.instant.timestamp),
        ("node", .integer identifier.node.number.val),
        ("sequence", .integer identifier.sequence.toNat)] := by
  refine .cons (Json.writes_string ?_) <| .cons (Json.writes_string ?_) <|
    .cons (Json.writes_string ?_) <| .cons (Json.writes_integer _ ?_) <|
    .cons (Json.writes_integer _ ?_) .nil
  all_goals decide

end Report

namespace Program

theorem inspect_eq_iff {text output : String} : inspect text = { output } ↔
    ∃ identifier, Identifier.ofText text = .ok identifier ∧ Report.text identifier ++ "\n" = output := by
  cases read : Identifier.ofText text with
  | error error => simp [inspect, read]
  | ok identifier => simp [inspect, read]

variable {τ : Type} [Clock τ]

/-- The report on a text is printed exactly if the text reads as an identifier, and it restores the
text. -/
theorem inspect_restores {settings : Settings} {text : String} (job : settings.job = .inspect text)
    (processId : Nat) (clock : τ) :
    ((∃ output, run settings processId clock = .ok { output }) ↔
        ∃ identifier, Identifier.ofText text = .ok identifier) ∧
      (∀ error, Identifier.ofText text = .error error →
        run settings processId clock = .ok { output := "", failure := some (.malformed text error) }) ∧
      ∀ output, run settings processId clock = .ok { output } →
        ∃ (label stamp : String) (node sequence : Nat),
          Json.read? output = some (.object
            [("id", .string text), ("prefix", .string label), ("generated_at", .string stamp),
              ("node", .integer node), ("sequence", .integer sequence)]) ∧
            Report.Restores text label stamp node sequence := by
  have runs : run settings processId clock = .ok (inspect text) := by rw [run, job]
  have succeeds (output : String) : run settings processId clock = .ok { output } ↔
      ∃ identifier, Identifier.ofText text = .ok identifier ∧
        Report.text identifier ++ "\n" = output := by
    rw [runs, Except.ok.injEq, inspect_eq_iff]
  refine ⟨⟨?_, ?_⟩, ?_, ?_⟩
  · rintro ⟨output, printed⟩
    obtain ⟨identifier, read, -⟩ := (succeeds output).1 printed
    exact ⟨identifier, read⟩
  · rintro ⟨identifier, read⟩
    exact ⟨_, (succeeds _).2 ⟨identifier, read, rfl⟩⟩
  · intro error read
    rw [runs, inspect, read]
  · intro output printed
    obtain ⟨identifier, read, rfl⟩ := (succeeds output).1 printed
    have shown := Json.read?_lines (Report.writes_members identifier) (List.cons_ne_nil _ _)
    rw [Identifier.text_of_ofText read] at shown
    exact ⟨_, _, _, _, shown, Report.restores_of_ofText read⟩

/-- Its label has a quote, a backslash, a control and a letter of two bytes. -/
def motley : String := "\"\\\u0001ж0002292359599990007999"

def motleyReport : String :=
  "\x7b\n  \"id\": \"\\\"\\\\\\u0001ж0002292359599990007999\",\n" ++
  "  \"prefix\": \"\\\"\\\\\\u0001ж\",\n" ++
  "  \"generated_at\": \"2000-02-29T23:59:59.999Z\",\n  \"node\": 7,\n  \"sequence\": 999\n\x7d\n"

set_option maxRecDepth 4096 in
theorem inspect_restores_motley :
    run ⟨none, 1000, none, .inspect motley⟩ 0 ([] : List Moment) = .ok { output := motleyReport } ∧
      ∃ (label stamp : String) (node sequence : Nat),
        Json.read? motleyReport = some (.object
          [("id", .string motley), ("prefix", .string label), ("generated_at", .string stamp),
            ("node", .integer node), ("sequence", .integer sequence)]) ∧
          Report.Restores motley label stamp node sequence := by
  have runs : run ⟨none, 1000, none, .inspect motley⟩ 0 ([] : List Moment) =
      .ok { output := motleyReport } := by
    with_unfolding_all rfl
  exact ⟨runs, (inspect_restores rfl 0 _).2.2 _ runs⟩

end Program
end Mintmark
