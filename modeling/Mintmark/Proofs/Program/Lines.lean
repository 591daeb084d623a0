import Mintmark.Proofs.Program.Ending
import Mintmark.Survey

/-!
The lines that the program prints. A label is printed as it is, so an identifier is one line exactly
if its label brings no newline of its own.
-/
namespace Mintmark

theorem foldr_beforeLines_append {line : List Char} (whole : '\n' ∉ line) (rest : List Char) :
    (line ++ '\n' :: rest).foldr beforeLines [] = line :: rest.foldr beforeLines [] := by
  induction line with
  | nil => rfl
  | cons character line ih =>
    have other : character ≠ '\n' := Ne.symm (List.ne_of_not_mem_cons whole)
    rw [List.cons_append, List.foldr_cons, ih (List.not_mem_of_not_mem_cons whole), beforeLines,
      if_neg other]

theorem printedLines_join {texts : List String} (whole : ∀ text ∈ texts, '\n' ∉ text.toList) :
    printedLines (String.join (texts.map (· ++ "\n"))) = texts := by
  have lines : (String.join (texts.map (· ++ "\n"))).toList.foldr beforeLines [] =
      texts.map String.toList := by
    rw [String.toList_join, List.flatMap_map]
    induction texts with
    | nil => rfl
    | cons text texts ih =>
      obtain ⟨first, others⟩ := List.forall_mem_cons.1 whole
      have line : (text ++ "\n").toList = text.toList ++ ['\n'] := String.toList_append
      rw [List.flatMap_cons, line, List.append_assoc, List.singleton_append,
        foldr_beforeLines_append first, ih others, List.map_cons]
  rw [printedLines, lines, List.map_map]
  simp

theorem count_newline_le (characters : List Char) :
    characters.count '\n' ≤ (characters.foldr beforeLines []).length := by
  induction characters with
  | nil => exact Nat.le_refl 0
  | cons character characters ih =>
    rw [List.foldr_cons, List.count_cons]
    generalize characters.foldr beforeLines [] = lines at ih ⊢
    by_cases newline : character = '\n'
    · simpa [newline, beforeLines] using ih
    · cases lines with
      | nil => simpa [newline, beforeLines] using Nat.le_succ_of_le ih
      | cons line lines => simpa [newline, beforeLines] using ih

namespace Program

theorem count_newline_lines {identifiers : List Identifier} {least : Nat}
    (brings : ∀ identifier ∈ identifiers, least ≤ identifier.text.toList.count '\n') :
    identifiers.length * (least + 1) ≤ (lines identifiers).toList.count '\n' := by
  rw [lines, String.toList_join, List.flatMap_map]
  induction identifiers with
  | nil => exact Nat.le_of_eq (Nat.zero_mul _)
  | cons identifier identifiers ih =>
    obtain ⟨first, others⟩ := List.forall_mem_cons.1 brings
    have later := ih others
    have line : (identifier.text ++ "\n").toList = identifier.text.toList ++ ['\n'] :=
      String.toList_append
    rw [List.flatMap_cons, List.count_append, line, List.count_append, List.length_cons, Nat.succ_mul]
    simp only [List.count_singleton_self]
    omega

/-- The lines of an output are so many, and each one reads as the identifier that was issued in its
place, with the label. -/
structure Listed (output label : String) (count : Nat) (issued : List Identifier) : Prop where
  length : (printedLines output).length = count
  reads : ∀ (place : Nat) (line : String), (printedLines output)[place]? = some line →
    ∃ identifier, issued[place]? = some identifier ∧ Identifier.ofText line = .ok identifier ∧
      identifier.label = label

variable {label : String} {identifiers : List Identifier}

theorem listed_of_whole
    (made : ∀ identifier ∈ identifiers, identifier.Canonical ∧ identifier.label = label)
    (whole : '\n' ∉ label.toList) : Listed (lines identifiers) label identifiers.length identifiers := by
  have texts : ∀ text ∈ identifiers.map Identifier.text, '\n' ∉ text.toList := by
    intro text member newline
    obtain ⟨identifier, issued, rfl⟩ := List.mem_map.1 member
    obtain ⟨canonical, labelled⟩ := made identifier issued
    obtain ⟨digits, written, -, decimal⟩ := Identifier.digits_of_ofParts canonical
    rw [written, labelled, String.toList_append, List.mem_append] at newline
    rcases newline with inside | behind
    · exact whole inside
    · exact absurd (decimal _ behind) (by decide)
  have printed : printedLines (lines identifiers) = identifiers.map Identifier.text := by
    have read := printedLines_join texts
    rwa [List.map_map] at read
  constructor
  · rw [printed, List.length_map]
  · intro place line found
    rw [printed, List.getElem?_map, Option.map_eq_some_iff] at found
    obtain ⟨identifier, issued, rfl⟩ := found
    obtain ⟨canonical, labelled⟩ := made identifier (List.mem_of_getElem? issued)
    exact ⟨identifier, issued, canonical.ofText_text, labelled⟩

theorem length_lt_of_newline
    (made : ∀ identifier ∈ identifiers, identifier.Canonical ∧ identifier.label = label)
    (newline : '\n' ∈ label.toList) (some_ : identifiers ≠ []) :
    identifiers.length < (printedLines (lines identifiers)).length := by
  have brings : ∀ identifier ∈ identifiers, 1 ≤ identifier.text.toList.count '\n' := by
    intro identifier issued
    obtain ⟨canonical, labelled⟩ := made identifier issued
    obtain ⟨digits, written, -, -⟩ := Identifier.digits_of_ofParts canonical
    rw [written, labelled, String.toList_append]
    exact List.count_pos_iff.2 (List.mem_append_left _ newline)
  have several := count_newline_lines brings
  have lines := count_newline_le (lines identifiers).toList
  have positive := List.length_pos_of_ne_nil some_
  rw [printedLines, List.length_map]
  omega

theorem Serving.made {τ : Type} {node : Node} {limit : Nat} {fits : Identifier → Bool}
    {reached : Mint GuardedSequencer τ} (serving : Serving label node limit reached)
    (tally : Tally fits identifiers reached) :
    ∀ identifier ∈ identifiers, identifier.Canonical ∧ identifier.label = label := by
  intro identifier member
  rw [tally.printed] at member
  have issued := List.mem_of_mem_filter member
  obtain ⟨stamp, other, -, stamped, -⟩ := serving.ordered.drawn identifier issued
  exact ⟨stamped.parts.1, serving.labelled identifier issued⟩

variable {τ : Type} [Clock τ]

/-- Whenever the program succeeds it has issued so many identifiers, and it printed them one to a line
exactly if the label is without newlines. -/
theorem lines_read_back_iff {arguments : Arguments} {settings : Settings} {count : Nat}
    (accepted : Settings.ofArguments arguments = .ok settings)
    (job : settings.job = .issue label count) (processId : Nat) (clock : τ) {output : String}
    (succeeds : run settings processId clock = .ok { output }) :
    (fitting settings.target (spent settings processId label count clock)).length = count ∧
      (Listed output label count
          (fitting settings.target (spent settings processId label count clock)) ↔
        count = 0 ∨ '\n' ∉ label.toList) := by
  have checked := Settings.checked_of_ofArguments accepted
  obtain ⟨identifiers, reached, result, serving, tally, finishes, runs⟩ :=
    finishes_run checked job processId clock
  have made := serving.made tally
  rw [runs] at succeeds
  generalize spent settings processId label count clock = last at finishes ⊢
  cases finishes with
  | failed => cases succeeds
  | fault => cases succeeds
  | enough all =>
    have issued : fitting settings.target reached = identifiers := tally.printed.symm
    have printed : output = lines identifiers := by
      rw [← identifiers.reverse_reverse]
      exact (congrArg Outcome.output (Except.ok.inj succeeds)).symm
    subst all
    rw [issued, printed]
    refine ⟨rfl, fun listed => ?_, ?_⟩
    · rw [List.length_eq_zero_iff, or_iff_not_imp_left]
      intro some_ newline
      exact absurd listed.length (length_lt_of_newline made newline some_).ne'
    · rintro (none | whole)
      · obtain rfl := List.length_eq_zero_iff.1 none
        exact ⟨rfl, nofun⟩
      · exact listed_of_whole made whole

def evenLines : Settings := ⟨some 7, 2, some ⟨0, 2⟩, .issue "A\r" 2⟩

theorem lines_read_back_iff_evenLines :
    Settings.ofArguments ⟨some 7, 2, some 0, some 2, .issue "A\r" 2⟩ = .ok evenLines ∧
      run evenLines 0 (List.replicate 3 (Moment.reading 1606298343064)) =
        .ok { output := "A\r2011250959030640007000\nA\r2011250959030640007002\n" } ∧
      Listed "A\r2011250959030640007000\nA\r2011250959030640007002\n" "A\r" 2
        (fitting evenLines.target
          (spent evenLines 0 "A\r" 2 (List.replicate 3 (Moment.reading 1606298343064)))) := by
  have accepted : Settings.ofArguments ⟨some 7, 2, some 0, some 2, .issue "A\r" 2⟩ = .ok evenLines := rfl
  have runs : run evenLines 0 (List.replicate 3 (Moment.reading 1606298343064)) =
      .ok { output := "A\r2011250959030640007000\nA\r2011250959030640007002\n" } := by
    with_unfolding_all rfl
  exact ⟨accepted, runs, (lines_read_back_iff accepted rfl 0 _ runs).2.2 (.inr (by decide))⟩

/-- A label that ends one line as an identifier of its own and begins another. -/
def forgery : Settings := ⟨some 23, 1000, none, .issue "X2011250959030643972247\nY" 1⟩

/-- One identifier is issued and two are read back; the first one was not issued, nor by this node. -/
theorem newline_adds_line :
    Settings.ofArguments ⟨some 23, 1000, none, none, .issue "X2011250959030643972247\nY" 1⟩ =
        .ok forgery ∧
      run forgery 0 [Moment.reading 1606298343064] =
        .ok { output := "X2011250959030643972247\nY2011250959030640023000\n" } ∧
      ¬ Listed "X2011250959030643972247\nY2011250959030640023000\n" "X2011250959030643972247\nY" 1
        (fitting forgery.target (spent forgery 0 "X2011250959030643972247\nY" 1
          [Moment.reading 1606298343064])) ∧
      (printedLines "X2011250959030643972247\nY2011250959030640023000\n").filterMap Identifier.parse? =
        [⟨"X2011250959030643972247", 1, ⟨1606298343, 64000000⟩, .ofSeed 3972, 247⟩,
          ⟨"Y2011250959030640023000", 1, ⟨1606298343, 64000000⟩, .ofSeed 23, 0⟩] := by
  refine ⟨rfl, ?_, fun listed => ?_, rfl⟩
  · with_unfolding_all rfl
  · have two : (printedLines "X2011250959030643972247\nY2011250959030640023000\n").length = 2 := rfl
    cases two.symm.trans listed.length

end Program
end Mintmark
