import Mathlib.Data.List.TakeWhile
import Mathlib.Data.Set.Function
import Mintmark.Identifier.Json
import Mintmark.Proofs.Identity
import Mintmark.Proofs.Json

/-!
Identifiers in JSON. Identifiers and the strings that spell one stand for each other, and no other
value stands for any. The document that is written for an identifier is read back, as is every other
document that spells its text.
-/
namespace Mintmark

namespace Json

/-- Reads a document that is a text in quotes, with blanks around it or without. -/
def document? (document : String) : Option Json := do
  let (text, rest) ← string? (skip document.toList)
  if skip rest = [] then some (.string text) else none

/-- The text is spelled in quotes, and nothing but blanks stands around them. -/
def Quotes (document text : String) : Prop :=
  ∃ front inside back, document.toList = front ++ '"' :: (inside ++ '"' :: back) ∧
    (∀ character ∈ front ++ back, blank character = true) ∧
      Text.Quoted.Spelled text.toList inside

theorem document?_eq_some_iff {document : String} {value : Json} :
    document? document = some value ↔ ∃ text, Quotes document text ∧ value = .string text := by
  constructor
  · intro read
    simp only [document?, Option.bind_eq_bind, Option.bind_eq_some_iff] at read
    obtain ⟨⟨text, rest⟩, quoted, ends⟩ := read
    split at ends
    · rename_i empty
      cases ends
      obtain ⟨inside, spelled, shape⟩ := string?_eq_some_iff.1 quoted
      refine ⟨text, ⟨document.toList.takeWhile blank, inside, rest, ?_, ?_, spelled⟩, rfl⟩
      · rw [← shape]
        exact List.takeWhile_append_dropWhile.symm
      · intro character member
        rcases List.mem_append.1 member with front | back
        · exact List.mem_takeWhile_imp front
        · exact List.dropWhile_eq_nil_iff.1 empty character back
    · cases ends
  · rintro ⟨text, ⟨front, inside, back, shape, blanks, spelled⟩, rfl⟩
    have before : ∀ character ∈ front, blank character = true :=
      fun character member => blanks character (List.mem_append_left back member)
    have after : ∀ character ∈ back, blank character = true :=
      fun character member => blanks character (List.mem_append_right front member)
    have starts : skip document.toList = '"' :: (inside ++ '"' :: back) := by
      rw [shape, skip, List.dropWhile_append_of_pos before]
      exact List.dropWhile_cons_of_neg (by decide)
    have quoted : string? ('"' :: (inside ++ '"' :: back)) = some (text, back) :=
      string?_eq_some_iff.2 ⟨inside, spelled, rfl⟩
    have ends : skip back = [] := List.dropWhile_eq_nil_iff.2 after
    simp only [document?, starts, quoted, ends, Option.bind_eq_bind, Option.bind_some, if_true]

theorem quotes_write (text : String) : Quotes (Text.Quoted.write text) text :=
  ⟨[], _, [], Text.Quoted.toList_write text, nofun, Text.Quoted.spelled_escape text.toList⟩

end Json

namespace Identifier

def ofDocument? (document : String) : Option (Except JsonError Identifier) :=
  (Json.document? document).map ofJson

theorem ofJson_eq_ok_iff {value : Json} {identifier : Identifier} :
    ofJson value = .ok identifier ↔ ∃ text, value = .string text ∧ ofText text = .ok identifier := by
  cases value with
  | string text =>
    rw [ofJson]
    cases read : ofText text with
    | ok other => simp [Except.mapError, read]
    | error error => simp [Except.mapError, read]
  | null => simp [ofJson]
  | boolean => simp [ofJson]
  | integer => simp [ofJson]
  | decimal => simp [ofJson]
  | array => simp [ofJson]
  | object => simp [ofJson]

theorem ofDocument?_eq_some_iff {document : String} {outcome : Except JsonError Identifier} :
    ofDocument? document = some outcome ↔
      ∃ text, Json.Quotes document text ∧ outcome = ofJson (.string text) := by
  simp only [ofDocument?, Option.map_eq_some_iff, Json.document?_eq_some_iff]
  constructor
  · rintro ⟨_, ⟨text, quotes, rfl⟩, rfl⟩
    exact ⟨text, quotes, rfl⟩
  · rintro ⟨text, quotes, rfl⟩
    exact ⟨_, ⟨text, quotes, rfl⟩, rfl⟩

theorem ofDocument?_jsonText {identifier : Identifier} (obtained : Obtained identifier) :
    ofDocument? identifier.jsonText = some (.ok identifier) := by
  apply ofDocument?_eq_some_iff.2
  refine ⟨identifier.text, Json.quotes_write identifier.text, ?_⟩
  exact (ofJson_eq_ok_iff.2 ⟨identifier.text, rfl, obtained.canonical.ofText_text⟩).symm

def validStrings : Set Json :=
  {value | ∃ text identifier, value = .string text ∧ ofText text = .ok identifier}

theorem bijOn_toJson : Set.BijOn toJson {identifier | Obtained identifier} validStrings := by
  refine ⟨?_, ?_, ?_⟩
  · intro identifier obtained
    exact ⟨identifier.text, identifier, rfl, obtained.canonical.ofText_text⟩
  · intro left leftObtained right rightObtained same
    exact (Obtained.eq_iff leftObtained rightObtained).2 (Json.string.inj same)
  · rintro _ ⟨text, identifier, rfl, read⟩
    exact ⟨identifier, .read read, congrArg Json.string (text_of_ofText read)⟩

/-- A value is an identifier exactly if it is a string that spells one, and a string that spells none
is refused for the reason that its text is. So identifiers and such strings match one to one. The
document of an identifier is read back, and reading a document is reading the text that it spells,
by whichever escapes. -/
theorem json_matches_text :
    (∀ value identifier, ofJson value = .ok identifier ↔
      ∃ text, value = .string text ∧ ofText text = .ok identifier) ∧
    (∀ text error, ofText text = .error error →
      ∃ refusal, ofJson (.string text) = .error refusal ∧ refusal.message = error.message) ∧
    Set.BijOn toJson {identifier | Obtained identifier} validStrings ∧
    (∀ identifier, Obtained identifier → ofDocument? identifier.jsonText = some (.ok identifier)) ∧
    ∀ document outcome, ofDocument? document = some outcome ↔
      ∃ text, Json.Quotes document text ∧ outcome = ofJson (.string text) := by
  refine ⟨fun _ _ => ofJson_eq_ok_iff, ?_, bijOn_toJson, fun _ => ofDocument?_jsonText,
    fun _ _ => ofDocument?_eq_some_iff⟩
  intro text error refused
  refine ⟨.malformed error, ?_, rfl⟩
  rw [ofJson, refused]
  rfl

/-- An identifier whose label needs escapes, and has a character beyond the basic plane. -/
def escapedIdentifier : Identifier :=
  ⟨"\"\\\n\x01😀2011250959030640007001", 8, ⟨1606298343, 64000000⟩, .ofSeed 7, 1⟩

def otherDocument : String :=
  "\t\"\\u0022\\u005C\\u000a\\u0001\\ud83D\\uDE002011250959030640007001\" "

theorem json_matches_text_escaped :
    Obtained escapedIdentifier ∧
      escapedIdentifier.jsonText = "\"\\\"\\\\\\n\\u0001😀2011250959030640007001\"" ∧
      ofDocument? escapedIdentifier.jsonText = some (.ok escapedIdentifier) ∧
      toJson escapedIdentifier ∈ validStrings ∧
      Json.Quotes otherDocument escapedIdentifier.text ∧
      ofDocument? otherDocument = some (.ok escapedIdentifier) ∧
      ∃ refusal, ofJson (.string "A2032250959030640007001") = .error refusal ∧
        refusal.message = "invalid month: 32" := by
  have read : ofText escapedIdentifier.text = .ok escapedIdentifier := by
    with_unfolding_all rfl
  have refused : ofText "A2032250959030640007001" = .error (.invalidMonth 32) := by
    with_unfolding_all rfl
  have written : escapedIdentifier.jsonText =
      "\"\\\"\\\\\\n\\u0001😀2011250959030640007001\"" := by
    with_unfolding_all rfl
  have other : Json.document? otherDocument = some (.string escapedIdentifier.text) := by
    with_unfolding_all rfl
  have obtained : Obtained escapedIdentifier := .read read
  obtain ⟨values, refusals, pairs, written_read, documents⟩ := json_matches_text
  obtain ⟨_, quotes, same⟩ := Json.document?_eq_some_iff.1 other
  rw [← Json.string.inj same] at quotes
  have value : ofJson (.string escapedIdentifier.text) = .ok escapedIdentifier :=
    (values _ _).2 ⟨_, rfl, read⟩
  exact ⟨obtained, written, written_read _ obtained, pairs.mapsTo obtained, quotes,
    (documents _ _).2 ⟨_, quotes, value.symm⟩, refusals _ _ refused⟩

end Identifier
end Mintmark
