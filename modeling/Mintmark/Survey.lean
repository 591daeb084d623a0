import Mintmark.Identifier.Text
import Mintmark.Partition

/-!
Surveys of printed identifiers: what can be said of their lines whenever they were issued.
-/
namespace Mintmark

/-- Puts a character in front of lines: a newline opens a line of its own. -/
def beforeLines (character : Char) (lines : List (List Char)) : List (List Char) :=
  if character = '\n' then [] :: lines
  else
    match lines with
    | [] => [[character]]
    | line :: lines => (character :: line) :: lines

/-- The lines of a text; a newline at its end opens no further line. -/
def printedLines (text : String) : List String :=
  (text.toList.foldr beforeLines []).map String.ofList

def increasing {α : Type} [Ord α] : List α → Bool
  | first :: second :: rest => compare first second == .lt && increasing (second :: rest)
  | _ => true

def withoutRepeats {α : Type} [DecidableEq α] : List α → List α
  | first :: second :: rest =>
    if first = second then withoutRepeats (second :: rest)
    else first :: withoutRepeats (second :: rest)
  | elements => elements

structure Survey where
  wellFormed : Bool
  count : Nat
  increasing : Bool
  nodes : List Nat
  labels : List String
  /-- Partitions of the lines, if they were to be divided. -/
  partitions : Option (List Nat)

namespace Survey

def ofText (text : String) (division : Option Division) : Survey :=
  let lines := printedLines text
  let identifiers := lines.filterMap Identifier.parse?
  { wellFormed := identifiers.length = lines.length
    count := lines.length
    increasing := Mintmark.increasing (lines.map Text.bytes)
    nodes := withoutRepeats (identifiers.map (·.node.number.val))
    labels := withoutRepeats (identifiers.map (·.label))
    partitions := division.map fun division =>
      withoutRepeats (lines.map division.partition) }

end Survey
end Mintmark
