import Mintmark.Identifier.Json

/-!
Reports show the parts of an identifier as a JSON object, one member to a line.
-/
namespace Mintmark.Report

/-- The members of the object by their names, each with its JSON text. -/
def members (identifier : Identifier) : List (String × String) :=
  [("id", identifier.jsonText),
    ("prefix", Text.Quoted.write identifier.label),
    ("generated_at", Text.Quoted.write identifier.instant.timestamp),
    ("node", toString identifier.node.number.val),
    ("sequence", toString identifier.sequence.toNat)]

def line (member : String × String) : String := s!"  \"{member.1}\": {member.2}"

def text (identifier : Identifier) : String :=
  "\x7b\n" ++ String.intercalate ",\n" ((members identifier).map line) ++ "\n\x7d"

end Mintmark.Report
