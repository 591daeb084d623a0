import Mintmark.Identifier.Text
import Mintmark.Text.Quoted

/-!
Identifiers as JSON. An identifier is written as its text; only a string that spells one is read.
-/
namespace Mintmark

inductive Json where
  | null
  | boolean (value : Bool)
  | integer (value : Int)
  /-- Any other number, by the text that shows it. -/
  | decimal (shown : String)
  | string (value : String)
  | array (items : List Json)
  | object (members : List (String × Json))

namespace Json

def kind : Json → String
  | null => "null"
  | boolean value => s!"boolean `{value}`"
  | integer value => s!"integer `{value}`"
  | decimal shown => s!"floating point `{shown}`"
  | string value => s!"string {Text.Quoted.write value}"
  | array _ => "sequence"
  | object _ => "map"

end Json

inductive JsonError where
  | malformed (error : TextError)
  | unexpected (kind : String)
deriving DecidableEq, Repr

namespace JsonError

def message : JsonError → String
  | malformed error => error.message
  | unexpected kind =>
    s!"invalid type: {kind}, expected a prefixed identifier followed by 22 digits"

end JsonError

namespace Identifier

def ofJson : Json → Except JsonError Identifier
  | .string text => (ofText text).mapError .malformed
  | value => .error (.unexpected value.kind)

def toJson (identifier : Identifier) : Json := .string identifier.text

def jsonText (identifier : Identifier) : String := Text.Quoted.write identifier.text

end Identifier
end Mintmark
