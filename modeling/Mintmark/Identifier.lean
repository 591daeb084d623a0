import Mintmark.Instant
import Mintmark.Node
import Mintmark.Stamp
import Mintmark.Text.Bytes

/-!
Identifiers: a label and twenty-two digits, which tell when, where and in which place of its
millisecond the identifier was issued. Identifiers are ordered as their texts are.
-/
namespace Mintmark

structure Identifier where
  text : String
  /-- Bytes of the text before its digits. -/
  labelBytes : Nat
  instant : Instant
  node : Node
  sequence : UInt16
deriving DecidableEq, Repr

namespace Identifier

def label (identifier : Identifier) : String :=
  String.ofList (Text.takeBytes identifier.labelBytes identifier.text.toList)

instance : Ord Identifier where
  compare left right := Text.compareBytes left.text right.text

instance : LT Identifier := ltOfOrd
instance : LE Identifier := leOfOrd

end Identifier
end Mintmark
