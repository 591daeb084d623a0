import Mintmark.Identifier
import Mintmark.Identifier.Suffix

/-!
Writing identifiers. Parts are refused that could not be read back out of their digits.
-/
namespace Mintmark

inductive PartsError where
  | emptyLabel
  | sequenceOverflow (sequence : UInt16)
  | leapSecond
  | yearOutOfRange (year : Int)
deriving DecidableEq, Repr

namespace PartsError

def message : PartsError → String
  | emptyLabel => "identifier prefix must not be empty"
  | sequenceOverflow sequence => s!"sequence {sequence} exceeds {Stamp.maxSequence}"
  | leapSecond => "leap second instants cannot be encoded"
  | yearOutOfRange year => s!"year {year} outside {Suffix.firstYear}..={Suffix.lastYear}"

end PartsError

namespace Identifier

/-- The identifier of the given parts, its instant cut down to the millisecond; the first part that
cannot be printed is refused. -/
def ofParts (label : String) (instant : Instant) (node : Node) (sequence : UInt16) :
    Except PartsError Identifier :=
  let year := instant.date.year
  if label.isEmpty then .error .emptyLabel
  else if Stamp.maxSequence < sequence then .error (.sequenceOverflow sequence)
  else if instant.leapSecond then .error .leapSecond
  else if year < Suffix.firstYear ∨ Suffix.lastYear < year then .error (.yearOutOfRange year)
  else
    .ok
      { text := label ++ String.ofList (Suffix.ofParts instant node sequence).characters
        labelBytes := label.utf8ByteSize
        instant := instant.truncate
        node, sequence }

end Identifier
end Mintmark
