import Mintmark.Numeral

/-!
Nodes: the four digits that tell apart the processes that issue identifiers.
-/
namespace Mintmark

structure Node where
  number : Fin 10000
deriving DecidableEq, Repr

namespace Node

/-- The node of a seed is its remainder by ten thousand, so seeds of four digits print unchanged. -/
def ofSeed (seed : Nat) : Node := ⟨⟨seed % 10000, Nat.mod_lt _ (by decide)⟩⟩

@[simp] theorem ofSeed_number (node : Node) : ofSeed node.number = node := by
  have small := node.number.isLt
  simp [ofSeed, Nat.mod_eq_of_lt small]

def ofNumber? (number : Nat) : Option Node :=
  if inside : number < 10000 then some ⟨⟨number, inside⟩⟩ else none

def largest : Nat := 9999

def text (node : Node) : String := Numeral.padded 4 node.number

end Node

/-- Holds the node of a mint. The first seed fixes it; later seeds change nothing. -/
structure NodeCell where
  held : Option Node := none
deriving DecidableEq, Repr

namespace NodeCell

def assign (cell : NodeCell) (seed : Nat) : Node × NodeCell :=
  match cell.held with
  | some node => (node, cell)
  | none => (.ofSeed seed, ⟨some (.ofSeed seed)⟩)

end NodeCell
end Mintmark
