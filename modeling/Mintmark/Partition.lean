import Mintmark.Text.Units

/-!
Partitions of texts by the polynomial hash of base 31 over UTF-16 units, in 32-bit words that wrap.
-/
namespace Mintmark

/-- The hash of a text: each unit is added to 31 times the hash of what comes before it. -/
def polynomialHash (text : String) : Int32 :=
  (Text.units text).foldl (fun hash unit => hash * 31 + Int32.ofNat unit) 0

structure Division where
  partitions : Nat
  partitions_pos : 0 < partitions
deriving Repr

namespace Division

def ofCount? (partitions : Nat) : Option Division :=
  if positive : 0 < partitions then some ⟨partitions, positive⟩ else none

/-- The partition of a text: the absolute value of its hash, modulo the number of partitions. -/
def partition (division : Division) (text : String) : Nat :=
  (polynomialHash text).toInt.natAbs % division.partitions

theorem partition_lt (division : Division) (text : String) :
    division.partition text < division.partitions :=
  Nat.mod_lt _ division.partitions_pos

end Division
end Mintmark
