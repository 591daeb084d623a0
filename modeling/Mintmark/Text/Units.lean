/-!
Texts as UTF-16. A character beyond the basic plane is a pair of surrogate units.
-/
namespace Mintmark.Text

def unitsOf (character : Char) : List Nat :=
  let code := character.toNat
  if code < 0x10000 then [code]
  else [0xD800 + (code - 0x10000) / 0x400, 0xDC00 + (code - 0x10000) % 0x400]

def units (text : String) : List Nat := text.toList.flatMap unitsOf

end Mintmark.Text
