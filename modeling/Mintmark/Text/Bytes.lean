/-!
Texts as UTF-8. Lengths and places of a text are counted in bytes, and texts are ordered by their
bytes.
-/
namespace Mintmark.Text

def bytesOf (characters : List Char) : List UInt8 := characters.flatMap String.utf8EncodeChar

def bytes (text : String) : List UInt8 := bytesOf text.toList

/-- The longest beginning that has at most the given number of bytes. -/
def takeBytes : Nat → List Char → List Char
  | _, [] => []
  | size, character :: rest =>
    if character.utf8Size ≤ size then character :: takeBytes (size - character.utf8Size) rest else []

def compareBytes (left right : String) : Ordering := compare (bytes left) (bytes right)

theorem bytesOf_append (left right : List Char) :
    bytesOf (left ++ right) = bytesOf left ++ bytesOf right := by
  simp [bytesOf]

theorem length_bytesOf_cons (character : Char) (rest : List Char) :
    (bytesOf (character :: rest)).length = character.utf8Size + (bytesOf rest).length := by
  simp [bytesOf]

theorem takeBytes_append (front back : List Char) :
    takeBytes (bytesOf front).length (front ++ back) = front := by
  induction front with
  | nil =>
    cases back with
    | nil => rfl
    | cons character rest =>
      have positive := character.utf8Size_pos
      simp [bytesOf, takeBytes]
      omega
  | cons character rest inner => simp [takeBytes, length_bytesOf_cons, inner]

end Mintmark.Text
