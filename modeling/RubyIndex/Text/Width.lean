/-! # Widths in bytes

The number of bytes that characters take in UTF-8. -/

namespace RubyIndex.Text

/-- The number of bytes that a list of characters takes in UTF-8. -/
def byteWidth : List Char → Nat
  | [] => 0
  | character :: rest => character.utf8Size + byteWidth rest

@[simp] theorem byteWidth_nil : byteWidth [] = 0 := rfl

@[simp] theorem byteWidth_cons (character : Char) (rest : List Char) :
    byteWidth (character :: rest) = character.utf8Size + byteWidth rest := rfl

@[simp] theorem byteWidth_append (front back : List Char) :
    byteWidth (front ++ back) = byteWidth front + byteWidth back := by
  induction front with
  | nil => simp
  | cons character rest ih => simp [ih, Nat.add_assoc]

/-- The width of a list of characters is the size of the string they make up. -/
theorem utf8ByteSize_ofList (text : List Char) :
    (String.ofList text).utf8ByteSize = byteWidth text := by
  induction text with
  | nil => simp
  | cons character rest ih =>
    have split : String.ofList (character :: rest) =
        String.singleton character ++ String.ofList rest := by simp
    rw [split, String.utf8ByteSize_append, ih]
    simp

end RubyIndex.Text
