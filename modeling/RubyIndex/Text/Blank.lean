/-! # Blank characters

The characters of the Unicode property `White_Space`, and texts with blanks removed from their
ends. -/

namespace RubyIndex.Text

/-- The code points of the property `White_Space`, as inclusive ranges. -/
def blankRanges : List (Nat × Nat) :=
  [(0x9, 0xD), (0x20, 0x20), (0x85, 0x85), (0xA0, 0xA0), (0x1680, 0x1680), (0x2000, 0x200A),
    (0x2028, 0x2029), (0x202F, 0x202F), (0x205F, 0x205F), (0x3000, 0x3000)]

/-- Whether a character is blank. -/
def isBlank (character : Char) : Bool :=
  blankRanges.any fun (first, last) => first ≤ character.toNat && character.toNat ≤ last

/-- Whether a text has no character but blanks. -/
def isBlankText (text : List Char) : Bool := text.all isBlank

/-- A text without its leading blanks. -/
def trimStart (text : List Char) : List Char := text.dropWhile isBlank

theorem trimStart_suffix (text : List Char) : trimStart text <:+ text :=
  List.dropWhile_suffix isBlank

/-- A text without its trailing blanks. -/
def trimEnd : List Char → List Char
  | [] => []
  | character :: rest =>
      match trimEnd rest with
      | [] => if isBlank character then [] else [character]
      | trimmed => character :: trimmed

theorem trimEnd_prefix (text : List Char) : trimEnd text <+: text := by
  fun_induction trimEnd text <;> grind [List.prefix_cons_iff]

/-- A text without its leading and trailing blanks. -/
def trim (text : List Char) : List Char := trimEnd (trimStart text)

/-- A string without its trailing blanks. -/
def trimStringEnd (text : String) : String := String.ofList (trimEnd text.toList)

/-- A string without its leading and trailing blanks. -/
def trimString (text : String) : String := String.ofList (trim text.toList)

end RubyIndex.Text
