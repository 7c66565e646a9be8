import RubyIndex.Json.Value

/-! # Reading JSON

A reader for JSON texts. Each part takes what it reads from the front of a list of characters
and returns it with the rest; nothing but blanks may follow the value of a whole text. -/

namespace RubyIndex.JsonReader

/-! ## Blanks and literals -/

/-- The characters that may stand between the parts of a JSON text. -/
def isSpace (character : Char) : Bool :=
  character == ' ' || character == '\t' || character == '\n' || character == '\r'

/-- A text without the blanks at its front. -/
def skipSpace (text : List Char) : List Char := text.dropWhile isSpace

/-- The rest of a text after a literal word. -/
def afterWord? (word text : List Char) : Option (List Char) :=
  if word.isPrefixOf text then some (text.drop word.length) else none

/-! ## Numbers -/

/-- One or more digits and the rest of the text. -/
def digits? (text : List Char) : Option (List Char × List Char) :=
  match text.takeWhile Char.isDigit with
  | [] => none
  | digits => some (digits, text.dropWhile Char.isDigit)

/-- The integral part of a number, which has no leading zeros. -/
def integral? : List Char → Option (List Char × List Char)
  | '0' :: rest => some (['0'], rest)
  | text => digits? text

/-- The fraction of a number, if there is one. -/
def fraction? : List Char → Option (List Char × List Char)
  | '.' :: rest => (digits? rest).map fun (digits, rest) => ('.' :: digits, rest)
  | text => some ([], text)

/-- The sign of an exponent, if there is one. -/
def exponentSign : List Char → List Char × List Char
  | '+' :: rest => (['+'], rest)
  | '-' :: rest => (['-'], rest)
  | text => ([], text)

/-- The exponent of a number, if there is one. -/
def exponent? : List Char → Option (List Char × List Char)
  | [] => some ([], [])
  | mark :: rest =>
      if mark = 'e' ∨ mark = 'E' then
        let (sign, unsigned) := exponentSign rest
        (digits? unsigned).map fun (digits, rest) => (mark :: (sign ++ digits), rest)
      else some ([], mark :: rest)

/-- A number without its sign. -/
def unsigned? (text : List Char) : Option (List Char × List Char) := do
  let (integral, rest) ← integral? text
  let (fraction, rest) ← fraction? rest
  let (exponent, rest) ← exponent? rest
  return (integral ++ fraction ++ exponent, rest)

/-- The literal of a number. -/
def number? : List Char → Option (List Char × List Char)
  | '-' :: rest => (unsigned? rest).map fun (literal, rest) => ('-' :: literal, rest)
  | text => unsigned? text

/-! ## Strings -/

/-- The value of a hexadecimal digit. -/
def hexValue? (character : Char) : Option Nat :=
  if '0' ≤ character ∧ character ≤ '9' then some (character.toNat - '0'.toNat)
  else if 'a' ≤ character ∧ character ≤ 'f' then some (character.toNat - 'a'.toNat + 10)
  else if 'A' ≤ character ∧ character ≤ 'F' then some (character.toNat - 'A'.toNat + 10)
  else none

/-- The number written by four hexadecimal digits. -/
def hexCode? (first second third fourth : Char) : Option Nat := do
  let first ← hexValue? first
  let second ← hexValue? second
  let third ← hexValue? third
  let fourth ← hexValue? fourth
  return ((first * 16 + second) * 16 + third) * 16 + fourth

/-- The code of a character that is escaped by a single letter or mark. -/
def shortEscape? : Char → Option Nat
  | '"' => some 0x22
  | '\\' => some 0x5C
  | '/' => some 0x2F
  | 'b' => some 0x08
  | 'f' => some 0x0C
  | 'n' => some 0x0A
  | 'r' => some 0x0D
  | 't' => some 0x09
  | _ => none

/-- The codes of a string after its opening quote, and the rest after its closing quote. -/
def codes? : List Char → Option (List Nat × List Char)
  | [] => none
  | '"' :: rest => some ([], rest)
  | '\\' :: 'u' :: first :: second :: third :: fourth :: rest => do
      let code ← hexCode? first second third fourth
      let (codes, rest) ← codes? rest
      return (code :: codes, rest)
  | '\\' :: escaped :: rest => do
      let code ← shortEscape? escaped
      let (codes, rest) ← codes? rest
      return (code :: codes, rest)
  | character :: rest =>
      if character = '\\' ∨ character.toNat < 0x20 then none
      else do
        let (codes, rest) ← codes? rest
        return (character.toNat :: codes, rest)

/-- Whether a code is the first half of a surrogate pair. -/
def isLeading (code : Nat) : Bool := 0xD800 ≤ code && code < 0xDC00

/-- Whether a code is the second half of a surrogate pair. -/
def isTrailing (code : Nat) : Bool := 0xDC00 ≤ code && code < 0xE000

/-- The characters of a list of codes, where surrogates count only in pairs. -/
def characters? : List Nat → Option (List Char)
  | [] => some []
  | [code] => if isLeading code || isTrailing code then none else some [Char.ofNat code]
  | code :: following :: rest =>
      -- two halves are one character, and a half by itself is none
      if isLeading code && isTrailing following then
        (characters? rest).map
          (Char.ofNat (0x10000 + (code - 0xD800) * 0x400 + (following - 0xDC00)) :: ·)
      else if isLeading code || isTrailing code then none
      else (characters? (following :: rest)).map (Char.ofNat code :: ·)

/-- A string after its opening quote, by its text. -/
def string? (text : List Char) : Option (Option String × List Char) :=
  (codes? text).map fun (codes, rest) => ((characters? codes).map String.ofList, rest)

/-! ## Values -/

mutual

/-- A value, read with a bound on its depth and number of parts. -/
def value? : Nat → List Char → Option (JsonValue × List Char)
  | 0, _ => none
  | bound + 1, text =>
      match skipSpace text with
      | '"' :: rest => (string? rest).map fun (text, rest) => (.string text, rest)
      | '[' :: rest =>
          match skipSpace rest with
          | ']' :: rest => some (.array [], rest)
          | rest => (items? bound rest).map fun (items, rest) => (.array items, rest)
      | '{' :: rest =>
          match skipSpace rest with
          | '}' :: rest => some (.object [], rest)
          | rest => (members? bound rest).map fun (members, rest) => (.object members, rest)
      | 'n' :: rest => (afterWord? "ull".toList rest).map (.null, ·)
      | 't' :: rest => (afterWord? "rue".toList rest).map (.boolean true, ·)
      | 'f' :: rest => (afterWord? "alse".toList rest).map (.boolean false, ·)
      | rest => (number? rest).map fun (literal, rest) => (.number literal, rest)

/-- One or more values with commas between them, and the bracket that closes them. -/
def items? : Nat → List Char → Option (List JsonValue × List Char)
  | 0, _ => none
  | bound + 1, text => do
      let (item, rest) ← value? bound text
      match skipSpace rest with
      | ']' :: rest => return ([item], rest)
      | ',' :: rest =>
          let (items, rest) ← items? bound rest
          return (item :: items, rest)
      | _ => none

/-- One or more members with commas between them, and the brace that closes them. -/
def members? : Nat → List Char → Option (List (Option String × JsonValue) × List Char)
  | 0, _ => none
  | bound + 1, text =>
      match skipSpace text with
      | '"' :: rest => do
          let (name, rest) ← string? rest
          match skipSpace rest with
          | ':' :: rest =>
              let (value, rest) ← value? bound rest
              match skipSpace rest with
              | '}' :: rest => return ([(name, value)], rest)
              | ',' :: rest =>
                  let (members, rest) ← members? bound rest
                  return ((name, value) :: members, rest)
              | _ => none
          | _ => none
      | _ => none

end

/-- The value of a whole JSON text. -/
def read? (text : String) : Option JsonValue :=
  let characters := text.toList
  match value? (2 * characters.length + 2) characters with
  | some (value, rest) => if (skipSpace rest).isEmpty then some value else none
  | none => none

end RubyIndex.JsonReader
