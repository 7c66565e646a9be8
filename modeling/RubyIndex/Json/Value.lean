/-! # JSON values

JSON values as they are written in a text, and their compact written form. Numbers keep their
literals. A string with an unpaired surrogate escape is a JSON string but no text. -/

namespace RubyIndex

/-- A JSON value. -/
inductive JsonValue where
  | null
  | boolean (value : Bool)
  /-- A number, by the characters of its literal. -/
  | number (literal : List Char)
  /-- A string; it has no text if a surrogate in it is unpaired. -/
  | string (text : Option String)
  | array (items : List JsonValue)
  /-- An object with its members in the order of the text, repeated names included. -/
  | object (members : List (Option String × JsonValue))

namespace JsonValue

/-- The string with the given text. -/
def ofString (text : String) : JsonValue := .string (some text)

/-- The number of a natural number. -/
def ofNat (value : Nat) : JsonValue := .number (Nat.toDigits 10 value)

/-- An object with the given members. -/
def ofMembers (members : List (String × JsonValue)) : JsonValue :=
  .object (members.map fun (name, value) => (some name, value))

/-! ## The written form -/

/-- The lowercase hexadecimal digit of a number below sixteen. -/
def hexDigit (value : Nat) : Char := Nat.digitChar value

/-- A character as it is written inside a string. -/
def writeChar (character : Char) : List Char :=
  if character = '"' then ['\\', '"']
  else if character = '\\' then ['\\', '\\']
  else if character = '\n' then ['\\', 'n']
  else if character = '\r' then ['\\', 'r']
  else if character = '\t' then ['\\', 't']
  else if character = '\x08' then ['\\', 'b']
  else if character = '\x0c' then ['\\', 'f']
  else if character.toNat < 0x20 then
    ['\\', 'u', '0', '0', hexDigit (character.toNat / 16), hexDigit (character.toNat % 16)]
  else [character]

/-- A string in its written form; what has no text is written as an unpaired surrogate. -/
def writeString : Option String → List Char
  | some text => '"' :: (text.toList.flatMap writeChar ++ ['"'])
  | none => "\"\\ud800\"".toList

mutual

/-- The compact written form of a value. -/
def write : JsonValue → List Char
  | .null => "null".toList
  | .boolean true => "true".toList
  | .boolean false => "false".toList
  | .number literal => literal
  | .string text => writeString text
  | .array items => '[' :: (writeItems items ++ [']'])
  | .object members => '{' :: (writeMembers members ++ ['}'])

/-- The written forms of values with commas between them. -/
def writeItems : List JsonValue → List Char
  | [] => []
  | [item] => write item
  | item :: following :: rest => write item ++ ',' :: writeItems (following :: rest)

/-- The written forms of members with commas between them. -/
def writeMembers : List (Option String × JsonValue) → List Char
  | [] => []
  | [(name, value)] => writeString name ++ ':' :: write value
  | (name, value) :: following :: rest =>
      writeString name ++ ':' :: (write value ++ ',' :: writeMembers (following :: rest))

end

/-- The compact written form of a value as a string. -/
def render (value : JsonValue) : String := String.ofList value.write

end JsonValue

end RubyIndex
