import RubyIndex.Json.Reader

/-! # Decoding JSON values

Decoders from JSON values to texts, truth values, numbers, lists and records. A record is an
object with known member names, or an array with the members in their order. -/

namespace RubyIndex.JsonValue

/-- The text of a string. -/
def text? : JsonValue → Option String
  | .string text => text
  | _ => none

/-- The truth value of a boolean. -/
def bool? : JsonValue → Option Bool
  | .boolean value => some value
  | _ => none

/-- The value of a literal that is digits only. -/
def digitsValue? (literal : List Char) : Option Nat :=
  if literal.all Char.isDigit then
    some (literal.foldl (fun value digit => value * 10 + (digit.toNat - '0'.toNat)) 0)
  else none

/-- A number that is written without sign, fraction and exponent and is below a limit. -/
def natBelow? (limit : Nat) : JsonValue → Option Nat
  | .number literal => (digitsValue? literal).filter (· < limit)
  | _ => none

/-- The items of an array, decoded. -/
def list? {α : Type} (decode : JsonValue → Option α) : JsonValue → Option (List α)
  | .array items => items.mapM decode
  | _ => none

/-- The members of a record in the order of the given names, where they are present. Members with
other names do not count; a name that is given twice makes no record, and neither do more items
than names. -/
def record? (names : List String) : JsonValue → Option (List (Option JsonValue))
  | .array items =>
      if items.length ≤ names.length then
        some (items.map some ++ List.replicate (names.length - items.length) none)
      else none
  | .object members =>
      if members.all (·.1.isSome) &&
          names.all (fun name => members.countP (·.1 == some name) ≤ 1) then
        some (names.map fun name => (members.find? (·.1 == some name)).map (·.2))
      else none
  | _ => none

/-- A member that must be present. -/
def required? {α : Type} (decode : JsonValue → Option α) (member : Option JsonValue) : Option α :=
  member.bind decode

/-- A member that may be absent, for which a default stands in. -/
def withDefault? {α : Type} (decode : JsonValue → Option α) (default : α) :
    Option JsonValue → Option α
  | none => some default
  | some value => decode value

/-- A member that may be absent or `null`. -/
def optional? {α : Type} (decode : JsonValue → Option α) :
    Option JsonValue → Option (Option α)
  | none => some none
  | some .null => some none
  | some value => (decode value).map some

end RubyIndex.JsonValue
