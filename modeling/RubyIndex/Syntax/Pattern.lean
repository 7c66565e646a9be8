/-! # Lexical patterns

Regular patterns over characters, the texts they match, and the length of the longest matching
beginning of a text, found by taking derivatives. -/

namespace RubyIndex.Syntax

/-- A regular pattern over characters. -/
inductive Pattern where
  /-- Matches no text. -/
  | never
  /-- Matches the empty text only. -/
  | empty
  /-- Matches one character of a class. -/
  | one (accepts : Char → Bool)
  /-- Matches a text of the first pattern followed by one of the second. -/
  | sequence (first second : Pattern)
  /-- Matches the texts of either pattern. -/
  | either (left right : Pattern)
  /-- Matches any number of texts of a pattern, one after the other. -/
  | many (item : Pattern)

namespace Pattern

/-- The texts a pattern matches. -/
inductive Matches : Pattern → List Char → Prop where
  | empty : Matches .empty []
  | one {accepts : Char → Bool} {character : Char} (accepted : accepts character = true) :
      Matches (.one accepts) [character]
  | sequence {first second : Pattern} {front back : List Char}
      (matchesFront : Matches first front) (matchesBack : Matches second back) :
      Matches (.sequence first second) (front ++ back)
  | left {left right : Pattern} {text : List Char} (matchesLeft : Matches left text) :
      Matches (.either left right) text
  | right {left right : Pattern} {text : List Char} (matchesRight : Matches right text) :
      Matches (.either left right) text
  | manyNone {item : Pattern} : Matches (.many item) []
  | manyMore {item : Pattern} {front back : List Char}
      (matchesFront : Matches item front) (matchesBack : Matches (.many item) back) :
      Matches (.many item) (front ++ back)

/-- Matches one given character. -/
def char (expected : Char) : Pattern := .one (· == expected)

/-- Matches the given characters in order. -/
def chars : List Char → Pattern
  | [] => .empty
  | [only] => char only
  | first :: rest => .sequence (char first) (chars rest)

/-- Matches exactly the given text. -/
def literal (text : String) : Pattern := chars text.toList

/-- Matches a pattern or the empty text. -/
def optional (pattern : Pattern) : Pattern := .either pattern .empty

/-- Matches the given patterns one after the other. -/
def inOrder : List Pattern → Pattern
  | [] => .empty
  | [only] => only
  | first :: rest => .sequence first (inOrder rest)

/-- Matches a non-empty repetition of a pattern. -/
def atLeastOne (pattern : Pattern) : Pattern := .sequence pattern (.many pattern)

/-- Whether a pattern matches the empty text. -/
def nullable : Pattern → Bool
  | .never => false
  | .empty => true
  | .one _ => false
  | .sequence first second => first.nullable && second.nullable
  | .either left right => left.nullable || right.nullable
  | .many _ => true

/-- Sequencing that drops a part which matches nothing or only the empty text. -/
def followedBy : Pattern → Pattern → Pattern
  | .never, _ => .never
  | .empty, second => second
  | first, second => .sequence first second

/-- Alternation that drops a part which matches nothing. -/
def orElse : Pattern → Pattern → Pattern
  | .never, right => right
  | left, .never => left
  | left, right => .either left right

/-- The pattern of what may follow a character at the front of a matching text. -/
def derivative (character : Char) : Pattern → Pattern
  | .never => .never
  | .empty => .never
  | .one accepts => if accepts character then .empty else .never
  | .sequence first second =>
      let afterFirst := (derivative character first).followedBy second
      if first.nullable then afterFirst.orElse (derivative character second) else afterFirst
  | .either left right => (derivative character left).orElse (derivative character right)
  | .many item => (derivative character item).followedBy (.many item)

/-- The length of the longest beginning of a text that a pattern matches. -/
def longest? (pattern : Pattern) : List Char → Option Nat
  | [] => if pattern.nullable then some 0 else none
  | character :: rest =>
      match pattern with
      | .never => none
      | pattern =>
          match (pattern.derivative character).longest? rest with
          | some length => some (length + 1)
          | none => if pattern.nullable then some 0 else none

end Pattern

end RubyIndex.Syntax
