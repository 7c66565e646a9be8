import RubyIndex.Syntax.Error
import RubyIndex.Syntax.Tree

/-! # Parsers that build syntax trees

A parser takes tokens from the front of its input and turns them into trees, noting errors on
the way; it never fails and it may leave input over. Parsers are joined with `++`, and a node
is put around what a parser built with `Parser.node`. -/

namespace RubyIndex.Syntax

/-! ## Input -/

/-- The tokens still to be read and the byte offset of the first of them. -/
structure Cursor where
  offset : Nat
  tokens : List Token

namespace Cursor

/-- The kind of the next token. -/
def kind? (input : Cursor) : Option TokenKind := input.tokens.head?.map (·.kind)

/-- The kind of the token after the next one. -/
def secondKind? (input : Cursor) : Option TokenKind := input.tokens[1]?.map (·.kind)

/-- The text of the next token, empty at the end of the input. -/
def text (input : Cursor) : String := (input.tokens.head?.map (·.text)).getD ""

/-- Whether the next token is of the given kind. -/
def isAt (kind : TokenKind) (input : Cursor) : Bool := input.kind? == some kind

/-- The kind of a token of a list, counted without whitespace. Line breaks count. -/
def kindAhead? (count : Nat) : List Token → Option TokenKind
  | [] => none
  | token :: rest =>
      if token.kind = .whitespace then kindAhead? count rest
      else
        match count with
        | 0 => some token.kind
        | count + 1 => kindAhead? count rest

/-- The kind of a token ahead, counted without whitespace. -/
def ahead? (count : Nat) (input : Cursor) : Option TokenKind := kindAhead? count input.tokens

/-- Whether a `:` directly follows the next token, which makes a keyword a hash label. -/
def atLabel (input : Cursor) : Bool := input.secondKind? == some .colon

/-- An error about the next token, or about the end of the input. -/
def error (fault : SyntaxFault) (input : Cursor) : SyntaxError :=
  match input.tokens with
  | [] => ⟨fault, input.offset, input.offset⟩
  | token :: _ => ⟨fault, input.offset, input.offset + token.width⟩

/-- Where a kind is ahead, there is a token of that kind. -/
theorem exists_of_kind? {input : Cursor} {kind : TokenKind} (hkind : input.kind? = some kind) :
    ∃ offset token rest, input = ⟨offset, token :: rest⟩ ∧ token.kind = kind := by
  obtain ⟨offset, tokens⟩ := input
  cases tokens with
  | nil => cases hkind
  | cons token rest => exact ⟨offset, token, rest, rfl, Option.some.inj hkind⟩

theorem exists_of_isAt {input : Cursor} {kind : TokenKind} (hahead : input.isAt kind = true) :
    ∃ offset token rest, input = ⟨offset, token :: rest⟩ ∧ token.kind = kind :=
  exists_of_kind? (beq_iff_eq.1 hahead)

end Cursor

/-! ## Results -/

/-- What a parser built, the errors it noted in order, and the input it left. -/
structure Parsed where
  trees : List Tree
  errors : List SyntaxError
  rest : Cursor

namespace Parsed

/-- One result followed by another, which started where the first stopped. -/
def append (first second : Parsed) : Parsed :=
  ⟨first.trees ++ second.trees, first.errors ++ second.errors, second.rest⟩

/-- A result with a node around everything that was built. -/
def wrap (kind : NodeKind) (parsed : Parsed) : Parsed :=
  { parsed with trees := [.node kind parsed.trees] }

end Parsed

/-! ## Parsers -/

/-- A parser maps its input to what it built and the input it left. -/
abbrev Parser := Cursor → Parsed

namespace Parser

/-- Builds nothing and reads nothing. -/
def nothing : Parser := fun input => ⟨[], [], input⟩

/-- Reads with one parser and goes on with another. -/
def followedBy (first second : Parser) : Parser := fun input =>
  let parsed := first input
  parsed.append (second parsed.rest)

instance : Append Parser := ⟨followedBy⟩

/-- Puts a node around what a parser builds. -/
def node (kind : NodeKind) (parser : Parser) : Parser := fun input => (parser input).wrap kind

/-- Notes an error about the next token. -/
def report (fault : SyntaxFault) : Parser := fun input => ⟨[], [input.error fault], input⟩

/-- Takes the next token, if there is one. -/
def advance : Parser := fun input =>
  match input.tokens with
  | [] => nothing input
  | token :: rest => ⟨[.leaf token], [], ⟨input.offset + token.width, rest⟩⟩

/-- Takes the given tokens as long as their kind is accepted. -/
def advanceAmong (accepts : TokenKind → Bool) (offset : Nat) : List Token → Parsed
  | [] => ⟨[], [], ⟨offset, []⟩⟩
  | token :: rest =>
      if accepts token.kind then
        let parsed := advanceAmong accepts (offset + token.width) rest
        { parsed with trees := .leaf token :: parsed.trees }
      else ⟨[], [], ⟨offset, token :: rest⟩⟩

/-- Takes tokens as long as their kind is accepted. -/
def advanceWhile (accepts : TokenKind → Bool) : Parser := fun input =>
  advanceAmong accepts input.offset input.tokens

/-- Takes whitespace within a line. -/
def skipWhitespace : Parser := advanceWhile (· == .whitespace)

/-- Goes on with one of two parsers, as the input ahead decides. -/
def ifAhead (condition : Cursor → Bool) (positive negative : Parser) : Parser := fun input =>
  if condition input then positive input else negative input

/-- Goes on with a parser if the input ahead asks for it. -/
def whenAhead (condition : Cursor → Bool) (parser : Parser) : Parser :=
  ifAhead condition parser nothing

/-- Takes the next token if it is of the given kind, and otherwise notes an error. -/
def expect (kind : TokenKind) (fault : SyntaxFault) : Parser :=
  ifAhead (·.isAt kind) advance (report fault)

end Parser

end RubyIndex.Syntax
