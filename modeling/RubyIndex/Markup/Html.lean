import RubyIndex.Markup.Paragraph
import RubyIndex.Text.Alphanumeric

/-! # Docstrings as HTML

Docstrings are rendered paragraph by paragraph. A `+` at the start of a word opens code that
ends at the next `+` of the paragraph; all else is plain text. -/

namespace RubyIndex.Markup

/-! ## Errors -/

/-- The cause for which a docstring cannot be rendered. -/
inductive MarkupError where
  /-- Markup that is opened at a byte offset is not closed. -/
  | unterminated (marker : Char) (offset : Nat)
  deriving DecidableEq, Repr

/-- The wording of a markup error. -/
def MarkupError.message : MarkupError → String
  | .unterminated marker offset =>
      "unterminated `" ++ marker.toString ++ "` markup starting at byte " ++ toString offset

/-! ## Inline markup -/

/-- A character as it stands in HTML text. -/
def escapeChar (character : Char) : List Char :=
  if character = '&' then "&amp;".toList
  else if character = '<' then "&lt;".toList
  else if character = '>' then "&gt;".toList
  else if character = '"' then "&quot;".toList
  else [character]

/-- Whether a `+` opens code, judged by the character before it and the text after it: it starts
a word and something other than a blank or another `+` follows. -/
def startsCode (before : Option Char) (after : List Char) : Bool :=
  before.all (fun character => !Text.isAlphanumeric character && character != '+') &&
    after.head?.any (fun character => !Text.isBlank character && character != '+')

/-- Renders the inline markup of a text that starts at a byte offset, inside or outside code,
after the given character of the same paragraph. -/
def inlineHtml (inCode : Bool) (offset : Nat) (before : Option Char) :
    List Char → Except MarkupError (List Char)
  | [] => .ok []
  | character :: rest =>
      let next := offset + character.utf8Size
      if character = '+' ∧ inCode = true then
        (inlineHtml false next (some character) rest).map ("</tt>".toList ++ ·)
      else if character = '+' ∧ startsCode before rest = true then
        -- code ends within its paragraph
        if rest.contains '+' then
          (inlineHtml true next (some character) rest).map ("<tt>".toList ++ ·)
        else .error (.unterminated character offset)
      else
        (inlineHtml inCode next (some character) rest).map (escapeChar character ++ ·)

/-! ## Whole docstrings -/

/-- A paragraph as an HTML element. -/
def paragraphHtml (paragraph : Paragraph) : Except MarkupError (List Char) :=
  (inlineHtml false paragraph.start none paragraph.text).map fun inner =>
    "<p>".toList ++ inner ++ "</p>".toList

/-- A docstring as HTML, one line of output per paragraph unless paragraphs have several. -/
def renderHtml (docstring : String) : Except MarkupError String :=
  ((paragraphs docstring.toList).mapM paragraphHtml).map fun elements =>
    String.ofList (['\n'].intercalate elements)

/-- A way to render docstrings. -/
abbrev DocRenderer := String → Except MarkupError String

end RubyIndex.Markup
