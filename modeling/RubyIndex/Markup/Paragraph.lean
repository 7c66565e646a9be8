import RubyIndex.Text.Blank
import RubyIndex.Text.Search
import RubyIndex.Text.Width

/-! # Paragraphs

The paragraphs of a text are its maximal runs of lines that are not blank, each with the byte
offset at which it starts. -/

namespace RubyIndex.Markup

/-- A paragraph with its byte offset in the whole text. -/
structure Paragraph where
  start : Nat
  text : List Char
  deriving DecidableEq, Repr

/-- A paragraph with a further line. -/
def Paragraph.addLine (paragraph : Paragraph) (line : List Char) : Paragraph :=
  { paragraph with text := paragraph.text ++ '\n' :: line }

/-- The paragraphs of the given lines, the first of which starts at a byte offset, when they
follow the lines of an unfinished paragraph. -/
def paragraphsFrom (start : Nat) (unfinished : Option Paragraph) :
    List (List Char) → List Paragraph
  | [] => unfinished.toList
  | line :: rest =>
      let next := start + Text.byteWidth line + 1
      if Text.isBlankText line then unfinished.toList ++ paragraphsFrom next none rest
      else
        match unfinished with
        | none => paragraphsFrom next (some ⟨start, line⟩) rest
        | some paragraph => paragraphsFrom next (some (paragraph.addLine line)) rest

/-- The paragraphs of a text. -/
def paragraphs (text : List Char) : List Paragraph :=
  paragraphsFrom 0 none (Text.pieces '\n' text)

end RubyIndex.Markup
