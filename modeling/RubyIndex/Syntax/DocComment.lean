import RubyIndex.Syntax.Site
import RubyIndex.Text.Blank

/-! # Doc comments

The doc comment of a node is the block of whole-line comments directly above it. A blank line
ends the block, and so does anything that is no blank, line break or comment. -/

namespace RubyIndex.Syntax

/-- The text of a comment without its marker, one space after it, and trailing blanks. -/
def commentText (comment : String) : String :=
  let unmarked :=
    match comment.toList with
    | '#' :: rest => rest
    | text => text
  let indented :=
    match unmarked with
    | ' ' :: rest => rest
    | text => text
  String.ofList (Text.trimEnd indented)

/-- Whether only whitespace stands between the start of a line, or of the parent, and what
follows the given trees, which are listed nearest first. -/
def atLineStart : List Tree → Bool
  | [] => true
  | .node _ _ :: _ => false
  | .leaf token :: before =>
      match token.kind with
      | .whitespace => atLineStart before
      | .newline => true
      | _ => false

/-- The comment texts above a node, nearest first, read off the trees before it, nearest first.
`atBreak` says that a line break has been read since the last comment. -/
def commentsAbove (atBreak : Bool) : List Tree → List String
  | [] => []
  | .node _ _ :: _ => []
  | .leaf token :: before =>
      match token.kind with
      | .whitespace => commentsAbove atBreak before
      -- two line breaks in a row are a blank line
      | .newline => if atBreak then [] else commentsAbove true before
      | .comment =>
          if atLineStart before then commentText token.text :: commentsAbove false before else []
      | _ => []

/-- The lines of a comment block without empty lines at its ends, if any line is left. -/
def commentBlock? (lines : List String) : Option String :=
  let trimmed := ((lines.dropWhile (·.isEmpty)).reverse.dropWhile (·.isEmpty)).reverse
  if trimmed.isEmpty then none else some ("\n".intercalate trimmed)

/-- The doc comment of a node. -/
def Site.docComment? (site : Site) : Option String :=
  commentBlock? (commentsAbove false site.place.preceding).reverse

end RubyIndex.Syntax
