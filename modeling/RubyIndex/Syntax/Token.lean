import RubyIndex.Syntax.Lexicon

/-! # Tokens

A text is cut into tokens from left to right, each as long as the lexicon allows. Every
character ends up in exactly one token, so the token texts joined in order are the text. -/

namespace RubyIndex.Syntax

/-- A piece of the text with its lexical kind. -/
structure Token where
  kind : TokenKind
  text : String
  deriving DecidableEq, Repr

namespace Token

/-- The length of a token in bytes of UTF-8. -/
def width (token : Token) : Nat := token.text.utf8ByteSize

/-- The length of several tokens in bytes. -/
def totalWidth : List Token → Nat
  | [] => 0
  | token :: rest => token.width + totalWidth rest

@[simp] theorem totalWidth_append (front back : List Token) :
    totalWidth (front ++ back) = totalWidth front + totalWidth back := by
  induction front with
  | nil => simp [totalWidth]
  | cons token rest ih => simp [totalWidth, ih, Nat.add_assoc]

/-- The tokens of a list of characters. -/
def ofChars : List Char → List Token
  | [] => []
  | first :: rest =>
      let lexeme := lexemeAt first rest
      ⟨lexeme.kind, String.ofList (first :: rest.take lexeme.extra)⟩ ::
        ofChars (rest.drop lexeme.extra)
termination_by text => text.length
decreasing_by simp only [List.length_cons, List.length_drop]; omega

/-- The token texts joined in order are the text. -/
theorem flatMap_text_ofChars (text : List Char) :
    (ofChars text).flatMap (·.text.toList) = text := by
  fun_induction ofChars text with
  | case1 => rfl
  | case2 first rest lexeme ih => simp [ih]

/-- The tokens of a text. -/
def tokenize (text : String) : List Token := ofChars text.toList

/-- The tokens with their byte offsets, when the first stands at the given one. -/
def positioned (start : Nat) : List Token → List (Nat × Token)
  | [] => []
  | token :: rest => (start, token) :: positioned (start + token.width) rest

end Token

end RubyIndex.Syntax
