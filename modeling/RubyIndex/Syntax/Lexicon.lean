import RubyIndex.Syntax.Kind
import RubyIndex.Syntax.Pattern

/-! # The lexicon of Ruby text

Each lexical rule pairs a token kind with the pattern of its texts. At every position the rule
that reaches furthest wins, and of equally far-reaching rules the one listed first; a character
that no rule accepts is an `error` token of its own. A quoted literal that is never closed is an
`error` token as well: it holds the opening quote and every item that could have stood inside. -/

namespace RubyIndex.Syntax

open Pattern

/-! ## Character classes -/

/-- The characters that may begin a variable name after its sigil. -/
def beginsName (character : Char) : Bool := character.isAlpha || character == '_'

/-- The characters that may continue a name. -/
def continuesName (character : Char) : Bool := character.isAlphanum || character == '_'

/-- The characters that may continue a number. -/
def continuesNumber (character : Char) : Bool := character.isDigit || character == '_'

/-! ## Shared patterns -/

/-- A letter or underscore followed by the rest of a name. -/
def namePattern : Pattern := .sequence (.one beginsName) (.many (.one continuesName))

/-- A name that begins with a small letter or an underscore and may end in `?` or `!`. -/
def identifierPattern : Pattern :=
  inOrder [.one fun character => character.isLower || character == '_',
    .many (.one continuesName),
    .optional (.one fun character => character == '?' || character == '!')]

/-- A name that begins with a capital letter. -/
def constantPattern : Pattern := inOrder [.one Char.isUpper, .many (.one continuesName)]

/-- A name after its sigil. -/
def sigilPattern (sigil : String) : Pattern := inOrder [literal sigil, namePattern]

/-- A digit followed by digits and underscores. -/
def digitsPattern : Pattern := .sequence (.one Char.isDigit) (.many (.one continuesNumber))

/-- One item of a quoted literal: a plain character, or a backslash with what it escapes. -/
def quotedItem (quote : Char) : Pattern :=
  .either (.one fun character => character != quote && character != '\\')
    (.sequence (char '\\') (.one (· != '\n')))

/-- A quoted literal up to, but without, its closing quote. -/
def unclosedPattern (opening : String) (quote : Char) : Pattern :=
  .sequence (literal opening) (.many (quotedItem quote))

/-- A quoted literal with its closing quote. -/
def quotedPattern (opening : String) (quote : Char) : Pattern :=
  inOrder [literal opening, .many (quotedItem quote), char quote]

/-! ## The rules -/

/-- A lexical rule: the kind of token and the pattern of its texts. -/
structure LexicalRule where
  kind : TokenKind
  pattern : Pattern

/-- The reserved words with their kinds. -/
def keywords : List (String × TokenKind) :=
  [("module", .moduleKw), ("class", .classKw), ("def", .defKw), ("end", .endKw),
    ("self", .selfKw), ("do", .doKw), ("if", .ifKw), ("unless", .unlessKw),
    ("while", .whileKw), ("until", .untilKw), ("case", .caseKw), ("begin", .beginKw),
    ("for", .forKw), ("then", .thenKw), ("else", .elseKw), ("elsif", .elsifKw),
    ("when", .whenKw), ("in", .inKw), ("rescue", .rescueKw), ("ensure", .ensureKw),
    ("return", .returnKw), ("yield", .yieldKw), ("super", .superKw), ("nil", .nilKw),
    ("true", .trueKw), ("false", .falseKw), ("and", .andKw), ("or", .orKw), ("not", .notKw)]

/-- The operators and punctuation marks with their kinds. -/
def marks : List (String × TokenKind) :=
  [("+=", .opAssign), ("-=", .opAssign), ("*=", .opAssign), ("/=", .opAssign),
    ("%=", .opAssign), ("**=", .opAssign), ("||=", .opAssign), ("&&=", .opAssign),
    ("|=", .opAssign), ("&=", .opAssign), ("<<=", .opAssign), (">>=", .opAssign),
    ("::", .colonColon), ("..", .dotDot), ("...", .dotDot), ("===", .eqEqEq), ("==", .eqEq),
    ("=~", .eqTilde), ("!=", .bangEq), ("<=>", .spaceship), ("<=", .ltEq), (">=", .gtEq),
    ("<<", .shiftLeft), (">>", .shiftRight), ("**", .starStar), ("&&", .ampAmp),
    ("||", .pipePipe), ("=>", .fatArrow), ("->", .arrow), ("(", .leftParen),
    (")", .rightParen), ("[", .leftBracket), ("]", .rightBracket), ("\x7b", .leftBrace),
    ("\x7d", .rightBrace), (",", .comma), (".", .dot), (":", .colon), (";", .semicolon),
    ("=", .eq), ("<", .lt), (">", .gt), ("+", .plus), ("-", .minus), ("*", .star),
    ("/", .slash), ("%", .percent), ("!", .bang), ("?", .question), ("&", .amp),
    ("|", .pipe)]

/-- The rules for blanks, line breaks, comments, names and literals. -/
def shapes : List LexicalRule :=
  [⟨.whitespace, atLeastOne (.one fun character => character == ' ' || character == '\t')⟩,
    ⟨.whitespace, inOrder [char '\\', .optional (char '\r'), char '\n']⟩,
    ⟨.newline, inOrder [.optional (char '\r'), char '\n']⟩,
    ⟨.comment, inOrder [char '#', .many (.one (· != '\n'))]⟩,
    ⟨.ident, identifierPattern⟩,
    ⟨.const, constantPattern⟩,
    ⟨.instanceVariable, sigilPattern "@"⟩,
    ⟨.classVariable, sigilPattern "@@"⟩,
    ⟨.globalVariable, sigilPattern "$"⟩,
    ⟨.integer, digitsPattern⟩,
    ⟨.float, inOrder [digitsPattern, char '.', digitsPattern,
      .optional (inOrder [.one fun character => character == 'e' || character == 'E',
        .optional (.one fun character => character == '+' || character == '-'),
        atLeastOne (.one Char.isDigit)])]⟩,
    ⟨.string, quotedPattern "\"" '"'⟩,
    ⟨.string, quotedPattern "'" '\''⟩,
    ⟨.symbol, inOrder [char ':', namePattern, .optional (.one fun character =>
      character == '?' || character == '!' || character == '=')]⟩,
    ⟨.symbol, quotedPattern ":\"" '"'⟩]

/-- The rules for quoted literals that are never closed. -/
def unclosedShapes : List LexicalRule :=
  [⟨.error, unclosedPattern "\"" '"'⟩, ⟨.error, unclosedPattern "'" '\''⟩,
    ⟨.error, unclosedPattern ":\"" '"'⟩]

/-- All lexical rules, earlier rules before later ones where both reach equally far. -/
def lexicalRules : List LexicalRule :=
  keywords.map (fun (spelling, kind) => ⟨kind, literal spelling⟩) ++ shapes ++
    marks.map (fun (spelling, kind) => ⟨kind, literal spelling⟩) ++ unclosedShapes

/-! ## The choice between rules -/

/-- A token kind with the number of characters it covers beyond the first. -/
structure Lexeme where
  kind : TokenKind
  extra : Nat
  deriving DecidableEq, Repr

/-- How far a rule reaches in a text, if it accepts the text's first character. -/
def LexicalRule.lexeme? (rule : LexicalRule) (first : Char) (rest : List Char) : Option Lexeme :=
  ((rule.pattern.derivative first).longest? rest).map fun extra => ⟨rule.kind, extra⟩

/-- The first of the furthest-reaching lexemes. -/
def furthest? : List Lexeme → Option Lexeme
  | [] => none
  | lexeme :: others =>
      match furthest? others with
      | none => some lexeme
      -- of lexemes that reach equally far, the earlier one stays
      | some best => if lexeme.extra < best.extra then some best else some lexeme

/-- The lexeme at the front of a non-empty text. -/
def lexemeAt (first : Char) (rest : List Char) : Lexeme :=
  (furthest? (lexicalRules.filterMap (·.lexeme? first rest))).getD ⟨.error, 0⟩

end RubyIndex.Syntax
