import RubyIndex.Syntax.Kind

/-! # Where expressions end

An expression is read as a run of tokens. What a token does to the run depends on how the run
is used, on the brackets that are open, and on the last meaningful token read. -/

namespace RubyIndex.Syntax

/-- What an expression is used for. -/
inductive ExpressionMode where
  /-- A whole statement, to which trailing modifiers belong. -/
  | statement
  /-- A value, which ends before a trailing modifier. -/
  | value
  /-- The header of a loop, where `do` is a separator and opens no block. -/
  | loopHeader
  deriving DecidableEq, Repr

/-- The state of an expression that is being read. -/
structure ExpressionRun where
  mode : ExpressionMode
  /-- The number of open brackets. -/
  depth : Nat
  /-- The last token read that is not trivia; a nested construct counts as its `end`. -/
  last : Option TokenKind
  deriving DecidableEq, Repr

namespace ExpressionRun

/-- An expression of which nothing has been read. -/
def start (mode : ExpressionMode) : ExpressionRun := ⟨mode, 0, none⟩

/-- Whether the last token was a `.`, after which a keyword is a method name. -/
def afterDot (run : ExpressionRun) : Bool := run.last == some .dot

/-- Whether the last token completed a value. -/
def afterValue (run : ExpressionRun) : Bool := run.last.any (·.endsValue)

/-- Whether the last token needs more to follow, be it on the next line. -/
def expectsMore (run : ExpressionRun) : Bool := run.last.any (·.continuesLine)

/-- Whether a token of the given kind stands after the end of the expression. -/
def endsBefore (run : ExpressionRun) (kind : TokenKind) : Bool :=
  if run.afterDot && kind.isKeyword then false
  -- inside brackets nothing ends an expression, not even an `end`
  else if run.depth != 0 then false
  else
    match kind with
    | .newline => !run.expectsMore
    | .comment | .semicolon | .rightParen | .rightBracket | .rightBrace
    | .endKw | .elseKw | .elsifKw | .whenKw | .ensureKw => true
    -- after a value these are trailing modifiers, which belong to a statement only
    | .rescueKw => !run.afterValue || run.mode == .value
    | .ifKw | .unlessKw | .whileKw | .untilKw => run.afterValue && run.mode == .value
    | _ => false

/-- What the next token of an expression is read as. -/
inductive Step where
  /-- A token of the expression itself, after which the run goes on. -/
  | token (next : ExpressionRun)
  /-- The opening of a nested block. -/
  | block
  /-- The opening of a nested method definition. -/
  | method
  deriving DecidableEq, Repr

/-- The run after a nested construct. -/
def afterNested (run : ExpressionRun) : ExpressionRun := { run with last := some .endKw }

/-- The run after a token of the given kind. -/
def afterToken (run : ExpressionRun) (kind : TokenKind) : ExpressionRun :=
  { run with
    depth :=
      if kind.isOpening then run.depth + 1
      else if kind.isClosing then run.depth - 1
      else run.depth
    last := if kind.isTrivia then run.last else some kind }

/-- Whether a block opener is read as a trailing modifier instead. -/
def readsAsModifier (run : ExpressionRun) (kind : TokenKind) : Bool :=
  kind.isModifier && run.afterValue

/-- What a token that does not end the expression is read as. A keyword after a `.` is a method
name and a keyword before a `:` is a hash label; neither opens a nested construct. -/
def step (run : ExpressionRun) (kind : TokenKind) (label : Bool) : Step :=
  if run.afterDot || (kind.isKeyword && label) then .token (run.afterToken kind)
  else if kind == .doKw && run.mode != .loopHeader then .block
  else if kind == .defKw then .method
  else if kind.opensBlock && !run.readsAsModifier kind then .block
  else .token (run.afterToken kind)

end ExpressionRun

end RubyIndex.Syntax
