/-! # Kinds of tokens and of syntax nodes

The lexical kinds of Ruby text, the kinds of node the grammar groups them into, their
display names, and the classes of tokens the grammar decides by. -/

namespace RubyIndex.Syntax

/-- The lexical kind of a token. -/
inductive TokenKind where
  /-- Blanks and tabs, or an escaped line break. -/
  | whitespace
  /-- A line break. -/
  | newline
  /-- A comment up to the end of its line. -/
  | comment
  | ident
  | const
  | instanceVariable
  | classVariable
  | globalVariable
  | integer
  | float
  | string
  | symbol
  | leftParen
  | rightParen
  | leftBracket
  | rightBracket
  | leftBrace
  | rightBrace
  | comma
  | dot
  | dotDot
  | colon
  | colonColon
  | semicolon
  | eq
  | eqEq
  | eqEqEq
  | eqTilde
  | bangEq
  | lt
  | gt
  | ltEq
  | gtEq
  | spaceship
  | shiftLeft
  | shiftRight
  | plus
  | minus
  | star
  | starStar
  | slash
  | percent
  | bang
  | question
  | amp
  | ampAmp
  | pipe
  | pipePipe
  | fatArrow
  | arrow
  /-- A compound assignment operator such as `+=` or `||=`. -/
  | opAssign
  | moduleKw
  | classKw
  | defKw
  | endKw
  | selfKw
  | doKw
  | ifKw
  | unlessKw
  | whileKw
  | untilKw
  | caseKw
  | beginKw
  | forKw
  | thenKw
  | elseKw
  | elsifKw
  | whenKw
  | inKw
  | rescueKw
  | ensureKw
  | returnKw
  | yieldKw
  | superKw
  | nilKw
  | trueKw
  | falseKw
  | andKw
  | orKw
  | notKw
  /-- Text that belongs to no other kind. -/
  | error
  deriving DecidableEq, Repr

namespace TokenKind

/-- The display name of a token kind. -/
def name : TokenKind → String
  | whitespace => "WHITESPACE"
  | newline => "NEWLINE"
  | comment => "COMMENT"
  | ident => "IDENT"
  | const => "CONST"
  | instanceVariable => "IVAR"
  | classVariable => "CVAR"
  | globalVariable => "GVAR"
  | integer => "INTEGER"
  | float => "FLOAT"
  | string => "STRING"
  | symbol => "SYMBOL"
  | leftParen => "L_PAREN"
  | rightParen => "R_PAREN"
  | leftBracket => "L_BRACKET"
  | rightBracket => "R_BRACKET"
  | leftBrace => "L_BRACE"
  | rightBrace => "R_BRACE"
  | comma => "COMMA"
  | dot => "DOT"
  | dotDot => "DOT_DOT"
  | colon => "COLON"
  | colonColon => "COLON_COLON"
  | semicolon => "SEMICOLON"
  | eq => "EQ"
  | eqEq => "EQ_EQ"
  | eqEqEq => "EQ_EQ_EQ"
  | eqTilde => "EQ_TILDE"
  | bangEq => "BANG_EQ"
  | lt => "LT"
  | gt => "GT"
  | ltEq => "LT_EQ"
  | gtEq => "GT_EQ"
  | spaceship => "SPACESHIP"
  | shiftLeft => "SHL"
  | shiftRight => "SHR"
  | plus => "PLUS"
  | minus => "MINUS"
  | star => "STAR"
  | starStar => "STAR_STAR"
  | slash => "SLASH"
  | percent => "PERCENT"
  | bang => "BANG"
  | question => "QUESTION"
  | amp => "AMP"
  | ampAmp => "AMP_AMP"
  | pipe => "PIPE"
  | pipePipe => "PIPE_PIPE"
  | fatArrow => "FAT_ARROW"
  | arrow => "ARROW"
  | opAssign => "OP_ASSIGN"
  | moduleKw => "MODULE_KW"
  | classKw => "CLASS_KW"
  | defKw => "DEF_KW"
  | endKw => "END_KW"
  | selfKw => "SELF_KW"
  | doKw => "DO_KW"
  | ifKw => "IF_KW"
  | unlessKw => "UNLESS_KW"
  | whileKw => "WHILE_KW"
  | untilKw => "UNTIL_KW"
  | caseKw => "CASE_KW"
  | beginKw => "BEGIN_KW"
  | forKw => "FOR_KW"
  | thenKw => "THEN_KW"
  | elseKw => "ELSE_KW"
  | elsifKw => "ELSIF_KW"
  | whenKw => "WHEN_KW"
  | inKw => "IN_KW"
  | rescueKw => "RESCUE_KW"
  | ensureKw => "ENSURE_KW"
  | returnKw => "RETURN_KW"
  | yieldKw => "YIELD_KW"
  | superKw => "SUPER_KW"
  | nilKw => "NIL_KW"
  | trueKw => "TRUE_KW"
  | falseKw => "FALSE_KW"
  | andKw => "AND_KW"
  | orKw => "OR_KW"
  | notKw => "NOT_KW"
  | error => "ERROR"

/-- Blanks, line breaks and comments, which carry no meaning of their own. -/
def isTrivia : TokenKind → Bool
  | whitespace | newline | comment => true
  | _ => false

/-- The reserved words. -/
def isKeyword : TokenKind → Bool
  | moduleKw | classKw | defKw | endKw | selfKw | doKw | ifKw | unlessKw | whileKw | untilKw
  | caseKw | beginKw | forKw | thenKw | elseKw | elsifKw | whenKw | inKw | rescueKw | ensureKw
  | returnKw | yieldKw | superKw | nilKw | trueKw | falseKw | andKw | orKw | notKw => true
  | _ => false

/-- The names that may stand alone on the left of an assignment. -/
def isVariable : TokenKind → Bool
  | instanceVariable | classVariable | globalVariable | ident | const => true
  | _ => false

/-- The keywords that begin a construct closed by `end`, definitions and `do` apart. -/
def opensBlock : TokenKind → Bool
  | ifKw | unlessKw | whileKw | untilKw | caseKw | beginKw | forKw => true
  | _ => false

/-- The keywords that may trail a finished statement. -/
def isModifier : TokenKind → Bool
  | ifKw | unlessKw | whileKw | untilKw | rescueKw => true
  | _ => false

/-- The tokens after which a value is complete, so that a following keyword is a modifier. -/
def endsValue : TokenKind → Bool
  | ident | const | instanceVariable | classVariable | globalVariable | integer | float | string
  | symbol | rightParen | rightBracket | rightBrace | endKw | selfKw | nilKw | trueKw | falseKw
  | returnKw | yieldKw | superKw => true
  | _ => false

/-- The tokens after which a line break does not end an expression. -/
def continuesLine : TokenKind → Bool
  | comma | dot | eq | eqEq | bangEq | lt | gt | ltEq | gtEq | plus | minus | star | slash
  | percent | ampAmp | pipePipe | fatArrow | opAssign | andKw | orKw | question | colon => true
  | _ => false

/-- The opening brackets of the three bracket pairs. -/
def isOpening : TokenKind → Bool
  | leftParen | leftBracket | leftBrace => true
  | _ => false

/-- The closing brackets of the three bracket pairs. -/
def isClosing : TokenKind → Bool
  | rightParen | rightBracket | rightBrace => true
  | _ => false

/-- What may stand between two statements: blanks, line breaks, comments and `;`. -/
def separatesStatements : TokenKind → Bool
  | whitespace | newline | comment | semicolon => true
  | _ => false

/-- The keywords that continue an `end`-terminated construct with a further clause. -/
def opensClause : TokenKind → Bool
  | elseKw | elsifKw | whenKw | inKw | rescueKw | ensureKw | thenKw => true
  | _ => false

/-- The operators that can be defined as methods. -/
def isOperatorName : TokenKind → Bool
  | plus | minus | star | starStar | slash | percent | eqEq | eqEqEq | eqTilde | bang | bangEq
  | lt | gt | ltEq | gtEq | spaceship | shiftLeft | shiftRight | amp | pipe => true
  | _ => false

/-- The named classes a token kind can belong to, in their listing order. -/
def classes : List (String × (TokenKind → Bool)) :=
  [("trivia", isTrivia), ("keyword", isKeyword), ("variable", isVariable),
    ("opens_block", opensBlock), ("modifier", isModifier), ("ends_value", endsValue),
    ("continues_line", continuesLine)]

/-- The names of the classes a token kind belongs to. -/
def classNames (kind : TokenKind) : List String :=
  classes.filterMap fun (className, belongs) => if belongs kind then some className else none

end TokenKind

/-- The kind of an inner node of a syntax tree. -/
inductive NodeKind where
  /-- The whole text. -/
  | sourceFile
  /-- The statements and clauses between the header of a construct and its `end`. -/
  | body
  | moduleDef
  | classDef
  /-- The possibly qualified name of a module or class. -/
  | constPath
  | superclass
  | methodDef
  /-- The receiver of a singleton method with its dot. -/
  | singleton
  | methodName
  | paramList
  | assign
  /-- The variable on the left of an assignment. -/
  | varField
  /-- The value on the right of an assignment. -/
  | expr
  | statement
  | block
  /-- Tokens skipped to recover from a syntax error. -/
  | error
  deriving DecidableEq, Repr

namespace NodeKind

/-- The display name of a node kind. -/
def name : NodeKind → String
  | sourceFile => "SOURCE_FILE"
  | body => "BODY"
  | moduleDef => "MODULE_DEF"
  | classDef => "CLASS_DEF"
  | constPath => "CONST_PATH"
  | superclass => "SUPERCLASS"
  | methodDef => "METHOD_DEF"
  | singleton => "SINGLETON"
  | methodName => "METHOD_NAME"
  | paramList => "PARAM_LIST"
  | assign => "ASSIGN"
  | varField => "VAR_FIELD"
  | expr => "EXPR"
  | statement => "STATEMENT"
  | block => "BLOCK"
  | error => "ERROR"

/-- The nodes that define a module, a class or a method. -/
def isDefinition : NodeKind → Bool
  | moduleDef | classDef | methodDef => true
  | _ => false

end NodeKind

end RubyIndex.Syntax
