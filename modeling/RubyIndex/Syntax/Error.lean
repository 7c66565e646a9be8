import RubyIndex.Syntax.Kind

/-! # Syntax errors

What a text can lack or have too much of, the byte range each complaint points at, and the
wording of the complaints. -/

namespace RubyIndex.Syntax

/-- A construct that has a header and is closed by `end`. -/
inductive Construct where
  | moduleDef
  | classDef
  | methodDef
  | block
  deriving DecidableEq, Repr

/-- The word for a construct in messages. -/
def Construct.word : Construct → String
  | .moduleDef => "module"
  | .classDef => "class"
  | .methodDef => "method"
  | .block => "block"

/-- The cause of a syntax error. -/
inductive SyntaxFault where
  /-- The header of a module or class has no name. -/
  | missingName (construct : Construct)
  /-- A qualified name has no constant where one is due. -/
  | missingConstant
  /-- A method definition has no name. -/
  | missingMethodName
  /-- A construct is not closed by `end`. -/
  | missingEnd (construct : Construct)
  /-- An opening bracket is never closed. -/
  | unclosed (opening : TokenKind)
  /-- A statement begins with `end` or a closing bracket. -/
  | unexpected (text : String)
  /-- A statement begins with a keyword that only continues a construct. -/
  | strayClause (text : String)
  /-- No rule made progress at a token. -/
  | stuck (kind : TokenKind)
  deriving DecidableEq, Repr

/-- The wording of a syntax error. -/
def SyntaxFault.message : SyntaxFault → String
  | .missingName construct => "expected " ++ construct.word ++ " name"
  | .missingConstant => "expected constant name"
  | .missingMethodName => "expected method name"
  | .missingEnd construct => "expected `end` to close " ++ construct.word
  | .unclosed opening => "unclosed " ++ opening.name
  | .unexpected text => "unexpected `" ++ text ++ "`"
  | .strayClause text => "`" ++ text ++ "` outside of a block"
  | .stuck kind => "stuck on token: " ++ kind.name

/-- A syntax error with the byte range it points at. -/
structure SyntaxError where
  fault : SyntaxFault
  start : Nat
  stop : Nat
  deriving DecidableEq, Repr

/-- The wording of a syntax error. -/
def SyntaxError.message (error : SyntaxError) : String := error.fault.message

end RubyIndex.Syntax
