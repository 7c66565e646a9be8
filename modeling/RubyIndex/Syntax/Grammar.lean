import RubyIndex.Syntax.Expression
import RubyIndex.Syntax.Parser

/-! # The grammar

The grammar of the Ruby constructs that define names. Modules, classes, methods, assignments and
`end`-terminated blocks get nodes of their own; all else stays a flat run of tokens inside a
`statement` or `expr` node. Three productions call each other: the statements of a list, the
statements and clauses of a body, and the remainder of an expression. Every other construct is a
parser over these three, and the productions are read with a bound on how often they call each
other that no input exceeds. -/

namespace RubyIndex.Syntax

open RubyIndex.Syntax.Parser

/-- A production that can contain itself. -/
inductive Production where
  /-- The statements up to the end of the text, or up to `end` or a clause if nested. -/
  | statements (nested : Bool)
  /-- The statements and clauses of a construct up to its `end`. -/
  | clauses
  /-- The remainder of an expression that is being read. -/
  | expression (run : ExpressionRun)

namespace Grammar

/-! ## Names and headers -/

/-- A constant that follows a `::`. -/
def qualifierAhead (input : Cursor) : Bool :=
  input.isAt .colonColon && input.secondKind? == some .const

/-- Takes the `::` and constant pairs that continue a qualified name. -/
def qualifiersAmong (offset : Nat) : List Token → Parsed
  | colons :: constant :: rest =>
      if colons.kind == .colonColon && constant.kind == .const then
        let parsed := qualifiersAmong (offset + colons.width + constant.width) rest
        { parsed with trees := .leaf colons :: .leaf constant :: parsed.trees }
      else ⟨[], [], ⟨offset, colons :: constant :: rest⟩⟩
  | tokens => ⟨[], [], ⟨offset, tokens⟩⟩

/-- A possibly qualified constant name. -/
def constPath : Parser :=
  node .constPath (whenAhead (·.isAt .colonColon) advance ++ expect .const .missingConstant ++
    fun input => qualifiersAmong input.offset input.tokens)

/-- The name in the header of a module or class. -/
def definedName (construct : Construct) : Parser :=
  ifAhead (fun input => input.isAt .const || input.isAt .colonColon)
    constPath (report (.missingName construct))

/-- The `end` of a construct. -/
def closing (construct : Construct) : Parser := expect .endKw (.missingEnd construct)

/-- Whether a `=` belongs to the method name before it. -/
def setterAhead (input : Cursor) : Bool :=
  input.isAt .eq &&
    (input.secondKind? == some .leftParen || input.secondKind? == some .ident)

/-- The tokens of the name of a method: an identifier or constant, `[]` or `[]=`, an operator, or
a keyword. -/
def methodNameTokens : Parser := fun input =>
  match input.kind? with
  | some .ident | some .const => (advance ++ whenAhead setterAhead advance) input
  | some .leftBracket =>
      (advance ++ whenAhead (·.isAt .rightBracket) advance ++
        whenAhead (fun input => input.isAt .eq && input.secondKind? == some .leftParen)
          advance) input
  | some kind =>
      if kind.isOperatorName || kind.isKeyword then advance input
      else report .missingMethodName input
  | none => report .missingMethodName input

/-- The name of a method. -/
def methodName : Parser := node .methodName methodNameTokens

/-- Whether the receiver of a singleton method is ahead. -/
def receiverAhead (input : Cursor) : Bool :=
  (input.isAt .selfKw || input.isAt .const) && input.secondKind? == some .dot

/-- The receiver of a singleton method with its dot, if there is one. -/
def receiver : Parser := whenAhead receiverAhead (node .singleton (advance ++ advance))

/-- Takes tokens up to the parenthesis that closes the first one. -/
def parenthesizedAmong (depth offset : Nat) : List Token → Parsed
  | [] => report (.unclosed .leftParen) ⟨offset, []⟩
  | token :: rest =>
      let depthAfter :=
        if token.kind == .leftParen then depth + 1
        else if token.kind == .rightParen then depth - 1
        else depth
      if token.kind == .rightParen && depthAfter == 0 then
        ⟨[.leaf token], [], ⟨offset + token.width, rest⟩⟩
      else
        let parsed := parenthesizedAmong depthAfter (offset + token.width) rest
        { parsed with trees := .leaf token :: parsed.trees }

/-- A parenthesized run with its nested pairs, over any number of lines. -/
def parenthesized : Parser := fun input => parenthesizedAmong 0 input.offset input.tokens

/-- Whether parameters without parentheses are ahead. -/
def bareParametersAhead (input : Cursor) : Bool :=
  input.isAt .whitespace &&
    match input.ahead? 0 with
    | none | some .newline | some .semicolon | some .comment | some .eq => false
    | some _ => true

/-! ## Constructs

Each construct takes `parse`, the parsers of the productions inside it. -/

variable (parse : Production → Parser)

/-- A whole expression. -/
def expression (mode : ExpressionMode) : Parser := parse (.expression (.start mode))

/-- The body of a construct. -/
def body : Parser := node .body (parse .clauses)

/-- A module definition. -/
def moduleDefinition : Parser :=
  node .moduleDef (advance ++ skipWhitespace ++ definedName .moduleDef ++ body parse ++
    closing .moduleDef)

/-- The superclass in the header of a class, if there is one. -/
def superclass : Parser :=
  whenAhead (·.ahead? 0 == some .lt) (skipWhitespace ++ advance ++ skipWhitespace ++
    node .superclass (expression parse .value))

/-- A class definition. -/
def classDefinition : Parser :=
  node .classDef (advance ++ skipWhitespace ++ definedName .classDef ++ superclass parse ++
    body parse ++ closing .classDef)

/-- The parameters of a method, with or without parentheses, if there are any. -/
def parameters : Parser :=
  ifAhead (·.isAt .leftParen) (node .paramList parenthesized)
    (whenAhead bareParametersAhead
      (skipWhitespace ++ node .paramList (expression parse .value)))

/-- The single statement of a method that is defined with `=`. -/
def endlessBody : Parser :=
  skipWhitespace ++ advance ++ skipWhitespace ++
    node .body (node .statement (expression parse .value))

/-- A method definition. -/
def methodDefinition : Parser :=
  node .methodDef (advance ++ skipWhitespace ++ receiver ++ methodName ++ parameters parse ++
    ifAhead (·.ahead? 0 == some .eq) (endlessBody parse) (body parse ++ closing .methodDef))

/-- An assignment to a variable. -/
def assignment : Parser :=
  node .assign (node .varField advance ++ skipWhitespace ++ advance ++
    advanceWhile (fun kind => kind == .whitespace || kind == .newline) ++
    node .expr (expression parse .value))

/-- How the header of a block is read, as its opener decides. -/
def headerMode : Option TokenKind → ExpressionMode
  | some .whileKw | some .untilKw | some .forKw => .loopHeader
  | _ => .statement

/-- A block: its opener, its header, its body and its `end`. -/
def block : Parser := fun input =>
  node .block (advance ++ expression parse (headerMode input.kind?) ++ body parse ++
    closing .block) input

/-! ## Statements -/

/-- The form of a statement, as its first tokens decide. -/
inductive StatementForm where
  | moduleDefinition
  | classDefinition
  | methodDefinition
  | block
  | assignment
  /-- An `end` or closing bracket that closes nothing. -/
  | unexpected
  /-- A clause that continues nothing. -/
  | strayClause
  | plain
  deriving DecidableEq, Repr

/-- The form of the statement ahead. -/
def statementForm (input : Cursor) : StatementForm :=
  match input.kind? with
  | none => .plain
  | some .moduleKw => .moduleDefinition
  -- `class <<` opens a singleton class, which has no name to register
  | some .classKw => if input.ahead? 1 == some .shiftLeft then .block else .classDefinition
  | some .defKw => .methodDefinition
  | some kind =>
      if kind.opensBlock && !input.atLabel then .block
      else if kind.isVariable && input.ahead? 1 == some .eq then .assignment
      else if kind == .endKw || kind.isClosing then .unexpected
      else if kind.opensClause then .strayClause
      else .plain

/-- A statement with a trailing modifier, if there is one, as a `statement` node. -/
def withModifier (parser : Parser) : Parser := fun input =>
  let parsed := parser input
  -- the node goes around what has been built already
  if (parsed.rest.ahead? 0).any (·.isModifier) then
    (parsed.append ((skipWhitespace ++ advance ++ expression parse .statement)
      parsed.rest)).wrap .statement
  else parsed

/-- Notes an error and takes the rest of the line into an `error` node. -/
def skipLine (fault : SyntaxFault) : Parser :=
  report fault ++ node .error (advanceWhile fun kind => kind != .newline && kind != .semicolon)

/-- One statement. -/
def statement : Parser := fun input =>
  match statementForm input with
  | .moduleDefinition => withModifier parse (moduleDefinition parse) input
  | .classDefinition => withModifier parse (classDefinition parse) input
  | .methodDefinition => withModifier parse (methodDefinition parse) input
  | .block => withModifier parse (block parse) input
  | .assignment => withModifier parse (assignment parse) input
  | .unexpected => skipLine (.unexpected input.text) input
  | .strayClause => skipLine (.strayClause input.text) input
  | .plain => node .statement (expression parse .statement) input

/-! ## Productions -/

/-- Notes that no rule makes progress and skips the token in the way. -/
def skipStuck : Parser := fun input =>
  (report (.stuck (input.kind?.getD .error)) ++ advance) input

/-- Whether a list of statements ends here. -/
def statementsEnd (nested : Bool) (input : Cursor) : Bool :=
  match input.kind? with
  | none => true
  | some kind => nested && (kind == .endKw || kind.opensClause)

/-- A statement, or a skipped token where the statement would be empty. -/
def progress : Parser := fun input =>
  let parsed := statement parse input
  -- a list of statements has to move on with every round
  if parsed.rest.tokens.length < input.tokens.length then parsed
  else parsed.append (skipStuck parsed.rest)

/-- The statements of a list with everything that separates them. -/
def statements (nested : Bool) : Parser :=
  advanceWhile (·.separatesStatements) ++
    ifAhead (statementsEnd nested) nothing (progress parse ++ parse (.statements nested))

/-- The statements of a body, clause after clause. -/
def clauses : Parser :=
  parse (.statements true) ++ fun input =>
    match input.kind? with
    | some .elsifKw | some .whenKw | some .inKw | some .rescueKw =>
        (advance ++ expression parse .statement ++ parse .clauses) input
    | some .elseKw | some .ensureKw | some .thenKw => (advance ++ parse .clauses) input
    | _ => nothing input

/-- The remainder of an expression. -/
def remainder (run : ExpressionRun) : Parser := fun input =>
  match input.kind? with
  | none => nothing input
  | some .whitespace =>
      if (input.ahead? 0).all run.endsBefore then nothing input
      else (advance ++ parse (.expression run)) input
  | some kind =>
      if run.endsBefore kind then nothing input
      else
        match run.step kind input.atLabel with
        | .token next => (advance ++ parse (.expression next)) input
        | .block => (block parse ++ parse (.expression run.afterNested)) input
        | .method => (methodDefinition parse ++ parse (.expression run.afterNested)) input

/-- One layer of a production over the productions inside it. -/
def layer : Production → Parser
  | .statements nested => statements parse nested
  | .clauses => clauses parse
  | .expression run => remainder parse run

end Grammar

/-- The parser of a production that may call productions inside it to a bounded depth. -/
def Production.parser : Nat → Production → Parser
  | 0, _ => Grammar.skipStuck
  | bound + 1, production => Grammar.layer (Production.parser bound) production

/-- A depth that productions over the given number of tokens do not reach. -/
def Production.bound (tokens : Nat) : Nat := 3 * tokens + 3

/-- A syntax tree with the errors noted while it was built. -/
structure Parse where
  tree : Tree
  errors : List SyntaxError

/-- Whether a text was read without errors. -/
def Parse.ok (parse : Parse) : Bool := parse.errors.isEmpty

/-- What the statements of a whole token list are parsed to. -/
def parseTokens (tokens : List Token) : Parsed :=
  Production.parser (Production.bound tokens.length) (.statements false) ⟨0, tokens⟩

/-- The syntax tree of a text. -/
def parse (source : String) : Parse :=
  let parsed := parseTokens (Token.tokenize source)
  ⟨.node .sourceFile parsed.trees, parsed.errors⟩

end RubyIndex.Syntax
