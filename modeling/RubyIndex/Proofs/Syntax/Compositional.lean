import RubyIndex.Syntax.Grammar

/-! # Properties that parsers inherit from their parts

A property that relates the input of a parser to its result is compositional if joining results
and putting nodes around them keeps it. The grammar is made of the same few combinators
throughout, so every construct and every production has a compositional property as soon as the
productions inside it have. Some kinds of node stand apart, because later readings of the tree rely
on what is inside them: they are put around the results of one parser only, and a property may use
what that parser does.

* `Grammar.Encloses` is what nodes are put around.
* `Compositional` is what a property has to keep.
* `Grammar.satisfies_layer` carries it from productions to the constructs over them.
* `Production.satisfies` is the induction on how deep productions call each other. -/

namespace RubyIndex.Syntax

open RubyIndex.Syntax.Parser

/-- The kinds of node that are put around whatever has been built. -/
def NodeKind.isLoose : NodeKind → Bool
  | .moduleDef | .classDef | .methodDef | .methodName | .assign => false
  | _ => true

/-- **What a node is put around.** Loose nodes are put around anything. Any other node is put around
what the parser of its construct builds, where the keyword of the construct is ahead. -/
def Grammar.Encloses (parse : Production → Parser) (kind : NodeKind) (input : Cursor)
    (contents : Parsed) : Prop :=
  match kind with
  | .moduleDef => input.isAt .moduleKw = true ∧
      Grammar.moduleDefinition parse input = contents.wrap .moduleDef
  | .classDef => input.isAt .classKw = true ∧
      Grammar.classDefinition parse input = contents.wrap .classDef
  | .methodDef => input.isAt .defKw = true ∧
      Grammar.methodDefinition parse input = contents.wrap .methodDef
  | .methodName => contents = Grammar.methodNameTokens input
  | .assign => Grammar.assignment parse input = contents.wrap .assign
  | _ => True

theorem Grammar.encloses_of_isLoose {kind : NodeKind} (hkind : kind.isLoose = true)
    (parse : Production → Parser) (input : Cursor) (contents : Parsed) :
    Grammar.Encloses parse kind input contents := by
  cases kind <;> first | exact True.intro | cases hkind

namespace Parser

/-- The results of a parser stand in a relation to its inputs. -/
def Satisfies (holds : Cursor → Parsed → Prop) (parser : Parser) : Prop :=
  ∀ input, holds input (parser input)

/-- **A sequential property.** It holds of the results that take nothing, and it is kept by a
token in front and by joining results. -/
class Sequential (holds : Cursor → Parsed → Prop) : Prop where
  nothing : ∀ input, holds input ⟨[], [], input⟩
  report : ∀ fault input, holds input ⟨[], [input.error fault], input⟩
  cons : ∀ {offset : Nat} {rest : List Token} {parsed : Parsed} (token : Token),
    holds ⟨offset + token.width, rest⟩ parsed →
      holds ⟨offset, token :: rest⟩ { parsed with trees := .leaf token :: parsed.trees }
  append : ∀ {input : Cursor} {first second : Parsed},
    holds input first → holds first.rest second → holds input (first.append second)

/-- **A compositional property.** A sequential property that nodes around what they enclose
keep. -/
class Compositional (holds : Cursor → Parsed → Prop) : Prop extends Sequential holds where
  wrap : ∀ {parse : Production → Parser} {kind : NodeKind} {input : Cursor} {contents : Parsed},
    Grammar.Encloses parse kind input contents → holds input contents →
      holds input (contents.wrap kind)

variable {holds : Cursor → Parsed → Prop}

namespace Satisfies

/-! ## Combinators -/

section Sequential

variable [Sequential holds]

theorem nothing : Satisfies holds nothing := Sequential.nothing

theorem report (fault : SyntaxFault) : Satisfies holds (report fault) := Sequential.report fault

theorem followedBy {first second : Parser} (hfirst : Satisfies holds first)
    (hsecond : Satisfies holds second) : Satisfies holds (first ++ second) :=
  fun input => Sequential.append (hfirst input) (hsecond _)

theorem advance : Satisfies holds advance := by
  intro ⟨offset, tokens⟩
  cases tokens with
  | nil => exact nothing ⟨offset, []⟩
  | cons token rest => exact Sequential.cons token (nothing ⟨offset + token.width, rest⟩)

omit [Sequential holds] in
theorem ifAhead (condition : Cursor → Bool) {positive negative : Parser}
    (hpositive : Satisfies holds positive) (hnegative : Satisfies holds negative) :
    Satisfies holds (ifAhead condition positive negative) := by
  intro input
  unfold Parser.ifAhead
  split
  · exact hpositive input
  · exact hnegative input

theorem whenAhead (condition : Cursor → Bool) {parser : Parser} (h : Satisfies holds parser) :
    Satisfies holds (whenAhead condition parser) := h.ifAhead condition nothing

theorem expect (kind : TokenKind) (fault : SyntaxFault) : Satisfies holds (expect kind fault) :=
  advance.ifAhead _ (report fault)

theorem advanceWhile (accepts : TokenKind → Bool) : Satisfies holds (advanceWhile accepts) := by
  intro ⟨offset, tokens⟩
  show holds ⟨offset, tokens⟩ (advanceAmong accepts offset tokens)
  -- the offset moves with every token, so it is generalized
  induction tokens generalizing offset with
  | nil => exact nothing ⟨offset, []⟩
  | cons token rest ih =>
    rw [advanceAmong]
    split
    · exact Sequential.cons token (ih (offset + token.width))
    · exact nothing ⟨offset, token :: rest⟩

theorem skipWhitespace : Satisfies holds skipWhitespace := advanceWhile _

/-- The tokens of the name of a method are taken one by one. -/
theorem methodNameTokens : Satisfies holds Grammar.methodNameTokens := by
  intro input
  unfold Grammar.methodNameTokens
  split
  · exact (advance.followedBy (advance.whenAhead _)) input
  · exact (advance.followedBy (advance.whenAhead _)) input
  · exact ((advance.followedBy (advance.whenAhead _)).followedBy (advance.whenAhead _)) input
  · split
    · exact advance input
    · exact report _ input
  · exact report _ input

end Sequential

/-- A loose node. -/
theorem node [Compositional holds] {kind : NodeKind} (hkind : kind.isLoose = true)
    {parser : Parser} (h : Satisfies holds parser) : Satisfies holds (node kind parser) :=
  fun input =>
    Compositional.wrap (Grammar.encloses_of_isLoose hkind (fun _ => parser) input _) (h input)

end Satisfies

end Parser

namespace Grammar

variable {holds : Cursor → Parsed → Prop}

/-! ## Tokens -/

section Sequential

variable [Sequential holds]

theorem satisfies_parenthesized : Satisfies holds parenthesized := by
  intro ⟨offset, tokens⟩
  show holds ⟨offset, tokens⟩ (parenthesizedAmong 0 offset tokens)
  -- the depth of the open parentheses changes from token to token
  generalize 0 = depth
  fun_induction parenthesizedAmong depth offset tokens with
  | case1 depth offset => exact Sequential.report _ _
  | case2 depth offset token rest depthAfter closes =>
    exact Sequential.cons token (Sequential.nothing ⟨offset + token.width, rest⟩)
  | case3 depth offset token rest depthAfter goesOn parsed ih => exact Sequential.cons token ih

theorem satisfies_skipStuck : Satisfies holds skipStuck := fun input =>
  (Satisfies.report _).followedBy .advance input

end Sequential

variable [Compositional holds]

/-! ## Names and headers -/

theorem satisfies_qualifiers :
    Satisfies holds fun input => qualifiersAmong input.offset input.tokens := by
  intro ⟨offset, tokens⟩
  show holds ⟨offset, tokens⟩ (qualifiersAmong offset tokens)
  fun_induction qualifiersAmong offset tokens with
  | case1 offset colons constant rest isQualifier parsed ih =>
    exact Sequential.cons colons (Sequential.cons constant ih)
  | case2 offset colons constant rest isOther => exact Sequential.nothing _
  | case3 offset tokens isShort => exact Sequential.nothing _

theorem satisfies_constPath : Satisfies holds constPath :=
  (((Satisfies.advance.whenAhead _).followedBy (.expect _ _)).followedBy
    satisfies_qualifiers).node (by decide)

theorem satisfies_definedName (construct : Construct) : Satisfies holds (definedName construct) :=
  satisfies_constPath.ifAhead _ (.report _)

theorem satisfies_closing (construct : Construct) : Satisfies holds (closing construct) :=
  .expect _ _

theorem satisfies_methodName : Satisfies holds methodName := by
  intro input
  have hencloses : Encloses (fun _ => nothing) .methodName input (methodNameTokens input) := rfl
  exact Compositional.wrap hencloses (Satisfies.methodNameTokens input)

theorem satisfies_receiver : Satisfies holds receiver :=
  ((Satisfies.advance.followedBy .advance).node (by decide)).whenAhead _

/-! ## Keywords ahead -/

/-- The keyword that a definition begins with. -/
def StatementForm.keyword? : StatementForm → Option TokenKind
  | .moduleDefinition => some .moduleKw
  | .classDefinition => some .classKw
  | .methodDefinition => some .defKw
  | _ => none

/-- Where a definition is ahead, its keyword is. -/
theorem isAt_of_statementForm (input : Cursor) (form : StatementForm) (keyword : TokenKind)
    (hform : statementForm input = form) (hkeyword : form.keyword? = some keyword) :
    input.isAt keyword = true := by
  unfold statementForm at hform
  unfold Cursor.isAt
  split at hform <;> grind [StatementForm.keyword?]

/-- Where an expression goes on with a method definition, its keyword is ahead. -/
theorem isAt_of_step {input : Cursor} {run : ExpressionRun} {kind : TokenKind} {label : Bool}
    (hkind : input.kind? = some kind) (hstep : run.step kind label = .method) :
    input.isAt .defKw = true := by
  unfold ExpressionRun.step at hstep
  unfold Cursor.isAt
  grind

/-! ## Constructs -/

section Constructs

variable {parse : Production → Parser} (hparse : ∀ production, Satisfies holds (parse production))

include hparse

omit [Compositional holds] in
theorem satisfies_expression (mode : ExpressionMode) :
    Satisfies holds (expression parse mode) := hparse _

theorem satisfies_body : Satisfies holds (body parse) := (hparse _).node (by decide)

theorem holds_moduleDefinition {input : Cursor} (hahead : input.isAt .moduleKw = true) :
    holds input (moduleDefinition parse input) := by
  have hcontents : Satisfies holds (advance ++ skipWhitespace ++ definedName .moduleDef ++
      body parse ++ closing .moduleDef) :=
    (((Satisfies.advance.followedBy .skipWhitespace).followedBy
      (satisfies_definedName _)).followedBy (satisfies_body hparse)).followedBy
      (satisfies_closing _)
  have hencloses : Encloses parse .moduleDef input _ := ⟨hahead, rfl⟩
  exact Compositional.wrap hencloses (hcontents input)

theorem satisfies_superclass : Satisfies holds (superclass parse) :=
  (((Satisfies.skipWhitespace.followedBy .advance).followedBy .skipWhitespace).followedBy
    ((satisfies_expression hparse _).node (by decide))).whenAhead _

theorem holds_classDefinition {input : Cursor} (hahead : input.isAt .classKw = true) :
    holds input (classDefinition parse input) := by
  have hcontents : Satisfies holds (advance ++ skipWhitespace ++ definedName .classDef ++
      superclass parse ++ body parse ++ closing .classDef) :=
    ((((Satisfies.advance.followedBy .skipWhitespace).followedBy
      (satisfies_definedName _)).followedBy (satisfies_superclass hparse)).followedBy
      (satisfies_body hparse)).followedBy (satisfies_closing _)
  have hencloses : Encloses parse .classDef input _ := ⟨hahead, rfl⟩
  exact Compositional.wrap hencloses (hcontents input)

theorem satisfies_parameters : Satisfies holds (parameters parse) :=
  (satisfies_parenthesized.node (by decide)).ifAhead _
    ((Satisfies.skipWhitespace.followedBy
      ((satisfies_expression hparse _).node (by decide))).whenAhead _)

theorem satisfies_endlessBody : Satisfies holds (endlessBody parse) :=
  ((Satisfies.skipWhitespace.followedBy .advance).followedBy .skipWhitespace).followedBy
    (((satisfies_expression hparse _).node (by decide)).node (by decide))

theorem holds_methodDefinition {input : Cursor} (hahead : input.isAt .defKw = true) :
    holds input (methodDefinition parse input) := by
  have hcontents : Satisfies holds (advance ++ skipWhitespace ++ receiver ++ methodName ++
      parameters parse ++ ifAhead (·.ahead? 0 == some .eq) (endlessBody parse)
        (body parse ++ closing .methodDef)) :=
    ((((Satisfies.advance.followedBy .skipWhitespace).followedBy satisfies_receiver).followedBy
      satisfies_methodName).followedBy (satisfies_parameters hparse)).followedBy
      ((satisfies_endlessBody hparse).ifAhead _
        ((satisfies_body hparse).followedBy (satisfies_closing _)))
  have hencloses : Encloses parse .methodDef input _ := ⟨hahead, rfl⟩
  exact Compositional.wrap hencloses (hcontents input)

theorem satisfies_assignment : Satisfies holds (assignment parse) := by
  intro input
  have hcontents : Satisfies holds (Parser.node .varField advance ++ skipWhitespace ++ advance ++
      advanceWhile (fun kind => kind == .whitespace || kind == .newline) ++
      Parser.node .expr (expression parse .value)) :=
    ((((Satisfies.advance.node (by decide)).followedBy .skipWhitespace).followedBy
      .advance).followedBy (.advanceWhile _)).followedBy
      ((satisfies_expression hparse _).node (by decide))
  have hencloses : Encloses parse .assign input _ := rfl
  exact Compositional.wrap hencloses (hcontents input)

theorem satisfies_block : Satisfies holds (block parse) := fun input =>
  ((((Satisfies.advance.followedBy (satisfies_expression hparse _)).followedBy
    (satisfies_body hparse)).followedBy (satisfies_closing _)).node (by decide)) input

/-! ## Statements -/

/-- A statement with a modifier is as the statement is. -/
theorem holds_withModifier {parser : Parser} {input : Cursor} (h : holds input (parser input)) :
    holds input (withModifier parse parser input) := by
  simp only [withModifier]
  split
  · -- a modifier and its condition join what they modify in one node
    exact Compositional.wrap (encloses_of_isLoose rfl parse input _) (Sequential.append h
      (((Satisfies.skipWhitespace.followedBy .advance).followedBy
        (satisfies_expression hparse _)) _))
  · exact h

omit hparse in
theorem satisfies_skipLine (fault : SyntaxFault) : Satisfies holds (skipLine fault) :=
  (Satisfies.report fault).followedBy ((Satisfies.advanceWhile _).node (by decide))

theorem satisfies_statement : Satisfies holds (statement parse) := by
  intro input
  have hkeyword := isAt_of_statementForm input
  unfold statement
  split
  · rename_i hform
    exact holds_withModifier hparse (holds_moduleDefinition hparse (hkeyword _ _ hform rfl))
  · rename_i hform
    exact holds_withModifier hparse (holds_classDefinition hparse (hkeyword _ _ hform rfl))
  · rename_i hform
    exact holds_withModifier hparse (holds_methodDefinition hparse (hkeyword _ _ hform rfl))
  · exact holds_withModifier hparse (satisfies_block hparse input)
  · exact holds_withModifier hparse (satisfies_assignment hparse input)
  · exact satisfies_skipLine _ input
  · exact satisfies_skipLine _ input
  · exact (satisfies_expression hparse _).node (by decide) input

/-! ## Productions -/

theorem satisfies_progress : Satisfies holds (progress parse) := by
  intro input
  simp only [progress]
  -- a statement that took nothing is followed by one token that is skipped
  split
  · exact satisfies_statement hparse input
  · exact Sequential.append (satisfies_statement hparse input) (satisfies_skipStuck _)

theorem satisfies_statements (nested : Bool) : Satisfies holds (statements parse nested) :=
  (Satisfies.advanceWhile _).followedBy
    (Satisfies.nothing.ifAhead _ ((satisfies_progress hparse).followedBy (hparse _)))

theorem satisfies_clauses : Satisfies holds (clauses parse) := by
  have hheaded : Satisfies holds (advance ++ expression parse .statement ++ parse .clauses) :=
    (Satisfies.advance.followedBy (satisfies_expression hparse _)).followedBy (hparse _)
  have hbare : Satisfies holds (advance ++ parse .clauses) :=
    Satisfies.advance.followedBy (hparse _)
  refine (hparse _).followedBy fun input => ?_
  split
  · exact hheaded input
  · exact hheaded input
  · exact hheaded input
  · exact hheaded input
  · exact hbare input
  · exact hbare input
  · exact hbare input
  · exact Satisfies.nothing input

theorem satisfies_remainder (run : ExpressionRun) : Satisfies holds (remainder parse run) := by
  intro input
  unfold remainder
  split
  · -- at the end of the text
    exact Satisfies.nothing input
  · -- whitespace belongs to the expression if what comes after it does
    split
    · exact Satisfies.nothing input
    · exact Satisfies.advance.followedBy (hparse _) input
  · -- any other token ends the expression, belongs to it, or opens a construct inside it
    rename_i kind _ hkind
    split
    · exact Satisfies.nothing input
    · split
      · exact Satisfies.advance.followedBy (hparse _) input
      · exact (satisfies_block hparse).followedBy (hparse _) input
      · rename_i hstep
        exact Sequential.append (holds_methodDefinition hparse (isAt_of_step hkind hstep))
          (hparse _ _)

theorem satisfies_layer (production : Production) : Satisfies holds (layer parse production) := by
  cases production with
  | statements nested => exact satisfies_statements hparse nested
  | clauses => exact satisfies_clauses hparse
  | expression run => exact satisfies_remainder hparse run

end Constructs

end Grammar

/-- **Productions inherit**: a compositional property holds of every production, to whatever depth
it is read. -/
theorem Production.satisfies {holds : Cursor → Parsed → Prop} [Compositional holds] (bound : Nat)
    (production : Production) : Satisfies holds (Production.parser bound production) := by
  induction bound generalizing production with
  | zero =>
    -- where the bound is used up, a token is skipped with a report
    exact Grammar.satisfies_skipStuck
  | succ bound ih => exact Grammar.satisfies_layer ih production

end RubyIndex.Syntax
