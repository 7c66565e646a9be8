import RubyIndex.Proofs.Syntax.Productions
import RubyIndex.Proofs.Syntax.Progress

/-! # The grammar builds what its productions allow

Whatever the text is, a construct gets its parts in the order of its production. Tokens are taken
without looking at them where a condition on the input ahead has been tested before, so what is
known of a token that is taken is what the condition said. The constructs are derived over
expressions that are made of tokens and nested constructs, and the productions by induction on how
deep they call each other.

* `Parsed.BuildsIn` relates a result to a language of labels.
* `Grammar.derives_layer` is the step over one layer of the grammar.
* `everyNode_readable` is the result for texts. -/

namespace RubyIndex.Syntax

open scoped Computability

open RubyIndex.Syntax.Parser Labels

/-! ## Results in a language -/

/-- **A result is built in a language** if the labels of its trees are a word of the language and
all nodes in them are produced. -/
def Parsed.BuildsIn (language : Language Label) (parsed : Parsed) : Prop :=
  parsed.trees.map Tree.label ∈ language ∧ Tree.EveryNodeOf Produced parsed.trees

namespace Parsed.BuildsIn

variable {language other : Language Label} {parsed first second : Parsed}

theorem mono (hparsed : parsed.BuildsIn language) (hle : language ≤ other) :
    parsed.BuildsIn other := ⟨hle hparsed.1, hparsed.2⟩

theorem append (hfirst : first.BuildsIn language) (hsecond : second.BuildsIn other) :
    (first.append second).BuildsIn (language * other) := by
  refine ⟨?_, Tree.everyNodeOf_append hfirst.2 hsecond.2⟩
  rw [Parsed.append, List.map_append]
  exact Language.append_mem_mul hfirst.1 hsecond.1

/-- A node is put around what its production allows. -/
theorem wrap (kind : NodeKind) (hparsed : parsed.BuildsIn kind.production) :
    (parsed.wrap kind).BuildsIn (aNode kind) := ⟨rfl, hparsed, trivial⟩

/-- What is missing takes nothing. -/
theorem missing {errors : List SyntaxError} {rest : Cursor} :
    (⟨[], errors, rest⟩ : Parsed).BuildsIn (perhaps language) :=
  ⟨(Language.mem_add _ _ _).2 (.inl rfl), trivial⟩

theorem present (hparsed : parsed.BuildsIn language) : parsed.BuildsIn (perhaps language) :=
  hparsed.mono le_sup_right

end Parsed.BuildsIn

/-- A word in front of a row of words. -/
theorem append_mem_kstar {language : Language Label} {front back : List Label}
    (hfront : front ∈ language) (hback : back ∈ language∗) : front ++ back ∈ language∗ :=
  (mul_kstar_le_kstar : language * language∗ ≤ language∗) (Language.append_mem_mul hfront hback)

/-- Expressions and lists of statements go on with any token. -/
theorem sequential_buildsIn {language : Language Label} (hnil : 1 ≤ language)
    (htoken : tokensAmong (fun _ => true) ≤ language) (hclosed : language * language ≤ language) :
    Sequential fun _ parsed => parsed.BuildsIn language where
  nothing _ := ⟨hnil rfl, trivial⟩
  report _ _ := ⟨hnil rfl, trivial⟩
  cons {_ _ parsed} token hparsed :=
    have hfront : (⟨[.leaf token], [], parsed.rest⟩ : Parsed).BuildsIn language :=
      ⟨htoken ⟨token.kind, rfl, rfl⟩, trivial, trivial⟩
    ⟨((hfront.append hparsed).mono hclosed).1, trivial, hparsed.2⟩
  append hfirst hsecond := (hfirst.append hsecond).mono hclosed

instance : Sequential fun _ parsed => parsed.BuildsIn element∗ :=
  sequential_buildsIn one_le_kstar
    ((le_add_of_le_left (le_add_of_le_left le_rfl)).trans le_kstar) (kstar_mul_kstar _).le

instance : Sequential fun _ parsed => parsed.BuildsIn ⊤ :=
  sequential_buildsIn le_top le_top le_top

/-- What a production builds: expressions are runs of tokens and nested constructs. -/
def Production.language : Production → Language Label
  | .expression _ => element∗
  | _ => ⊤

/-- A parser builds in a language, whatever its input is. -/
def Parser.Derives (language : Language Label) (parser : Parser) : Prop :=
  Satisfies (fun _ parsed => parsed.BuildsIn language) parser

namespace Grammar

/-! ## Tokens -/

/-- The token that is taken is the token ahead. -/
theorem buildsIn_advance {accepts : TokenKind → Bool} {input : Cursor} {kind : TokenKind}
    (hkind : input.kind? = some kind) (haccepts : accepts kind = true) :
    (advance input).BuildsIn (tokensAmong accepts) := by
  obtain ⟨offset, token, rest, rfl, rfl⟩ := Cursor.exists_of_kind? hkind
  exact ⟨⟨token.kind, haccepts, rfl⟩, trivial, trivial⟩

theorem buildsIn_advance_of_isAt {input : Cursor} {kind : TokenKind}
    (hahead : input.isAt kind = true) : (advance input).BuildsIn (aToken kind) :=
  buildsIn_advance (eq_of_beq hahead) (beq_self_eq_true kind)

theorem derives_advanceWhile (accepts : TokenKind → Bool) :
    Derives (tokensAmong accepts)∗ (advanceWhile accepts) := by
  intro ⟨offset, tokens⟩
  show (advanceAmong accepts offset tokens).BuildsIn _
  induction tokens generalizing offset with
  | nil => exact ⟨Language.nil_mem_kstar _, trivial⟩
  | cons token rest ih =>
    rw [advanceAmong]
    split
    · rename_i haccepts
      have hfront : (advance ⟨offset, token :: rest⟩).BuildsIn (tokensAmong accepts) :=
        buildsIn_advance rfl haccepts
      obtain ⟨hlabels, hnodes⟩ := ih (offset + token.width)
      exact ⟨append_mem_kstar hfront.1 hlabels, trivial, hnodes⟩
    · exact ⟨Language.nil_mem_kstar _, trivial⟩

theorem derives_skipWhitespace : Derives blanks skipWhitespace := derives_advanceWhile _

/-- Where there is whitespace, it is taken. -/
theorem buildsIn_skipWhitespace {input : Cursor} (hahead : input.isAt .whitespace = true) :
    (skipWhitespace input).BuildsIn (aToken .whitespace * blanks) := by
  obtain ⟨offset, token, rest, rfl, hblank⟩ := Cursor.exists_of_isAt hahead
  have hfront : (advance ⟨offset, token :: rest⟩).BuildsIn (aToken .whitespace) :=
    buildsIn_advance_of_isAt hahead
  obtain ⟨hlabels, hnodes⟩ := derives_skipWhitespace ⟨offset + token.width, rest⟩
  rw [skipWhitespace, advanceWhile, advanceAmong, if_pos (beq_iff_eq.2 hblank)]
  exact ⟨Language.append_mem_mul hfront.1 hlabels, trivial, hnodes⟩

/-- A token behind whitespace is taken with the whitespace. -/
theorem buildsIn_skipWhitespace_advance {input : Cursor} {kind : TokenKind}
    (hahead : (input.ahead? 0 == some kind) = true) :
    ((skipWhitespace ++ advance) input).BuildsIn (blanks * aToken kind) := by
  rw [ahead?_zero] at hahead
  exact (derives_skipWhitespace input).append (buildsIn_advance_of_isAt hahead)

/-- A token that is optional. -/
theorem derives_whenAhead_advance (kind : TokenKind) (condition : Cursor → Bool)
    (hcondition : ∀ input, condition input = true → input.isAt kind = true) :
    Derives (perhaps (aToken kind)) (whenAhead condition advance) := by
  intro input
  unfold whenAhead ifAhead
  split
  · rename_i hahead
    exact (buildsIn_advance_of_isAt (hcondition input hahead)).present
  · exact .missing

theorem derives_expect (kind : TokenKind) (fault : SyntaxFault) :
    Derives (perhaps (aToken kind)) (expect kind fault) := by
  intro input
  unfold expect ifAhead
  split
  · rename_i hahead
    exact (buildsIn_advance_of_isAt hahead).present
  · exact .missing

theorem derives_closing (construct : Construct) :
    Derives (perhaps (aToken .endKw)) (closing construct) := derives_expect _ _

/-! ## Names -/

/-- The qualifiers of a name are taken in pairs. -/
theorem derives_qualifiers : Derives (aToken .colonColon * aToken .const)∗
    fun input => qualifiersAmong input.offset input.tokens := by
  intro ⟨offset, tokens⟩
  show (qualifiersAmong offset tokens).BuildsIn _
  fun_induction qualifiersAmong offset tokens with
  | case1 offset colons constant rest isQualifier parsed ih =>
    rw [Bool.and_eq_true] at isQualifier
    have hcolons : [Label.token colons.kind] ∈ aToken .colonColon :=
      ⟨colons.kind, isQualifier.1, rfl⟩
    have hconst : [Label.token constant.kind] ∈ aToken .const :=
      ⟨constant.kind, isQualifier.2, rfl⟩
    exact ⟨append_mem_kstar (Language.append_mem_mul hcolons hconst) ih.1, trivial, trivial, ih.2⟩
  | case2 => exact ⟨Language.nil_mem_kstar _, trivial⟩
  | case3 => exact ⟨Language.nil_mem_kstar _, trivial⟩

theorem derives_constPath : Derives (aNode .constPath) constPath := fun input =>
  .wrap .constPath (((derives_whenAhead_advance .colonColon _ (fun _ => id) input).append
    (derives_expect .const _ _)).append (derives_qualifiers _))

theorem derives_definedName (construct : Construct) :
    Derives (perhaps (aNode .constPath)) (definedName construct) := by
  intro input
  unfold definedName ifAhead
  split
  · exact (derives_constPath input).present
  · exact .missing

/-- The name of a method is taken as one of its forms. -/
theorem derives_methodNameTokens : Derives methodNameForm methodNameTokens := by
  intro input
  have hsetter := derives_whenAhead_advance .eq setterAhead fun input hahead => by
    rw [setterAhead, Bool.and_eq_true] at hahead
    exact hahead.1
  have hclosing := derives_whenAhead_advance .rightBracket (·.isAt .rightBracket) fun _ => id
  have hassigning := derives_whenAhead_advance .eq
    (fun input => input.isAt .eq && input.secondKind? == some .leftParen) fun input hahead => by
      rw [Bool.and_eq_true] at hahead
      exact hahead.1
  have hahead : ∀ kind, input.kind? = some kind → (advance input).BuildsIn (aToken kind) :=
    fun kind hkind => buildsIn_advance hkind (beq_self_eq_true kind)
  unfold methodNameTokens
  split
  · rename_i hkind
    refine (Parsed.BuildsIn.mono ?_ (le_sup_left.trans le_sup_left)).present
    exact ((hahead _ hkind).mono le_sup_left).append (hsetter _)
  · rename_i hkind
    refine (Parsed.BuildsIn.mono ?_ (le_sup_left.trans le_sup_left)).present
    exact ((hahead _ hkind).mono le_sup_right).append (hsetter _)
  · rename_i hkind
    refine (Parsed.BuildsIn.mono ?_ (le_sup_right.trans le_sup_left)).present
    exact ((hahead _ hkind).append (hclosing _)).append (hassigning _)
  · rename_i kind _ _ _ hkind
    split
    · rename_i hname
      exact ((buildsIn_advance hkind hname).mono le_sup_right).present
    · exact .missing
  · exact .missing

theorem derives_methodName : Derives (aNode .methodName) methodName :=
  fun input => .wrap .methodName (derives_methodNameTokens input)

/-- A receiver is a node around two tokens. -/
theorem derives_receiver : Derives (perhaps (aNode .singleton)) receiver := by
  intro input
  have hinner : Derives ⊤ (advance ++ advance) := Satisfies.advance.followedBy .advance
  unfold receiver whenAhead ifAhead
  split
  · exact (Parsed.BuildsIn.wrap .singleton (hinner input)).present
  · exact .missing

/-! ## Conditions on statements -/

/-- Where an assignment is ahead, its variable is the next token and its sign comes after it. -/
theorem ahead_of_assignment {input : Cursor} (hform : statementForm input = .assignment) :
    ∃ kind, input.kind? = some kind ∧ kind.isVariable = true ∧
      (input.ahead? 1 == some .eq) = true := by
  unfold statementForm at hform
  split at hform <;> grind

/-- Where a block is ahead, its opener is the next token. -/
theorem opensNested_of_block {input : Cursor} (hform : statementForm input = .block) :
    ∃ kind, input.kind? = some kind ∧ opensNested kind = true := by
  unfold statementForm at hform
  split at hform <;> grind [opensNested]

/-- Where an expression goes on with a block, its opener is the next token. -/
theorem opensNested_of_step {run : ExpressionRun} {kind : TokenKind} {label : Bool}
    (hstep : run.step kind label = .block) : opensNested kind = true := by
  unfold ExpressionRun.step at hstep
  grind [opensNested]

/-- What comes second is ahead when the first token has been taken. -/
theorem ahead?_rest_advance {input : Cursor} {kind : TokenKind} (hkind : input.kind? = some kind)
    (hblank : kind ≠ .whitespace) : (advance input).rest.ahead? 0 = input.ahead? 1 := by
  obtain ⟨offset, token, rest, rfl, rfl⟩ := Cursor.exists_of_kind? hkind
  show Cursor.kindAhead? 0 rest = Cursor.kindAhead? 1 (token :: rest)
  rw [Cursor.kindAhead?, if_neg hblank]

/-! ## Constructs -/

section Constructs

variable {parse : Production → Parser}
  (hparse : ∀ production, Derives production.language (parse production))

include hparse

theorem derives_expression (mode : ExpressionMode) : Derives element∗ (expression parse mode) :=
  hparse (.expression (.start mode))

/-- Nodes around expressions of which nothing is said. -/
theorem derives_node_expression {kind : NodeKind} (hkind : kind.production = ⊤)
    (mode : ExpressionMode) : Derives (aNode kind) (node kind (expression parse mode)) :=
  fun input => .wrap kind ((derives_expression hparse mode input).mono (hkind ▸ le_top))

theorem derives_body : Derives (aNode .body) (body parse) := fun input =>
  .wrap .body (hparse .clauses input)

theorem buildsIn_moduleDefinition {input : Cursor} (hahead : input.isAt .moduleKw = true) :
    (moduleDefinition parse input).BuildsIn (aNode .moduleDef) :=
  .wrap .moduleDef (((((buildsIn_advance_of_isAt hahead).append
    (derives_skipWhitespace _)).append (derives_definedName _ _)).append
    (derives_body hparse _)).append (derives_closing _ _))

theorem derives_superclass : Derives (perhaps superclassClause) (superclass parse) := by
  intro input
  unfold superclass whenAhead ifAhead
  split
  · rename_i hahead
    exact (((buildsIn_skipWhitespace_advance hahead).append (derives_skipWhitespace _)).append
      (derives_node_expression hparse rfl _ _)).present
  · exact .missing

theorem buildsIn_classDefinition {input : Cursor} (hahead : input.isAt .classKw = true) :
    (classDefinition parse input).BuildsIn (aNode .classDef) :=
  .wrap .classDef ((((((buildsIn_advance_of_isAt hahead).append
    (derives_skipWhitespace _)).append (derives_definedName _ _)).append
    (derives_superclass hparse _)).append (derives_body hparse _)).append (derives_closing _ _))

/-- Parameters stand in parentheses or behind whitespace. -/
theorem derives_parameters : Derives (perhaps parameterClause) (parameters parse) := by
  intro input
  have hinner : Derives ⊤ parenthesized := satisfies_parenthesized
  unfold parameters whenAhead ifAhead
  split
  · exact ((Parsed.BuildsIn.wrap .paramList (hinner input)).mono le_sup_left).present
  · split
    · rename_i hahead
      rw [bareParametersAhead, Bool.and_eq_true] at hahead
      exact (((buildsIn_skipWhitespace hahead.1).append
        (derives_node_expression hparse rfl _ _)).mono le_sup_right).present
    · exact .missing

/-- A method ends with a body behind a `=`, or with its body and `end`. -/
theorem derives_methodEnd : Derives methodEnd
    (ifAhead (·.ahead? 0 == some .eq) (endlessBody parse) (body parse ++ closing .methodDef)) := by
  intro input
  unfold ifAhead
  split
  · rename_i hahead
    have hbody : Derives (aNode .body) (node .body (node .statement (expression parse .value))) :=
      fun input => .wrap .body ((derives_node_expression hparse rfl _ input).mono le_top)
    exact (((buildsIn_skipWhitespace_advance hahead).append (derives_skipWhitespace _)).append
      (hbody _)).mono le_sup_left
  · exact ((derives_body hparse input).append (derives_closing _ _)).mono le_sup_right

theorem buildsIn_methodDefinition {input : Cursor} (hahead : input.isAt .defKw = true) :
    (methodDefinition parse input).BuildsIn (aNode .methodDef) :=
  .wrap .methodDef ((((((buildsIn_advance_of_isAt hahead).append
    (derives_skipWhitespace _)).append (derives_receiver _)).append (derives_methodName _)).append
    (derives_parameters hparse _)).append (derives_methodEnd hparse _))

theorem buildsIn_assignment {input : Cursor} (hform : statementForm input = .assignment) :
    (assignment parse input).BuildsIn (aNode .assign) := by
  obtain ⟨kind, hkind, hvariable, hahead⟩ := ahead_of_assignment hform
  have htarget : (node .varField advance input).BuildsIn (aNode .varField) :=
    .wrap .varField (buildsIn_advance hkind hvariable)
  -- the sign that came second is ahead when the variable has been taken
  have hblank : kind ≠ .whitespace := by
    rintro rfl
    cases hvariable
  have hsign : ((node .varField advance ++ skipWhitespace) input).rest.isAt .eq = true := by
    rw [← ahead?_rest_advance hkind hblank, ahead?_zero] at hahead
    exact hahead
  exact .wrap .assign ((((htarget.append (derives_skipWhitespace _)).append
    (buildsIn_advance_of_isAt hsign)).append (derives_advanceWhile _ _)).append
    (derives_node_expression hparse rfl _ _))

theorem buildsIn_block {input : Cursor} {kind : TokenKind} (hkind : input.kind? = some kind)
    (hopens : opensNested kind = true) : (block parse input).BuildsIn (aNode .block) :=
  .wrap .block ((((buildsIn_advance hkind hopens).append (derives_expression hparse _ _)).append
    (derives_body hparse _)).append (derives_closing _ _))

/-! ## Statements -/

/-- A statement with a modifier is a statement, whatever stands in front of the modifier. -/
theorem buildsIn_withModifier {parser : Parser} {language : Language Label} {input : Cursor}
    (hparser : (parser input).BuildsIn language) :
    (withModifier parse parser input).BuildsIn ⊤ := by
  have htail : Derives ⊤ (skipWhitespace ++ advance ++ expression parse .statement) :=
    (Satisfies.skipWhitespace.followedBy .advance).followedBy
      fun input => (derives_expression hparse .statement input).mono le_top
  simp only [withModifier]
  split
  · exact (Parsed.BuildsIn.wrap .statement ((hparser.append (htail _)).mono le_top)).mono le_top
  · exact hparser.mono le_top

theorem derives_statement : Derives ⊤ (statement parse) := by
  intro input
  have hkeyword := isAt_of_statementForm input
  have hskipped : ∀ fault, Derives ⊤ (skipLine fault) := fun fault =>
    (Satisfies.report fault).followedBy fun input =>
      (Parsed.BuildsIn.wrap .error ((derives_advanceWhile _ input).mono le_top)).mono le_top
  unfold statement
  split
  · rename_i hform
    exact buildsIn_withModifier hparse
      (buildsIn_moduleDefinition hparse (hkeyword _ _ hform rfl))
  · rename_i hform
    exact buildsIn_withModifier hparse
      (buildsIn_classDefinition hparse (hkeyword _ _ hform rfl))
  · rename_i hform
    exact buildsIn_withModifier hparse
      (buildsIn_methodDefinition hparse (hkeyword _ _ hform rfl))
  · rename_i hform
    obtain ⟨kind, hkind, hopens⟩ := opensNested_of_block hform
    exact buildsIn_withModifier hparse (buildsIn_block hparse hkind hopens)
  · rename_i hform
    exact buildsIn_withModifier hparse (buildsIn_assignment hparse hform)
  · exact hskipped _ input
  · exact hskipped _ input
  · exact (derives_node_expression hparse rfl _ input).mono le_top

/-! ## Productions -/

theorem derives_progress : Derives ⊤ (progress parse) := by
  intro input
  simp only [progress]
  split
  · exact derives_statement hparse input
  · have hstuck : Derives ⊤ skipStuck := satisfies_skipStuck
    exact ((derives_statement hparse input).append (hstuck _)).mono le_top

theorem derives_statements (nested : Bool) : Derives ⊤ (statements parse nested) :=
  (Satisfies.advanceWhile _).followedBy
    (Satisfies.nothing.ifAhead _ ((derives_progress hparse).followedBy
      (hparse (.statements nested))))

theorem derives_clauses : Derives ⊤ (clauses parse) := by
  have hlist : ∀ production, Derives ⊤ (parse production) :=
    fun production input => (hparse production input).mono le_top
  have hheaded : Derives ⊤ (advance ++ expression parse .statement ++ parse .clauses) :=
    (Satisfies.advance.followedBy (hlist _)).followedBy (hlist _)
  have hbare : Derives ⊤ (advance ++ parse .clauses) := Satisfies.advance.followedBy (hlist _)
  have hends : Derives ⊤ nothing := Satisfies.nothing
  refine (hlist (.statements true)).followedBy fun input => ?_
  split
  · exact hheaded input
  · exact hheaded input
  · exact hheaded input
  · exact hheaded input
  · exact hbare input
  · exact hbare input
  · exact hbare input
  · exact hends input

/-- An expression goes on with a token, with a block, or with a method. -/
theorem derives_remainder (run : ExpressionRun) : Derives element∗ (remainder parse run) := by
  intro input
  have hends : Derives element∗ nothing := Satisfies.nothing
  have htoken : ∀ next, Derives element∗ (advance ++ parse (.expression next)) := fun next =>
    Satisfies.advance.followedBy (hparse (.expression next))
  have hnested : ∀ {construct : Parser}, (construct input).BuildsIn element →
      ((construct ++ parse (.expression run.afterNested)) input).BuildsIn element∗ :=
    fun hconstruct => (hconstruct.append (hparse (.expression run.afterNested) _)).mono
      mul_kstar_le_kstar
  unfold remainder
  split
  · exact hends input
  · split
    · exact hends input
    · exact htoken _ input
  · rename_i kind _ hkind
    split
    · exact hends input
    · split
      · exact htoken _ input
      · rename_i hstep
        exact hnested ((buildsIn_block hparse hkind (opensNested_of_step hstep)).mono
          (le_sup_right.trans le_sup_left))
      · rename_i hstep
        exact hnested ((buildsIn_methodDefinition hparse (isAt_of_step hkind hstep)).mono
          le_sup_right)

/-- **One layer**: over productions that build in their languages, productions build in theirs. -/
theorem derives_layer (production : Production) :
    Derives production.language (layer parse production) := by
  cases production with
  | statements nested => exact derives_statements hparse nested
  | clauses => exact derives_clauses hparse
  | expression run => exact derives_remainder hparse run

end Constructs

end Grammar

/-! ## Texts -/

/-- Productions build in their languages, to whatever depth they are read. -/
theorem Production.derives_parser (bound : Nat) (production : Production) :
    Derives production.language (Production.parser bound production) := by
  induction bound generalizing production with
  | zero =>
    -- a token that is skipped can stand in an expression as well as between statements
    have hexpression : Derives element∗ Grammar.skipStuck := Grammar.satisfies_skipStuck
    have hlist : Derives ⊤ Grammar.skipStuck := Grammar.satisfies_skipStuck
    cases production with
    | expression run => exact hexpression
    | statements nested => exact hlist
    | clauses => exact hlist
  | succ bound ih => exact Grammar.derives_layer ih production

/-- **Every node of the tree of a text is readable**, whether or not the text has errors. -/
theorem everyNode_readable (source : String) :
    (parse source).tree.EveryNode fun kind children =>
      ∀ place, Site.Readable ⟨place, kind, children⟩ := by
  have hproduced : (parse source).tree.EveryNode Produced :=
    ⟨trivial, (Production.derives_parser _ _ _).2⟩
  refine hproduced.imp fun kind children hnode hbelow place => ?_
  exact Site.readable_of_produced hnode hbelow

end RubyIndex.Syntax
