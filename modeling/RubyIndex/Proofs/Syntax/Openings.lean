import RubyIndex.Proofs.Syntax.Derivations

/-! # What nodes begin with

Blanks, line breaks and comments before a construct are taken before its node is opened: a statement
starts behind the separators, a value behind the blanks, and an expression that has not begun ends
before a comment or a line break. So no node begins with any of them, but for bodies, which begin
right behind the header of their construct.

* `Parsed.OpensInCode` is the relation between a result and its input.
* `Grammar.opens_layer` is the step over one layer of the grammar.
* `everyNode_beginsInCode` is the result for texts. -/

namespace RubyIndex.Syntax

open RubyIndex.Syntax.Parser Labels

/-- **A node begins with code** if its first token is neither a blank nor a comment. Nothing is said
of bodies. -/
def BeginsInCode (kind : NodeKind) (children : List Tree) : Prop :=
  kind = .body ∨
    ∀ first, (Tree.leavesOf children).head? = some first → first.kind.isTrivia = false

/-- A result accounts for its input, and all nodes in it begin with code. -/
def Parsed.OpensInCode (input : Cursor) (parsed : Parsed) : Prop :=
  parsed.Accounts input ∧ Tree.EveryNodeOf BeginsInCode parsed.trees

instance : Sequential Parsed.OpensInCode where
  nothing _ := ⟨⟨rfl, rfl⟩, trivial⟩
  report _ _ := ⟨⟨rfl, rfl⟩, trivial⟩
  cons token h := ⟨h.1.cons token, trivial, h.2⟩
  append hfirst hsecond := ⟨hfirst.1.append hsecond.1, Tree.everyNodeOf_append hfirst.2 hsecond.2⟩

namespace Parsed

variable {parsed : Parsed} {input : Cursor} {kind : NodeKind}

/-- The first token of a result is the token ahead. -/
theorem Accounts.kind?_of_head? (haccounts : parsed.Accounts input) {first : Token}
    (hfirst : (Tree.leavesOf parsed.trees).head? = some first) :
    input.kind? = some first.kind := by
  obtain ⟨rest, hleaves⟩ := List.head?_eq_some_iff.1 hfirst
  rw [Cursor.kind?, ← haccounts.tokens, hleaves]
  rfl

namespace OpensInCode

/-- A body may begin with anything. -/
theorem body (h : parsed.OpensInCode input) : (parsed.wrap .body).OpensInCode input :=
  ⟨h.1.wrap _, ⟨.inl rfl, h.2⟩, trivial⟩

/-- A node is put around a result that begins with code. -/
theorem wrap (h : parsed.OpensInCode input)
    (hfirst : ∀ first, (Tree.leavesOf parsed.trees).head? = some first →
      first.kind.isTrivia = false) : (parsed.wrap kind).OpensInCode input :=
  ⟨h.1.wrap _, ⟨.inr hfirst, h.2⟩, trivial⟩

/-- A node is put around a result where code is ahead. -/
theorem wrap_of_ahead (h : parsed.OpensInCode input) {found : TokenKind}
    (hahead : input.kind? = some found) (hcode : found.isTrivia = false) :
    (parsed.wrap kind).OpensInCode input := by
  refine h.wrap fun first hfirst => ?_
  obtain rfl := Option.some.inj (hahead.symm.trans (h.1.kind?_of_head? hfirst))
  exact hcode

end OpensInCode

end Parsed

namespace Grammar

/-- A parser whose results begin their nodes with code, whatever its input is. -/
abbrev Opens : Parser → Prop := Satisfies Parsed.OpensInCode

/-! ## Tokens and names -/

theorem opens_advance : Opens advance := Satisfies.advance

theorem opens_constPath {input : Cursor}
    (hahead : (input.isAt .const || input.isAt .colonColon) = true) :
    (constPath input).OpensInCode input := by
  have hqualifiers : Opens fun input => qualifiersAmong input.offset input.tokens := by
    intro ⟨offset, tokens⟩
    show (qualifiersAmong offset tokens).OpensInCode ⟨offset, tokens⟩
    fun_induction qualifiersAmong offset tokens with
    | case1 offset colons constant rest isQualifier parsed ih =>
      exact Sequential.cons colons (Sequential.cons constant ih)
    | case2 => exact Sequential.nothing _
    | case3 => exact Sequential.nothing _
  have hcontents := ((opens_advance.whenAhead (·.isAt .colonColon)).followedBy
    (.expect .const .missingConstant)).followedBy hqualifiers
  rcases (Bool.or_eq_true _ _).mp hahead with hconst | hcolons
  · exact (hcontents input).wrap_of_ahead (eq_of_beq hconst) rfl
  · exact (hcontents input).wrap_of_ahead (eq_of_beq hcolons) rfl

theorem opens_definedName (construct : Construct) : Opens (definedName construct) := by
  intro input
  unfold definedName ifAhead
  split
  · rename_i hahead
    exact opens_constPath hahead
  · exact Satisfies.report _ input

/-- The tokens of the name of a method carry a meaning. -/
theorem opens_methodName : Opens methodName := by
  intro input
  have hcontents : (methodNameTokens input).OpensInCode input := Satisfies.methodNameTokens input
  refine hcontents.wrap fun first hfirst => ?_
  have hname := production_methodName_le (derives_methodNameTokens input).1
  exact Tree.meaningful_of_mem_leavesOf hname (List.mem_of_mem_head? hfirst)

theorem opens_receiver : Opens receiver := by
  intro input
  unfold receiver whenAhead ifAhead
  split
  · rename_i hahead
    have hcontents := opens_advance.followedBy opens_advance input
    rw [receiverAhead, Bool.and_eq_true, Bool.or_eq_true] at hahead
    rcases hahead.1 with hself | hconst
    · exact hcontents.wrap_of_ahead (eq_of_beq hself) rfl
    · exact hcontents.wrap_of_ahead (eq_of_beq hconst) rfl
  · exact Satisfies.nothing input

/-- No blank is ahead where blanks have been taken. -/
theorem kind?_rest_skipBlanks_ne (accepts : TokenKind → Bool) (hblank : accepts .whitespace = true)
    (input : Cursor) : (advanceWhile accepts input).rest.kind? ≠ some .whitespace := by
  intro hahead
  have hrefused := kind?_rest_advanceWhile hahead
  rw [hblank] at hrefused
  cases hrefused

/-- A sign is taken with the blanks around it. -/
theorem opens_sign : Opens (skipWhitespace ++ advance ++ skipWhitespace) :=
  (Satisfies.skipWhitespace.followedBy opens_advance).followedBy .skipWhitespace

/-! ## Constructs -/

/-- **Expressions end before trivia**: one that has not begun takes neither a line break nor a
comment. -/
def EndsBeforeTrivia (parse : Production → Parser) : Prop :=
  ∀ mode input kind, input.kind? = some kind → kind.isTrivia = true → kind ≠ .whitespace →
    (expression parse mode input).trees = []

section Constructs

variable {parse : Production → Parser} (hparse : ∀ production, Opens (parse production))
  (hends : EndsBeforeTrivia parse)

include hparse

theorem opens_body : Opens (body parse) := fun input => (hparse .clauses input).body

theorem opens_moduleDefinition {input : Cursor} (hahead : input.isAt .moduleKw = true) :
    (moduleDefinition parse input).OpensInCode input :=
  ((((opens_advance.followedBy .skipWhitespace).followedBy (opens_definedName _)).followedBy
    (opens_body hparse)).followedBy (.expect _ _) input).wrap_of_ahead (eq_of_beq hahead) rfl

include hends

/-- A node around an expression that stands behind blanks. -/
theorem opens_node_expression {kind : NodeKind} (mode : ExpressionMode) {input : Cursor}
    (hblank : input.kind? ≠ some .whitespace) :
    (node kind (expression parse mode) input).OpensInCode input := by
  refine (hparse _ input).wrap fun first hfirst => ?_
  have hahead := (hparse (.expression (.start mode)) input).1.kind?_of_head? hfirst
  by_contra htrivia
  rw [Bool.not_eq_false] at htrivia
  have hnothing : (parse (.expression (.start mode)) input).trees = [] :=
    hends mode input first.kind hahead htrivia fun hwhitespace => hblank (hwhitespace ▸ hahead)
  rw [hnothing] at hfirst
  cases hfirst

theorem opens_superclass : Opens (superclass parse) := by
  intro input
  unfold superclass whenAhead ifAhead
  split
  · exact Sequential.append (opens_sign input)
      (opens_node_expression hparse hends _ (kind?_rest_skipBlanks_ne _ rfl _))
  · exact Satisfies.nothing input

theorem opens_classDefinition {input : Cursor} (hahead : input.isAt .classKw = true) :
    (classDefinition parse input).OpensInCode input :=
  (((((opens_advance.followedBy .skipWhitespace).followedBy (opens_definedName _)).followedBy
    (opens_superclass hparse hends)).followedBy (opens_body hparse)).followedBy
    (.expect _ _) input).wrap_of_ahead (eq_of_beq hahead) rfl

theorem opens_parameters : Opens (parameters parse) := by
  intro input
  have hinner : Opens parenthesized := satisfies_parenthesized
  unfold parameters whenAhead ifAhead
  split
  · rename_i hahead
    exact (hinner input).wrap_of_ahead (eq_of_beq hahead) rfl
  · split
    · exact Sequential.append (Satisfies.skipWhitespace input)
        (opens_node_expression hparse hends _ (kind?_rest_skipBlanks_ne _ rfl _))
    · exact Satisfies.nothing input

theorem opens_endlessBody : Opens (endlessBody parse) := fun input =>
  Sequential.append (opens_sign input)
    (opens_node_expression hparse hends _ (kind?_rest_skipBlanks_ne _ rfl _)).body

theorem opens_methodDefinition {input : Cursor} (hahead : input.isAt .defKw = true) :
    (methodDefinition parse input).OpensInCode input :=
  (((((opens_advance.followedBy .skipWhitespace).followedBy opens_receiver).followedBy
    opens_methodName).followedBy (opens_parameters hparse hends)).followedBy
    ((opens_endlessBody hparse hends).ifAhead _
      ((opens_body hparse).followedBy (.expect _ _))) input).wrap_of_ahead (eq_of_beq hahead) rfl

theorem opens_assignment {input : Cursor} (hform : statementForm input = .assignment) :
    (assignment parse input).OpensInCode input := by
  obtain ⟨kind, hkind, hvariable, -⟩ := ahead_of_assignment hform
  have hcode : kind.isTrivia = false := by
    revert hvariable
    cases kind <;> decide
  have htarget : (node .varField advance input).OpensInCode input :=
    (opens_advance input).wrap_of_ahead hkind hcode
  refine Parsed.OpensInCode.wrap_of_ahead (Sequential.append ?_ ?_) hkind hcode
  · exact Sequential.append (Sequential.append (Sequential.append htarget
      (Satisfies.skipWhitespace _)) (opens_advance _)) (Satisfies.advanceWhile _ _)
  · exact opens_node_expression hparse hends _ (kind?_rest_skipBlanks_ne _ rfl _)

omit hends in
theorem opens_block {input : Cursor} {kind : TokenKind} (hkind : input.kind? = some kind)
    (hopens : opensNested kind = true) : (block parse input).OpensInCode input := by
  have hcode : kind.isTrivia = false := by
    revert hopens
    cases kind <;> decide
  exact (((opens_advance.followedBy (hparse _)).followedBy (opens_body hparse)).followedBy
    (.expect _ _) input).wrap_of_ahead hkind hcode

/-! ## Statements -/

omit hends in
/-- A statement with a modifier begins as the statement does. -/
theorem opens_withModifier {parser : Parser} {input : Cursor} {kind : TokenKind}
    (hkind : input.kind? = some kind) (hcode : kind.isTrivia = false)
    (h : (parser input).OpensInCode input) :
    (withModifier parse parser input).OpensInCode input := by
  have htail : Opens (skipWhitespace ++ advance ++ expression parse .statement) :=
    (Satisfies.skipWhitespace.followedBy opens_advance).followedBy (hparse _)
  simp only [withModifier]
  split
  · have hjoined : ((parser input).append _).OpensInCode input := Sequential.append h (htail _)
    exact hjoined.wrap_of_ahead hkind hcode
  · exact h

/-- **A statement begins with code**, where the separators have been taken. -/
theorem opens_statement {input : Cursor} {kind : TokenKind} (hkind : input.kind? = some kind)
    (hseparators : kind.separatesStatements = false) :
    (statement parse input).OpensInCode input := by
  have hcode : kind.isTrivia = false := by
    revert hseparators
    cases kind <;> decide
  have hkeyword := isAt_of_statementForm input
  have hskipped : ∀ fault, (skipLine fault input).OpensInCode input := by
    intro fault
    have hline : Opens (advanceWhile fun kind => kind != .newline && kind != .semicolon) :=
      Satisfies.advanceWhile _
    exact Sequential.append (Satisfies.report fault input) ((hline input).wrap_of_ahead hkind hcode)
  unfold statement
  split
  · rename_i hform
    exact opens_withModifier hparse hkind hcode
      (opens_moduleDefinition hparse (hkeyword _ _ hform rfl))
  · rename_i hform
    exact opens_withModifier hparse hkind hcode
      (opens_classDefinition hparse hends (hkeyword _ _ hform rfl))
  · rename_i hform
    exact opens_withModifier hparse hkind hcode
      (opens_methodDefinition hparse hends (hkeyword _ _ hform rfl))
  · rename_i hform
    obtain ⟨found, hfound, hopens⟩ := opensNested_of_block hform
    exact opens_withModifier hparse hkind hcode (opens_block hparse hfound hopens)
  · rename_i hform
    exact opens_withModifier hparse hkind hcode (opens_assignment hparse hends hform)
  · exact hskipped _
  · exact hskipped _
  · exact (hparse (.expression (.start .statement)) input).wrap_of_ahead hkind hcode

/-! ## Productions -/

theorem opens_statements (nested : Bool) : Opens (statements parse nested) := by
  intro input
  refine Sequential.append (Satisfies.advanceWhile _ input) ?_
  set behind := (advanceWhile (·.separatesStatements) input).rest with hbehind
  unfold ifAhead
  split
  · exact Satisfies.nothing behind
  · rename_i hgoesOn
    refine Sequential.append ?_ (hparse _ _)
    cases hkind : behind.kind? with
    | none => exact absurd (by rw [statementsEnd, hkind]) hgoesOn
    | some kind =>
      have hstatement : (statement parse behind).OpensInCode behind :=
        opens_statement hparse hends hkind (kind?_rest_advanceWhile hkind)
      have hstuck : Opens skipStuck := satisfies_skipStuck
      simp only [progress]
      split
      · exact hstatement
      · exact Sequential.append hstatement (hstuck _)

omit hends in
theorem opens_clauses : Opens (clauses parse) := by
  have hheaded : Opens (advance ++ expression parse .statement ++ parse .clauses) :=
    (opens_advance.followedBy (hparse _)).followedBy (hparse _)
  have hbare : Opens (advance ++ parse .clauses) := opens_advance.followedBy (hparse _)
  refine (hparse _).followedBy fun input => ?_
  split
  · exact hheaded input
  · exact hheaded input
  · exact hheaded input
  · exact hheaded input
  · exact hbare input
  · exact hbare input
  · exact hbare input
  · exact Satisfies.nothing input

theorem opens_remainder (run : ExpressionRun) : Opens (remainder parse run) := by
  intro input
  have htoken : ∀ next, Opens (advance ++ parse (.expression next)) := fun next =>
    opens_advance.followedBy (hparse _)
  unfold remainder
  split
  · exact Satisfies.nothing input
  · split
    · exact Satisfies.nothing input
    · exact htoken _ input
  · rename_i kind _ hkind
    split
    · exact Satisfies.nothing input
    · split
      · exact htoken _ input
      · rename_i hstep
        exact Sequential.append (opens_block hparse hkind (opensNested_of_step hstep)) (hparse _ _)
      · rename_i hstep
        exact Sequential.append (opens_methodDefinition hparse hends (isAt_of_step hkind hstep))
          (hparse _ _)

/-- **One layer**: over productions whose nodes begin with code, those of productions do. -/
theorem opens_layer (production : Production) : Opens (layer parse production) := by
  cases production with
  | statements nested => exact opens_statements hparse hends nested
  | clauses => exact opens_clauses hparse
  | expression run => exact opens_remainder hparse hends run

end Constructs

/-- An expression that has not begun ends before a line break and before a comment. -/
theorem endsBeforeTrivia_layer (parse : Production → Parser) : EndsBeforeTrivia (layer parse) := by
  intro mode input kind hkind htrivia hblank
  have hstops : (ExpressionRun.start mode).endsBefore kind = true := by
    revert htrivia hblank
    cases kind <;> simp [TokenKind.isTrivia, ExpressionRun.endsBefore, ExpressionRun.start,
      ExpressionRun.afterDot, ExpressionRun.expectsMore]
  show (remainder parse (.start mode) input).trees = []
  unfold remainder
  split
  · rfl
  · rename_i hwhitespace
    exact absurd (Option.some.inj (hkind.symm.trans hwhitespace)) hblank
  · rename_i found _ hfound
    obtain rfl : found = kind := Option.some.inj (hfound.symm.trans hkind)
    rw [if_pos hstops]
    rfl

end Grammar

/-! ## Texts -/

namespace Production

/-- The parser of a production that builds nothing where its depth is used up. -/
def truncated : Nat → Production → Parser
  | 0, _ => nothing
  | bound + 1, production => Grammar.layer (truncated bound) production

theorem endsBeforeTrivia_truncated (bound : Nat) :
    Grammar.EndsBeforeTrivia (truncated bound) := by
  cases bound with
  | zero => exact fun _ _ _ _ _ _ => rfl
  | succ bound => exact Grammar.endsBeforeTrivia_layer _

theorem opens_truncated (bound : Nat) (production : Production) :
    Grammar.Opens (truncated bound production) := by
  induction bound generalizing production with
  | zero => exact Satisfies.nothing
  | succ bound ih => exact Grammar.opens_layer ih (endsBeforeTrivia_truncated bound) production

end Production

/-- **Only bodies begin with comments**: every node below the root of the tree of a text is a body,
or its first token is neither a blank nor a comment. -/
theorem everyNode_beginsInCode (source : String) :
    Tree.EveryNodeOf BeginsInCode (parse source).tree.children := by
  have hread : parseTokens (Token.tokenize source) = Production.truncated
      (Production.bound (Token.tokenize source).length) (.statements false)
      ⟨0, Token.tokenize source⟩ := parseTokens_eq_of_layers (fun _ _ => rfl) _
  have hopens : (parseTokens (Token.tokenize source)).OpensInCode ⟨0, Token.tokenize source⟩ :=
    hread ▸ Production.opens_truncated _ _ _
  exact hopens.2

end RubyIndex.Syntax
