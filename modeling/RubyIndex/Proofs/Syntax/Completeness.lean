import RubyIndex.Proofs.Syntax.Candor
import RubyIndex.Proofs.Syntax.Progress

/-! # Texts without errors

A text is read without errors if and only if its tree is complete: no tokens were skipped, and every
construct has the parts that it cannot do without. So what a parser reports shows in what it builds,
and what is wrong with a tree has been reported.

* `Grammar.candid_layer` is the step over one layer of the grammar, construct by construct.
* `parse_ok_iff` is the result for texts. -/

namespace RubyIndex.Syntax

open RubyIndex.Syntax.Parser

namespace Grammar

/-! ## Constructs -/

/-- The end of a method definition: a body behind a `=`, or a body and its `end`. -/
def methodEnding (parse : Production → Parser) : Parser :=
  ifAhead (·.ahead? 0 == some .eq) (endlessBody parse) (body parse ++ closing .methodDef)

section Constructs

variable {parse : Production → Parser} (hparse : ∀ production, Candid (parse production))

include hparse

theorem candid_body : Candid (body parse) := (hparse _).node (by rfl)

theorem candid_moduleDefinition : Candid (moduleDefinition parse) := by
  intro input
  have hshows := shows_followedBy (shows_followedBy (shows_followedBy
    ((Candid.advance.followedBy .skipWhitespace) input) (shows_definedName .moduleDef))
    (candid_body hparse)) (shows_closing .moduleDef)
  refine hshows.wrap ?_
  have hbody : NodeKind.body ≠ .constPath := by decide
  show _ ↔
    Tree.hasNode .constPath (((_ ++ _) ++ _ ++ ([.node .body _] : List Tree)) ++ _) = true ∧
      Tree.EndsWith .endKw (((_ ++ _) ++ _ ++ ([.node .body _] : List Tree)) ++ _)
  simp only [Tree.endsWith_append_node_iff, Tree.hasNode_append, hasNode_advance,
    hasNode_skipWhitespace, Tree.hasNode_node_of_ne hbody, hasNode_closing, Bool.false_or,
    Bool.or_false, true_and, and_true]

/-- The superclass in a header is a node of its own. -/
theorem candid_superclass : Candid (superclass parse) :=
  (((Candid.skipWhitespace.followedBy .advance).followedBy .skipWhitespace).followedBy
    ((hparse _).node (by rfl))).whenAhead _

omit hparse in
theorem hasNode_superclass (input : Cursor) :
    Tree.hasNode .constPath (superclass parse input).trees = false := by
  have hsuperclass : NodeKind.superclass ≠ .constPath := by decide
  unfold superclass whenAhead ifAhead
  split
  · show Tree.hasNode .constPath (((_ ++ _) ++ _) ++ ([.node .superclass _] : List Tree)) = false
    simp only [Tree.hasNode_append, hasNode_advance, hasNode_skipWhitespace,
      Tree.hasNode_node_of_ne hsuperclass, Bool.or_false]
  · rfl

theorem candid_classDefinition : Candid (classDefinition parse) := by
  intro input
  have hshows := shows_followedBy (shows_followedBy (shows_followedBy (shows_followedBy
    ((Candid.advance.followedBy .skipWhitespace) input) (shows_definedName .classDef))
    (candid_superclass hparse)) (candid_body hparse)) (shows_closing .classDef)
  refine hshows.wrap ?_
  have hbody : NodeKind.body ≠ .constPath := by decide
  show _ ↔
    Tree.hasNode .constPath ((((_ ++ _) ++ _) ++ _ ++ ([.node .body _] : List Tree)) ++ _) = true ∧
      Tree.EndsWith .endKw ((((_ ++ _) ++ _) ++ _ ++ ([.node .body _] : List Tree)) ++ _)
  simp only [Tree.endsWith_append_node_iff, Tree.hasNode_append, hasNode_advance,
    hasNode_skipWhitespace, hasNode_superclass, Tree.hasNode_node_of_ne hbody, hasNode_closing,
    Bool.false_or, Bool.or_false, true_and, and_true]

theorem candid_block : Candid (block parse) := by
  intro input
  have hshows := shows_followedBy (shows_followedBy
    ((Candid.advance.followedBy (hparse (.expression (.start (headerMode input.kind?))))) input)
    (candid_body hparse)) (shows_closing .block)
  refine hshows.wrap ?_
  show _ ↔ Tree.EndsWith .endKw (((_ ++ _) ++ ([.node .body _] : List Tree)) ++ _)
  simp only [Tree.endsWith_append_node_iff, true_and]

theorem candid_assignment : Candid (assignment parse) :=
  (((((Candid.advance.node (by rfl)).followedBy .skipWhitespace).followedBy
    .advance).followedBy (.advanceWhile _)).followedBy
    ((hparse _).node (by rfl))).node (by rfl)

/-- **The parameters of a method**: parentheses that follow its name are balanced or have been
reported. -/
theorem shows_parameters (input : Cursor) :
    (parameters parse input).Shows (∀ inner rest,
      (parameters parse input).trees = .node .paramList inner :: rest →
        ParenthesesBalance (Tree.leavesOf inner)) := by
  unfold parameters ifAhead
  split
  · rename_i hahead
    refine ((shows_parenthesized hahead).wrap_undemanding rfl).congr ?_
    constructor
    · rintro hbalance inner rest htrees
      obtain rfl : _ = inner := (Tree.node.inj (List.cons.inj htrees).1).2
      exact hbalance
    · exact fun hparameters => hparameters _ [] rfl
  · have hbare : Candid (whenAhead bareParametersAhead (skipWhitespace ++
        Parser.node .paramList (expression parse .value))) :=
      (Candid.skipWhitespace.followedBy ((hparse _).node (by rfl))).whenAhead _
    refine (hbare input).congr (iff_of_true trivial ?_)
    intro inner rest htrees
    unfold whenAhead ifAhead at htrees
    split at htrees
    · -- parameters without parentheses stand behind a blank
      rename_i hahead
      rw [bareParametersAhead, Bool.and_eq_true] at hahead
      obtain ⟨token, more, hblanks⟩ := exists_trees_skipWhitespace hahead.1
      replace htrees : (skipWhitespace input).trees ++ _ = _ := htrees
      rw [hblanks] at htrees
      cases (List.cons.inj htrees).1
    · cases htrees

/-- **The end of a method**, with `end` or as a body behind a `=`, is there or has been
reported. -/
theorem shows_methodEnding (input : Cursor) :
    (methodEnding parse input).Shows (ClosesMethod (methodEnding parse input).trees) := by
  unfold methodEnding ifAhead
  split
  · rename_i hahead
    have hendless : Candid (endlessBody parse) :=
      ((Candid.skipWhitespace.followedBy .advance).followedBy .skipWhitespace).followedBy
        (((hparse _).node (by rfl)).node (by rfl))
    refine (hendless input).congr (iff_of_true trivial (.inr ?_))
    -- the `=` is taken between the blanks
    replace hahead : (input.ahead? 0 == some .eq) = true := hahead
    rw [ahead?_zero] at hahead
    obtain ⟨token, htrees, hkind⟩ := trees_advance_of_isAt hahead
    have hsign : List.Sublist [.leaf token] (((skipWhitespace ++ advance) input).trees ++
        (skipWhitespace ((skipWhitespace ++ advance) input).rest).trees) := by
      refine List.Sublist.trans ?_ (List.sublist_append_left _ _)
      show List.Sublist _ (_ ++ (advance _).trees)
      rw [htrees]
      exact List.sublist_append_right _ _
    exact ⟨token, _, hkind, hsign.append (List.Sublist.refl [Tree.node .body _])⟩
  · refine (shows_followedBy (candid_body hparse input) (shows_closing .methodDef)).congr ?_
    show _ ↔ ClosesMethod (([] ++ ([.node .body _] : List Tree)) ++ _)
    rw [true_and, ClosesMethod, Tree.endsWith_append_node_iff]
    refine (or_iff_left ?_).symm
    -- the one token is the `end`
    rintro ⟨token, inner, hkind, hsublist⟩
    have hmem := hsublist.subset List.mem_cons_self
    rw [List.nil_append, List.singleton_append, List.mem_cons] at hmem
    rw [kind_of_mem_closing (hmem.resolve_left (by simp))] at hkind
    cases hkind

omit hparse in
/-- What the parameters of a method are made of. -/
theorem parameters_parts (input : Cursor) :
    Tree.hasNode .methodName (parameters parse input).trees = false ∧
      ∀ token, .leaf token ∈ (parameters parse input).trees → token.kind = .whitespace := by
  have hne : NodeKind.paramList ≠ .methodName := by decide
  unfold parameters whenAhead ifAhead
  split
  · exact ⟨Tree.hasNode_node_of_ne hne _, fun token hmem => by
      simp [Parser.node, Parsed.wrap] at hmem⟩
  · split
    · constructor
      · show Tree.hasNode .methodName (_ ++ ([.node .paramList _] : List Tree)) = false
        rw [Tree.hasNode_append, hasNode_skipWhitespace, Tree.hasNode_node_of_ne hne, Bool.or_self]
      · intro token hmem
        replace hmem : .leaf token ∈ (_ ++ [.node .paramList _] : List Tree) := hmem
        rw [List.mem_append] at hmem
        have hblank := accepts_of_mem_advanceWhile (hmem.resolve_right (by simp))
        exact eq_of_beq hblank
    · exact ⟨rfl, fun token hmem => absurd hmem List.not_mem_nil⟩

omit hparse in
/-- What the end of a method is made of. -/
theorem hasNode_methodEnding {kind : NodeKind} (hkind : NodeKind.body ≠ kind) (input : Cursor) :
    Tree.hasNode kind (methodEnding parse input).trees = false ∧
      (methodEnding parse input).trees ≠ [] := by
  unfold methodEnding ifAhead
  split
  · constructor
    · show Tree.hasNode kind (((_ ++ _) ++ _) ++ ([.node .body _] : List Tree)) = false
      simp only [Tree.hasNode_append, hasNode_skipWhitespace, hasNode_advance,
        Tree.hasNode_node_of_ne hkind, Bool.or_self]
    · exact List.append_ne_nil_of_right_ne_nil _ (List.cons_ne_nil _ _)
  · constructor
    · show Tree.hasNode kind (([.node .body _] : List Tree) ++ _) = false
      simp only [Tree.hasNode_append, hasNode_closing, Tree.hasNode_node_of_ne hkind, Bool.or_self]
    · exact List.cons_ne_nil _ _

/-- **Methods**, where their keyword is ahead. -/
theorem shows_methodDefinition {input : Cursor} (hahead : input.isAt .defKw = true) :
    (methodDefinition parse input).Shows True := by
  have hreceiver : Candid receiver :=
    ((Candid.advance.followedBy .advance).node (by rfl)).whenAhead _
  have hshows := shows_followedBy (shows_followedBy (shows_followedBy
    (((Candid.advance.followedBy .skipWhitespace).followedBy hreceiver) input)
    shows_methodName) (shows_parameters hparse)) (shows_methodEnding hparse)
  refine hshows.wrap ?_
  rw [true_and]
  have hname : NodeKind.body ≠ .methodName := by decide
  have hparamList : NodeKind.body ≠ .paramList := by decide
  refine (complete_methodDef_iff ?_ (parameters_parts _).1 (hasNode_methodEnding hname _).1
    (hasNode_methodEnding hparamList _).1 (hasNode_methodEnding hname _).2 ?_).symm
  · show Tree.hasNode .methodName ((_ ++ _) ++ _) = false
    simp only [Tree.hasNode_append, hasNode_advance, hasNode_skipWhitespace, (receiver_parts _).1,
      Bool.or_self]
  · -- before the end of the method there are the keyword and blanks
    intro token hmem hkind
    replace hmem : .leaf token ∈ (((_ ++ _) ++ _) ++ _ : List Tree) := hmem
    simp only [List.mem_append] at hmem
    rcases hmem with ((hmem | hmem) | hmem) | hmem
    · rw [Cursor.isAt, kind?_of_mem_advance hmem, hkind] at hahead
      cases hahead
    · have hblank := accepts_of_mem_advanceWhile hmem
      rw [hkind] at hblank
      cases hblank
    · exact (receiver_parts _).2 token hmem
    · rw [(parameters_parts _).2 token hmem] at hkind
      cases hkind

/-! ## Statements -/

/-- A statement with a modifier shows what the statement shows. -/
theorem shows_withModifier {parser : Parser} {input : Cursor} (h : (parser input).Shows True) :
    (withModifier parse parser input).Shows True := by
  simp only [withModifier]
  split
  · have htail : Candid (skipWhitespace ++ advance ++ expression parse .statement) :=
      (Candid.skipWhitespace.followedBy .advance).followedBy (hparse _)
    exact ((h.append (htail _)).congr and_self_iff).wrap_undemanding rfl
  · exact h

omit hparse in
/-- A line that is skipped shows as a node for the error. -/
theorem candid_skipLine (fault : SyntaxFault) : Candid (skipLine fault) := by
  intro input
  refine iff_of_false (List.cons_ne_nil _ _) ?_
  rintro ⟨-, hnodes⟩
  exact hnodes.1.1

theorem candid_statement : Candid (statement parse) := by
  intro input
  have hkeyword := isAt_of_statementForm input
  unfold statement
  split
  · exact shows_withModifier hparse (candid_moduleDefinition hparse input)
  · exact shows_withModifier hparse (candid_classDefinition hparse input)
  · rename_i hform
    exact shows_withModifier hparse (shows_methodDefinition hparse (hkeyword _ _ hform rfl))
  · exact shows_withModifier hparse (candid_block hparse input)
  · exact shows_withModifier hparse (candid_assignment hparse input)
  · exact candid_skipLine _ input
  · exact candid_skipLine _ input
  · exact (hparse _).node (by rfl) input

/-! ## Productions -/

/-- A list of statements goes on with a statement, and no token is skipped. -/
theorem candid_statements (hlossless : ∀ production, Lossless (parse production))
    (hbegins : BeginsExpressions parse) (nested : Bool) : Candid (statements parse nested) := by
  intro input
  refine ((Candid.advanceWhile (·.separatesStatements) input).append ?_).congr and_self_iff
  set afterSeparators := (advanceWhile (·.separatesStatements) input).rest with hafter
  show (ifAhead (statementsEnd nested) nothing (progress parse ++ parse (.statements nested))
    afterSeparators).Shows True
  cases hkind : afterSeparators.kind? with
  | none =>
    have hend : statementsEnd nested afterSeparators = true := by
      rw [statementsEnd, hkind]
    rw [ifAhead, if_pos hend]
    exact Candid.nothing _
  | some kind =>
    have hseparators : kind.separatesStatements = false := kind?_rest_advanceWhile hkind
    unfold ifAhead
    split
    · exact Candid.nothing _
    · refine (Parsed.Shows.append ?_ (hparse _ _)).congr and_self_iff
      rw [progress_eq_statement hlossless hbegins hkind hseparators]
      exact candid_statement hparse _

theorem candid_clauses : Candid (clauses parse) := by
  have hheaded : Candid (advance ++ expression parse .statement ++ parse .clauses) :=
    (Candid.advance.followedBy (hparse _)).followedBy (hparse _)
  have hbare : Candid (advance ++ parse .clauses) := Candid.advance.followedBy (hparse _)
  refine (hparse _).followedBy fun input => ?_
  split
  · exact hheaded input
  · exact hheaded input
  · exact hheaded input
  · exact hheaded input
  · exact hbare input
  · exact hbare input
  · exact hbare input
  · exact Candid.nothing input

theorem candid_remainder (run : ExpressionRun) : Candid (remainder parse run) := by
  intro input
  unfold remainder
  split
  · exact Candid.nothing input
  · split
    · exact Candid.nothing input
    · exact Candid.advance.followedBy (hparse _) input
  · rename_i kind _ hkind
    split
    · exact Candid.nothing input
    · split
      · exact Candid.advance.followedBy (hparse _) input
      · exact (candid_block hparse).followedBy (hparse _) input
      · rename_i hstep
        exact ((shows_methodDefinition hparse (isAt_of_step hkind hstep)).append
          (hparse _ _)).congr and_self_iff

/-- **One layer**: over productions that show their errors, productions show theirs. -/
theorem candid_layer (hlossless : ∀ production, Lossless (parse production))
    (hbegins : BeginsExpressions parse) (production : Production) :
    Candid (layer parse production) := by
  cases production with
  | statements nested => exact candid_statements hparse hlossless hbegins nested
  | clauses => exact candid_clauses hparse
  | expression run => exact candid_remainder hparse run

end Constructs

end Grammar

/-! ## Texts -/

/-- Productions show their errors, to whatever depth they are read. -/
theorem Production.candid_silent (bound : Nat) (production : Production) :
    Candid (silent bound production) := by
  induction bound generalizing production with
  | zero => exact Candid.advance
  | succ bound ih =>
    exact Grammar.candid_layer ih (lossless_silent bound) (beginsExpressions_silent bound)
      production

/-- **A text is read without errors** if and only if every node of its tree is complete. -/
theorem parse_ok_iff (source : String) :
    (parse source).ok = true ↔ (parse source).tree.EveryNode Complete := by
  have hshows : (parseTokens (Token.tokenize source)).Shows True := by
    rw [parseTokens_eq_silent]
    exact Production.candid_silent _ _ _
  rw [Parse.ok, List.isEmpty_iff]
  exact hshows

end RubyIndex.Syntax
