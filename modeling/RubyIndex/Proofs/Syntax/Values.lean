import RubyIndex.Proofs.Syntax.CompleteTrees
import RubyIndex.Proofs.Syntax.Constructions
import RubyIndex.Proofs.Syntax.Openings
import RubyIndex.Proofs.Syntax.Sites

/-! # The values of assignments

The value of an assignment never runs into the next statement. Its expression takes a token only if
it does not end before it, so whatever stands in a value outside of brackets goes on with what came
before. Blanks are taken only with a token behind them, and the blanks and line breaks behind the
`=` belong to the assignment. A nested construct that has no `end` of its own may take the blanks at
its end, and then so does the value.

* `Tree.BoundedValue` says where a value begins and ends.
* `ExpressionRun.afterTrees` is the run after some trees, and `ExpressionRun.Reads` says that none
  of them stands after the end of the expression.
* `Grammar.spansExpressions_layer` is the step over one layer of the grammar.
* `everyNode_boundedValue` is the result for texts. -/

namespace RubyIndex.Syntax

open RubyIndex.Syntax.Parser

/-! ## Bounded values -/

/-- Whether a tree is a blank, a line break or a comment. -/
def Label.isTrivia : Label → Bool
  | .token kind => kind.isTrivia
  | .node _ => false

namespace Tree

/-- The brackets that the tokens among several trees open and do not close. -/
def openBrackets (trees : List Tree) : Int :=
  (tokensOf trees).countP (·.kind.isOpening) - (tokensOf trees).countP (·.kind.isClosing)

theorem openBrackets_append (front back : List Tree) :
    openBrackets (front ++ back) = openBrackets front + openBrackets back := by
  simp only [openBrackets, tokensOf, List.filterMap_append, List.countP_append, Int.natCast_add]
  omega

theorem openBrackets_leaf (token : Token) : openBrackets [.leaf token] =
    (if token.kind.isOpening then 1 else 0) - (if token.kind.isClosing then 1 else 0) := by
  simp only [openBrackets, tokensOf, List.filterMap_cons, List.filterMap_nil, token?,
    List.countP_singleton]
  split <;> split <;> rfl

theorem openBrackets_node (kind : NodeKind) (children : List Tree) :
    openBrackets [.node kind children] = 0 := rfl

/-- What the last of several trees has at its top, trivia apart. -/
def lastCode? (trees : List Tree) : Option Label :=
  ((trees.map label).filter (!·.isTrivia)).getLast?

/-- Behind a tree that is no trivia, that tree is the last. -/
theorem lastCode?_append_singleton (front : List Tree) (tree : Tree) :
    lastCode? (front ++ [tree]) =
      if tree.label.isTrivia then lastCode? front else some tree.label := by
  rw [lastCode?, List.map_append, List.filter_append, List.map_singleton, List.filter_singleton]
  by_cases htrivia : tree.label.isTrivia = true
  · simp [htrivia, lastCode?]
  · simp [htrivia]

/-- Whether a token may stand in a value outside of brackets, by what comes before it. -/
def GoesOnWith (kind : TokenKind) (last : Option Label) : Prop :=
  match kind with
  | .semicolon | .comment => False
  -- behind a dot, keywords are names of methods
  | .endKw | .elseKw | .elsifKw | .whenKw | .ensureKw => last = some (.token .dot)
  | .newline => ∃ found, last = some (.token found) ∧ found.continuesLine = true
  | _ => True

/-- Whether the last of several trees is a block or a method without an `end` at its end. -/
def EndsOpen (trees : List Tree) : Prop :=
  ∃ front kind inner, trees = front ++ [.node kind inner] ∧
    (kind = .block ∨ kind = .methodDef) ∧ ¬ EndsWith .endKw inner

/-- **A bounded value** begins with code, and ends with code unless a construct without an `end` is
its last tree. It closes no bracket that it has not opened, and has nothing outside of its brackets
that begins or separates another statement. -/
structure BoundedValue (children : List Tree) : Prop where
  /-- The blanks and line breaks in front belong to the assignment. -/
  begins : ∀ token, (leavesOf children).head? = some token →
    token.kind ≠ .whitespace ∧ token.kind ≠ .newline
  /-- The last token is a blank only where it belongs to a construct without an `end`. -/
  ends : ∀ token, (leavesOf children).getLast? = some token → token.kind = .whitespace →
    EndsOpen children
  /-- Brackets of all three kinds count together. -/
  balanced : ∀ front, front <+: children → 0 ≤ openBrackets front
  /-- Outside of brackets, each token goes on with what stands before it. -/
  goesOn : ∀ front token back, children = front ++ .leaf token :: back →
    openBrackets front = 0 → GoesOnWith token.kind (lastCode? front)

/-- What is said of the nodes of a tree: those of values are bounded. -/
def BoundsValues (kind : NodeKind) (children : List Tree) : Prop :=
  kind = .expr → BoundedValue children

/-- Trees of which the last is no blank end with one only in a construct without an `end`. -/
theorem endsOpen_of_blank {trees : List Tree} (hends : ¬ EndsWith .whitespace trees)
    (hnested : ∀ kind inner, .node kind inner ∈ trees → kind = .block ∨ kind = .methodDef)
    {token : Token} (htoken : (leavesOf trees).getLast? = some token)
    (hblank : token.kind = .whitespace) : EndsOpen trees := by
  rcases List.eq_nil_or_concat trees with rfl | ⟨front, last, rfl⟩
  · cases htoken
  rw [List.concat_eq_append] at *
  cases last with
  | leaf found =>
    have hsame : found = token := by simpa [leavesOf, leaves] using htoken
    refine absurd ?_ hends
    rw [EndsWith, List.getLast?_concat, Option.map_some, label, hsame, hblank]
  | node kind inner =>
    refine ⟨front, kind, inner, rfl, hnested kind inner (by simp), fun hclosed => ?_⟩
    -- the token would be the `end` of the construct
    obtain ⟨tree, htree, hlabel⟩ := Option.map_eq_some_iff.1 hclosed
    obtain ⟨before, rfl⟩ := List.getLast?_eq_some_iff.1 htree
    cases tree with
    | node kind inner => cases hlabel
    | leaf found =>
      have hsame : found = token := by simpa [leavesOf, leaves] using htoken
      rw [label, hsame, hblank] at hlabel
      cases hlabel

end Tree

/-! ## Runs over trees -/

namespace ExpressionRun

/-- The run after a tree. -/
def afterTree (run : ExpressionRun) : Tree → ExpressionRun
  | .leaf token => run.afterToken token.kind
  | .node _ _ => run.afterNested

/-- The run after several trees. -/
def afterTrees (run : ExpressionRun) (trees : List Tree) : ExpressionRun :=
  trees.foldl afterTree run

theorem afterTrees_append (run : ExpressionRun) (front back : List Tree) :
    run.afterTrees (front ++ back) = (run.afterTrees front).afterTrees back := List.foldl_append

/-- A run **reads** trees if no token among them stands after the end of the expression. -/
def Reads (run : ExpressionRun) (trees : List Tree) : Prop :=
  ∀ front token back, trees = front ++ .leaf token :: back →
    (run.afterTrees front).endsBefore token.kind = false

variable {run : ExpressionRun} {trees front : List Tree}

theorem reads_nil : run.Reads [] := by
  intro front token back hsplit
  simp at hsplit

theorem Reads.cons {tree : Tree} (htree : ∀ token, tree = .leaf token →
    run.endsBefore token.kind = false) (hrest : (run.afterTree tree).Reads trees) :
    run.Reads (tree :: trees) := by
  intro front token back hsplit
  cases front with
  | nil =>
    rw [List.nil_append, List.cons.injEq] at hsplit
    exact htree token hsplit.1
  | cons first front =>
    rw [List.cons_append, List.cons.injEq] at hsplit
    obtain ⟨rfl, hsplit⟩ := hsplit
    exact hrest front token back hsplit

/-- A closing bracket is read inside brackets only. -/
theorem depth_ne_zero_of_closing {kind : TokenKind} (hclosing : kind.isClosing = true)
    (hgoesOn : run.endsBefore kind = false) : run.depth ≠ 0 := by
  intro hdepth
  revert hclosing hgoesOn
  cases kind <;> simp [TokenKind.isClosing, TokenKind.isKeyword, endsBefore, hdepth]

/-- No bracket opens and closes. -/
theorem isClosing_eq_false_of_isOpening {kind : TokenKind} (hopening : kind.isOpening = true) :
    kind.isClosing = false := by
  revert hopening
  cases kind <;> decide

/-- A token that is read opens or closes a bracket, or changes no depth. -/
theorem depth_afterToken {token : Token} (hgoesOn : run.endsBefore token.kind = false) :
    ((run.afterToken token.kind).depth : Int) = run.depth + Tree.openBrackets [.leaf token] := by
  rw [Tree.openBrackets_leaf, afterToken]
  dsimp only
  by_cases hopening : token.kind.isOpening = true
  · simp [hopening, isClosing_eq_false_of_isOpening hopening]
  · by_cases hclosing : token.kind.isClosing = true
    · have hdepth := depth_ne_zero_of_closing hclosing hgoesOn
      simp [hopening, hclosing]
      omega
    · simp [hopening, hclosing]

/-- A nested construct changes no depth either. -/
theorem depth_afterTree {tree : Tree}
    (hgoesOn : ∀ token, tree = .leaf token → run.endsBefore token.kind = false) :
    ((run.afterTree tree).depth : Int) = run.depth + Tree.openBrackets [tree] := by
  cases tree with
  | leaf token => exact depth_afterToken (hgoesOn token rfl)
  | node kind children =>
    rw [Tree.openBrackets_node, Int.add_zero]
    rfl

/-- **The depth of a run** that has just begun is the number of brackets that are open. -/
theorem depth_afterTrees {mode : ExpressionMode} (hreads : (start mode).Reads trees)
    (hbefore : front <+: trees) :
    ((start mode).afterTrees front).depth = Tree.openBrackets front := by
  induction front using List.reverseRecOn with
  | nil => rfl
  | append_singleton front tree ih =>
    obtain ⟨back, rfl⟩ := hbefore
    rw [afterTrees_append, Tree.openBrackets_append,
      ← ih ⟨[tree] ++ back, (List.append_assoc _ _ _).symm⟩]
    refine depth_afterTree fun token htoken => ?_
    subst htoken
    exact hreads front token back (List.append_assoc _ _ _)

/-- What counts as the last token after a tree: a nested construct ends with its `end`. -/
def lastToken : Label → TokenKind
  | .token kind => kind
  | .node _ => .endKw

/-- **The last token of a run** that has just begun is that of the last tree, trivia apart. -/
theorem last_afterTrees (mode : ExpressionMode) (trees : List Tree) :
    ((start mode).afterTrees trees).last = (Tree.lastCode? trees).map lastToken := by
  induction trees using List.reverseRecOn with
  | nil => rfl
  | append_singleton front tree ih =>
    rw [afterTrees_append, Tree.lastCode?_append_singleton]
    cases tree with
    | node kind children => rfl
    | leaf token =>
      by_cases htrivia : token.kind.isTrivia = true
      · simpa [afterTrees, afterTree, afterToken, htrivia, Tree.label, Label.isTrivia] using ih
      · simp [afterTrees, afterTree, afterToken, htrivia, Tree.label, Label.isTrivia, lastToken]

/-- What goes on with an expression outside of brackets. -/
theorem goesOnWith_of_endsBefore {kind : TokenKind} {last : Option Label}
    (hdepth : run.depth = 0) (hlast : run.last = last.map lastToken)
    (hgoesOn : run.endsBefore kind = false) : Tree.GoesOnWith kind last := by
  have hdot : run.afterDot = true → last = some (.token .dot) := by
    intro hdot
    rw [afterDot, hlast, beq_iff_eq, Option.map_eq_some_iff] at hdot
    obtain ⟨found | found, rfl, hfound⟩ := hdot
    · rw [lastToken] at hfound
      rw [hfound]
    · cases hfound
  have hmore : run.expectsMore = true →
      ∃ found, last = some (.token found) ∧ found.continuesLine = true := by
    intro hmore
    rw [expectsMore, hlast, Option.any_map, Option.any_eq_true] at hmore
    obtain ⟨found | found, rfl, hfound⟩ := hmore
    · exact ⟨found, rfl, hfound⟩
    · cases hfound
  revert hgoesOn
  cases kind <;> simp [Tree.GoesOnWith, endsBefore, TokenKind.isKeyword, hdepth]
  all_goals first | exact hdot | exact hmore

/-- Whether an expression goes on with what is ahead, blanks apart. -/
def goesOn (run : ExpressionRun) (input : Cursor) : Bool :=
  (input.ahead? 0).any (!run.endsBefore ·)

/-- Blanks never end an expression. -/
theorem endsBefore_whitespace (run : ExpressionRun) : run.endsBefore .whitespace = false := by
  simp [endsBefore]

/-- A token that opens nothing is read as such. -/
theorem eq_afterToken_of_step {kind : TokenKind} {label : Bool} {next : ExpressionRun}
    (hstep : run.step kind label = .token next) : next = run.afterToken kind := by
  unfold step at hstep
  grind

theorem goesOn_eq_false_iff {input : Cursor} :
    run.goesOn input = false ↔ (input.ahead? 0).all run.endsBefore = true := by
  unfold goesOn
  cases input.ahead? 0 <;> simp

end ExpressionRun

/-! ## Expressions -/

/-- **What an expression takes**: tokens that the run reads and blocks and methods, without blanks
at the end, and at least one of them if the expression goes on. -/
structure Parsed.Spans (run : ExpressionRun) (input : Cursor) (parsed : Parsed) : Prop where
  reads : run.Reads parsed.trees
  ends : ¬ Tree.EndsWith .whitespace parsed.trees
  begins : run.goesOn input = true → parsed.trees ≠ []
  nested : ∀ kind inner, .node kind inner ∈ parsed.trees → kind = .block ∨ kind = .methodDef

namespace Parsed.Spans

variable {run : ExpressionRun} {input : Cursor}

/-- Nothing is taken where the expression ends. -/
theorem nothing {errors : List SyntaxError} {rest : Cursor} (hends : run.goesOn input = false) :
    Parsed.Spans run input ⟨[], errors, rest⟩ where
  reads := ExpressionRun.reads_nil
  ends := nofun
  begins hgoesOn := absurd hgoesOn (by rw [hends]; decide)
  nested _ _ hmem := absurd hmem List.not_mem_nil

/-- A tree in front of what the expression goes on with. A blank is in front of something. -/
theorem cons {parsed result : Parsed} {next : Cursor} (tree : Tree)
    (hparsed : parsed.Spans (run.afterTree tree) next)
    (htree : ∀ token, tree = .leaf token → run.endsBefore token.kind = false)
    (hblank : tree.label = .token .whitespace → parsed.trees ≠ [])
    (hnode : ∀ kind inner, tree = .node kind inner → kind = .block ∨ kind = .methodDef)
    (hresult : result.trees = tree :: parsed.trees) : result.Spans run input where
  reads := hresult ▸ ExpressionRun.Reads.cons htree hparsed.reads
  ends := by
    rw [hresult]
    by_cases hlast : parsed.trees = []
    · intro hends
      rw [hlast, Tree.EndsWith, List.getLast?_singleton, Option.map_some,
        Option.some.injEq] at hends
      exact hblank hends hlast
    · have hbehind : Tree.EndsWith .whitespace ([tree] ++ parsed.trees) ↔ _ :=
        Tree.endsWith_append_iff hlast
      exact fun hends => hparsed.ends (hbehind.1 hends)
  begins _ := hresult ▸ List.cons_ne_nil _ _
  nested kind inner hmem := by
    rw [hresult] at hmem
    rcases List.mem_cons.1 hmem with hfirst | hlater
    · exact hnode kind inner hfirst.symm
    · exact hparsed.nested kind inner hlater

/-- A token in front of what the expression goes on with. -/
theorem leaf {parsed result : Parsed} {token : Token} {next : Cursor}
    (hparsed : parsed.Spans (run.afterToken token.kind) next)
    (hgoesOn : run.endsBefore token.kind = false)
    (hblank : token.kind = .whitespace → parsed.trees ≠ [])
    (hresult : result.trees = .leaf token :: parsed.trees) : result.Spans run input := by
  refine cons (.leaf token) hparsed (fun found hfound => ?_) (fun hlabel => ?_) nofun hresult
  · rwa [← Tree.leaf.inj hfound]
  · exact hblank (Label.token.inj hlabel)

/-- A blank in front of what the expression goes on with. -/
theorem blank {parsed result : Parsed} {token : Token} {next : Cursor}
    (hparsed : parsed.Spans run next) (hgoesOn : run.goesOn next = true)
    (hblank : token.kind = .whitespace) (hresult : result.trees = .leaf token :: parsed.trees) :
    result.Spans run input := by
  have hrun : run = run.afterToken token.kind := by
    rw [hblank]
    rfl
  refine leaf (hrun ▸ hparsed) ?_ (fun _ => hparsed.begins hgoesOn) hresult
  rw [hblank]
  exact run.endsBefore_whitespace

/-- A nested construct in front of what the expression goes on with. -/
theorem node {parsed result : Parsed} {kind : NodeKind} {children : List Tree} {next : Cursor}
    (hparsed : parsed.Spans run.afterNested next) (hkind : kind = .block ∨ kind = .methodDef)
    (hresult : result.trees = .node kind children :: parsed.trees) : result.Spans run input := by
  refine cons (.node kind children) hparsed (fun found hfound => ?_) (fun hlabel => ?_)
    (fun found inner hfound => ?_) hresult
  · cases hfound
  · cases hlabel
  · rw [← (Tree.node.inj hfound).1]
    exact hkind

end Parsed.Spans

namespace Grammar

/-- Expressions take what they should. -/
def SpansExpressions (parse : Production → Parser) : Prop :=
  ∀ run input, (parse (.expression run) input).Spans run input

/-- What is ahead is the next token, unless it is a blank. -/
theorem ahead?_of_kind? {input : Cursor} {kind : TokenKind} (hkind : input.kind? = some kind)
    (hblank : kind ≠ .whitespace) : input.ahead? 0 = some kind := by
  obtain ⟨offset, token, rest, rfl, rfl⟩ := Cursor.exists_of_kind? hkind
  rw [Cursor.ahead?, Cursor.kindAhead?, if_neg hblank]

/-- What is ahead of a blank is ahead behind it. -/
theorem ahead?_cons_of_blank {offset : Nat} {token : Token} {rest : List Token}
    (hblank : token.kind = .whitespace) :
    Cursor.ahead? 0 ⟨offset, token :: rest⟩ = Cursor.ahead? 0 ⟨offset + token.width, rest⟩ := by
  rw [Cursor.ahead?, Cursor.kindAhead?, if_pos hblank, Cursor.ahead?]

/-- The token that an expression goes on with may be taken alone, with the blanks before it. -/
theorem spans_skipWhitespace_advance {run : ExpressionRun} {input : Cursor}
    (hgoesOn : run.goesOn input = true) :
    ((skipWhitespace ++ advance) input).Spans run input := by
  obtain ⟨offset, tokens⟩ := input
  induction tokens generalizing offset with
  | nil => cases hgoesOn
  | cons token rest ih =>
    -- blanks are passed by the reading of what is ahead and by the parser alike
    by_cases hblank : token.kind = .whitespace
    · have hbehind : run.goesOn ⟨offset + token.width, rest⟩ = true := by
        rwa [ExpressionRun.goesOn, ahead?_cons_of_blank hblank] at hgoesOn
      have hskip : skipWhitespace ⟨offset, token :: rest⟩ =
          { skipWhitespace ⟨offset + token.width, rest⟩ with
            trees := .leaf token :: (skipWhitespace ⟨offset + token.width, rest⟩).trees } :=
        if_pos (beq_iff_eq.2 hblank)
      refine (ih _ hbehind).blank hbehind hblank ?_
      show (skipWhitespace _).trees ++ (advance (skipWhitespace _).rest).trees = _
      rw [hskip]
      rfl
    · rw [ExpressionRun.goesOn, ahead?_of_kind? rfl hblank, Option.any_some,
        Bool.not_eq_true'] at hgoesOn
      have hend : (⟨[], [], ⟨0, []⟩⟩ : Parsed).Spans (run.afterToken token.kind) ⟨0, []⟩ :=
        .nothing rfl
      have hskip : skipWhitespace ⟨offset, token :: rest⟩ = ⟨[], [], ⟨offset, token :: rest⟩⟩ :=
        if_neg fun hkind => hblank (beq_iff_eq.1 hkind)
      refine hend.leaf hgoesOn (fun hkind => absurd hkind hblank) ?_
      show (skipWhitespace _).trees ++ (advance (skipWhitespace _).rest).trees = _
      rw [hskip]
      rfl

/-- **One layer**: an expression goes on with one token or construct at a time. -/
theorem spansExpressions_layer {parse : Production → Parser} (hparse : SpansExpressions parse) :
    SpansExpressions (layer parse) := by
  intro run ⟨offset, tokens⟩
  show (remainder parse run ⟨offset, tokens⟩).Spans run ⟨offset, tokens⟩
  cases tokens with
  | nil => exact .nothing rfl
  | cons token rest =>
    have hinner := fun next => hparse next ⟨offset + token.width, rest⟩
    unfold remainder
    split
    · rename_i hnone
      cases hnone
    · -- whitespace belongs to the expression if the expression goes on behind it
      rename_i hkind
      have hblank : token.kind = .whitespace := Option.some.inj hkind
      split
      · rename_i hends
        exact .nothing (ExpressionRun.goesOn_eq_false_iff.2 hends)
      · rename_i hgoesOn
        rw [← ExpressionRun.goesOn_eq_false_iff, Bool.not_eq_false, ExpressionRun.goesOn,
          ahead?_cons_of_blank hblank] at hgoesOn
        exact (hinner run).blank hgoesOn hblank rfl
    · rename_i kind hblank hkind
      obtain rfl : token.kind = kind := Option.some.inj hkind
      split
      · rename_i hends
        refine .nothing ?_
        rw [ExpressionRun.goesOn, ahead?_of_kind? hkind hblank]
        simp [hends]
      · rename_i hgoesOn
        rw [Bool.not_eq_true] at hgoesOn
        split
        · rename_i next hstep
          obtain rfl := ExpressionRun.eq_afterToken_of_step hstep
          exact (hinner _).leaf hgoesOn (fun hwhitespace => absurd hwhitespace hblank) rfl
        · exact (hparse run.afterNested _).node (.inl rfl) rfl
        · exact (hparse run.afterNested _).node (.inr rfl) rfl

/-- A value is bounded, where the blanks and line breaks before it have been taken. -/
theorem boundedValue_expression {parse : Production → Parser}
    (hlossless : ∀ production, Lossless (parse production)) (hspans : SpansExpressions parse)
    {input : Cursor} (hblank : input.kind? ≠ some .whitespace)
    (hbreak : input.kind? ≠ some .newline) :
    Tree.BoundedValue (expression parse .value input).trees := by
  obtain ⟨hreads, hends, -, hnested⟩ := hspans (.start .value) input
  refine ⟨fun token htoken => ?_, fun token => Tree.endsOpen_of_blank hends hnested,
    fun front hbefore => ?_, ?_⟩
  · have hahead := (hlossless (.expression (.start .value)) input).kind?_of_head? htoken
    exact ⟨fun hkind => hblank (hkind ▸ hahead), fun hkind => hbreak (hkind ▸ hahead)⟩
  · rw [← ExpressionRun.depth_afterTrees hreads hbefore]
    exact Int.natCast_nonneg _
  · intro front token back hsplit hclosed
    have hdepth := ExpressionRun.depth_afterTrees hreads ⟨_, hsplit.symm⟩
    exact ExpressionRun.goesOnWith_of_endsBefore (by omega) (ExpressionRun.last_afterTrees _ _)
      (hreads front token back hsplit)

end Grammar

/-! ## Texts -/

instance : Constructive fun parsed => Tree.EveryNodeOf Tree.BoundsValues parsed.trees where
  nothing _ := trivial
  token _ _ := ⟨trivial, trivial⟩
  report _ _ := trivial
  append := Tree.everyNodeOf_append
  wrap hkind hcontents := ⟨⟨fun hexpr => absurd hexpr hkind, hcontents⟩, trivial⟩

namespace Production

/-- The parser of a production where expressions take one token with the blanks before it, and
nothing else is taken, where the depth is used up. -/
def abridged : Nat → Production → Parser
  | 0, .expression run => ifAhead run.goesOn (skipWhitespace ++ advance) nothing
  | 0, _ => nothing
  | bound + 1, production => Grammar.layer (abridged bound) production

theorem lossless_abridged (bound : Nat) (production : Production) :
    Lossless (abridged bound production) := by
  induction bound generalizing production with
  | zero =>
    cases production with
    | expression run => exact (Satisfies.skipWhitespace.followedBy .advance).ifAhead _ .nothing
    | statements nested => exact Satisfies.nothing
    | clauses => exact Satisfies.nothing
  | succ bound ih => exact Grammar.satisfies_layer ih production

theorem spansExpressions_abridged (bound : Nat) : Grammar.SpansExpressions (abridged bound) := by
  induction bound with
  | zero =>
    intro run input
    show (ifAhead run.goesOn (skipWhitespace ++ advance) nothing input).Spans run input
    unfold ifAhead
    split
    · rename_i hgoesOn
      exact Grammar.spans_skipWhitespace_advance hgoesOn
    · rename_i hends
      exact .nothing (Bool.not_eq_true _ ▸ hends)
  | succ bound ih => exact Grammar.spansExpressions_layer ih

theorem beginsExpressions_abridged (bound : Nat) : Grammar.BeginsExpressions (abridged bound) := by
  cases bound with
  | zero =>
    intro run input kind hkind hblank hgoesOn
    have hahead : run.goesOn input = true := by
      rw [ExpressionRun.goesOn, Grammar.ahead?_of_kind? hkind hblank]
      simp [hgoesOn]
    show (ifAhead run.goesOn (skipWhitespace ++ advance) nothing input).rest.tokens.length < _
    rw [ifAhead, if_pos hahead]
    exact Grammar.rest_lt_of_advances (.precededBy .skipWhitespace .advance) hkind
  | succ bound => exact Grammar.beginsExpressions_layer (lossless_abridged bound)

theorem builds_abridged (bound : Nat) (production : Production) :
    Builds (fun parsed => Tree.EveryNodeOf Tree.BoundsValues parsed.trees)
      (abridged bound production) := by
  induction bound generalizing production with
  | zero =>
    cases production with
    | expression run => exact (Builds.skipWhitespace.followedBy .advance).ifAhead _ .nothing
    | statements nested => exact Builds.nothing
    | clauses => exact Builds.nothing
  | succ bound ih =>
    refine Grammar.builds_layer ih ?_ (lossless_abridged bound) (beginsExpressions_abridged bound)
      production
    intro input hblank hbreak
    have hvalue := Grammar.boundedValue_expression (lossless_abridged bound)
      (spansExpressions_abridged bound) hblank hbreak
    exact ⟨⟨fun _ => hvalue, ih (.expression (.start .value)) input⟩, trivial⟩

end Production

/-- **Values are bounded.** Every value in the tree of a text begins with code, and ends with code
unless its last tree is a construct without an `end`. It closes no bracket that it has not opened.
Outside of its brackets it goes on over the end of a line only behind a token that asks for more, and
never with a `;`, a comment, or a keyword that ends or continues a construct. -/
theorem everyNode_boundedValue (source : String) :
    (parse source).tree.EveryNode Tree.BoundsValues := by
  have hread : parseTokens (Token.tokenize source) = Production.abridged
      (Production.bound (Token.tokenize source).length) (.statements false)
      ⟨0, Token.tokenize source⟩ := parseTokens_eq_of_layers (fun _ _ => rfl) _
  have hbounds : Tree.EveryNodeOf Tree.BoundsValues (parseTokens (Token.tokenize source)).trees :=
    hread ▸ Production.builds_abridged _ _ _
  exact ⟨nofun, hbounds⟩

/-- **A value may end with a blank**, here with the one behind a `begin` that is never closed. -/
theorem not_everyNode_endsInCode :
    ¬ (parse "@@x = begin ").tree.EveryNode fun kind children => kind = .expr →
      ∀ token, (Tree.leavesOf children).getLast? = some token → token.kind ≠ .whitespace := by
  intro hall
  obtain ⟨site, hmem, hkind, hblank⟩ : ∃ site ∈ (parse "@@x = begin ").tree.sites,
      site.kind = .expr ∧ (Tree.leavesOf site.children).getLast? = some ⟨.whitespace, " "⟩ := by
    decide +kernel
  exact (hall.of_mem_sitesFrom hmem).1 hkind _ hblank rfl

end RubyIndex.Syntax
