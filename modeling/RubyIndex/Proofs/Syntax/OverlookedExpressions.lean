import RubyIndex.Proofs.Syntax.OverlookedNames

/-! # Expressions overlook comments at the ends of lines

Inside brackets an expression takes the end of a line with a comment as without it, and where it is
complete it ends before the comment as before the line break. In between it carries on over the line
break, which a comment would prevent.

* `ExpressionRun.Fits`: the depth and the last token of a run are those of the trees before it.
* `Production.depth_add_openBrackets`: an expression closes the brackets that are open, unless the
  input ends inside them. -/

namespace RubyIndex.Syntax

open RubyIndex.Syntax.Parser Token

/-! ## Runs behind trees -/

namespace ExpressionRun

/-- A run **fits** the trees before it if it stands as many brackets deep as they have opened, and
its last token, once it has one, is the last one among them. -/
structure Fits (run : ExpressionRun) (passed : List Tree) : Prop where
  depth : (run.depth : Int) = Tree.openBrackets passed
  last : run.last = none ∨ run.last = (Tree.lastCode? passed).map lastToken

variable {run : ExpressionRun} {passed : List Tree}

/-- A new run fits where no bracket is open. -/
theorem fits_start (mode : ExpressionMode) (hclosed : Tree.openBrackets passed = 0) :
    (start mode).Fits passed := ⟨hclosed.symm, .inl rfl⟩

theorem Fits.afterToken {token : Token} (hfits : run.Fits passed)
    (hgoesOn : run.endsBefore token.kind = false) :
    (run.afterToken token.kind).Fits (passed ++ [.leaf token]) where
  depth := by rw [depth_afterToken hgoesOn, hfits.depth, Tree.openBrackets_append]
  last := by
    rw [Tree.lastCode?_append_singleton, Tree.label, Label.isTrivia, ExpressionRun.afterToken]
    dsimp only
    split
    · exact hfits.last
    · exact .inr rfl

theorem Fits.afterNested (hfits : run.Fits passed) (kind : NodeKind) (children : List Tree) :
    run.afterNested.Fits (passed ++ [.node kind children]) where
  depth := by
    rw [Tree.openBrackets_append, Tree.openBrackets_node, Int.add_zero]
    exact hfits.depth
  last := by
    rw [Tree.lastCode?_append_singleton]
    exact .inr rfl

/-- A run that goes on over a line break outside of brackets carries on. -/
theorem Fits.carriesOn (hfits : run.Fits passed) (hdepth : run.depth = 0)
    (hgoesOn : run.endsBefore .newline = false) : Tree.CarriesOn passed := by
  refine ⟨by rw [← hfits.depth, hdepth]; rfl, ?_⟩
  rcases hfits.last with hnone | hlast
  · -- a line break in front of everything else ends the expression
    rw [endsBefore, afterDot, hnone, hdepth, expectsMore, hnone] at hgoesOn
    cases hgoesOn
  · exact goesOnWith_of_endsBefore hdepth hlast hgoesOn

/-- Inside brackets nothing ends an expression. -/
theorem endsBefore_of_depth (hdepth : run.depth ≠ 0) (kind : TokenKind) :
    run.endsBefore kind = false := by
  simp [endsBefore, hdepth]

/-- What ends an expression stands outside of brackets. -/
theorem depth_of_endsBefore {kind : TokenKind} (hends : run.endsBefore kind = true) :
    run.depth = 0 := by
  by_contra hdepth
  rw [endsBefore_of_depth hdepth] at hends
  cases hends

/-- Trivia change nothing. -/
theorem afterToken_of_isTrivia {kind : TokenKind} (htrivia : kind.isTrivia = true) :
    run.afterToken kind = run := by
  rcases Token.isTrivia_cases htrivia with rfl | rfl | rfl <;> rfl

/-- Trivia are taken as such, whether or not a `:` comes after them. -/
theorem step_of_isTrivia {kind : TokenKind} (htrivia : kind.isTrivia = true) (label : Bool) :
    run.step kind label = .token run := by
  have hopens : kind.isKeyword = false ∧ kind.opensBlock = false ∧ (kind == .doKw) = false ∧
      (kind == .defKw) = false := by
    rcases Token.isTrivia_cases htrivia with rfl | rfl | rfl <;> decide
  rw [step, afterToken_of_isTrivia htrivia, hopens.1, hopens.2.1, hopens.2.2.1, hopens.2.2.2]
  split <;> rfl

end ExpressionRun

/-! ## Brackets among tokens -/

/-- Tokens of kinds that are no brackets open and close nothing. -/
theorem Parser.openBrackets_advanceWhile {accepts : TokenKind → Bool} {input : Cursor}
    (haccepts : ∀ kind, accepts kind = true → kind.isOpening = false ∧ kind.isClosing = false) :
    Tree.openBrackets (advanceWhile accepts input).trees = 0 := by
  rw [trees_advanceWhile]
  refine Tree.openBrackets_map_leaf fun token hmem => haccepts token.kind ?_
  exact List.mem_takeWhile_imp (p := fun token : Token => accepts token.kind) hmem

/-! ## One step of an expression -/

namespace Production

/-- What an expression does with the next token, and how it goes on. -/
def afterStep (run : ExpressionRun) : ExpressionRun.Step → Parser
  | .token next => advance ++ (expression next).read
  | .block => Grammar.block read ++ (expression run.afterNested).read
  | .method => Grammar.methodDefinition read ++ (expression run.afterNested).read

/-- Nothing is taken where the expression ends. -/
theorem read_expression_of_ends {run : ExpressionRun} {input : Cursor}
    (hends : run.goesOn input = false) : (expression run).read input = nothing input := by
  rw [read_eq_layer]
  show Grammar.remainder read run input = _
  unfold Grammar.remainder
  split
  · rfl
  · rw [if_pos (ExpressionRun.goesOn_eq_false_iff.1 hends)]
  · rename_i kind hblank hkind
    rw [ExpressionRun.goesOn, Grammar.ahead?_of_kind? hkind hblank] at hends
    rw [if_pos (by simpa using hends)]

/-- **An expression goes on with one thing at a time**, which does not stand after its end. -/
theorem read_expression_of_goesOn {run : ExpressionRun} {input : Cursor} {kind : TokenKind}
    (hkind : input.kind? = some kind) (hgoesOn : run.goesOn input = true) :
    run.endsBefore kind = false ∧
      (expression run).read input = afterStep run (run.step kind input.atLabel) input := by
  have hlayer : (expression run).read input = Grammar.remainder read run input :=
    congrFun (read_eq_layer (.expression run)) input
  by_cases hblank : kind = .whitespace
  · subst hblank
    have hstops : ¬ (input.ahead? 0).all run.endsBefore = true := by
      rw [← ExpressionRun.goesOn_eq_false_iff, hgoesOn]
      decide
    refine ⟨run.endsBefore_whitespace, ?_⟩
    rw [hlayer, Grammar.remainder, hkind, ExpressionRun.step_of_isTrivia rfl]
    dsimp only
    rw [if_neg hstops, afterStep]
  · rw [ExpressionRun.goesOn, Grammar.ahead?_of_kind? hkind hblank] at hgoesOn
    replace hgoesOn : run.endsBefore kind = false := by simpa using hgoesOn
    refine ⟨hgoesOn, ?_⟩
    rw [hlayer]
    unfold Grammar.remainder
    split
    · rename_i hnone
      cases hnone.symm.trans hkind
    · rename_i hwhitespace
      exact absurd (Option.some.inj (hkind.symm.trans hwhitespace)) hblank
    · rename_i found _ hfound
      obtain rfl : found = kind := Option.some.inj (hfound.symm.trans hkind)
      rw [hgoesOn, if_neg Bool.false_ne_true]
      cases run.step found input.atLabel <;> rfl

/-- **An expression that goes on takes one tree**, and then it is the expression behind it. -/
theorem exists_tree_of_goesOn {run : ExpressionRun} {input : Cursor}
    (hgoesOn : run.goesOn input = true) :
    ∃ tree behind, behind.tokens.length < input.tokens.length ∧
      (∀ token, tree = .leaf token → run.endsBefore token.kind = false) ∧
      ((expression run).read input).trees =
        tree :: ((expression (run.afterTree tree)).read behind).trees ∧
      ((expression run).read input).rest =
        ((expression (run.afterTree tree)).read behind).rest := by
  obtain ⟨offset, tokens⟩ := input
  cases tokens with
  | nil => cases hgoesOn
  | cons token rest =>
    have hkind : Cursor.kind? ⟨offset, token :: rest⟩ = some token.kind := rfl
    obtain ⟨htoken, hread⟩ := read_expression_of_goesOn hkind hgoesOn
    rw [hread]
    cases hstep : run.step token.kind (Cursor.atLabel ⟨offset, token :: rest⟩) with
    | token next =>
      obtain rfl := ExpressionRun.eq_afterToken_of_step hstep
      exact ⟨.leaf token, ⟨offset + token.width, rest⟩, Nat.lt_succ_self _,
        fun _ hsame => Tree.leaf.inj hsame ▸ htoken, rfl, rfl⟩
    | block =>
      exact ⟨.node .block _, _, Grammar.rest_lt_of_advances (Grammar.advances_block lossless_read)
        hkind, nofun, rfl, rfl⟩
    | method =>
      exact ⟨.node .methodDef _, _, Grammar.rest_lt_of_advances
        (Grammar.advances_methodDefinition lossless_read) hkind, nofun, rfl, rfl⟩

/-- **An expression closes the brackets** that are open, unless the input ends inside of them. -/
theorem depth_add_openBrackets (run : ExpressionRun) (input : Cursor)
    (hahead : ((expression run).read input).rest.ahead? 0 ≠ none) :
    run.depth + Tree.openBrackets ((expression run).read input).trees = 0 := by
  induction hlength : input.tokens.length using Nat.strongRecOn generalizing run input with
  | _ length ih =>
    subst hlength
    cases hgoesOn : run.goesOn input with
    | false =>
      rw [read_expression_of_ends hgoesOn] at hahead ⊢
      obtain ⟨found, hfound⟩ := Option.ne_none_iff_exists'.1 hahead
      replace hfound : input.ahead? 0 = some found := hfound
      have hstops : run.endsBefore found = true := by
        rw [ExpressionRun.goesOn_eq_false_iff, hfound] at hgoesOn
        simpa using hgoesOn
      -- an expression ends before a token only outside of brackets
      rw [ExpressionRun.depth_of_endsBefore hstops]
      rfl
    | true =>
      obtain ⟨tree, behind, hshorter, htree, htrees, hrest⟩ := exists_tree_of_goesOn hgoesOn
      have hbehind := ih _ hshorter (run.afterTree tree) behind (hrest ▸ hahead) rfl
      rw [ExpressionRun.depth_afterTree htree, Int.add_assoc, ← Tree.openBrackets_append] at hbehind
      rw [htrees]
      exact hbehind

/-- Statements are nodes, and brackets in them are none of the list. -/
theorem openBrackets_statements (nested : Bool) (input : Cursor) :
    Tree.openBrackets ((statements nested).read input).trees = 0 := by
  induction hlength : input.tokens.length using Nat.strongRecOn generalizing input with
  | _ length ih =>
    subst hlength
    have hseparators := local_separators.lossless input
    rw [read_eq_layer]
    show Tree.openBrackets ((separators input).append
      (ifAhead (Grammar.statementsEnd nested) nothing
        (Grammar.progress read ++ (statements nested).read) (separators input).rest)).trees = 0
    have hclosed : Tree.openBrackets (separators input).trees = 0 :=
      openBrackets_advanceWhile fun kind => by cases kind <;> decide
    rw [Parsed.append, Tree.openBrackets_append, hclosed, Int.zero_add]
    unfold ifAhead
    split
    · rfl
    · rename_i hgoesOn
      cases hahead : (separators input).rest.kind? with
      | none =>
        refine absurd ?_ hgoesOn
        rw [Grammar.statementsEnd, hahead]
      | some kind =>
        have hseparates := Grammar.kind?_rest_advanceWhile hahead
        obtain ⟨nodeKind, children, hnode⟩ := Grammar.trees_statement read (separators input).rest
        have hshorter := Grammar.advances_statement lossless_read beginsExpressions_read hahead
          hseparates
        rw [append_apply, Grammar.progress_eq_statement lossless_read beginsExpressions_read hahead
          hseparates, Parsed.append, Tree.openBrackets_append, hnode, Tree.openBrackets_node,
          Int.zero_add]
        exact ih _ (Nat.lt_of_lt_of_le hshorter hseparators.length_le) _ rfl

/-! ## The end of a line -/

/-- An expression that goes on takes trivia as they are. -/
theorem read_expression_of_isTrivia {run : ExpressionRun} {offset : Nat} {token : Token}
    {rest : List Token} (htrivia : token.kind.isTrivia = true)
    (hgoesOn : run.goesOn ⟨offset, token :: rest⟩ = true) :
    (expression run).read ⟨offset, token :: rest⟩ =
      (advance ++ (expression run).read) ⟨offset, token :: rest⟩ := by
  have hread := (read_expression_of_goesOn rfl hgoesOn).2
  rwa [ExpressionRun.step_of_isTrivia htrivia] at hread

/-- Up to a line break that does not end the expression, it goes on with trivia that do not. -/
theorem goesOn_of_trivia {run : ExpressionRun} {trivia : List Token} {newline : Token}
    (htrivia : ∀ token ∈ trivia, run.endsBefore token.kind = false)
    (hnewline : newline.kind = .newline) (hgoesOn : run.endsBefore .newline = false)
    (offset : Nat) (later : List Token) :
    run.goesOn ⟨offset, trivia ++ newline :: later⟩ = true := by
  induction trivia generalizing offset with
  | nil =>
    have hahead : Cursor.ahead? 0 ⟨offset, newline :: later⟩ = some .newline :=
      Grammar.ahead?_of_kind? (congrArg some hnewline) (by decide)
    rw [List.nil_append, ExpressionRun.goesOn, hahead, Option.any_some, hgoesOn]
    rfl
  | cons token rest ih =>
    by_cases hblank : token.kind = .whitespace
    · rw [List.cons_append, ExpressionRun.goesOn, Grammar.ahead?_cons_of_blank hblank]
      exact ih (fun found hmem => htrivia found (List.mem_cons_of_mem _ hmem)) _
    · have hahead : Cursor.ahead? 0 ⟨offset, token :: (rest ++ newline :: later)⟩ =
          some token.kind := Grammar.ahead?_of_kind? rfl hblank
      rw [List.cons_append, ExpressionRun.goesOn, hahead, Option.any_some,
        htrivia token List.mem_cons_self]
      rfl

/-- An expression that goes on over a line break takes it with the trivia in front. -/
theorem read_expression_append {run : ExpressionRun} {trivia : List Token} {newline : Token}
    (htrivia : ∀ token ∈ trivia, token.kind.isTrivia = true ∧ run.endsBefore token.kind = false)
    (hnewline : newline.kind = .newline) (hgoesOn : run.endsBefore .newline = false)
    (offset : Nat) (later : List Token) :
    ∃ moved, ((expression run).read ⟨offset, trivia ++ newline :: later⟩).trees =
        trivia.map .leaf ++ .leaf newline :: ((expression run).read ⟨moved, later⟩).trees ∧
      ((expression run).read ⟨offset, trivia ++ newline :: later⟩).rest =
        ((expression run).read ⟨moved, later⟩).rest := by
  have hahead := goesOn_of_trivia (fun token hmem => (htrivia token hmem).2) hnewline hgoesOn
    offset later
  induction trivia generalizing offset with
  | nil =>
    rw [List.nil_append, read_expression_of_isTrivia (by rw [hnewline]; rfl) hahead]
    exact ⟨_, rfl, rfl⟩
  | cons token rest ih =>
    have hlater : ∀ found ∈ rest, found.kind.isTrivia = true ∧ run.endsBefore found.kind = false :=
      fun found hmem => htrivia found (List.mem_cons_of_mem _ hmem)
    obtain ⟨moved, htrees, hrest⟩ := ih hlater (offset + token.width)
      (goesOn_of_trivia (fun found hmem => (hlater found hmem).2) hnewline hgoesOn _ later)
    rw [List.cons_append] at hahead ⊢
    rw [read_expression_of_isTrivia (htrivia token List.mem_cons_self).1 hahead]
    exact ⟨moved, congrArg (Tree.leaf token :: ·) htrees, hrest⟩

/-- An expression that goes on over the line break at the end of a line takes the line break, so it
must not carry on there. -/
theorem not_carriesOn_of_lineEnd {run : ExpressionRun} {passed : List Tree} {index : Nat}
    {input : Cursor} {tokens' : List Token} (hend : LineEnd index input.tokens tokens')
    (hgoesOn : run.endsBefore .newline = false)
    (hcompletes : Tree.Completes index passed ((expression run).read input).trees) :
    ¬ Tree.CarriesOn passed := by
  obtain ⟨offset, tokens⟩ := input
  obtain ⟨later, hblanks, -, hnewline, -⟩ := hend
  rename_i blanks _ newline _
  have htrivia : ∀ token ∈ blanks, token.kind.isTrivia = true ∧
      run.endsBefore token.kind = false := by
    intro token hmem
    rw [hblanks token hmem]
    exact ⟨rfl, run.endsBefore_whitespace⟩
  obtain ⟨moved, htrees, -⟩ := read_expression_append htrivia hnewline hgoesOn offset later
  replace hcompletes : Tree.Completes blanks.length passed
    ((expression run).read ⟨offset, blanks ++ newline :: later⟩).trees := hcompletes
  rw [htrees] at hcompletes
  exact hcompletes.not_carriesOn_of_trivia fun token hmem => (htrivia token hmem).1

/-- Where a line break ends an expression, a comment does so too. -/
theorem goesOn_of_lineEnd {run : ExpressionRun} {index : Nat} {input input' : Cursor}
    (hend : LineEnd index input.tokens input'.tokens)
    (hstops : run.endsBefore .newline = true) :
    run.goesOn input = false ∧ run.goesOn input' = false := by
  have hcomment : run.endsBefore .comment = true := by
    simp [ExpressionRun.endsBefore, ExpressionRun.depth_of_endsBefore hstops, TokenKind.isKeyword]
  rw [ExpressionRun.goesOn, ExpressionRun.goesOn, Cursor.ahead?, Cursor.ahead?, hend.kindAhead?_eq,
    Option.any_some, hstops]
  refine ⟨rfl, ?_⟩
  rcases hend.kindAhead?_eq_or with hahead | hahead
  · rw [hahead, Option.any_some, hstops]
    rfl
  · rw [hahead, Option.any_some, hcomment]
    rfl

/-- Inside brackets the end of a line is taken, with the comment as without it. -/
theorem sameCode_of_depth {run : ExpressionRun} {index : Nat} {input input' : Cursor}
    (hend : LineEnd index input.tokens input'.tokens) (hdepth : run.depth ≠ 0) :
    ((expression run).read input).SameCode index ((expression run).read input') := by
  have hnothing := ExpressionRun.endsBefore_of_depth hdepth
  obtain ⟨offset, tokens⟩ := input
  obtain ⟨offset', tokens'⟩ := input'
  obtain ⟨later, hblanks, htrivia, hnewline, hnewline'⟩ := hend
  rename_i blanks trivia newline newline'
  replace hblanks : ∀ token ∈ blanks, token.kind.isTrivia = true := fun token hmem => by
    rw [hblanks token hmem]
    rfl
  replace htrivia : ∀ token ∈ trivia, token.kind.isTrivia = true :=
    fun token hmem => Token.isTrivia_of_blank_or_comment (htrivia token hmem)
  obtain ⟨moved, htrees, hrest⟩ := read_expression_append
    (fun token hmem => ⟨hblanks token hmem, hnothing _⟩) hnewline (hnothing _) offset later
  obtain ⟨moved', htrees', hrest'⟩ := read_expression_append
    (fun token hmem => ⟨htrivia token hmem, hnothing _⟩) hnewline' (hnothing _) offset' later
  -- behind the line breaks both go on with the same tokens, at other offsets
  obtain ⟨hagain, hleft⟩ := (local_read (.expression run)).eq_of_tokens
    (show (Cursor.mk moved later).tokens = (Cursor.mk moved' later).tokens from rfl)
  have hbreak : ∀ token : Token, token.kind = .newline → ∀ trees,
      Tree.codeOf (.leaf token :: trees) = Tree.codeOf trees := fun token hkind trees => by
    rw [Tree.codeOf, Tree.code, hkind]
    rfl
  refine ⟨?_, .inl ?_⟩
  · show Tree.codeOf ((expression run).read ⟨offset, blanks ++ newline :: later⟩).trees =
      Tree.codeOf ((expression run).read ⟨offset', trivia ++ newline' :: later⟩).trees
    rw [htrees, htrees', Tree.codeOf_append, Tree.codeOf_append, Tree.codeOf_map_leaf,
      Tree.codeOf_map_leaf, Token.codeOf_eq_nil hblanks, Token.codeOf_eq_nil htrivia,
      hbreak newline hnewline, hbreak newline' hnewline', hagain]
  · show ((expression run).read ⟨offset, blanks ++ newline :: later⟩).rest.tokens =
      ((expression run).read ⟨offset', trivia ++ newline' :: later⟩).rest.tokens
    rw [hrest, hrest', hleft]

/-- **At the end of a line** an expression overlooks the comment: inside brackets it takes the end
of the line, and outside of them it ends before it, unless it carries on. -/
theorem sameCode_of_lineEnd {run : ExpressionRun} {passed : List Tree} {index : Nat}
    {input input' : Cursor} (hend : LineEnd index input.tokens input'.tokens)
    (hfits : run.Fits passed)
    (hcompletes : Tree.Completes index passed ((expression run).read input).trees) :
    ((expression run).read input).SameCode index ((expression run).read input') := by
  by_cases hdepth : run.depth = 0
  · cases hgoesOn : run.endsBefore .newline with
    | true =>
      obtain ⟨hends, hends'⟩ := goesOn_of_lineEnd hend hgoesOn
      rw [read_expression_of_ends hends, read_expression_of_ends hends']
      exact ⟨rfl, .inr ⟨index, (Nat.zero_add index).symm, .lineEnd hend⟩⟩
    | false =>
      -- the expression would carry on over the line break
      exact absurd (hfits.carriesOn hdepth hgoesOn)
        (not_carriesOn_of_lineEnd hend hgoesOn hcompletes)
  · exact sameCode_of_depth hend hdepth

end Production

end RubyIndex.Syntax
