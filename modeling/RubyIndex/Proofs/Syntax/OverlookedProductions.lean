import RubyIndex.Proofs.Syntax.Candor
import RubyIndex.Proofs.Syntax.OverlookedExpressions

/-! # The grammar overlooks comments at the ends of lines

Every production reads an input with a comment at the end of a line as without it, unless an
expression carries on over the line break. The constructs of the grammar are put together from parts
that do, and a production calls others on shorter inputs only, or on the same input in an order that
ends.

* `Production.OverlooksUpTo`: a production overlooks comments in inputs of a bounded length.
* `Production.overlooksUpTo` is the induction on that length. -/

namespace RubyIndex.Syntax

open RubyIndex.Syntax.Parser Token

namespace Cursor

/-- Code is ahead, and at most so many tokens come after its first token. -/
structure Ready (length : Nat) (input : Cursor) : Prop where
  code : input.AtCode
  short : input.Short (length + 1)

end Cursor

namespace Production

/-- A production **fits** the trees before it in its node: an expression is one behind them, and
clauses stand where no bracket is open. -/
def Fits (passed : List Tree) : Production → Prop
  | .statements _ => True
  | .clauses => Tree.openBrackets passed = 0
  | .expression run => run.Fits passed

/-- A production **overlooks comments up to** a length if it does so in all inputs of at most so
many tokens, behind trees that it fits. -/
def OverlooksUpTo (length : Nat) (production : Production) : Prop :=
  ∀ passed input input', input.Short length → production.Fits passed →
    OverlooksAt passed production.read input input'

end Production

/-- A keyword is code. -/
theorem TokenKind.isTrivia_of_isKeyword {kind : TokenKind} (hkeyword : kind.isKeyword = true) :
    kind.isTrivia = false := by
  revert hkeyword
  cases kind <;> decide

/-! ## Parts in a row -/

namespace Parser

variable {length : Nat} {first second : Parser}

/-- What comes after a parser that takes a token need only overlook comments in shorter inputs. -/
theorem Overlooks.followedBy_of_advances (hfirst : Overlooks (Cursor.Ready length) first)
    (hadvances : Advances first) (hsecond : Overlooks (Cursor.Short length) second) :
    Overlooks (Cursor.Ready length) (first ++ second) := by
  refine hfirst.followedBy hsecond fun input ⟨⟨kind, hkind, _⟩, hshort⟩ => ?_
  exact hshort.of_lt (Grammar.rest_lt_of_advances hadvances hkind)

/-- What comes next has no longer input. -/
theorem short_rest (hlocal : Local first) {input : Cursor} (hshort : input.Short length) :
    (first input).rest.Short length := Nat.le_trans (hlocal.lossless input).length_le hshort

/-- The next token with the blanks before it. -/
theorem overlooks_skipWhitespace_advance :
    Overlooks (fun input => ∃ kind, input.ahead? 0 = some kind ∧ kind.isTrivia = false)
      (skipWhitespace ++ advance) := by
  refine (Overlooks.skipWhitespace.mono fun _ _ => trivial).followedBy .advance ?_
  rintro input ⟨kind, hahead, hcode⟩
  exact ⟨kind, (Grammar.ahead?_zero input).symm.trans hahead, hcode⟩

/-- A sign between blanks, and what comes after it. -/
theorem overlooks_signed {kind : TokenKind} (hcode : kind.isTrivia = false)
    (hsecond : Overlooks (Cursor.Short length) second) :
    Overlooks (fun input => input.Short length ∧ (input.ahead? 0 == some kind) = true)
      (skipWhitespace ++ advance ++ skipWhitespace ++ second) := by
  have hsign : OverlooksAll skipWhitespace := .skipWhitespace
  refine ((overlooks_skipWhitespace_advance.mono ?_).followedBy_all hsign).followedBy hsecond ?_
  · rintro input ⟨-, hahead⟩
    exact ⟨kind, eq_of_beq hahead, hcode⟩
  · rintro input ⟨hshort, -⟩
    exact short_rest ((Local.skipWhitespace.followedBy .advance).followedBy .skipWhitespace) hshort

end Parser

namespace Grammar

open Production Labels

/-! ## Constructs -/

section Constructs

variable {length : Nat} (hinner : ∀ production : Production, production.OverlooksUpTo length)

include hinner

/-- A node that holds a production and nothing else. -/
theorem overlooks_node (kind : NodeKind) {production : Production} (hfits : production.Fits []) :
    Overlooks (Cursor.Short length) (node kind production.read) :=
  ⟨(local_read production).node kind, fun _ input input' hshort =>
    (hinner production [] input input' hshort hfits).node kind⟩

theorem overlooks_body : Overlooks (Cursor.Short length) (body read) :=
  overlooks_node hinner .body (show Fits [] .clauses from rfl)

/-- A node that holds an expression. -/
theorem overlooks_node_expression (kind : NodeKind) (mode : ExpressionMode) :
    Overlooks (Cursor.Short length) (node kind (expression read mode)) :=
  overlooks_node hinner kind (show Fits [] (.expression (.start mode)) from
    ExpressionRun.fits_start mode rfl)

theorem overlooks_moduleDefinition :
    Overlooks (Cursor.Ready length) (moduleDefinition read) := by
  have hheader : Overlooks (Cursor.Ready length)
      (advance ++ skipWhitespace ++ definedName .moduleDef) :=
    ((Overlooks.advance.mono fun _ hready => hready.code).followedBy_all
      .skipWhitespace).followedBy_all (overlooks_definedName _)
  have hadvances : Advances (advance ++ skipWhitespace ++ definedName .moduleDef) :=
    (Advances.advance.followedBy .skipWhitespace).followedBy (satisfies_definedName _)
  exact ((hheader.followedBy_of_advances hadvances (overlooks_body hinner)).followedBy_all
    (overlooks_closing _)).node _

theorem overlooks_superclass : Overlooks (Cursor.Short length) (superclass read) :=
  .whenAhead (.ahead rfl) (overlooks_signed rfl (overlooks_node_expression hinner _ _))

theorem overlooks_classDefinition : Overlooks (Cursor.Ready length) (classDefinition read) := by
  have hheader : Overlooks (Cursor.Ready length)
      (advance ++ skipWhitespace ++ definedName .classDef) :=
    ((Overlooks.advance.mono fun _ hready => hready.code).followedBy_all
      .skipWhitespace).followedBy_all (overlooks_definedName _)
  have hadvances : Advances (advance ++ skipWhitespace ++ definedName .classDef) :=
    (Advances.advance.followedBy .skipWhitespace).followedBy (satisfies_definedName _)
  exact (((hheader.followedBy_of_advances hadvances
    (overlooks_superclass hinner)).followedBy_of_advances
      (hadvances.followedBy (satisfies_superclass lossless_read))
    (overlooks_body hinner)).followedBy_all (overlooks_closing _)).node _

omit hinner in
/-- Neither the end of a line nor a comment begins parameters. -/
theorem unheard_bareParametersAhead : Unheard bareParametersAhead where
  stable := stable_bareParametersAhead
  same := by
    intro index input input' hcommented
    rcases hcommented.lineEnd_or_cons with
      hend | ⟨token, rest, rest', _, hsplit, hsplit', -, -, hahead⟩
    · have hnone : ∀ found : Cursor, found.ahead? 0 = some .newline ∨
          found.ahead? 0 = some .comment → bareParametersAhead found = false := by
        intro found hahead
        unfold bareParametersAhead
        rcases hahead with hahead | hahead <;> rw [hahead, Bool.and_false]
      rw [hnone input (.inl hend.kindAhead?_eq), hnone input' hend.kindAhead?_eq_or]
    · have hsame : input.isAt .whitespace = input'.isAt .whitespace := by
        rw [Cursor.isAt, Cursor.isAt, Cursor.kind?, Cursor.kind?, hsplit, hsplit']
        rfl
      unfold bareParametersAhead
      rw [hsame, Cursor.ahead?, Cursor.ahead?, hahead]

theorem overlooks_parameters : Overlooks (Cursor.Short length) (parameters read) := by
  refine .ifAhead (.isAt rfl) ((overlooks_parenthesized.node _).mono fun _ _ => trivial)
    ((Overlooks.whenAhead unheard_bareParametersAhead ?_).mono fun _ hinput => hinput.1)
  refine (Overlooks.skipWhitespace.mono fun _ _ => trivial).followedBy
    (overlooks_node_expression hinner .paramList .value) fun input hinput => ?_
  exact short_rest .skipWhitespace hinput.1

theorem overlooks_endlessBody :
    Overlooks (fun input => input.Short length ∧ (input.ahead? 0 == some .eq) = true)
      (endlessBody read) :=
  overlooks_signed rfl (.node _ (overlooks_node_expression hinner _ _))

theorem overlooks_methodDefinition :
    Overlooks (Cursor.Ready length) (methodDefinition read) := by
  have hheader : Overlooks (Cursor.Ready length)
      (advance ++ skipWhitespace ++ receiver ++ methodName) :=
    (((Overlooks.advance.mono fun _ hready => hready.code).followedBy_all
      .skipWhitespace).followedBy_all overlooks_receiver).followedBy_all overlooks_methodName
  have hadvances : Advances (advance ++ skipWhitespace ++ receiver ++ methodName) :=
    ((Advances.advance.followedBy .skipWhitespace).followedBy satisfies_receiver).followedBy
      satisfies_methodName
  have hending : Overlooks (Cursor.Short length) (ifAhead (·.ahead? 0 == some .eq)
      (endlessBody read) (body read ++ closing .methodDef)) :=
    .ifAhead (.ahead rfl) (overlooks_endlessBody hinner)
      (((overlooks_body hinner).followedBy_all (overlooks_closing _)).mono fun _ hinput => hinput.1)
  exact ((hheader.followedBy_of_advances hadvances
    (overlooks_parameters hinner)).followedBy_of_advances
      (hadvances.followedBy (satisfies_parameters lossless_read)) hending).node _

/-! ## Blocks and assignments -/

variable {passed : List Tree} {input input' : Cursor}

omit hinner in
/-- A keyword that is taken is no bracket. -/
theorem openBrackets_advance {kind : TokenKind} (hkind : input.kind? = some kind)
    (hkeyword : kind.isKeyword = true) : Tree.openBrackets (advance input).trees = 0 := by
  obtain ⟨offset, token, rest, rfl, rfl⟩ := Cursor.exists_of_kind? hkind
  have hbracket : token.kind.isOpening = false ∧ token.kind.isClosing = false := by
    revert hkeyword
    cases token.kind <;> decide
  exact Tree.openBrackets_leaf_of hbracket.1 hbracket.2

/-- A keyword and the expression that it heads. -/
theorem overlooksAt_headed {kind : TokenKind} (mode : ExpressionMode)
    (hkind : input.kind? = some kind) (hkeyword : kind.isKeyword = true)
    (hshort : input.Short (length + 1)) (hclosed : Tree.openBrackets passed = 0) :
    OverlooksAt passed (advance ++ expression read mode) input input' := by
  have hcode := TokenKind.isTrivia_of_isKeyword hkeyword
  have hrest := hshort.of_lt (rest_lt_of_advances Advances.advance hkind)
  refine .followedBy (.advance ⟨kind, hkind, hcode⟩) (hinner _ _ _ _ hrest ?_) (local_read _)
  refine ExpressionRun.fits_start mode ?_
  rw [Tree.openBrackets_append, hclosed, openBrackets_advance hkind hkeyword]
  rfl

theorem overlooksAt_block {kind : TokenKind} (hkind : input.kind? = some kind)
    (hopens : opensNested kind = true) (hshort : input.Short (length + 1)) :
    OverlooksAt passed (block read) input input' := by
  have hkeyword : kind.isKeyword = true := by
    revert hopens
    cases kind <;> decide
  have hcode := TokenKind.isTrivia_of_isKeyword hkeyword
  intro index hcommented
  -- the header is read in the same mode
  have hsame := Cursor.AtCode.kind?_eq ⟨kind, hkind, hcode⟩ hcommented
  have hadvances : Advances (advance ++ expression read (headerMode input.kind?)) :=
    Advances.advance.followedBy (satisfies_expression lossless_read _)
  have hrest := hshort.of_lt (rest_lt_of_advances hadvances hkind)
  have hwhole : OverlooksAt passed (node .block (advance ++
      expression read (headerMode input.kind?) ++ body read ++ closing .block)) input input' := by
    refine .node _ (.followedBy (.followedBy (overlooksAt_headed hinner _ hkind hkeyword hshort rfl)
      ((overlooks_body hinner).overlooks _ _ _ hrest) (overlooks_body hinner).isLocal)
      ((overlooks_closing _).overlooks _ _ _ trivial) (overlooks_closing _).isLocal)
  show Tree.Completes index passed (block read input).trees →
    (block read input).SameCode index (block read input')
  unfold block
  rw [hsame]
  exact hwhole index hcommented

omit hinner in
/-- Blanks and line breaks that are taken where an expression carries on: the line break behind the
comment is never among them. -/
theorem sameCode_breaks {accepts : TokenKind → Bool} (hblank : accepts .whitespace = true)
    (hbreak : accepts .newline = true)
    (htrivia : ∀ kind : TokenKind, accepts kind = true → kind.isTrivia = true) {index : Nat}
    {tokens tokens' : List Token} (hcommented : Commented index tokens tokens')
    (hcarries : Tree.CarriesOn passed) (offset offset' : Nat)
    (hcompletes : Tree.Completes index passed (advanceAmong accepts offset tokens).trees) :
    (advanceAmong accepts offset tokens).SameCode index (advanceAmong accepts offset' tokens') := by
  induction hcommented generalizing passed offset offset' with
  | lineEnd hend =>
    -- the line break would be taken where the expression carries on
    exfalso
    obtain ⟨later, hblanks, -, hnewline, -⟩ := hend
    rename_i blanks _ newline _
    have htaken : (advanceAmong accepts offset (blanks ++ newline :: later)).trees =
        blanks.map .leaf ++ .leaf newline :: (later.takeWhile (accepts ·.kind)).map .leaf := by
      have htrees := trees_advanceWhile accepts ⟨offset, blanks ++ newline :: later⟩
      rwa [List.takeWhile_append_of_pos fun token hmem => by rw [hblanks token hmem, hblank],
        List.takeWhile_cons_of_pos (by rw [hnewline, hbreak]), List.map_append] at htrees
    replace hcompletes : Tree.Completes blanks.length passed
      (advanceAmong accepts offset (blanks ++ newline :: later)).trees := hcompletes
    rw [htaken] at hcompletes
    refine hcompletes.not_carriesOn_of_trivia (fun token hmem => ?_) hcarries
    rw [hblanks token hmem]
    rfl
  | cons token hlater ih =>
    rename_i inner rest rest'
    rw [advanceAmong] at hcompletes ⊢
    rw [advanceAmong]
    by_cases haccepted : accepts token.kind = true
    · rw [if_pos haccepted] at hcompletes ⊢
      rw [if_pos haccepted]
      have hcarriesBehind : Tree.CarriesOn (passed ++ [token].map .leaf) :=
        (Tree.carriesOn_append_trivia fun found hmem =>
          List.mem_singleton.1 hmem ▸ htrivia _ haccepted).2 hcarries
      have hbehind : Tree.Completes inner (passed ++ [token].map .leaf)
          (advanceAmong accepts (offset + token.width) rest).trees := by
        refine Tree.Completes.append_right ?_
        rw [Tree.leavesOf_map_leaf, List.length_singleton, Nat.add_comm]
        exact hcompletes
      exact (ih hcarriesBehind _ _ hbehind).cons token
    · rw [if_neg haccepted, if_neg haccepted]
      exact ⟨rfl, .inr ⟨inner + 1, (Nat.zero_add _).symm, hlater.cons token⟩⟩

/-- An assignment. The blanks and line breaks behind its sign are where it carries on. -/
theorem overlooksAt_assignment (hform : statementForm input = .assignment)
    (hshort : input.Short (length + 1)) :
    OverlooksAt passed (assignment read) input input' := by
  obtain ⟨kind, hkind, hvariable, hsign⟩ := ahead_of_assignment hform
  have hcode : kind.isTrivia = false := by
    revert hvariable
    cases kind <;> decide
  have htarget : OverlooksAt [] (node .varField advance ++ skipWhitespace) input input' :=
    .followedBy (.node _ (.advance ⟨kind, hkind, hcode⟩))
      (Overlooks.skipWhitespace.overlooks _ _ _ trivial) .skipWhitespace
  set target := (node .varField advance ++ skipWhitespace) input with htargetDef
  have hahead : target.rest.kind? = some .eq := by
    show (skipWhitespace (advance input).rest).rest.kind? = some .eq
    rw [← ahead?_zero, ahead?_rest_advance hkind (by rintro rfl; cases hcode)]
    exact eq_of_beq hsign
  -- behind `=` and outside of brackets an expression is still to come
  have hcarries : Tree.CarriesOn (target.trees ++ (advance target.rest).trees) := by
    have hclosed : Tree.openBrackets target.trees = 0 := by
      rw [htargetDef, append_apply, Parsed.append, Tree.openBrackets_append, skipWhitespace,
        openBrackets_advanceWhile fun kind => by cases kind <;> decide]
      rfl
    obtain ⟨token, htrees, hsignKind⟩ := trees_advance_of_isAt (beq_iff_eq.2 hahead)
    rw [htrees, Tree.CarriesOn, Tree.openBrackets_append, hclosed, Tree.lastCode?_append_singleton,
      Tree.openBrackets_leaf_of (by rw [hsignKind]; rfl) (by rw [hsignKind]; rfl), Tree.label,
      hsignKind]
    exact ⟨rfl, .eq, rfl, rfl⟩
  have hadvances : Advances (node .varField advance ++ skipWhitespace ++ advance ++
      advanceWhile fun kind => kind == .whitespace || kind == .newline) :=
    (((Advances.advance.node _).followedBy .skipWhitespace).followedBy .advance).followedBy
      (.advanceWhile _)
  have hrest := hshort.of_lt (rest_lt_of_advances hadvances hkind)
  refine .node _ (.followedBy (.followedBy (.followedBy htarget (.advance ⟨.eq, hahead, rfl⟩)
    .advance) ?_ (.advanceWhile _)) ((overlooks_node_expression hinner .expr .value).overlooks
      _ _ _ hrest) (overlooks_node_expression hinner .expr .value).isLocal)
  intro index hcommented hcompletes
  exact sameCode_breaks rfl rfl (fun kind => by cases kind <;> decide) hcommented hcarries _ _
    hcompletes

/-! ## Statements -/

/-- A modifier and its condition, behind a statement that is one node. -/
theorem overlooksAt_modified {parser : Parser} {kind : NodeKind} {children : List Tree}
    (hparser : OverlooksAt [] parser input input')
    (hnode : (parser input).trees = [.node kind children])
    (hshort : (parser input).rest.Short (length + 1))
    (hmodifier : ((parser input).rest.ahead? 0).any (·.isModifier) = true) :
    OverlooksAt passed (node .statement (parser ++ skipWhitespace ++
      (advance ++ expression read .statement))) input input' := by
  obtain ⟨modifier, hahead, hkind⟩ := (Option.any_eq_true _ _).1 hmodifier
  have hkeyword : modifier.isKeyword = true := by
    revert hkind
    cases modifier <;> decide
  have hclosed : Tree.openBrackets ((parser input).trees ++
      (skipWhitespace (parser input).rest).trees) = 0 := by
    rw [hnode, Tree.openBrackets_append, skipWhitespace,
      openBrackets_advanceWhile fun kind => by cases kind <;> decide]
    rfl
  refine .node _ (.followedBy (.followedBy hparser
    (Overlooks.skipWhitespace.overlooks _ _ _ trivial) .skipWhitespace) (overlooksAt_headed hinner
      .statement ((ahead?_zero _).symm.trans hahead) hkeyword
      (short_rest .skipWhitespace hshort) hclosed) (.followedBy .advance (local_read _)))

omit hinner in
/-- A modifier is ahead with the comment as without it. -/
theorem isModifier_eq {index : Nat} {parsed parsed' : Parsed}
    (hsame : parsed.SameCode index parsed') :
    (parsed'.rest.ahead? 0).any (·.isModifier) = (parsed.rest.ahead? 0).any (·.isModifier) := by
  rcases hsame.rest with hrest | ⟨_, _, hlater⟩
  · rw [Cursor.ahead?, Cursor.ahead?, hrest]
  · have htrivial : ∀ kind : TokenKind, kind.isTrivia = true →
        (some kind).any (·.isModifier) = false := by
      intro kind htrivia
      rcases isTrivia_cases htrivia with rfl | rfl | rfl <;> rfl
    exact ((Cursor.ahead?_alike hlater).eq_of_forall (·.any (·.isModifier)) htrivial).symm

omit hinner in
/-- A statement with a modifier behind it is one node. -/
theorem withModifier_apply (parser : Parser) (found : Cursor) :
    withModifier read parser found =
      if ((parser found).rest.ahead? 0).any (·.isModifier) then
        node .statement (parser ++ skipWhitespace ++ (advance ++ expression read .statement)) found
      else parser found := by
  have hsplit : (parser found).append ((skipWhitespace ++ advance ++
      expression read .statement) (parser found).rest) =
        (parser ++ skipWhitespace ++ (advance ++ expression read .statement)) found := by
    simp only [append_apply, Parsed.append_assoc]
    rfl
  unfold withModifier
  dsimp only
  rw [hsplit]
  rfl

/-- A statement that is one node, with the modifier that may come after it. -/
theorem overlooksAt_withModifier {parser : Parser} {kind : NodeKind} {children : List Tree}
    (hparser : ∀ passed, OverlooksAt passed parser input input')
    (hnode : (parser input).trees = [.node kind children])
    (hshort : (parser input).rest.Short (length + 1)) :
    OverlooksAt passed (withModifier read parser) input input' := by
  intro index hcommented hcompletes
  rw [withModifier_apply] at hcompletes ⊢
  rw [withModifier_apply]
  by_cases hmodifier : ((parser input).rest.ahead? 0).any (·.isModifier) = true
  · rw [if_pos hmodifier] at hcompletes ⊢
    have hsame := hparser [] index hcommented hcompletes.node.append_left.append_left
    rw [if_pos ((isModifier_eq hsame).trans hmodifier)]
    exact overlooksAt_modified hinner (hparser []) hnode hshort hmodifier index hcommented
      hcompletes
  · rw [if_neg hmodifier] at hcompletes ⊢
    have hsame := hparser passed index hcommented hcompletes
    rw [if_neg ((isModifier_eq hsame).symm ▸ hmodifier)]
    exact hsame

omit hinner in
theorem overlooks_skipLine (fault : SyntaxFault) : OverlooksAll (skipLine fault) :=
  (Overlooks.report fault).followedBy_all
    ((Overlooks.advanceWhile rfl fun hnewline => absurd hnewline (by decide)).node _)

omit hinner in
/-- Where code is ahead, a comment changes neither the form of the statement nor its first token. -/
theorem statementForm_eq {index : Nat} (hcode : input.AtCode)
    (hcommented : Commented index input.tokens input'.tokens) :
    statementForm input' = statementForm input ∧ input'.text = input.text := by
  obtain ⟨offset, offset', token, rest, rest', _, rfl, rfl, htrivia, -, hlater⟩ :=
    hcode.exists_rest hcommented
  have hblank : token.kind ≠ .whitespace := by
    intro hblank
    rw [hblank] at htrivia
    cases htrivia
  have hahead : ∀ kind : TokenKind, kind.isTrivia = false →
      (Cursor.ahead? 1 ⟨offset', token :: rest'⟩ == some kind) =
        (Cursor.ahead? 1 ⟨offset, token :: rest⟩ == some kind) := by
    intro kind hkind
    rw [← ahead?_rest_advance rfl hblank, ← ahead?_rest_advance rfl hblank]
    exact ((Cursor.ahead?_alike hlater).beq_eq hkind).symm
  refine ⟨?_, rfl⟩
  unfold statementForm
  rw [hahead .shiftLeft rfl, hahead .eq rfl, Cursor.atLabel_eq hlater offset offset']
  rfl

/-- **A statement** overlooks comments where expressions do so in inputs that are one token
longer. -/
theorem overlooksAt_statement
    (hexpression : ∀ run, (Production.expression run).OverlooksUpTo (length + 1))
    (hready : input.Ready length) : OverlooksAt passed (statement read) input input' := by
  obtain ⟨hcode, hshort⟩ := hready
  intro index hcommented
  obtain ⟨hsame, htext⟩ := statementForm_eq hcode hcommented
  -- constructs may have a modifier behind them, and all of them are one node
  have hwhole : ∀ {parser : Parser} {kind : NodeKind} {children : List Tree},
      (∀ passed, OverlooksAt passed parser input input') → Local parser →
      (parser input).trees = [.node kind children] →
      OverlooksAt passed (withModifier read parser) input input' :=
    fun hparser hlocal hnode =>
      overlooksAt_withModifier hinner hparser hnode (short_rest hlocal hshort)
  unfold statement
  rw [hsame, htext]
  cases hform : statementForm input with
  | moduleDefinition =>
    exact hwhole (fun passed => (overlooks_moduleDefinition hinner).overlooks _ _ _ ⟨hcode, hshort⟩)
      (local_moduleDefinition local_read) rfl index hcommented
  | classDefinition =>
    exact hwhole (fun passed => (overlooks_classDefinition hinner).overlooks _ _ _ ⟨hcode, hshort⟩)
      (local_classDefinition local_read) rfl index hcommented
  | methodDefinition =>
    exact hwhole (fun passed => (overlooks_methodDefinition hinner).overlooks _ _ _ ⟨hcode, hshort⟩)
      (local_methodDefinition local_read) rfl index hcommented
  | block =>
    obtain ⟨kind, hkind, hopens⟩ := opensNested_of_block hform
    exact hwhole (fun passed => overlooksAt_block hinner hkind hopens hshort)
      (local_block local_read) rfl index hcommented
  | assignment =>
    exact hwhole (fun passed => overlooksAt_assignment hinner hform hshort)
      (local_assignment local_read) rfl index hcommented
  | unexpected => exact (overlooks_skipLine _).overlooks _ _ _ trivial index hcommented
  | strayClause => exact (overlooks_skipLine _).overlooks _ _ _ trivial index hcommented
  | plain =>
    exact OverlooksAt.node _ (hexpression _ [] _ _ hshort (ExpressionRun.fits_start _ rfl))
      index hcommented

/-! ## Productions -/

omit hinner in
/-- Trivia do not end statements. -/
theorem unheard_statementsEnd (nested : Bool) : Unheard (statementsEnd nested) := by
  have hreading : statementsEnd nested = fun input =>
      input.kind?.elim true fun kind => nested && (kind == .endKw || kind.opensClause) := by
    funext input
    unfold statementsEnd
    cases input.kind? <;> rfl
  rw [hreading]
  refine .ofKind false (fun found => found.elim true _) fun kind htrivia => ?_
  rcases isTrivia_cases htrivia with rfl | rfl | rfl <;> exact Bool.and_false nested

theorem overlooksUpTo_statements
    (hexpression : ∀ run, (Production.expression run).OverlooksUpTo (length + 1)) (nested : Bool) :
    (Production.statements nested).OverlooksUpTo (length + 1) := by
  intro passed input input' hshort _
  have hend := unheard_statementsEnd nested
  have hseparators : OverlooksAll separators := .advanceWhile rfl fun _ => rfl
  have hstatements : (Production.statements nested).read =
      separators ++ ifAhead (statementsEnd nested) nothing
        (progress read ++ (Production.statements nested).read) :=
    read_eq_layer (.statements nested)
  have hrest : (separators input).rest.Short (length + 1) := short_rest local_separators hshort
  rw [hstatements]
  refine .followedBy (hseparators.overlooks _ _ _ trivial)
    (.ifAhead hend (fun _ => .of_nothing rfl rfl) fun hgoesOn => ?_)
    (Local.nothing.ifAhead hend.stable ((local_progress local_read).followedBy (local_read _)))
  obtain ⟨kind, hkind⟩ : ∃ kind, (separators input).rest.kind? = some kind := by
    cases hahead : (separators input).rest.kind? with
    | none =>
      rw [statementsEnd, hahead] at hgoesOn
      cases hgoesOn
    | some kind => exact ⟨kind, rfl⟩
  have hseparates := kind?_rest_advanceWhile hkind
  have hcode : kind.isTrivia = false := by
    revert hseparates
    cases kind <;> decide
  have hbehind := hrest.of_lt (rest_lt_of_advances (advances_progress lossless_read) hkind)
  refine .followedBy (fun index hcommented => ?_) (hinner _ _ _ _ hbehind trivial) (local_read _)
  have hkind' : (separators input').rest.kind? = some kind :=
    (Cursor.AtCode.kind?_eq ⟨kind, hkind, hcode⟩ hcommented).trans hkind
  rw [progress_eq_statement lossless_read beginsExpressions_read hkind hseparates,
    progress_eq_statement lossless_read beginsExpressions_read hkind' hseparates]
  exact overlooksAt_statement hinner hexpression ⟨⟨kind, hkind, hcode⟩, hrest⟩ index hcommented

/-- A clause with a condition, and the clauses behind it. -/
theorem overlooksAt_headedClause {kind : TokenKind} (hkind : input.kind? = some kind)
    (hkeyword : kind.isKeyword = true) (hshort : input.Short (length + 1))
    (hclosed : Tree.openBrackets passed = 0) :
    OverlooksAt passed (advance ++ expression read .statement ++ Production.clauses.read)
      input input' := by
  have hadvances : Advances (advance ++ expression read .statement) :=
    Advances.advance.followedBy (satisfies_expression lossless_read _)
  have hrest := hshort.of_lt (rest_lt_of_advances hadvances hkind)
  refine .followedBy (overlooksAt_headed hinner _ hkind hkeyword hshort hclosed)
    (fun index hcommented => hinner .clauses _ _ _ hrest ?_ index hcommented) (local_read _)
  -- the line of the comment is ahead, so the condition has closed its brackets
  have hahead := depth_add_openBrackets (.start .statement) (advance input).rest
    hcommented.kindAhead?_ne_none
  show Tree.openBrackets (passed ++ ((advance input).trees ++ _)) = 0
  rw [Tree.openBrackets_append, Tree.openBrackets_append, hclosed,
    openBrackets_advance hkind hkeyword, Int.zero_add]
  exact hahead

/-- A clause without a condition, and the clauses behind it. -/
theorem overlooksAt_bareClause {kind : TokenKind} (hkind : input.kind? = some kind)
    (hkeyword : kind.isKeyword = true) (hshort : input.Short (length + 1))
    (hclosed : Tree.openBrackets passed = 0) :
    OverlooksAt passed (advance ++ Production.clauses.read) input input' := by
  have hcode := TokenKind.isTrivia_of_isKeyword hkeyword
  have hrest := hshort.of_lt (rest_lt_of_advances Advances.advance hkind)
  refine .followedBy (.advance ⟨kind, hkind, hcode⟩) (hinner .clauses _ _ _ hrest ?_)
    (local_read _)
  show Tree.openBrackets (passed ++ _) = 0
  rw [Tree.openBrackets_append, hclosed, openBrackets_advance hkind hkeyword]
  rfl

theorem overlooksAt_nextClause (hshort : input.Short (length + 1))
    (hclosed : Tree.openBrackets passed = 0) :
    OverlooksAt passed (nextClause read) input input' := by
  intro index hcommented
  by_cases hcode : input.AtCode
  · unfold nextClause
    rw [hcode.kind?_eq hcommented]
    split
    · exact overlooksAt_headedClause hinner ‹_› rfl hshort hclosed index hcommented
    · exact overlooksAt_headedClause hinner ‹_› rfl hshort hclosed index hcommented
    · exact overlooksAt_headedClause hinner ‹_› rfl hshort hclosed index hcommented
    · exact overlooksAt_headedClause hinner ‹_› rfl hshort hclosed index hcommented
    · exact overlooksAt_bareClause hinner ‹_› rfl hshort hclosed index hcommented
    · exact overlooksAt_bareClause hinner ‹_› rfl hshort hclosed index hcommented
    · exact overlooksAt_bareClause hinner ‹_› rfl hshort hclosed index hcommented
    · exact Overlooks.nothing.overlooks _ _ _ trivial index hcommented
  · -- no clause begins with trivia
    have hnothing : ∀ found : Cursor, ¬ found.AtCode → nextClause read found = nothing found := by
      intro found hfound
      unfold nextClause
      split <;> first | rfl | exact absurd ⟨_, ‹_›, rfl⟩ hfound
    exact OverlooksAt.of_nothing (hnothing _ hcode)
      (hnothing _ (Cursor.not_atCode hcode hcommented)) index hcommented

theorem overlooksUpTo_clauses
    (hstatements : ∀ nested, (Production.statements nested).OverlooksUpTo (length + 1)) :
    Production.clauses.OverlooksUpTo (length + 1) := by
  intro passed input input' hshort hclosed
  have hclauses : Production.clauses.read = (Production.statements true).read ++ nextClause read :=
    read_eq_layer .clauses
  rw [hclauses]
  refine .followedBy (hstatements true _ _ _ hshort trivial)
    (overlooksAt_nextClause hinner (short_rest (local_read _) hshort) ?_)
    (local_nextClause local_read)
  rw [Tree.openBrackets_append, openBrackets_statements, Int.add_zero]
  exact hclosed

/-- A nested construct, and the expression that goes on behind it. -/
theorem overlooksAt_nested {run : ExpressionRun} {parser : Parser} {kind : NodeKind}
    {children : List Tree} {first : TokenKind} (hparser : OverlooksAt passed parser input input')
    (hadvances : Advances parser) (hnode : (parser input).trees = [.node kind children])
    (hfirst : input.kind? = some first) (hshort : input.Short (length + 1))
    (hfits : run.Fits passed) :
    OverlooksAt passed (parser ++ (Production.expression run.afterNested).read) input input' := by
  have hrest := hshort.of_lt (rest_lt_of_advances hadvances hfirst)
  have hbehind : run.afterNested.Fits (passed ++ (parser input).trees) := by
    rw [hnode]
    exact hfits.afterNested kind children
  exact .followedBy hparser (hinner (.expression run.afterNested) _ _ _ hrest hbehind)
    (local_read _)

/-- **An expression** takes one thing at a time with the comment as without it, up to the end of the
line. -/
theorem overlooksUpTo_expression (run : ExpressionRun) :
    (Production.expression run).OverlooksUpTo (length + 1) := by
  intro passed input input' hshort hfits index hcommented hcompletes
  rcases hcommented.lineEnd_or_cons with
    hend | ⟨token, rest, rest', inner, hsplit, hsplit', rfl, hlater, hahead⟩
  · exact sameCode_of_lineEnd hend hfits hcompletes
  obtain ⟨offset, tokens⟩ := input
  obtain ⟨offset', tokens'⟩ := input'
  obtain rfl : tokens = token :: rest := hsplit
  obtain rfl : tokens' = token :: rest' := hsplit'
  have hgoesOnSame : run.goesOn ⟨offset', token :: rest'⟩ = run.goesOn ⟨offset, token :: rest⟩ := by
    rw [ExpressionRun.goesOn, ExpressionRun.goesOn, Cursor.ahead?, Cursor.ahead?, hahead]
  -- away from the end of the line the next token is the same in both texts
  cases hgoesOn : run.goesOn ⟨offset, token :: rest⟩ with
  | false =>
    exact OverlooksAt.of_nothing (read_expression_of_ends hgoesOn)
      (read_expression_of_ends (hgoesOnSame.trans hgoesOn)) _ hcommented hcompletes
  | true =>
    have hkind : Cursor.kind? ⟨offset, token :: rest⟩ = some token.kind := rfl
    have hkind' : Cursor.kind? ⟨offset', token :: rest'⟩ = some token.kind := rfl
    obtain ⟨htoken, hread⟩ := read_expression_of_goesOn hkind hgoesOn
    obtain ⟨-, hread'⟩ := read_expression_of_goesOn hkind' (hgoesOnSame.trans hgoesOn)
    rw [hread] at hcompletes ⊢
    rw [hread', Cursor.atLabel_eq hlater offset offset']
    cases hstep : run.step token.kind (Cursor.atLabel ⟨offset, token :: rest⟩) with
    | token next =>
      obtain rfl := ExpressionRun.eq_afterToken_of_step hstep
      rw [hstep] at hcompletes
      have hfront : (Tree.leavesOf [Tree.leaf token]).length + inner = inner + 1 := Nat.add_comm 1 _
      have hbehind := Tree.Completes.append_right (hfront ▸ hcompletes)
      exact (hinner (.expression (run.afterToken token.kind)) (passed ++ [Tree.leaf token])
        ⟨offset + token.width, rest⟩ ⟨offset' + token.width, rest'⟩ (Nat.le_of_succ_le_succ hshort)
        (hfits.afterToken htoken) inner hlater hbehind).cons token
    | block =>
      rw [hstep] at hcompletes
      exact overlooksAt_nested hinner
        (overlooksAt_block hinner hkind (opensNested_of_step hstep) hshort)
        (advances_block lossless_read) rfl hkind hshort hfits _ hcommented hcompletes
    | method =>
      rw [hstep] at hcompletes
      have hdefined : Cursor.kind? ⟨offset, token :: rest⟩ = some .defKw :=
        eq_of_beq (isAt_of_step hkind hstep)
      exact overlooksAt_nested hinner
        ((overlooks_methodDefinition hinner).overlooks _ _ _
          ⟨⟨.defKw, hdefined, rfl⟩, hshort⟩)
        (advances_methodDefinition lossless_read) rfl hkind hshort hfits _ hcommented hcompletes

end Constructs

end Grammar

/-- **The productions overlook comments** at the ends of lines, unless an expression carries on over
the line break. -/
theorem Production.overlooksUpTo (length : Nat) (production : Production) :
    production.OverlooksUpTo length := by
  induction length generalizing production with
  | zero =>
    -- there is no line break ahead
    intro passed input input' hshort _ index hcommented
    exact absurd (List.length_eq_zero_iff.1 (Nat.le_zero.1 hshort)) hcommented.ne_nil
  | succ length hinner =>
    have hexpression := Grammar.overlooksUpTo_expression hinner
    have hstatements := Grammar.overlooksUpTo_statements hinner hexpression
    cases production with
    | statements nested => exact hstatements nested
    | clauses => exact Grammar.overlooksUpTo_clauses hinner hstatements
    | expression run => exact hexpression run

/-! ## Texts -/

/-- **A comment at the end of a line is overlooked**, unless an expression carries on over the line
break: the tree of the text with the comment is that of the text without it, but for blanks, line
breaks and comments. -/
theorem codeOf_parse_withComment {source comment : String} {newline : Token}
    {front back : List Token} (htokens : tokenize source = front ++ newline :: back)
    (hnewline : newline.kind = .newline)
    (hcomment : ∀ last, front.getLast? = some last → last.kind ≠ .comment)
    (hline : '\n' ∉ comment.toList)
    (hcompletes : ¬ Tree.CarriesOn ((parse source).tree.siblingsBefore front.length)) :
    Tree.codeOf (parse (withComment front comment (newline :: back))).tree.children =
      Tree.codeOf (parse source).tree.children := by
  have hcommented := commented_tokenize htokens hnewline hcomment hline
  have hbefore : (parse source).tree.siblingsBefore front.length =
      Tree.beforeOf front.length [] (parseTokens (tokenize source)).trees := rfl
  rw [hbefore] at hcompletes
  have hsame := (Production.overlooksUpTo (tokenize source).length (.statements false)) []
    ⟨0, tokenize source⟩ ⟨0, tokenize (withComment front comment (newline :: back))⟩ (Nat.le_refl _)
    trivial front.length hcommented fun _ => hcompletes
  exact hsame.trees.symm

end RubyIndex.Syntax
