import RubyIndex.Proofs.Syntax.Concatenation
import RubyIndex.Proofs.Syntax.Overlooking

/-! # Names and headers overlook comments at the ends of lines

A name ends before the blanks at the end of a line, so a comment there changes nothing: what decides
how a name is read is code, or is no code in both texts. The parameters in parentheses go on over
line breaks and take the comment with them.

* `Grammar.overlooks_constPath`, `Grammar.overlooks_receiver` and `Grammar.overlooks_methodName` are
  about names.
* `Grammar.overlooks_parenthesized` is about parameters. -/

namespace RubyIndex.Syntax

open RubyIndex.Syntax.Parser Token

namespace Grammar

/-! ## Names and headers -/

/-- What is ahead when a token has been taken. -/
theorem kind?_rest_advance (input : Cursor) : (advance input).rest.kind? = input.secondKind? := by
  obtain ⟨offset, tokens⟩ := input
  cases tokens with
  | nil => rfl
  | cons token rest =>
    cases rest <;> rfl

/-- Two code tokens are taken with the comment as without it. -/
theorem overlooks_advance_advance :
    Overlooks (fun input => ∃ kind second, input.kind? = some kind ∧
      input.secondKind? = some second ∧ kind.isTrivia = false ∧ second.isTrivia = false)
      (advance ++ advance) := by
  refine .followedBy (Overlooks.advance.mono ?_) .advance ?_
  · rintro input ⟨kind, _, hkind, -, hcode, -⟩
    exact ⟨kind, hkind, hcode⟩
  · rintro input ⟨_, second, -, hsecond, -, hcode⟩
    exact ⟨second, (kind?_rest_advance input).trans hsecond, hcode⟩

theorem unheard_qualifierAhead : Unheard qualifierAhead :=
  .firstThen (· == some .colonColon) (· == some .const)
    (fun _ htrivia => beq_eq_false_of_isTrivia htrivia rfl) fun _ _ halike => halike.beq_eq rfl

/-- The `::` and constant pairs that continue a qualified name. -/
def qualifiers : Parser := fun input => qualifiersAmong input.offset input.tokens

/-- The pairs of `::` and a constant are taken one after the other. -/
theorem qualifiers_eq :
    qualifiers = whenAhead qualifierAhead (advance ++ advance ++ qualifiers) := by
  funext ⟨offset, tokens⟩
  unfold whenAhead ifAhead
  match tokens with
  | [] => rfl
  | [token] =>
    have hnone : qualifierAhead ⟨offset, [token]⟩ = false := Bool.and_false _
    rw [hnone]
    rfl
  | colons :: constant :: rest =>
    have hahead : qualifierAhead ⟨offset, colons :: constant :: rest⟩ =
        (colons.kind == .colonColon && constant.kind == .const) := rfl
    rw [qualifiers, qualifiersAmong, hahead]
    rfl

theorem overlooks_qualifiers : OverlooksAll qualifiers := by
  refine ⟨local_qualifiers, fun passed input input' _ => ?_⟩
  -- every pair makes the input shorter
  induction hlength : input.tokens.length using Nat.strongRecOn
    generalizing passed input input' with
  | _ length ih =>
    subst hlength
    rw [qualifiers_eq]
    refine .ifAhead unheard_qualifierAhead (fun hahead => ?_) fun _ => .of_nothing rfl rfl
    obtain ⟨hfirst, hsecond⟩ := Bool.and_eq_true_iff.1 hahead
    have hadvances : Advances (advance ++ advance) := Advances.advance.followedBy .advance
    refine .followedBy (overlooks_advance_advance.overlooks _ _ _ ?_) (ih _ ?_ _ _ _ rfl)
      local_qualifiers
    · exact ⟨_, _, eq_of_beq hfirst, eq_of_beq hsecond, rfl, rfl⟩
    · exact rest_lt_of_advances hadvances (eq_of_beq hfirst)

theorem overlooks_constPath : OverlooksAll constPath :=
  (((Overlooks.advance_of_isAt rfl).whenAhead (.isAt rfl)).followedBy_all
    (.expect rfl _)).followedBy_all overlooks_qualifiers |>.node _

theorem overlooks_definedName (construct : Construct) : OverlooksAll (definedName construct) := by
  have hahead : Unheard fun input => input.isAt .const || input.isAt .colonColon :=
    .ofKind false (fun kind => kind == some .const || kind == some .colonColon)
      fun _ htrivia => by
        rw [beq_eq_false_of_isTrivia htrivia rfl, beq_eq_false_of_isTrivia htrivia rfl]
        rfl
  exact .ifAhead hahead (overlooks_constPath.mono fun _ _ => trivial)
    ((Overlooks.report _).mono fun _ _ => trivial)

theorem overlooks_closing (construct : Construct) : OverlooksAll (closing construct) :=
  .expect rfl _

theorem overlooks_receiver : OverlooksAll receiver := by
  have hahead : Unheard receiverAhead :=
    .firstThen (fun kind => kind == some .selfKw || kind == some .const) (· == some .dot)
      (fun _ htrivia => by
        rw [beq_eq_false_of_isTrivia htrivia rfl, beq_eq_false_of_isTrivia htrivia rfl]
        rfl)
      fun _ _ halike => halike.beq_eq rfl
  refine .whenAhead hahead (.node _ (overlooks_advance_advance.mono ?_))
  rintro input ⟨-, hreceiver⟩
  obtain ⟨hfirst, hdot⟩ := Bool.and_eq_true_iff.1 hreceiver
  rcases Bool.or_eq_true_iff.1 hfirst with hself | hconst
  · exact ⟨_, _, eq_of_beq hself, eq_of_beq hdot, rfl, rfl⟩
  · exact ⟨_, _, eq_of_beq hconst, eq_of_beq hdot, rfl, rfl⟩

theorem unheard_setterAhead : Unheard setterAhead :=
  .firstThen (· == some .eq) (fun kind => kind == some .leftParen || kind == some .ident)
    (fun _ htrivia => beq_eq_false_of_isTrivia htrivia rfl)
    fun _ _ halike => by rw [halike.beq_eq rfl, halike.beq_eq rfl]

/-- A `=` that belongs to a name is taken where it is ahead. -/
theorem overlooks_advance_eq {condition : Cursor → Bool}
    (heq : ∀ input, condition input = true → input.isAt .eq = true) :
    Overlooks (fun input => True ∧ condition input = true) advance :=
  Overlooks.advance.mono fun input hinput => ⟨.eq, eq_of_beq (heq input hinput.2), rfl⟩

/-- No name begins with trivia, or at the end of the input. -/
theorem methodNameTokens_of_trivia {input : Cursor} (hcode : ¬ input.AtCode) :
    methodNameTokens input = report .missingMethodName input := by
  unfold methodNameTokens
  cases hkind : input.kind? with
  | none => rfl
  | some kind =>
    have htrivia : kind.isTrivia = true := by
      rw [← Bool.not_eq_false]
      exact fun hfalse => hcode ⟨kind, hkind, hfalse⟩
    rcases Token.isTrivia_cases htrivia with rfl | rfl | rfl <;> rfl

theorem overlooks_methodName : OverlooksAll methodName := by
  have hindexed : Unheard fun input => input.isAt .eq && input.secondKind? == some .leftParen :=
    .firstThen (· == some .eq) (· == some .leftParen)
      (fun _ htrivia => beq_eq_false_of_isTrivia htrivia rfl) fun _ _ halike => halike.beq_eq rfl
  have hplain : Overlooks Cursor.AtCode (advance ++ whenAhead setterAhead advance) :=
    Overlooks.advance.followedBy_all (.whenAhead unheard_setterAhead
      (overlooks_advance_eq fun _ hahead => (Bool.and_eq_true_iff.1 hahead).1))
  have hbrackets : Overlooks Cursor.AtCode (advance ++ whenAhead (·.isAt .rightBracket) advance ++
      whenAhead (fun input => input.isAt .eq && input.secondKind? == some .leftParen) advance) :=
    (Overlooks.advance.followedBy_all (.whenAhead (.isAt rfl)
      (.advance_of_isAt rfl))).followedBy_all (.whenAhead hindexed
        (overlooks_advance_eq fun _ hahead => (Bool.and_eq_true_iff.1 hahead).1))
  refine .node _ ⟨local_methodNameTokens, fun passed input input' _ index hcommented => ?_⟩
  by_cases hcode : input.AtCode
  · unfold methodNameTokens
    rw [hcode.kind?_eq hcommented]
    split
    · exact hplain.overlooks _ _ _ hcode index hcommented
    · exact hplain.overlooks _ _ _ hcode index hcommented
    · exact hbrackets.overlooks _ _ _ hcode index hcommented
    · split
      · exact Overlooks.advance.overlooks _ _ _ hcode index hcommented
      · exact (Overlooks.report _).overlooks _ _ _ trivial index hcommented
    · exact (Overlooks.report _).overlooks _ _ _ trivial index hcommented
  · -- no name begins with trivia
    exact OverlooksAt.of_nothing (methodNameTokens_of_trivia hcode)
      (methodNameTokens_of_trivia (Cursor.not_atCode hcode hcommented)) index hcommented

/-! ## Parentheses -/

/-- A token that is no parenthesis is taken, at the same depth. -/
theorem parenthesizedAmong_cons {token : Token} (htrivia : token.kind.isTrivia = true)
    (depth offset : Nat) (rest : List Token) :
    parenthesizedAmong depth offset (token :: rest) =
      { parenthesizedAmong depth (offset + token.width) rest with
        trees := .leaf token :: (parenthesizedAmong depth (offset + token.width) rest).trees } := by
  have hkinds : (token.kind == .leftParen) = false ∧ (token.kind == .rightParen) = false := by
    revert htrivia
    cases token.kind <;> decide
  rw [parenthesizedAmong, hkinds.1, hkinds.2]
  rfl

/-- Trivia are taken, at the same depth. -/
theorem parenthesizedAmong_append {trivia : List Token}
    (htrivia : ∀ token ∈ trivia, token.kind.isTrivia = true) (depth offset : Nat)
    (rest : List Token) :
    parenthesizedAmong depth offset (trivia ++ rest) =
      { parenthesizedAmong depth (offset + Token.totalWidth trivia) rest with
        trees := trivia.map .leaf ++
          (parenthesizedAmong depth (offset + Token.totalWidth trivia) rest).trees } := by
  induction trivia generalizing offset with
  | nil => rfl
  | cons token more ih =>
    have hmore := ih (fun found hmem => htrivia found (List.mem_cons_of_mem _ hmem))
      (offset + token.width)
    rw [List.cons_append, parenthesizedAmong_cons (htrivia token List.mem_cons_self), hmore,
      Token.totalWidth, ← Nat.add_assoc]
    rfl

/-- Where a run stands does not change what it is read to. -/
theorem parenthesizedAmong_moved (depth offset offset' : Nat) (tokens : List Token) :
    (parenthesizedAmong depth offset tokens).trees =
      (parenthesizedAmong depth offset' tokens).trees ∧
    (parenthesizedAmong depth offset tokens).rest.tokens =
      (parenthesizedAmong depth offset' tokens).rest.tokens := by
  induction tokens generalizing depth offset offset' with
  | nil => exact ⟨rfl, rfl⟩
  | cons token rest ih =>
    rw [parenthesizedAmong, parenthesizedAmong]
    dsimp only
    generalize (if token.kind == .leftParen then depth + 1
      else if token.kind == .rightParen then depth - 1 else depth) = depthAfter
    split
    · exact ⟨rfl, rfl⟩
    · obtain ⟨htrees, hrest⟩ := ih _ (offset + token.width) (offset' + token.width)
      exact ⟨congrArg (Tree.leaf token :: ·) htrees, hrest⟩

/-- Parentheses go on over the ends of lines, with comments and without them. -/
theorem sameCode_parenthesizedAmong {index : Nat} {tokens tokens' : List Token}
    (hcommented : Commented index tokens tokens') (depth offset offset' : Nat) :
    (parenthesizedAmong depth offset tokens).SameCode index
      (parenthesizedAmong depth offset' tokens') := by
  induction hcommented generalizing depth offset offset' with
  | lineEnd hend =>
    obtain ⟨front, front', later, rfl, rfl, -, -, htrivia, htrivia'⟩ := hend.exists_trivia
    obtain ⟨htrees, hrest⟩ := parenthesizedAmong_moved depth
      (offset + Token.totalWidth front) (offset' + Token.totalWidth front') later
    rw [parenthesizedAmong_append htrivia, parenthesizedAmong_append htrivia']
    refine ⟨?_, .inl hrest⟩
    rw [Tree.codeOf_append, Tree.codeOf_append, Tree.codeOf_map_leaf, Tree.codeOf_map_leaf,
      Token.codeOf_eq_nil htrivia, Token.codeOf_eq_nil htrivia', htrees]
  | cons token hlater ih =>
    rw [parenthesizedAmong, parenthesizedAmong]
    dsimp only
    generalize (if token.kind == .leftParen then depth + 1
      else if token.kind == .rightParen then depth - 1 else depth) = depthAfter
    split
    · exact ⟨rfl, .inr ⟨_, Nat.add_comm _ 1, hlater⟩⟩
    · exact (ih _ _ _).cons token

theorem overlooks_parenthesized : OverlooksAll parenthesized :=
  ⟨local_parenthesized, fun _ input input' _ _ hcommented _ =>
    sameCode_parenthesizedAmong hcommented 0 input.offset input'.offset⟩

end Grammar

end RubyIndex.Syntax
