import RubyIndex.Proofs.Syntax.CompleteTrees

/-! # Results that show their errors

A parser is candid if it notes an error exactly where it builds a node that is not complete. Most
parsers are; those of the parts of a header show their errors in what they build, and it depends on
the node around them whether that makes it complete.

* `Parsed.Shows` relates the errors of a result to its trees; it composes with the parsers.
* `Parser.Candid` parsers show their errors in the nodes they build.
* `Grammar.candid_constPath`, `Grammar.shows_methodNameTokens` and `Grammar.shows_parenthesized` are
  about the parts of headers. -/

namespace RubyIndex.Syntax

open RubyIndex.Syntax.Parser

/-! ## What parsers of tokens build -/

namespace Grammar

/-- A token that is taken is the token ahead. -/
theorem kind?_of_mem_advance {token : Token} {input : Cursor}
    (hmem : .leaf token ∈ (advance input).trees) : input.kind? = some token.kind := by
  obtain ⟨offset, tokens⟩ := input
  cases tokens with
  | nil => cases hmem
  | cons first rest =>
    obtain rfl : token = first := by simpa [advance] using hmem
    rfl

/-- Tokens that are taken in a row are of accepted kinds. -/
theorem accepts_of_mem_advanceWhile {accepts : TokenKind → Bool} {token : Token} {input : Cursor}
    (hmem : .leaf token ∈ (advanceWhile accepts input).trees) : accepts token.kind = true := by
  obtain ⟨offset, tokens⟩ := input
  replace hmem : .leaf token ∈ (advanceAmong accepts offset tokens).trees := hmem
  induction tokens generalizing offset with
  | nil => cases hmem
  | cons first rest ih =>
    rw [advanceAmong] at hmem
    split at hmem
    · rename_i haccepts
      rcases List.mem_cons.1 hmem with hfirst | hrest
      · obtain rfl := Tree.leaf.inj hfirst
        exact haccepts
      · exact ih (offset + first.width) hrest
    · cases hmem

@[simp] theorem hasNode_advance (kind : NodeKind) (input : Cursor) :
    Tree.hasNode kind (advance input).trees = false := by
  obtain ⟨offset, tokens⟩ := input
  cases tokens <;> rfl

@[simp] theorem hasNode_advanceWhile (kind : NodeKind) (accepts : TokenKind → Bool)
    (input : Cursor) : Tree.hasNode kind (advanceWhile accepts input).trees = false := by
  obtain ⟨offset, tokens⟩ := input
  show Tree.hasNode kind (advanceAmong accepts offset tokens).trees = false
  induction tokens generalizing offset with
  | nil => rfl
  | cons token rest ih =>
    rw [advanceAmong]
    split
    · exact ih (offset + token.width)
    · rfl

@[simp] theorem hasNode_skipWhitespace (kind : NodeKind) (input : Cursor) :
    Tree.hasNode kind (skipWhitespace input).trees = false := hasNode_advanceWhile kind _ input

@[simp] theorem hasNode_expect (kind : NodeKind) (expected : TokenKind) (fault : SyntaxFault)
    (input : Cursor) : Tree.hasNode kind (expect expected fault input).trees = false := by
  unfold expect ifAhead
  split
  · exact hasNode_advance kind input
  · rfl

@[simp] theorem hasNode_closing (kind : NodeKind) (construct : Construct) (input : Cursor) :
    Tree.hasNode kind (closing construct input).trees = false := hasNode_expect kind _ _ input

end Grammar

/-! ## Results that show their errors -/

namespace Parsed

/-- **Errors show.** A result has no errors if and only if it is fine in what is asked of it and all
its nodes are complete. -/
def Shows (parsed : Parsed) (fine : Prop) : Prop :=
  parsed.errors = [] ↔ fine ∧ Tree.EveryNodeOf Complete parsed.trees

namespace Shows

variable {parsed first second : Parsed} {fine other : Prop}

theorem congr (hshows : parsed.Shows fine) (hiff : fine ↔ other) : parsed.Shows other := by
  rw [Shows, ← hiff]
  exact hshows

/-- Results in a row are fine if both are. -/
theorem append (hfirst : first.Shows fine) (hsecond : second.Shows other) :
    (first.append second).Shows (fine ∧ other) := by
  rw [Shows] at hfirst hsecond ⊢
  simp only [Parsed.append, List.append_eq_nil_iff, Tree.everyNodeOf_append_iff, hfirst, hsecond]
  exact and_and_and_comm

/-- A node is complete if its contents are fine. -/
theorem wrap {kind : NodeKind} (hshows : parsed.Shows fine)
    (hcomplete : fine ↔ Complete kind parsed.trees) : (parsed.wrap kind).Shows True := by
  rw [Shows] at hshows ⊢
  simp only [Parsed.wrap, Tree.EveryNodeOf, Tree.EveryNode, hshows, hcomplete, true_and, and_true]

/-- A node of a kind of which nothing is asked is fine if its contents are. -/
theorem wrap_undemanding {kind : NodeKind} (hshows : parsed.Shows fine)
    (hkind : Complete kind = fun _ => True) : (parsed.wrap kind).Shows fine := by
  rw [Shows] at hshows ⊢
  simp only [Parsed.wrap, Tree.EveryNodeOf, Tree.EveryNode, hshows, hkind, true_and, and_true]

/-- A result without nodes shows its errors in what is asked of it. -/
theorem of_leaves (hleaves : Tree.EveryNodeOf Complete parsed.trees)
    (herrors : parsed.errors = [] ↔ fine) : parsed.Shows fine := by
  rw [Shows, herrors]
  exact (and_iff_left hleaves).symm

end Shows

end Parsed

namespace Parser

/-- A parser after another one. -/
theorem shows_followedBy {first second : Parser} {input : Cursor} {fine : Prop}
    {other : Cursor → Prop} (hfirst : (first input).Shows fine)
    (hsecond : ∀ rest, (second rest).Shows (other rest)) :
    ((first ++ second) input).Shows (fine ∧ other (first input).rest) :=
  hfirst.append (hsecond _)

/-- A **candid** parser shows in the nodes it builds, and in nothing else, whether it has noted
errors. -/
abbrev Candid : Parser → Prop := Satisfies fun _ parsed => parsed.Shows True

namespace Candid

variable {first second parser : Parser}

theorem nothing : Candid nothing := fun _ => iff_of_true rfl ⟨trivial, trivial⟩

theorem followedBy (hfirst : Candid first) (hsecond : Candid second) : Candid (first ++ second) :=
  fun input => ((hfirst input).append (hsecond _)).congr (and_self_iff)

theorem whenAhead (condition : Cursor → Bool) (h : Candid parser) :
    Candid (whenAhead condition parser) := h.ifAhead condition nothing

theorem advance : Candid advance := by
  intro ⟨offset, tokens⟩
  cases tokens with
  | nil => exact nothing _
  | cons token rest => exact iff_of_true rfl ⟨trivial, trivial, trivial⟩

theorem advanceWhile (accepts : TokenKind → Bool) : Candid (advanceWhile accepts) := by
  intro ⟨offset, tokens⟩
  show (advanceAmong accepts offset tokens).Shows True
  induction tokens generalizing offset with
  | nil => exact nothing _
  | cons token rest ih =>
    rw [advanceAmong]
    split
    · -- a token is no node
      exact (ih (offset + token.width)).trans
        (and_congr_right fun _ => ⟨fun hrest => ⟨trivial, hrest⟩, And.right⟩)
    · exact nothing _

theorem skipWhitespace : Candid skipWhitespace := advanceWhile _

/-- A node of a kind of which nothing is asked. -/
theorem node {kind : NodeKind} (hkind : Complete kind = fun _ => True) (h : Candid parser) :
    Candid (node kind parser) :=
  fun input => (h input).wrap_undemanding hkind

end Candid

end Parser

namespace Grammar

/-! ## Names and headers -/

/-- Qualifiers are taken in pairs and without errors. -/
theorem qualifiers_qualifiersAmong (offset : Nat) (tokens : List Token) :
    Qualifiers ((qualifiersAmong offset tokens).trees.map (·.label)) ∧
      (qualifiersAmong offset tokens).errors = [] ∧
      Tree.EveryNodeOf Complete (qualifiersAmong offset tokens).trees := by
  fun_induction qualifiersAmong offset tokens with
  | case1 offset colons constant rest isQualifier parsed ih =>
    rw [Bool.and_eq_true, beq_iff_eq, beq_iff_eq] at isQualifier
    simp only [List.map_cons, Tree.label, isQualifier.1, isQualifier.2]
    exact ⟨.cons ih.1, ih.2.1, trivial, trivial, ih.2.2⟩
  | case2 offset colons constant rest isOther => exact ⟨.nil, rfl, trivial⟩
  | case3 offset tokens isShort => exact ⟨.nil, rfl, trivial⟩

/-- Qualifiers begin with a `::`. -/
theorem trees_qualifiersAmong {input : Cursor} (hnot : input.isAt .colonColon = false) :
    (qualifiersAmong input.offset input.tokens).trees = [] := by
  obtain ⟨offset, tokens⟩ := input
  show (qualifiersAmong offset tokens).trees = []
  match tokens with
  | [] | [_] => rfl
  | colons :: constant :: rest =>
    have hcolons : (colons.kind == .colonColon) = false := by
      simpa [Cursor.isAt, Cursor.kind?] using hnot
    rw [qualifiersAmong, hcolons, Bool.false_and, if_neg Bool.false_ne_true]

/-- A token of a kind that is ahead is taken. -/
theorem trees_advance_of_isAt {input : Cursor} {kind : TokenKind}
    (hahead : input.isAt kind = true) :
    ∃ token, (advance input).trees = [.leaf token] ∧ token.kind = kind := by
  obtain ⟨offset, token, rest, rfl, hkind⟩ := Cursor.exists_of_isAt hahead
  exact ⟨token, rfl, hkind⟩

/-- A token that is due is there, or an error is noted. -/
theorem shows_expect (kind : TokenKind) (fault : SyntaxFault) (input : Cursor) :
    (expect kind fault input).Shows (input.isAt kind = true) := by
  unfold expect ifAhead
  split
  · rename_i hahead
    exact (Candid.advance input).congr (iff_of_true trivial hahead)
  · rename_i hmissing
    exact .of_leaves trivial (iff_of_false (List.cons_ne_nil _ _) hmissing)

/-- Without its constant a name is not qualified, even if qualifiers follow. -/
theorem not_qualifiedName {labels : List Label} (hpairs : Qualifiers labels) :
    ¬QualifiedName (.token .colonColon :: labels) := by
  rintro ⟨lead, row, hlead, -, hsplit⟩
  rcases hlead with rfl | rfl
  · simp at hsplit
  · -- the constant would have to come where the qualifiers begin with another `::`
    rw [List.singleton_append, List.cons.injEq] at hsplit
    rw [hsplit.2] at hpairs
    cases hpairs

/-- The labels of what is taken where a token is due. -/
theorem labels_expect (kind : TokenKind) (fault : SyntaxFault) (input : Cursor) :
    (expect kind fault input).trees.map (·.label) =
      if input.isAt kind then [.token kind] else [] := by
  unfold expect ifAhead
  split
  · rename_i hahead
    obtain ⟨token, htrees, hkind⟩ := trees_advance_of_isAt hahead
    rw [htrees, List.map_singleton, Tree.label, hkind]
  · rfl

/-- A name is qualified if its constant is ahead, with a `::` taken before it or not. -/
theorem isAt_const_iff (input : Cursor) {lead : List Label}
    (hlead : lead = [] ∧ input.isAt .colonColon = false ∨ lead = [.token .colonColon]) :
    let constant := expect .const .missingConstant input
    input.isAt .const = true ↔ QualifiedName (lead ++ constant.trees.map (·.label) ++
      (qualifiersAmong constant.rest.offset constant.rest.tokens).trees.map (·.label)) := by
  intro constant
  have hpairs := (qualifiers_qualifiersAmong constant.rest.offset constant.rest.tokens).1
  rw [labels_expect]
  cases hahead : input.isAt .const with
  | true =>
    rw [if_pos rfl, List.append_assoc, List.singleton_append]
    exact iff_of_true rfl ⟨lead, _, hlead.imp_left And.left, hpairs, rfl⟩
  | false =>
    rw [if_neg Bool.false_ne_true, List.append_nil]
    refine iff_of_false Bool.false_ne_true ?_
    rcases hlead with ⟨rfl, hcolons⟩ | rfl
    · -- neither a `::` nor a constant is ahead
      have hrest : constant.rest = input := by
        show (ifAhead _ _ _ input).rest = input
        rw [ifAhead, hahead]
        rfl
      rw [trees_qualifiersAmong (by rw [hrest]; exact hcolons)]
      rintro ⟨front, row, -, -, hsplit⟩
      cases front <;> cases hsplit
    · exact not_qualifiedName hpairs

/-- **The name of a module or class** is complete or has been reported. -/
theorem candid_constPath : Candid constPath := by
  intro input
  set lead := whenAhead (·.isAt .colonColon) advance input with hlead
  have hlabels : lead.trees.map (·.label) = [] ∧ lead.rest.isAt .colonColon = false ∨
      lead.trees.map (·.label) = [.token .colonColon] := by
    rw [hlead, whenAhead, ifAhead]
    cases hcolons : input.isAt .colonColon with
    | false => exact .inl ⟨rfl, hcolons⟩
    | true =>
      obtain ⟨token, htrees, hkind⟩ := trees_advance_of_isAt hcolons
      right
      rw [if_pos rfl, htrees, List.map_singleton, Tree.label, hkind]
  set constant := expect .const .missingConstant lead.rest
  obtain ⟨-, hsilent, hnodes⟩ :=
    qualifiers_qualifiersAmong constant.rest.offset constant.rest.tokens
  have hshows := ((Candid.advance.whenAhead (·.isAt .colonColon) input).append
    (shows_expect .const .missingConstant lead.rest)).append
    (.of_leaves hnodes (iff_of_true hsilent trivial))
  refine hshows.wrap ?_
  rw [true_and, and_true]
  refine (isAt_const_iff lead.rest hlabels).trans ?_
  show _ ↔ QualifiedName ((_ ++ _ ++ _ : List Tree).map (·.label))
  rw [List.map_append, List.map_append]

/-- The name in a header is there or has been reported. -/
theorem shows_definedName (construct : Construct) (input : Cursor) :
    (definedName construct input).Shows
      (Tree.hasNode .constPath (definedName construct input).trees = true) := by
  unfold definedName ifAhead
  split
  · exact (candid_constPath input).congr (iff_of_true trivial (Tree.hasNode_node _ _))
  · exact .of_leaves trivial (iff_of_false (List.cons_ne_nil _ _) Bool.false_ne_true)

/-- **The name of a method** is there or has been reported. -/
theorem shows_methodNameTokens (input : Cursor) :
    (methodNameTokens input).Shows (Tree.leavesOf (methodNameTokens input).trees ≠ []) := by
  have htoken : ∀ kind, input.kind? = some kind → Tree.leavesOf (advance input).trees ≠ [] := by
    intro kind hkind
    have hahead : input.isAt kind = true := by rw [Cursor.isAt, hkind, beq_self_eq_true]
    obtain ⟨token, htrees, -⟩ := trees_advance_of_isAt hahead
    rw [htrees]
    exact List.cons_ne_nil _ _
  -- whatever more is taken, the first token is there
  have hmore : ∀ {front : List Tree} (back : List Tree), Tree.leavesOf front ≠ [] →
      Tree.leavesOf (front ++ back) ≠ [] := by
    intro front back hfront
    rw [Tree.leavesOf_append]
    exact List.append_ne_nil_of_left_ne_nil hfront _
  have hmissing : (report .missingMethodName input).Shows (Tree.leavesOf [] ≠ []) :=
    .of_leaves trivial (iff_of_false (List.cons_ne_nil _ _) (fun hne => hne rfl))
  have hpair : ∀ condition, Candid (advance ++ whenAhead condition advance) :=
    fun condition => Candid.advance.followedBy (Candid.advance.whenAhead condition)
  unfold methodNameTokens
  split
  · rename_i hkind
    exact (hpair _ input).congr (iff_of_true trivial (hmore _ (htoken _ hkind)))
  · rename_i hkind
    exact (hpair _ input).congr (iff_of_true trivial (hmore _ (htoken _ hkind)))
  · rename_i hkind
    exact ((hpair _).followedBy (Candid.advance.whenAhead _) input).congr
      (iff_of_true trivial (hmore _ (hmore _ (htoken _ hkind))))
  · rename_i hkind
    split
    · exact (Candid.advance input).congr (iff_of_true trivial (htoken _ hkind))
    · exact hmissing
  · exact hmissing

/-! ## Parentheses -/

/-- **Inside parentheses**, tokens are taken up to where the last of them is closed, or an error is
noted. -/
theorem shows_parenthesizedAmong {depth : Nat} (offset : Nat) (tokens : List Token)
    (hdepth : 0 < depth) :
    (parenthesizedAmong depth offset tokens).Shows
      (ClosesAtEnd depth (Tree.leavesOf (parenthesizedAmong depth offset tokens).trees)) := by
  fun_induction parenthesizedAmong depth offset tokens with
  | case1 depth offset =>
    refine .of_leaves trivial (iff_of_false (List.cons_ne_nil _ _) fun hcloses => ?_)
    have hzero := closesAtEnd_nil.1 hcloses
    omega
  | case2 depth offset token rest depthAfter closes =>
    -- the token closes the one parenthesis that is open
    rw [Bool.and_eq_true, beq_iff_eq, beq_iff_eq] at closes
    have hdelta : (depth : Int) + parenthesisDelta token = 0 := by
      have hafter : depth - 1 = 0 := by simpa [depthAfter, closes.1] using closes.2
      rw [parenthesisDelta, closes.1]
      simp only [beq_iff_eq, reduceCtorEq, if_false, if_true]
      omega
    refine .of_leaves ⟨trivial, trivial⟩ (iff_of_true rfl ?_)
    exact closesAtEnd_cons.2 ⟨by omega, closesAtEnd_nil.2 hdelta⟩
  | case3 depth offset token rest depthAfter goesOn parsed ih =>
    have hdelta : (depth : Int) + parenthesisDelta token = depthAfter := by
      simp only [parenthesisDelta, depthAfter]
      split
      · omega
      · split <;> omega
    have hpositive : 0 < depthAfter := by
      rcases Nat.eq_zero_or_pos depthAfter with hzero | hpositive
      · -- only a closing parenthesis could have left none open
        cases hright : token.kind == .rightParen with
        | true => simp [hright, hzero] at goesOn
        | false =>
          simp only [parenthesisDelta, hright, Bool.false_eq_true, if_false, hzero] at hdelta
          split at hdelta <;> omega
      · exact hpositive
    have hcloses : ClosesAtEnd depthAfter (Tree.leavesOf parsed.trees) ↔
        ClosesAtEnd depth (token :: Tree.leavesOf parsed.trees) := by
      rw [closesAtEnd_cons, hdelta, and_iff_right (by omega)]
    exact ((ih hpositive).congr hcloses).trans
      (and_congr_right fun _ => ⟨fun hnodes => ⟨trivial, hnodes⟩, And.right⟩)

/-- **The parentheses of parameters** are balanced or have been reported. -/
theorem shows_parenthesized {input : Cursor} (hahead : input.isAt .leftParen = true) :
    (parenthesized input).Shows
      (ParenthesesBalance (Tree.leavesOf (parenthesized input).trees)) := by
  obtain ⟨offset, token, rest, rfl, hopening⟩ := Cursor.exists_of_isAt hahead
  have hbuilt : parenthesized ⟨offset, token :: rest⟩ =
      { parenthesizedAmong 1 (offset + token.width) rest with
        trees := .leaf token :: (parenthesizedAmong 1 (offset + token.width) rest).trees } := by
    simp [parenthesized, parenthesizedAmong, hopening]
  rw [hbuilt]
  refine ((shows_parenthesizedAmong (offset + token.width) rest Nat.one_pos).congr
    (parenthesesBalance_cons hopening).symm).trans
    (and_congr_right fun _ => ⟨fun hnodes => ⟨trivial, hnodes⟩, And.right⟩)

/-! ## The parts of a method -/

/-- Blanks that are ahead are taken. -/
theorem exists_trees_skipWhitespace {input : Cursor} (hahead : input.isAt .whitespace = true) :
    ∃ token rest, (skipWhitespace input).trees = .leaf token :: rest := by
  obtain ⟨offset, token, more, rfl, hblank⟩ := Cursor.exists_of_isAt hahead
  refine ⟨token, (advanceAmong (· == .whitespace) (offset + token.width) more).trees, ?_⟩
  show (advanceAmong (· == .whitespace) offset (token :: more)).trees = _
  rw [advanceAmong, if_pos (beq_iff_eq.2 hblank)]

/-- The token that closes a construct is its `end`. -/
theorem kind_of_mem_closing {construct : Construct} {input : Cursor} {token : Token}
    (hmem : .leaf token ∈ (closing construct input).trees) : token.kind = .endKw := by
  have hlabel : Label.token token.kind ∈ (closing construct input).trees.map (·.label) :=
    List.mem_map_of_mem hmem
  rw [closing, labels_expect] at hlabel
  split at hlabel
  · simpa using hlabel
  · cases hlabel

/-- The name of a method, in its node. -/
theorem shows_methodName (input : Cursor) :
    (methodName input).Shows (Tree.leavesOf (methodNameTokens input).trees ≠ []) :=
  (shows_methodNameTokens input).wrap_undemanding rfl

/-- A receiver is a node of its own. -/
theorem receiver_parts (input : Cursor) :
    Tree.hasNode .methodName (receiver input).trees = false ∧
      ∀ token, .leaf token ∉ (receiver input).trees := by
  unfold receiver whenAhead ifAhead
  split
  · exact ⟨Tree.hasNode_node_of_ne (by decide) _, fun token hmem => by
      simp [Parser.node, Parsed.wrap] at hmem⟩
  · exact ⟨rfl, fun token => List.not_mem_nil⟩

/-- The `end` of a construct is there or has been reported. -/
theorem shows_closing (construct : Construct) (input : Cursor) :
    (closing construct input).Shows (Tree.EndsWith .endKw (closing construct input).trees) := by
  refine (shows_expect .endKw (.missingEnd construct) input).congr ?_
  have hlabels := labels_expect .endKw (.missingEnd construct) input
  unfold Tree.EndsWith
  rw [← List.getLast?_map]
  show _ ↔ ((closing construct input).trees.map (·.label)).getLast? = _
  rw [closing, hlabels]
  cases input.isAt .endKw <;> simp

end Grammar

end RubyIndex.Syntax
