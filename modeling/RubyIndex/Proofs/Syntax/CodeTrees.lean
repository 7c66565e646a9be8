import RubyIndex.Proofs.Syntax.Values

/-! # Trees without blanks, line breaks and comments

What a tree says apart from its blanks, line breaks and comments is the same tree without these
leaves. Whoever reads tokens that carry a meaning, or looks for a node of some kind, finds the same
in both.

* `Tree.codeOf` leaves the trivia out.
* `Tree.siblingsBefore` are the trees that stand before a token under the same parent, and
  `Tree.CarriesOn` says of them that an expression goes on over a line break behind them. -/

namespace RubyIndex.Syntax

namespace Token

/-- The tokens among several that are neither blanks nor line breaks nor comments. -/
def codeOf (tokens : List Token) : List Token := tokens.filter (!·.kind.isTrivia)

@[simp] theorem codeOf_append (front back : List Token) :
    codeOf (front ++ back) = codeOf front ++ codeOf back := List.filter_append _ _

/-- Trivia in a row are no code. -/
theorem codeOf_eq_nil {tokens : List Token}
    (htrivia : ∀ token ∈ tokens, token.kind.isTrivia = true) : codeOf tokens = [] := by
  rw [codeOf, List.filter_eq_nil_iff]
  intro token hmem
  rw [htrivia token hmem]
  decide

end Token

namespace Tree

/-! ## Code -/

mutual

/-- What is left of a tree without the trivia: nothing of a leaf that is trivia itself. -/
def code : Tree → List Tree
  | .leaf token => if token.kind.isTrivia then [] else [.leaf token]
  | .node kind children => [.node kind (codeOf children)]

/-- What is left of several trees without the trivia. -/
def codeOf : List Tree → List Tree
  | [] => []
  | tree :: rest => code tree ++ codeOf rest

end

@[simp] theorem codeOf_append (front back : List Tree) :
    codeOf (front ++ back) = codeOf front ++ codeOf back := by
  induction front with
  | nil => rfl
  | cons tree rest ih => rw [List.cons_append, codeOf, codeOf, ih, List.append_assoc]

theorem codeOf_node (kind : NodeKind) (children : List Tree) :
    codeOf [.node kind children] = [.node kind (codeOf children)] := by
  rw [codeOf, code, codeOf, List.append_nil]

/-- The leaves of tokens are the tokens. -/
theorem leavesOf_map_leaf (tokens : List Token) : leavesOf (tokens.map .leaf) = tokens := by
  induction tokens with
  | nil => rfl
  | cons token rest ih => rw [List.map_cons, leavesOf, ih, leaves, List.singleton_append]

/-- Of tokens in a row, the code is left. -/
theorem codeOf_map_leaf (tokens : List Token) :
    codeOf (tokens.map .leaf) = (Token.codeOf tokens).map .leaf := by
  induction tokens with
  | nil => rfl
  | cons token rest ih =>
    rw [List.map_cons, codeOf, code, ih, Token.codeOf, Token.codeOf, List.filter_cons]
    by_cases htrivia : token.kind.isTrivia = true <;> simp [htrivia]

mutual

/-- The leaves that are left of a tree are those of its leaves that are code. -/
theorem leavesOf_code (tree : Tree) : leavesOf tree.code = Token.codeOf tree.leaves := by
  cases tree with
  | leaf token =>
    by_cases htrivia : token.kind.isTrivia = true <;>
      simp [code, htrivia, leavesOf, leaves, Token.codeOf]
  | node kind children => simpa [code, leavesOf, leaves] using leavesOf_codeOf children

theorem leavesOf_codeOf (trees : List Tree) :
    leavesOf (codeOf trees) = Token.codeOf (leavesOf trees) := by
  cases trees with
  | nil => rfl
  | cons tree rest =>
    rw [codeOf, leavesOf_append, leavesOf_code tree, leavesOf_codeOf rest, leavesOf,
      Token.codeOf_append]

end

/-- The tokens that are left among several trees are those that are code. -/
theorem tokensOf_codeOf (trees : List Tree) :
    tokensOf (codeOf trees) = Token.codeOf (tokensOf trees) := by
  induction trees with
  | nil => rfl
  | cons tree rest ih =>
    cases tree with
    | leaf token =>
      by_cases htrivia : token.kind.isTrivia = true <;>
        simpa [codeOf, code, htrivia, tokensOf, token?, Token.codeOf] using ih
    | node kind children =>
      rw [codeOf, code, List.singleton_append]
      exact ih

/-- The first node of a kind is still the first. -/
theorem firstNode?_codeOf (kind : NodeKind) (trees : List Tree) :
    firstNode? kind (codeOf trees) = (firstNode? kind trees).map codeOf := by
  fun_induction firstNode? kind trees with
  | case1 => rfl
  | case2 children rest =>
    rw [codeOf, code, List.singleton_append, firstNode?, if_pos rfl]
    rfl
  | case3 found children rest hother ih =>
    rw [codeOf, code, List.singleton_append, firstNode?, if_neg hother, ih]
  | case4 token rest ih =>
    rw [codeOf, code]
    by_cases htrivia : token.kind.isTrivia = true
    · rw [if_pos htrivia, List.nil_append, ih]
    · rw [if_neg htrivia, List.singleton_append, firstNode?, ih]

/-- A node of a kind is among trees if it is among what is left of them. -/
theorem hasNode_codeOf (kind : NodeKind) (trees : List Tree) :
    hasNode kind (codeOf trees) = hasNode kind trees := by
  rw [hasNode, firstNode?_codeOf, Option.isSome_map, hasNode]

/-- What the nodes among trees allow, the first one of a kind does. -/
theorem EveryNodeOf.of_firstNode? {allows : NodeKind → List Tree → Prop} {kind : NodeKind}
    {trees inner : List Tree} (hnodes : EveryNodeOf allows trees)
    (hinner : firstNode? kind trees = some inner) :
    allows kind inner ∧ EveryNodeOf allows inner := by
  fun_induction firstNode? kind trees with
  | case1 => cases hinner
  | case2 children rest =>
    obtain rfl := Option.some.inj hinner
    exact hnodes.1
  | case3 found children rest hother ih => exact ih hnodes.2 hinner
  | case4 token rest ih => exact ih hnodes.2 hinner

/-- The tokens of the first node of a kind stand in a row among those of the trees. -/
theorem exists_leavesOf_of_firstNode? {kind : NodeKind} {trees inner : List Tree}
    (hinner : firstNode? kind trees = some inner) :
    ∃ front back, leavesOf trees = front ++ leavesOf inner ++ back := by
  fun_induction firstNode? kind trees with
  | case1 => cases hinner
  | case2 children rest =>
    obtain rfl := Option.some.inj hinner
    exact ⟨[], leavesOf rest, rfl⟩
  | case3 found children rest hother ih =>
    obtain ⟨front, back, hleaves⟩ := ih hinner
    exact ⟨leavesOf children ++ front, back, by simp [leavesOf, leaves, hleaves]⟩
  | case4 token rest ih =>
    obtain ⟨front, back, hleaves⟩ := ih hinner
    exact ⟨token :: front, back, by simp [leavesOf, leaves, hleaves]⟩

mutual

/-- Nothing is left out of a tree without trivia. -/
theorem code_eq_self {tree : Tree} (hleaves : ∀ token ∈ tree.leaves, token.kind.isTrivia = false) :
    tree.code = [tree] := by
  cases tree with
  | leaf token => rw [code, hleaves token List.mem_cons_self, if_neg Bool.false_ne_true]
  | node kind children => rw [code, codeOf_eq_self hleaves]

theorem codeOf_eq_self {trees : List Tree}
    (hleaves : ∀ token ∈ leavesOf trees, token.kind.isTrivia = false) : codeOf trees = trees := by
  cases trees with
  | nil => rfl
  | cons tree rest =>
    have hfirst : ∀ token ∈ tree.leaves, token.kind.isTrivia = false :=
      fun token hmem => hleaves token (List.mem_append_left _ hmem)
    have hlater : ∀ token ∈ leavesOf rest, token.kind.isTrivia = false :=
      fun token hmem => hleaves token (List.mem_append_right _ hmem)
    rw [codeOf, code_eq_self hfirst, codeOf_eq_self hlater, List.singleton_append]

end

/-- Code has no trivia to leave out. -/
theorem codeOf_codeOf (trees : List Tree) : codeOf (codeOf trees) = codeOf trees := by
  refine codeOf_eq_self fun token hmem => ?_
  rw [leavesOf_codeOf, Token.codeOf, List.mem_filter] at hmem
  simpa using hmem.2

/-! ## What stands before a token -/

mutual

/-- The trees before the token at an index of a tree, under the same parent. Trees before the whole
tree have been passed. -/
def before (index : Nat) (passed : List Tree) : Tree → List Tree
  | .leaf _ => passed
  | .node _ children => beforeOf index [] children

/-- The trees before the token at an index of several trees, under the same parent. -/
def beforeOf (index : Nat) (passed : List Tree) : List Tree → List Tree
  | [] => passed
  | tree :: rest =>
      if index < tree.leaves.length then before index passed tree
      else beforeOf (index - tree.leaves.length) (passed ++ [tree]) rest

end

/-- **The trees that stand before the token at an index**, under the same parent. -/
def siblingsBefore (index : Nat) (tree : Tree) : List Tree := before index [] tree

/-- A token in front is found in front. -/
theorem beforeOf_append_left {index : Nat} {passed front : List Tree} (back : List Tree)
    (hindex : index < (leavesOf front).length) :
    beforeOf index passed (front ++ back) = beforeOf index passed front := by
  induction front generalizing index passed with
  | nil => exact absurd hindex (Nat.not_lt_zero index)
  | cons tree rest ih =>
    rw [leavesOf, List.length_append] at hindex
    rw [List.cons_append, beforeOf, beforeOf]
    split
    · rfl
    · exact ih (by omega)

/-- A token behind is found behind. -/
theorem beforeOf_append_right (index : Nat) (passed front back : List Tree) :
    beforeOf ((leavesOf front).length + index) passed (front ++ back) =
      beforeOf index (passed ++ front) back := by
  induction front generalizing passed with
  | nil => simp [leavesOf]
  | cons tree rest ih =>
    rw [List.cons_append, beforeOf, leavesOf, List.length_append, if_neg (by omega)]
    have hindex : tree.leaves.length + (leavesOf rest).length + index - tree.leaves.length =
        (leavesOf rest).length + index := by omega
    rw [hindex, ih, List.append_assoc, List.singleton_append]

/-- **An expression carries on** over a line break behind some trees if it is outside of brackets
there and the last token asks for more. -/
def CarriesOn (trees : List Tree) : Prop :=
  openBrackets trees = 0 ∧ GoesOnWith .newline (lastCode? trees)

/-- A token that is no bracket opens and closes nothing. -/
theorem openBrackets_leaf_of {token : Token} (hopening : token.kind.isOpening = false)
    (hclosing : token.kind.isClosing = false) : openBrackets [.leaf token] = 0 := by
  rw [openBrackets_leaf, hopening, hclosing]
  rfl

/-- Tokens that are no brackets open and close nothing. -/
theorem openBrackets_map_leaf {tokens : List Token} (hbrackets : ∀ token ∈ tokens,
    token.kind.isOpening = false ∧ token.kind.isClosing = false) :
    openBrackets (tokens.map .leaf) = 0 := by
  induction tokens with
  | nil => rfl
  | cons token rest ih =>
    obtain ⟨hopening, hclosing⟩ := hbrackets token List.mem_cons_self
    have hrest := ih fun later hlater => hbrackets later (List.mem_cons_of_mem _ hlater)
    have hsplit : (token :: rest).map Tree.leaf = [.leaf token] ++ rest.map .leaf := rfl
    rw [hsplit, openBrackets_append, hrest, openBrackets_leaf_of hopening hclosing]
    rfl

/-- Whether an expression carries on does not depend on the trivia behind it. -/
theorem carriesOn_append_trivia {trees : List Tree} {trivia : List Token}
    (htrivia : ∀ token ∈ trivia, token.kind.isTrivia = true) :
    CarriesOn (trees ++ trivia.map .leaf) ↔ CarriesOn trees := by
  have hopen : openBrackets (trivia.map .leaf) = 0 := by
    refine openBrackets_map_leaf fun token hmem => ?_
    have htoken := htrivia token hmem
    revert htoken
    cases token.kind <;> decide
  have hlast : lastCode? (trees ++ trivia.map .leaf) = lastCode? trees := by
    have hnone : ((trivia.map Tree.leaf).map label).filter (!·.isTrivia) = [] := by
      rw [List.map_map, List.filter_eq_nil_iff]
      intro found hfound
      obtain ⟨token, htoken, rfl⟩ := List.mem_map.1 hfound
      simp [label, Label.isTrivia, htrivia token htoken]
    rw [lastCode?, lastCode?, List.map_append, List.filter_append, hnone, List.append_nil]
  rw [CarriesOn, CarriesOn, openBrackets_append, hopen, Int.add_zero, hlast]

end Tree

end RubyIndex.Syntax
