import RubyIndex.Proofs.Syntax.Shape

/-! # Complete trees

What a node of each kind cannot do without, and how that can be read off the parts that a node is
made of in their order.

* `Complete` says what a node of each kind cannot do without.
* `parenthesesBalance_cons`: balance is a matter of the parentheses that are open from token to
  token.
* `complete_methodDef_iff`: a method is complete if its name, its parameters and its end are. -/

namespace RubyIndex.Syntax

/-! ## Complete nodes -/

/-- The parentheses that tokens open and do not close. -/
def openParentheses (tokens : List Token) : Int :=
  tokens.countP (·.kind == .leftParen) - tokens.countP (·.kind == .rightParen)

/-- **Balanced parentheses**: all that are opened are closed with the last token, and not before. -/
def ParenthesesBalance (tokens : List Token) : Prop :=
  tokens ≠ [] ∧ ∀ front, front <+: tokens → front ≠ [] →
    (openParentheses front = 0 ↔ front = tokens)

/-- A row of `::` and a constant each. -/
inductive Qualifiers : List Label → Prop where
  | nil : Qualifiers []
  | cons {labels : List Label} (hrest : Qualifiers labels) :
      Qualifiers (.token .colonColon :: .token .const :: labels)

/-- A name of constants: one constant, with or without a `::` before it, and qualifiers. -/
def QualifiedName (labels : List Label) : Prop :=
  ∃ lead qualifiers, (lead = [] ∨ lead = [.token .colonColon]) ∧ Qualifiers qualifiers ∧
    labels = lead ++ .token .const :: qualifiers

/-- Whether the last of several trees is a token of the given kind. -/
def Tree.EndsWith (kind : TokenKind) (trees : List Tree) : Prop :=
  trees.getLast?.map (·.label) = some (.token kind)

/-- **A complete node** has what a node of its kind cannot do without. Nothing is skipped, modules
and classes have a name, constructs have their `end`, and the name of a method and its parentheses
are there in full; a method without `end` has its body after a `=`. -/
def Complete (kind : NodeKind) (children : List Tree) : Prop :=
  match kind with
  | .error => False
  | .moduleDef | .classDef =>
      Tree.hasNode .constPath children = true ∧ Tree.EndsWith .endKw children
  | .constPath => QualifiedName (children.map (·.label))
  | .block => Tree.EndsWith .endKw children
  | .methodDef =>
      (∃ name, .node .methodName name ∈ children ∧ Tree.leavesOf name ≠ []) ∧
      (Tree.EndsWith .endKw children ∨ ∃ token body, token.kind = .eq ∧
        List.Sublist [.leaf token, .node .body body] children) ∧
      ∀ name parameters, [.node .methodName name, .node .paramList parameters] <:+: children →
        ParenthesesBalance (Tree.leavesOf parameters)
  | _ => True

/-! ## Neighbouring trees -/

namespace Tree

/-- A node is of its own kind only. -/
theorem hasNode_node_of_ne {kind other : NodeKind} (hne : other ≠ kind) (children : List Tree) :
    hasNode kind [.node other children] = false := by
  rw [hasNode, firstNode?, if_neg hne]
  rfl

/-- Behind a node, trees end with a token if they do by themselves. -/
theorem endsWith_append_node_iff {kind : TokenKind} {inner : NodeKind}
    {front children back : List Tree} :
    EndsWith kind (front ++ [.node inner children] ++ back) ↔ EndsWith kind back := by
  unfold EndsWith
  rw [List.getLast?_append]
  cases back.getLast? <;> simp [label]

/-- What trees end with, they end with behind others. -/
theorem endsWith_append_iff {kind : TokenKind} {front back : List Tree} (hback : back ≠ []) :
    EndsWith kind (front ++ back) ↔ EndsWith kind back := by
  unfold EndsWith
  rw [List.getLast?_append, List.getLast?_eq_some_getLast hback, Option.some_or]

/-- A node that is not among the trees before and behind another one of its kind stands next to a
tree only if it is that one. -/
theorem pair_infix_iff {kind : NodeKind} {front back children inner : List Tree} {second : Tree}
    (hfront : hasNode kind front = false) (hback : hasNode kind back = false) :
    [.node kind children, second] <:+: front ++ .node kind inner :: back ↔
      children = inner ∧ ∃ rest, back = second :: rest := by
  induction front with
  | nil =>
    rw [List.nil_append, List.infix_cons_iff, List.cons_prefix_cons]
    constructor
    · rintro (⟨hnode, hprefix⟩ | hinner)
      · obtain ⟨rest, rfl⟩ := hprefix
        exact ⟨(Tree.node.inj hnode).2, rest, rfl⟩
      · rw [hasNode_of_mem (hinner.subset List.mem_cons_self)] at hback
        cases hback
    · rintro ⟨rfl, rest, rfl⟩
      exact .inl ⟨rfl, rest, rfl⟩
  | cons tree rest ih =>
    have hrest : hasNode kind rest = false := by
      rw [← List.singleton_append, hasNode_append, Bool.or_eq_false_iff] at hfront
      exact hfront.2
    rw [List.cons_append, List.infix_cons_iff, List.cons_prefix_cons, ih hrest]
    -- the tree in front is of another kind, so the pair does not begin there
    refine or_iff_right ?_
    rintro ⟨rfl, -⟩
    rw [hasNode_of_mem List.mem_cons_self] at hfront
    cases hfront

/-- A row that begins with a tree stands behind trees without it. -/
theorem sublist_append_iff_of_not_mem {first second : Tree} {front back : List Tree}
    (hfront : first ∉ front) :
    List.Sublist [first, second] (front ++ back) ↔ List.Sublist [first, second] back := by
  induction front with
  | nil => rfl
  | cons tree rest ih =>
    rw [List.mem_cons, not_or] at hfront
    rw [List.cons_append, List.sublist_cons_iff, ih hfront.2]
    refine or_iff_left ?_
    rintro ⟨taken, hcons, -⟩
    exact hfront.1 (List.cons.inj hcons).1

end Tree

/-! ## Parentheses -/

/-- What a token adds to the open parentheses. -/
def parenthesisDelta (token : Token) : Int :=
  if token.kind == .leftParen then 1 else if token.kind == .rightParen then -1 else 0

theorem openParentheses_cons (token : Token) (rest : List Token) :
    openParentheses (token :: rest) = parenthesisDelta token + openParentheses rest := by
  unfold openParentheses parenthesisDelta
  rw [List.countP_cons, List.countP_cons]
  by_cases hleft : token.kind = .leftParen
  · simp [hleft]
    omega
  · by_cases hright : token.kind = .rightParen <;> simp [hleft, hright]
    omega

/-- Parentheses that are open before some tokens are all closed with the last of them, and not
before. -/
def ClosesAtEnd (depth : Int) (tokens : List Token) : Prop :=
  ∀ front, front <+: tokens → (depth + openParentheses front = 0 ↔ front = tokens)

/-- Without tokens, parentheses are closed that are not open. -/
theorem closesAtEnd_nil {depth : Int} : ClosesAtEnd depth [] ↔ depth = 0 := by
  constructor
  · intro hcloses
    simpa [openParentheses] using (hcloses [] List.nil_prefix).2 rfl
  · rintro rfl front hfront
    obtain rfl := List.prefix_nil.1 hfront
    exact iff_of_true rfl rfl

/-- Before the first token, parentheses are still open. -/
theorem closesAtEnd_cons {depth : Int} {token : Token} {rest : List Token} :
    ClosesAtEnd depth (token :: rest) ↔
      depth ≠ 0 ∧ ClosesAtEnd (depth + parenthesisDelta token) rest := by
  constructor
  · intro hcloses
    refine ⟨fun hzero => ?_, fun inner hinner => ?_⟩
    · have hnone := (hcloses [] List.nil_prefix).1 (by simpa [openParentheses] using hzero)
      cases hnone
    · have hfront := hcloses (token :: inner) (List.cons_prefix_cons.2 ⟨rfl, hinner⟩)
      rw [openParentheses_cons, ← Int.add_assoc, List.cons_inj_right] at hfront
      exact hfront
  · rintro ⟨hopen, hcloses⟩ front hfront
    rcases List.prefix_cons_iff.1 hfront with rfl | ⟨inner, rfl, hinner⟩
    · exact iff_of_false (by simpa [openParentheses] using hopen) (List.cons_ne_nil _ _).symm
    · rw [openParentheses_cons, ← Int.add_assoc, List.cons_inj_right]
      exact hcloses inner hinner

/-- Behind an opening parenthesis, balance means that it is closed at the end. -/
theorem parenthesesBalance_cons {token : Token} {rest : List Token}
    (hopening : token.kind = .leftParen) :
    ParenthesesBalance (token :: rest) ↔ ClosesAtEnd 1 rest := by
  have hdelta : parenthesisDelta token = 1 := by
    rw [parenthesisDelta, hopening]
    rfl
  unfold ParenthesesBalance
  rw [and_iff_right (List.cons_ne_nil _ _)]
  constructor
  · intro hbalance inner hinner
    have hfront := hbalance (token :: inner) (List.cons_prefix_cons.2 ⟨rfl, hinner⟩)
      (List.cons_ne_nil _ _)
    rw [openParentheses_cons, hdelta, List.cons_inj_right] at hfront
    exact hfront
  · intro hcloses front hfront hne
    rcases List.prefix_cons_iff.1 hfront with rfl | ⟨inner, rfl, hinner⟩
    · exact absurd rfl hne
    · rw [openParentheses_cons, hdelta, List.cons_inj_right]
      exact hcloses inner hinner

/-! ## The parts of a method -/

/-- What closes a method: an `end`, or a body behind a `=`. -/
def ClosesMethod (trees : List Tree) : Prop :=
  Tree.EndsWith .endKw trees ∨ ∃ token body, token.kind = .eq ∧
    List.Sublist [.leaf token, .node .body body] trees

section Method

variable {front name parameters ending : List Tree}
  (hfront : Tree.hasNode .methodName front = false)
  (hparameters : Tree.hasNode .methodName parameters = false)
  (hending : Tree.hasNode .methodName ending = false)

include hfront hparameters hending

/-- The name of a method is the one node for it. -/
theorem exists_methodName_iff :
    (∃ found, .node .methodName found ∈ front ++ [.node .methodName name] ++ parameters ++ ending ∧
      Tree.leavesOf found ≠ []) ↔ Tree.leavesOf name ≠ [] := by
  have hnot : ∀ {trees found : List Tree}, Tree.hasNode .methodName trees = false →
      .node .methodName found ∉ trees := by
    intro trees found hnone hmem
    rw [Tree.hasNode_of_mem hmem] at hnone
    cases hnone
  constructor
  · rintro ⟨found, hmem, hfound⟩
    simp only [List.mem_append, List.mem_singleton, hnot hfront, hnot hparameters, hnot hending,
      false_or, or_false, Tree.node.injEq, true_and] at hmem
    rw [← hmem]
    exact hfound
  · exact fun hname => ⟨name, by simp, hname⟩

/-- The parameters next to the name of a method are those that come after it. -/
theorem forall_parameters_iff (hbare : Tree.hasNode .paramList ending = false) :
    (∀ found inner, [.node .methodName found, .node .paramList inner] <:+:
        front ++ [.node .methodName name] ++ parameters ++ ending →
          ParenthesesBalance (Tree.leavesOf inner)) ↔
      ∀ inner rest, parameters = .node .paramList inner :: rest →
        ParenthesesBalance (Tree.leavesOf inner) := by
  have hpair : ∀ found inner, [.node .methodName found, .node .paramList inner] <:+:
      front ++ [.node .methodName name] ++ parameters ++ ending ↔
        found = name ∧ ∃ rest, parameters ++ ending = .node .paramList inner :: rest := by
    intro found inner
    have hback : Tree.hasNode .methodName (parameters ++ ending) = false := by
      rw [Tree.hasNode_append, hparameters, hending, Bool.or_self]
    rw [← Tree.pair_infix_iff hfront hback, List.append_assoc, List.append_assoc,
      List.singleton_append]
  simp only [hpair]
  constructor
  · rintro hall inner rest rfl
    exact hall name inner ⟨rfl, rest ++ ending, rfl⟩
  · rintro hall found inner ⟨-, rest, hrest⟩
    cases parameters with
    | nil =>
      -- what ends a method is no list of parameters
      rw [List.nil_append] at hrest
      rw [hrest, Tree.hasNode_of_mem List.mem_cons_self] at hbare
      cases hbare
    | cons tree more =>
      rw [List.cons_append, List.cons.injEq] at hrest
      exact hall inner more (by rw [hrest.1])

/-- **What a method is made of**, in its order, tells whether it is complete. -/
theorem complete_methodDef_iff (hbare : Tree.hasNode .paramList ending = false) (hne : ending ≠ [])
    (heq : ∀ token, .leaf token ∈ front ++ parameters → token.kind ≠ .eq) :
    Complete .methodDef (front ++ [.node .methodName name] ++ parameters ++ ending) ↔
      (Tree.leavesOf name ≠ [] ∧
        ∀ inner rest, parameters = .node .paramList inner :: rest →
          ParenthesesBalance (Tree.leavesOf inner)) ∧ ClosesMethod ending := by
  have hcloses : ClosesMethod (front ++ [.node .methodName name] ++ parameters ++ ending) ↔
      ClosesMethod ending := by
    refine or_congr (Tree.endsWith_append_iff hne) ?_
    refine exists_congr fun token => exists_congr fun body => and_congr_right fun hkind => ?_
    refine Tree.sublist_append_iff_of_not_mem fun hmem => heq token ?_ hkind
    simpa using hmem
  unfold Complete
  dsimp only
  rw [exists_methodName_iff hfront hparameters hending, ← ClosesMethod, hcloses,
    forall_parameters_iff hfront hparameters hending hbare]
  exact ⟨fun ⟨hname, hclosed, hbalance⟩ => ⟨⟨hname, hbalance⟩, hclosed⟩,
    fun ⟨⟨hname, hbalance⟩, hclosed⟩ => ⟨hname, hclosed, hbalance⟩⟩

end Method

end RubyIndex.Syntax
