import RubyIndex.Proofs.Syntax.Tiling
import RubyIndex.Proofs.Syntax.TokenText
import RubyIndex.Syntax.Site

/-! # The nodes of a syntax tree

What the later readings of a syntax tree rely on holds of all its nodes: their tokens are lexed, and
definitions and assignments have the parts that they are read for.

* `Tree.EveryNode` says that a property holds of all nodes of a tree.
* `Formed` is what is relied on, kind by kind, and `Grammar.formed_of_encloses` why the parsers of
  the constructs provide it.
* `everyNode_parse`: every node of the tree of a text is legible. -/

namespace RubyIndex.Syntax

open RubyIndex.Syntax.Parser

/-! ## Properties of all nodes -/

namespace Tree

mutual

/-- Every node of a tree, with its kind and its children, is as allowed. -/
def EveryNode (allows : NodeKind → List Tree → Prop) : Tree → Prop
  | .leaf _ => True
  | .node kind children => allows kind children ∧ EveryNodeOf allows children

/-- Every node of several trees, with its kind and its children, is as allowed. -/
def EveryNodeOf (allows : NodeKind → List Tree → Prop) : List Tree → Prop
  | [] => True
  | tree :: rest => tree.EveryNode allows ∧ EveryNodeOf allows rest

end

variable {allows requires : NodeKind → List Tree → Prop}

theorem everyNodeOf_append {front back : List Tree} (hfront : EveryNodeOf allows front)
    (hback : EveryNodeOf allows back) : EveryNodeOf allows (front ++ back) := by
  induction front with
  | nil => exact hback
  | cons tree rest ih => exact ⟨hfront.1, ih hfront.2⟩

theorem everyNodeOf_append_iff {front back : List Tree} :
    EveryNodeOf allows (front ++ back) ↔ EveryNodeOf allows front ∧ EveryNodeOf allows back := by
  refine ⟨fun happend => ?_, fun ⟨hfront, hback⟩ => everyNodeOf_append hfront hback⟩
  induction front with
  | nil => exact ⟨trivial, happend⟩
  | cons tree rest ih =>
    obtain ⟨hrest, hback⟩ := ih happend.2
    exact ⟨⟨happend.1, hrest⟩, hback⟩

mutual

/-- What all nodes allow may be joined with what their tokens give. -/
theorem EveryNode.with_tokens {tokenHolds : Token → Prop} {tree : Tree}
    (hnodes : tree.EveryNode allows) (htokens : ∀ token ∈ tree.leaves, tokenHolds token) :
    tree.EveryNode fun kind children =>
      (∀ token ∈ leavesOf children, tokenHolds token) ∧ allows kind children := by
  cases tree with
  | leaf token => trivial
  | node kind children =>
    exact ⟨⟨htokens, hnodes.1⟩, EveryNodeOf.with_tokens hnodes.2 htokens⟩

theorem EveryNodeOf.with_tokens {tokenHolds : Token → Prop} {trees : List Tree}
    (hnodes : EveryNodeOf allows trees) (htokens : ∀ token ∈ leavesOf trees, tokenHolds token) :
    EveryNodeOf (fun kind children =>
      (∀ token ∈ leavesOf children, tokenHolds token) ∧ allows kind children) trees := by
  cases trees with
  | nil => trivial
  | cons tree rest =>
    refine ⟨hnodes.1.with_tokens fun token hmem => ?_, hnodes.2.with_tokens fun token hmem => ?_⟩
    · exact htokens token (List.mem_append_left _ hmem)
    · exact htokens token (List.mem_append_right _ hmem)

end

end Tree

/-! ## Parts of nodes -/

namespace Tree

/-- A node is among several trees if it is in front or behind. -/
@[simp] theorem hasNode_append (kind : NodeKind) (front back : List Tree) :
    hasNode kind (front ++ back) = (hasNode kind front || hasNode kind back) := by
  unfold hasNode
  fun_induction firstNode? kind front with
  | case1 => rfl
  | case2 children rest => simp [firstNode?]
  | case3 found children rest hother ih => simpa [firstNode?, hother] using ih
  | case4 token rest ih => simpa [firstNode?] using ih

@[simp] theorem hasNode_node (kind : NodeKind) (children : List Tree) :
    hasNode kind [.node kind children] = true := by
  simp [hasNode, firstNode?]

/-- A node of a kind is among trees that have it. -/
theorem hasNode_of_mem {kind : NodeKind} {children trees : List Tree}
    (hmem : .node kind children ∈ trees) : hasNode kind trees = true := by
  obtain ⟨front, back, rfl⟩ := List.append_of_mem hmem
  rw [List.append_cons, hasNode_append, hasNode_append, hasNode_node, Bool.or_true, Bool.true_or]

end Tree

/-- What some trees begin with, they begin with when others follow. -/
theorem Place.opensWith_append {kind : TokenKind} {front : List Tree}
    (hfront : Place.opensWith kind front = true) (back : List Tree) :
    Place.opensWith kind (front ++ back) = true := by
  unfold Place.opensWith at hfront ⊢
  rw [Tree.leavesOf_append]
  cases hleaves : Tree.leavesOf front with
  | nil =>
    rw [hleaves] at hfront
    cases hfront
  | cons token rest =>
    rw [hleaves] at hfront
    exact hfront

/-! ## Formed nodes -/

/-- Tokens that spell the name of a method: one operator, or tokens that can stand in other
names. -/
def Token.SpellsMethod (tokens : List Token) : Prop :=
  (∃ token, tokens = [token] ∧ token.kind.isOperatorName = true) ∨
    tokens.all (·.kind.standsInMethodName) = true

/-- Whether tokens are a keyword and then, perhaps after blanks, the receiver of a singleton
method: `self` or a constant, and a dot. -/
def Token.namesReceiver (tokens : List Token) : Bool :=
  match tokens.tail.dropWhile (·.kind == .whitespace) with
  | receiver :: dot :: _ =>
      (receiver.kind == .selfKw || receiver.kind == .const) && dot.kind == .dot
  | _ => false

/-- **A formed node** has the parts that it is read for. A definition begins with its keyword, a
method definition that names a receiver has a node for it, the name of a method is spelled as one,
and an assignment has a value. -/
def Formed (kind : NodeKind) (children : List Tree) : Prop :=
  match kind with
  | .moduleDef => Place.opensWith .moduleKw children = true
  | .classDef => Place.opensWith .classKw children = true
  | .methodDef => Place.opensWith .defKw children = true ∧
      (Token.namesReceiver (Tree.leavesOf children) = true →
        Tree.hasNode .singleton children = true)
  | .methodName => Token.SpellsMethod (Tree.leavesOf children)
  | .assign => Tree.hasNode .expr children = true
  | _ => True

/-- A receiver is named in front of whatever follows. -/
theorem Token.namesReceiver_append {front : List Token} (hfront : namesReceiver front = true)
    (back : List Token) : namesReceiver (front ++ back) = true := by
  unfold namesReceiver at hfront ⊢
  cases front with
  | nil => cases hfront
  | cons keyword rest =>
    rw [List.cons_append, List.tail_cons, List.dropWhile_append]
    rw [List.tail_cons] at hfront
    split at hfront
    · rename_i hrest
      rw [hrest]
      exact hfront
    · cases hfront

namespace Grammar

/-! ## Names of methods -/

/-- The token that is taken is of the kind that is ahead. -/
theorem all_leaves_advance {allowed : TokenKind → Bool} {input : Cursor}
    (hahead : ∀ kind, input.kind? = some kind → allowed kind = true) :
    (Tree.leavesOf (advance input).trees).all (allowed ·.kind) = true := by
  obtain ⟨offset, tokens⟩ := input
  cases tokens with
  | nil => rfl
  | cons token rest =>
    have hkind : allowed token.kind = true := hahead token.kind rfl
    simpa [advance, Tree.leavesOf, Tree.leaves] using hkind

/-- A token that is taken if the input asks for it is of a kind that is asked for. -/
theorem all_leaves_whenAhead (allowed : TokenKind → Bool) (condition : Cursor → Bool)
    (hcondition : ∀ input, condition input = true → ∀ kind, input.kind? = some kind →
      allowed kind = true) (input : Cursor) :
    (Tree.leavesOf (whenAhead condition advance input).trees).all (allowed ·.kind) = true := by
  unfold whenAhead ifAhead
  split
  · rename_i hahead
    exact all_leaves_advance (hcondition input hahead)
  · rfl

/-- What two parsers take in a row. -/
theorem all_leaves_followedBy {allowed : TokenKind → Bool} {first second : Parser}
    {input : Cursor}
    (hfirst : (Tree.leavesOf (first input).trees).all (allowed ·.kind) = true)
    (hsecond : ∀ input, (Tree.leavesOf (second input).trees).all (allowed ·.kind) = true) :
    (Tree.leavesOf ((first ++ second) input).trees).all (allowed ·.kind) = true := by
  show (Tree.leavesOf ((first input).trees ++ (second (first input).rest).trees)).all _ = true
  rw [Tree.leavesOf_append, List.all_append, hfirst, hsecond, Bool.and_self]

/-- A condition on the next token decides its kind. -/
private theorem kind_of_isAt {input : Cursor} {expected : TokenKind}
    (hat : input.isAt expected = true) {kind : TokenKind} (hkind : input.kind? = some kind) :
    kind = expected := by
  rw [Cursor.isAt, hkind] at hat
  simpa using hat

/-- The tokens that are taken as the name of a method spell one. -/
theorem spellsMethod_methodNameTokens (input : Cursor) :
    Token.SpellsMethod (Tree.leavesOf (methodNameTokens input).trees) := by
  have hsetter := all_leaves_whenAhead TokenKind.standsInMethodName setterAhead
    fun input hahead kind hkind => by
      rw [setterAhead, Bool.and_eq_true] at hahead
      rw [kind_of_isAt hahead.1 hkind]
      rfl
  have hclosing := all_leaves_whenAhead TokenKind.standsInMethodName (·.isAt .rightBracket)
    fun input hahead kind hkind => by
      rw [kind_of_isAt hahead hkind]
      rfl
  have hassigning := all_leaves_whenAhead TokenKind.standsInMethodName
    (fun input => input.isAt .eq && input.secondKind? == some .leftParen)
    fun input hahead kind hkind => by
      rw [Bool.and_eq_true] at hahead
      rw [kind_of_isAt hahead.1 hkind]
      rfl
  have hfirst : ∀ expected, input.kind? = some expected → expected.standsInMethodName = true →
      (Tree.leavesOf (advance input).trees).all (·.kind.standsInMethodName) = true := by
    intro expected hkind hallowed
    refine all_leaves_advance fun kind hahead => ?_
    obtain rfl := Option.some.inj (hahead.symm.trans hkind)
    exact hallowed
  -- the cases are those of the grammar: names with a setter sign, brackets, and single tokens
  unfold methodNameTokens
  split
  · rename_i hkind
    exact .inr (all_leaves_followedBy (hfirst .ident hkind rfl) hsetter)
  · rename_i hkind
    exact .inr (all_leaves_followedBy (hfirst .const hkind rfl) hsetter)
  · rename_i hkind
    exact .inr (all_leaves_followedBy
      (all_leaves_followedBy (hfirst .leftBracket hkind rfl) hclosing) hassigning)
  · rename_i kind hident hconst hbracket hkind
    split
    · rename_i hname
      rw [Bool.or_eq_true] at hname
      rcases hname with hoperator | hkeyword
      · -- an operator is taken alone
        obtain ⟨offset, token, rest, rfl, rfl⟩ := Cursor.exists_of_kind? hkind
        exact .inl ⟨token, by simp [advance, Tree.leavesOf, Tree.leaves], hoperator⟩
      · exact .inr (hfirst kind hkind (by simp [TokenKind.standsInMethodName, hkeyword]))
    · -- any other token is reported and left
      exact .inr rfl
  · exact .inr rfl

/-! ## Definitions -/

/-- What is taken first is the token ahead. -/
theorem opensWith_advance {input : Cursor} {kind : TokenKind} (hahead : input.isAt kind = true) :
    Place.opensWith kind (advance input).trees = true := by
  obtain ⟨offset, token, rest, rfl, rfl⟩ := Cursor.exists_of_isAt hahead
  simp [Place.opensWith, advance, Tree.leavesOf, Tree.leaves]

/-- What tokens are left when those of a kind have been taken. -/
theorem rest_advanceWhile (accepts : TokenKind → Bool) (input : Cursor) :
    (advanceWhile accepts input).rest.tokens = input.tokens.dropWhile (accepts ·.kind) := by
  obtain ⟨offset, tokens⟩ := input
  show (advanceAmong accepts offset tokens).rest.tokens = tokens.dropWhile (accepts ·.kind)
  induction tokens generalizing offset with
  | nil => rfl
  | cons token rest ih =>
    rw [advanceAmong, List.dropWhile_cons]
    split
    · exact ih (offset + token.width)
    · rfl

/-- Where tokens name a receiver, it is ahead after the keyword and the blanks. -/
theorem receiverAhead_of_namesReceiver {input : Cursor}
    (hnames : Token.namesReceiver input.tokens = true) :
    receiverAhead ((advance ++ skipWhitespace) input).rest = true := by
  have htokens : ((advance ++ skipWhitespace) input).rest.tokens =
      input.tokens.tail.dropWhile (·.kind == .whitespace) := by
    have hadvance : (advance input).rest.tokens = input.tokens.tail := by
      obtain ⟨offset, tokens⟩ := input
      cases tokens <;> rfl
    rw [← hadvance]
    exact rest_advanceWhile _ _
  unfold Token.namesReceiver at hnames
  split at hnames
  · rename_i receiver dot rest hrest
    rw [hrest] at htokens
    simpa [receiverAhead, Cursor.isAt, Cursor.kind?, Cursor.secondKind?, htokens] using hnames
  · cases hnames

/-- A receiver that is ahead gets a node. -/
theorem hasNode_receiver {input : Cursor} (hahead : receiverAhead input = true) :
    Tree.hasNode .singleton (receiver input).trees = true := by
  rw [receiver, whenAhead, ifAhead, if_pos hahead]
  exact Tree.hasNode_node _ _

/-- A node is around one result only. -/
theorem eq_of_wrap_eq {kind : NodeKind} {first second : Parsed}
    (hwrap : first.wrap kind = second.wrap kind) : first = second := by
  obtain ⟨trees, errors, rest⟩ := first
  obtain ⟨trees', errors', rest'⟩ := second
  simpa [Parsed.wrap] using hwrap

/-- **The parsers of the constructs build formed nodes.** -/
theorem formed_of_encloses {parse : Production → Parser} {kind : NodeKind} {input : Cursor}
    {contents : Parsed} (hencloses : Encloses parse kind input contents)
    (haccounts : contents.Accounts input) : Formed kind contents.trees := by
  cases kind with
  | moduleDef =>
    obtain ⟨hahead, hbuilt⟩ := hencloses
    obtain rfl := eq_of_wrap_eq hbuilt
    have hkeyword := opensWith_advance hahead
    exact Place.opensWith_append (Place.opensWith_append (Place.opensWith_append
      (Place.opensWith_append hkeyword _) _) _) _
  | classDef =>
    obtain ⟨hahead, hbuilt⟩ := hencloses
    obtain rfl := eq_of_wrap_eq hbuilt
    have hkeyword := opensWith_advance hahead
    exact Place.opensWith_append (Place.opensWith_append (Place.opensWith_append
      (Place.opensWith_append (Place.opensWith_append hkeyword _) _) _) _) _
  | methodDef =>
    obtain ⟨hahead, hbuilt⟩ := hencloses
    obtain rfl := eq_of_wrap_eq hbuilt
    have hkeyword := opensWith_advance hahead
    refine ⟨Place.opensWith_append (Place.opensWith_append (Place.opensWith_append
      (Place.opensWith_append (Place.opensWith_append hkeyword _) _) _) _) _, ?_⟩
    intro hnames
    -- the tokens of the node are a front of the input, so the input names the receiver too
    have hinput : Token.namesReceiver input.tokens = true := by
      rw [← haccounts.tokens]
      exact Token.namesReceiver_append hnames _
    have hreceiver := hasNode_receiver (receiverAhead_of_namesReceiver hinput)
    show Tree.hasNode .singleton (((_ ++ (receiver _).trees) ++ _ ++ _) ++ _) = true
    rw [Tree.hasNode_append, Tree.hasNode_append, Tree.hasNode_append, Tree.hasNode_append,
      hreceiver, Bool.or_true, Bool.true_or, Bool.true_or, Bool.true_or]
  | methodName =>
    obtain rfl := hencloses
    exact spellsMethod_methodNameTokens input
  | assign =>
    obtain rfl := eq_of_wrap_eq hencloses
    show Tree.hasNode .expr (_ ++ ([.node .expr _] : List Tree)) = true
    rw [Tree.hasNode_append, Tree.hasNode_node, Bool.or_true]
  | _ => trivial

end Grammar

instance : Sequential fun input parsed =>
    parsed.Accounts input ∧ Tree.EveryNodeOf Formed parsed.trees where
  nothing _ := ⟨⟨rfl, rfl⟩, trivial⟩
  report _ _ := ⟨⟨rfl, rfl⟩, trivial⟩
  cons token h := ⟨h.1.cons token, trivial, h.2⟩
  append hfirst hsecond :=
    ⟨hfirst.1.append hsecond.1, Tree.everyNodeOf_append hfirst.2 hsecond.2⟩

instance : Compositional fun input parsed =>
    parsed.Accounts input ∧ Tree.EveryNodeOf Formed parsed.trees where
  wrap hencloses h :=
    ⟨h.1.wrap _, ⟨Grammar.formed_of_encloses hencloses h.1, h.2⟩, trivial⟩

/-! ## The tree of a text -/

/-- **A legible node** is formed, and its tokens are lexed. -/
def Legible (kind : NodeKind) (children : List Tree) : Prop :=
  (∀ token ∈ Tree.leavesOf children, token.Lexed) ∧ Formed kind children

/-- **Every node of the tree of a text is legible.** -/
theorem everyNode_parse (source : String) : (parse source).tree.EveryNode Legible := by
  have hbuilt : Satisfies (fun input parsed =>
      parsed.Accounts input ∧ Tree.EveryNodeOf Formed parsed.trees)
      (Production.parser (Production.bound (Token.tokenize source).length) (.statements false)) :=
    Production.satisfies _ _
  -- nothing is relied on about the root, and the tokens below it are those of the text
  have hnodes : (parse source).tree.EveryNode Formed := ⟨trivial, (hbuilt _).2⟩
  refine hnodes.with_tokens fun token hmem => ?_
  rw [leaves_parse] at hmem
  exact Token.lexed_of_mem_tokenize hmem

end RubyIndex.Syntax
