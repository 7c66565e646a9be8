import RubyIndex.Proofs.Indexing.Visits
import RubyIndex.Proofs.Syntax.CodeTrees
import RubyIndex.Proofs.Syntax.Derivations

/-! # What is declared is code

Whatever a tree declares it says with tokens that are code. So two trees that are the same but for
blanks, line breaks and comments declare the same, node by node.

* `Node.Clear` nodes have names without trivia, and begin with code if they are blocks.
* `contribution_code`: what a clear node declares under clear nodes does not depend on trivia.
* `Visit.gist` is what a visit declares, with the code of its node.
* `map_gist_visits_eq`: trees with the same code have visits with the same gists. -/

namespace RubyIndex.Indexing

open Syntax

/-! ## Clear nodes -/

namespace Node

/-- A node without trivia. -/
def code (node : Node) : Node := ⟨node.kind, Tree.codeOf node.children⟩

@[simp] theorem kind_code (node : Node) : node.code.kind = node.kind := rfl

/-- A **clear node**: the names in it have no trivia, and if it is a block its first token is
code. -/
structure Clear (node : Node) : Prop where
  names : ∀ kind inner, kind = .constPath ∨ kind = .methodName →
    Tree.firstNode? kind node.children = some inner → Tree.codeOf inner = inner
  opens : node.kind = .block →
    (Token.codeOf (Tree.leavesOf node.children)).head? = (Tree.leavesOf node.children).head?

variable {node : Node}

/-- A name in a clear node is found as it is. -/
theorem Clear.child?_code (hclear : node.Clear) {kind : NodeKind}
    (hkind : kind = .constPath ∨ kind = .methodName) :
    node.code.site.child? kind = node.site.child? kind := by
  show Tree.firstNode? kind (Tree.codeOf node.children) = Tree.firstNode? kind node.children
  rw [Tree.firstNode?_codeOf]
  cases hinner : Tree.firstNode? kind node.children with
  | none => rfl
  | some inner => rw [Option.map_some, hclear.names kind inner hkind hinner]

theorem Clear.constName?_code (hclear : node.Clear) :
    node.code.site.constName? = node.site.constName? := by
  rw [Site.constName?, hclear.child?_code (.inl rfl), Site.constName?]

theorem Clear.methodName?_code (hclear : node.Clear) :
    node.code.site.methodName? = node.site.methodName? := by
  rw [Site.methodName?, hclear.child?_code (.inr rfl), Site.methodName?]

/-- The target of an assignment is code. -/
theorem target?_code (node : Node) : node.code.site.target? = node.site.target? := by
  have hvariable : ∀ tokens : List Token, (Token.codeOf tokens).find? (·.kind.isVariable) =
      tokens.find? (·.kind.isVariable) := by
    intro tokens
    rw [Token.codeOf, List.find?_filter]
    congr 1
    funext token
    cases token.kind <;> rfl
  show (Tree.firstNode? .varField (Tree.codeOf node.children)).bind _ =
    (Tree.firstNode? .varField node.children).bind _
  rw [Tree.firstNode?_codeOf]
  cases Tree.firstNode? .varField node.children with
  | none => rfl
  | some inner =>
    show (Tree.tokensOf (Tree.codeOf inner)).find? _ = (Tree.tokensOf inner).find? _
    rw [Tree.tokensOf_codeOf, hvariable]

/-- A clear block opens with the same token. -/
theorem Clear.opensWith_code (hclear : node.Clear) (hkind : node.kind = .block)
    (kind : TokenKind) :
    Place.opensWith kind node.code.children = Place.opensWith kind node.children := by
  rw [Place.opensWith, Place.opensWith, code, Tree.leavesOf_codeOf, hclear.opens hkind]

end Node

/-! ## What nodes declare -/

section

variable {above : List Node} (habove : ∀ node ∈ above, node.Clear)

include habove

theorem inSingletonBlock_code :
    inSingletonBlock (above.map Node.code) = inSingletonBlock above := by
  unfold inSingletonBlock
  induction above with
  | nil => rfl
  | cons node rest ih =>
    have hrest := ih fun found hmem => habove found (List.mem_cons_of_mem _ hmem)
    have hnode : (node.kind == .block && Place.opensWith .classKw node.code.children) =
        (node.kind == .block && Place.opensWith .classKw node.children) := by
      by_cases hkind : node.kind = .block
      · rw [(habove node List.mem_cons_self).opensWith_code hkind]
      · rw [beq_false_of_ne hkind, Bool.false_and, Bool.false_and]
    rw [List.map_cons, List.takeWhile_cons, List.takeWhile_cons, Node.kind_code]
    split
    · rw [List.any_cons, List.any_cons, hrest, Node.kind_code, hnode]
    · rfl

theorem methodReceiver_code (method : Node) :
    methodReceiver (above.map Node.code) method.code = methodReceiver above method := by
  rw [methodReceiver, methodReceiver, inSingletonBlock_code habove, Node.code,
    Tree.hasNode_codeOf]

theorem enclosingReceiver?_code :
    enclosingReceiver? (above.map Node.code) = enclosingReceiver? above := by
  induction above with
  | nil => rfl
  | cons node rest ih =>
    have hrest : ∀ found ∈ rest, found.Clear := fun found hmem =>
      habove found (List.mem_cons_of_mem _ hmem)
    rw [List.map_cons, enclosingReceiver?, enclosingReceiver?, methodReceiver_code hrest, ih hrest]
    rfl

theorem enclosingPath_code : enclosingPath (above.map Node.code) = enclosingPath above := by
  induction above with
  | nil => rfl
  | cons node rest ih =>
    have hrest : ∀ found ∈ rest, found.Clear := fun found hmem =>
      habove found (List.mem_cons_of_mem _ hmem)
    rw [List.map_cons, enclosingPath, enclosingPath, ih hrest,
      (habove node List.mem_cons_self).constName?_code]
    rfl

/-- **What a clear node declares** does not depend on trivia. -/
theorem contribution_code {node : Node} (hnode : node.Clear) :
    contribution (above.map Node.code) node.code = contribution above node := by
  have hvariable : ∀ target, declareVariable (above.map Node.code) target =
      declareVariable above target := by
    intro target
    rw [declareVariable, declareVariable, enclosingPath_code habove, enclosingReceiver?_code habove]
  unfold contribution
  rw [enclosingReceiver?_code habove, enclosingPath_code habove, hnode.constName?_code,
    hnode.methodName?_code, node.target?_code, methodReceiver_code habove]
  simp only [hvariable]
  rfl

/-- Whether the body of a clear node is looked into does not depend on trivia. -/
theorem opensBody_code {node : Node} (hnode : node.Clear) :
    opensBody (above.map Node.code) node.code = opensBody above node := by
  unfold opensBody
  rw [enclosingReceiver?_code habove, hnode.constName?_code, hnode.methodName?_code]
  rfl

end

/-! ## Gists of visits -/

/-- **The gist of a visit**: what is declared there, and the node without trivia. -/
structure Gist where
  declared : List Declaration
  node : Node

/-- What is left of a visit without its place and the trivia in its node. -/
def Visit.gist (visit : Visit) : Gist := ⟨visit.declared, visit.node.code⟩

/-- What every node of a text allows: it is clear. -/
def AllowsClear (kind : NodeKind) (children : List Tree) : Prop := Node.Clear ⟨kind, children⟩

/-- A node without trivia has none to leave out. -/
theorem Node.code_code (node : Node) : node.code.code = node.code := by
  rw [Node.code, Node.code, Tree.codeOf_codeOf]

mutual

/-- The visits of a clear tree have the gists of those of its code, wherever it stands. -/
theorem map_gist_visitsFrom (place place' : Place) {above : List Node}
    (habove : ∀ node ∈ above, node.Clear) {tree : Tree} (hclear : tree.EveryNode AllowsClear) :
    (visitsFrom place above tree).map Visit.gist =
      (visitsOf place' (above.map Node.code) tree.code).map Visit.gist := by
  cases tree with
  | leaf token =>
    rw [Tree.code]
    split <;> rfl
  | node kind children =>
    have hnode : Node.Clear ⟨kind, children⟩ := hclear.1
    have hinner : ∀ node ∈ ⟨kind, children⟩ :: above, node.Clear := by
      intro node hmem
      rcases List.mem_cons.1 hmem with rfl | hlater
      · exact hnode
      · exact habove node hlater
    have hgist : Visit.gist ⟨above.map Node.code, ⟨place', kind, Tree.codeOf children⟩⟩ =
        Visit.gist ⟨above, ⟨place, kind, children⟩⟩ :=
      congrArg₂ Gist.mk (contribution_code habove hnode) (Node.code_code ⟨kind, children⟩)
    have hopens : opensBody (above.map Node.code) ⟨kind, Tree.codeOf children⟩ =
        opensBody above ⟨kind, children⟩ := opensBody_code habove hnode
    rw [Tree.code, visitsOf, visitsOf, List.append_nil, visitsFrom, visitsFrom, List.map_cons,
      List.map_cons, hgist, hopens]
    refine congrArg (_ :: ·) ?_
    split
    · exact map_gist_visitsInBody _ _ hinner hclear.2
    · split
      · exact map_gist_visitsOf _ _ hinner hclear.2
      · rfl

theorem map_gist_visitsInBody (place place' : Place) {above : List Node}
    (habove : ∀ node ∈ above, node.Clear) {trees : List Tree}
    (hclear : Tree.EveryNodeOf AllowsClear trees) :
    (visitsInBody place above trees).map Visit.gist =
      (visitsInBody place' (above.map Node.code) (Tree.codeOf trees)).map Visit.gist := by
  cases trees with
  | nil => rfl
  | cons tree rest =>
    have hrest := fun place' => map_gist_visitsInBody (place.after tree) place' habove hclear.2
    rw [Tree.codeOf]
    cases tree with
    | leaf token =>
      rw [Tree.code, visitsInBody, if_neg nofun]
      split
      · exact hrest place'
      · rw [List.singleton_append, visitsInBody, if_neg nofun]
        exact hrest _
    | node kind children =>
      -- only the first body is visited, and the code of the trees keeps it the first
      have hfirst := map_gist_visitsFrom place place' habove hclear.1
      rw [Tree.code, visitsOf, visitsOf, List.append_nil] at hfirst
      rw [Tree.code, List.singleton_append, visitsInBody, visitsInBody, Tree.nodeKind?,
        Tree.nodeKind?]
      by_cases hbody : kind = .body
      · rw [if_pos (congrArg some hbody), if_pos (congrArg some hbody)]
        exact hfirst
      · rw [if_neg (hbody ∘ Option.some.inj), if_neg (hbody ∘ Option.some.inj)]
        exact hrest _

theorem map_gist_visitsOf (place place' : Place) {above : List Node}
    (habove : ∀ node ∈ above, node.Clear) {trees : List Tree}
    (hclear : Tree.EveryNodeOf AllowsClear trees) :
    (visitsOf place above trees).map Visit.gist =
      (visitsOf place' (above.map Node.code) (Tree.codeOf trees)).map Visit.gist := by
  cases trees with
  | nil => rfl
  | cons tree rest =>
    have hfirst := map_gist_visitsFrom place place' habove hclear.1
    have hrest := fun place' => map_gist_visitsOf (place.after tree) place' habove hclear.2
    rw [visitsOf, List.map_append, hfirst, Tree.codeOf]
    cases tree with
    | leaf token =>
      rw [Tree.code]
      split
      · exact hrest place'
      · rw [List.singleton_append, visitsOf, visitsOf, visitsOf, List.append_nil, List.map_append,
          hrest]
    | node kind children =>
      rw [Tree.code, List.singleton_append, visitsOf, visitsOf, visitsOf, List.append_nil,
        List.map_append, hrest]

end

/-! ## Texts -/

/-- The nodes of the tree of a text are clear. -/
theorem everyNode_clear (source : String) : (parse source).tree.EveryNode AllowsClear := by
  have hproduced : (parse source).tree.EveryNode Produced :=
    ⟨trivial, (Production.derives_parser _ _ _).2⟩
  refine hproduced.imp fun kind children hnode hbelow => ⟨?_, ?_⟩
  · intro name inner hname hinner
    obtain ⟨hinside, hdeeper⟩ := hbelow.of_firstNode? hinner
    have hreadable : Site.Readable ⟨.root, name, inner⟩ :=
      Site.readable_of_produced hinside hdeeper
    exact Tree.codeOf_eq_self (hreadable.name hname)
  · rintro rfl
    obtain ⟨opener, rest, rfl, hopens⟩ := exists_of_produced_block hnode
    have hcode : opener.kind.isTrivia = false := by
      revert hopens
      cases opener.kind <;> decide
    rw [Tree.leavesOf, Tree.leaves, List.singleton_append, Token.codeOf, List.filter_cons, hcode]
    rfl

/-- **Texts with the same code** have visits with the same gists, in the same order. -/
theorem map_gist_visits_eq {source source' : String}
    (hcode : Tree.codeOf (parse source').tree.children = Tree.codeOf (parse source).tree.children) :
    (visits (parse source').tree).map Visit.gist = (visits (parse source).tree).map Visit.gist := by
  have hroot : ∀ source, (visits (parse source).tree).map Visit.gist =
      (visitsOf .root [⟨.sourceFile, Tree.codeOf (parse source).tree.children⟩]
        (Tree.codeOf (parse source).tree.children)).map Visit.gist := by
    intro source
    have hclear := everyNode_clear source
    exact map_gist_visitsOf .root .root
      (fun node hmem => List.mem_singleton.1 hmem ▸ hclear.1) hclear.2
  rw [hroot, hroot, hcode]

end RubyIndex.Indexing
