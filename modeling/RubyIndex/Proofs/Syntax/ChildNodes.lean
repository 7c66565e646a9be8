import RubyIndex.Proofs.Syntax.Sites

/-! # Child nodes

Every node of a tree but the root is a child of another node. The trees before it under the same
parent are known from its place, and their text is what stands in the whole text between the start
of the parent and the start of the node.

* `Site.childNodes` are the child nodes of a node in their places, and
  `Site.children_eq_of_mem_childNodes` says where they stand among its children.
* `Tree.exists_parent_of_mem_sites` finds the parent of a node.
* `Site.exists_tokens_of_mem_childNodes` and `Site.standsAt_preceding` are about the tokens and the
  text between the start of the parent and the start of a node. -/

namespace RubyIndex

/-- At a byte range stands one text only. -/
theorem Text.StandsAt.unique {whole part other : String} {start stop : Nat}
    (hpart : StandsAt whole part start stop) (hother : StandsAt whole other start stop) :
    part = other :=
  String.toByteArray_inj.1 (hpart.extract.symm.trans hother.extract)

namespace Syntax

namespace Tree

/-- The nodes among several trees in their places, the first tree being at the given one. -/
def nodesFrom (place : Place) : List Tree → List Site
  | [] => []
  | .leaf token :: rest => nodesFrom (place.after (.leaf token)) rest
  | .node kind children :: rest =>
      ⟨place, kind, children⟩ :: nodesFrom (place.after (.node kind children)) rest

/-- The nodes behind the first tree are among all of them. -/
theorem mem_nodesFrom_cons {place : Place} {tree : Tree} {rest : List Tree} {site : Site}
    (hmem : site ∈ nodesFrom (place.after tree) rest) : site ∈ nodesFrom place (tree :: rest) := by
  cases tree with
  | leaf token => exact hmem
  | node kind children => exact List.mem_cons_of_mem _ hmem

/-- A node among several trees has those in front of it in its place. -/
theorem exists_of_mem_nodesFrom {place : Place} {trees : List Tree} {site : Site}
    (hmem : site ∈ nodesFrom place trees) : ∃ before after,
      trees = before ++ .node site.kind site.children :: after ∧
        site.place.preceding = before.reverse ++ place.preceding ∧
        site.start = place.start + widthOf before := by
  fun_induction nodesFrom place trees with
  | case1 => cases hmem
  | case2 place token rest ih =>
    obtain ⟨before, after, rfl, hpreceding, hstart⟩ := ih hmem
    refine ⟨.leaf token :: before, after, rfl, ?_, ?_⟩
    · rw [hpreceding, List.reverse_cons, List.append_assoc]
      rfl
    · rw [hstart, widthOf, ← Nat.add_assoc]
      rfl
  | case3 place kind children rest ih =>
    rcases List.mem_cons.1 hmem with rfl | hlater
    · exact ⟨[], rest, rfl, rfl, rfl⟩
    · obtain ⟨before, after, rfl, hpreceding, hstart⟩ := ih hlater
      refine ⟨.node kind children :: before, after, rfl, ?_, ?_⟩
      · rw [hpreceding, List.reverse_cons, List.append_assoc]
        rfl
      · rw [hstart, widthOf, ← Nat.add_assoc]
        rfl

end Tree

namespace Site

/-- **The child nodes** of a node in their places. -/
def childNodes (site : Site) : List Site :=
  Tree.nodesFrom (site.place.inside site.kind site.children) site.children

/-- A child node stands behind the trees before it. -/
theorem children_eq_of_mem_childNodes {parent child : Site} (hchild : child ∈ parent.childNodes) :
    (∃ after, parent.children =
      child.place.preceding.reverse ++ .node child.kind child.children :: after) ∧
        child.start = parent.start + Tree.widthOf child.place.preceding.reverse := by
  obtain ⟨before, after, htrees, hpreceding, hstart⟩ := Tree.exists_of_mem_nodesFrom hchild
  have hbefore : child.place.preceding.reverse = before := by
    rw [hpreceding]
    show (before.reverse ++ []).reverse = before
    rw [List.append_nil, List.reverse_reverse]
  rw [hbefore]
  exact ⟨⟨after, htrees⟩, hstart⟩

end Site

namespace Tree

mutual

/-- A node of a tree is its root or the child of a node. -/
theorem exists_parent_of_mem_sitesFrom {place : Place} {tree : Tree} {site : Site}
    (hmem : site ∈ sitesFrom place tree) :
    tree = .node site.kind site.children ∧ site.place = place ∨
      ∃ parent ∈ sitesFrom place tree, site ∈ parent.childNodes := by
  cases tree with
  | leaf token => cases hmem
  | node kind children =>
    rw [sitesFrom, List.mem_cons] at hmem
    rcases hmem with rfl | hinside
    · exact .inl ⟨rfl, rfl⟩
    · rcases exists_parent_of_mem_sitesOfFrom hinside with hchild | ⟨parent, hparent, hchild⟩
      · exact .inr ⟨⟨place, kind, children⟩, List.mem_cons_self, hchild⟩
      · exact .inr ⟨parent, List.mem_cons_of_mem _ hparent, hchild⟩

/-- A node of several trees is one of these or the child of a node. -/
theorem exists_parent_of_mem_sitesOfFrom {place : Place} {trees : List Tree} {site : Site}
    (hmem : site ∈ sitesOfFrom place trees) :
    site ∈ nodesFrom place trees ∨
      ∃ parent ∈ sitesOfFrom place trees, site ∈ parent.childNodes := by
  cases trees with
  | nil => cases hmem
  | cons tree rest =>
    rw [sitesOfFrom, List.mem_append] at hmem
    rcases hmem with hfirst | hlater
    · rcases exists_parent_of_mem_sitesFrom hfirst with ⟨rfl, rfl⟩ | ⟨parent, hparent, hchild⟩
      · exact .inl List.mem_cons_self
      · exact .inr ⟨parent, List.mem_append_left _ hparent, hchild⟩
    · rcases exists_parent_of_mem_sitesOfFrom hlater with hnode | ⟨parent, hparent, hchild⟩
      · exact .inl (mem_nodesFrom_cons hnode)
      · exact .inr ⟨parent, List.mem_append_right _ hparent, hchild⟩

end

/-- **The parent of a node**: only the root has none. -/
theorem exists_parent_of_mem_sites {tree : Tree} {site : Site} (hmem : site ∈ tree.sites) :
    tree = .node site.kind site.children ∧ site.place = .root ∨
      ∃ parent ∈ tree.sites, site ∈ parent.childNodes := exists_parent_of_mem_sitesFrom hmem

end Tree

/-! ## Texts -/

/-- The characters of trees are those of their tokens. -/
theorem Tree.toList_textOf (trees : List Tree) :
    (textOf trees).toList = Token.charsOf (leavesOf trees) := Token.toList_join_text _

namespace Site

/-- A node of the tree of a text other than the root has a parent. -/
theorem exists_parent {source : String} {site : Site} (hmem : site ∈ (parse source).tree.sites)
    (hkind : site.kind ≠ .sourceFile) :
    ∃ parent ∈ (parse source).tree.sites, site ∈ parent.childNodes := by
  rcases Tree.exists_parent_of_mem_sites hmem with ⟨hroot, -⟩ | hparent
  · exact absurd (Tree.node.inj hroot).1.symm hkind
  · exact hparent

variable {source : String} {parent child : Site} (hparent : parent ∈ (parse source).tree.sites)
  (hchild : child ∈ parent.childNodes)

include hparent hchild

/-- The tokens before a child node, from the start of its parent, and those of the node. -/
theorem exists_tokens_of_mem_childNodes : ∃ front back,
    Token.tokenize source = front ++ Tree.leavesOf child.place.preceding.reverse ++
      Tree.leavesOf child.children ++ back ∧ parent.start = Token.totalWidth front := by
  obtain ⟨front, back, htokens, hstart⟩ := exists_tokens hparent
  obtain ⟨⟨after, hchildren⟩, -⟩ := children_eq_of_mem_childNodes hchild
  refine ⟨front, Tree.leavesOf after ++ back, ?_, hstart⟩
  rw [htokens, hchildren]
  simp [Tree.leavesOf, Tree.leaves]

/-- **The text before a child node** stands between the start of its parent and its own start. -/
theorem standsAt_preceding : Text.StandsAt source
    (Tree.textOf child.place.preceding.reverse) parent.start child.start := by
  obtain ⟨front, back, htokens, hstart⟩ := exists_tokens_of_mem_childNodes hparent hchild
  obtain ⟨-, hchildStart⟩ := children_eq_of_mem_childNodes hchild
  rw [List.append_assoc] at htokens
  rw [hchildStart, hstart, Tree.widthOf_eq_totalWidth]
  exact Token.standsAt_join htokens

end Site

end Syntax

end RubyIndex
