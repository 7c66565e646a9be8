import RubyIndex.Proofs.Syntax.Relexing
import RubyIndex.Proofs.Syntax.Shape

/-! # Nodes in the text

A node of the tree of a text covers a row of its tokens. So the text of the node stands in the whole
text at the byte range of the node, and taken alone it is cut into the same tokens.

* `Text.StandsAt` says that a text stands at a byte range of another, and `Token.standsAt_join` that
  tokens in a row do.
* `Tree.exists_of_mem_sitesFrom` finds the tokens of a node among those of the tree.
* `Site.standsAt_of_mem_sites` and `Site.tokenize_text` are the two consequences,
  `Site.legible_of_mem_sites` is what the tree of a text says about its nodes. -/

namespace RubyIndex

/-! ## Texts in texts -/

/-- **A text stands at a byte range** of another text. -/
def Text.StandsAt (whole part : String) (start stop : Nat) : Prop :=
  ∃ front back, whole = front ++ part ++ back ∧ front.utf8ByteSize = start ∧
    start + part.utf8ByteSize = stop

/-- The bytes in the range are those of the text that stands there. -/
theorem Text.StandsAt.extract {whole part : String} {start stop : Nat}
    (hstands : StandsAt whole part start stop) :
    whole.toUTF8.extract start stop = part.toUTF8 := by
  obtain ⟨front, back, rfl, rfl, rfl⟩ := hstands
  rw [String.toUTF8_eq_toByteArray, String.toUTF8_eq_toByteArray, String.append_assoc,
    String.toByteArray_append, String.toByteArray_append]
  -- what is in front and what is behind are cut away one after the other
  have hstart := ByteArray.extract_append_size_add' (a := front.toByteArray)
    (b := part.toByteArray ++ back.toByteArray) (i := 0) (j := part.utf8ByteSize)
    (k := front.utf8ByteSize) String.size_toByteArray.symm
  rw [Nat.add_zero] at hstart
  rw [hstart]
  exact ByteArray.extract_append_eq_left String.size_toByteArray.symm

namespace Syntax

/-- **Tokens in a row** stand in the text behind those before them. -/
theorem Token.standsAt_join {source : String} {front tokens back : List Token}
    (htokens : tokenize source = front ++ tokens ++ back) :
    Text.StandsAt source (String.join (tokens.map (·.text))) (totalWidth front)
      (totalWidth front + totalWidth tokens) := by
  refine ⟨String.join (front.map (·.text)), String.join (back.map (·.text)), ?_, ?_, ?_⟩
  · rw [← join_text_append, ← join_text_append, ← htokens, join_text_tokenize]
  · exact (totalWidth_eq front).symm
  · rw [totalWidth_eq tokens]

/-! ## Sites in a tree -/

namespace Tree

mutual

/-- The tokens of a node are a row of those of the tree, and it starts where they do. -/
theorem exists_of_mem_sitesFrom {place : Place} {tree : Tree} {site : Site}
    (hmem : site ∈ sitesFrom place tree) :
    ∃ front back, tree.leaves = front ++ leavesOf site.children ++ back ∧
      site.start = place.start + Token.totalWidth front := by
  cases tree with
  | leaf token => cases hmem
  | node kind children =>
    rw [sitesFrom, List.mem_cons] at hmem
    rcases hmem with rfl | hinside
    · exact ⟨[], [], by simp [leaves], rfl⟩
    · -- the first child starts where its parent does
      have hstart : (place.inside kind children).start = place.start := rfl
      rw [← hstart]
      exact exists_of_mem_sitesOfFrom hinside

/-- The same for neighbouring trees. -/
theorem exists_of_mem_sitesOfFrom {place : Place} {trees : List Tree} {site : Site}
    (hmem : site ∈ sitesOfFrom place trees) :
    ∃ front back, leavesOf trees = front ++ leavesOf site.children ++ back ∧
      site.start = place.start + Token.totalWidth front := by
  cases trees with
  | nil => cases hmem
  | cons tree rest =>
    rw [sitesOfFrom, List.mem_append] at hmem
    rcases hmem with hfirst | hlater
    · obtain ⟨front, back, htokens, hstart⟩ := exists_of_mem_sitesFrom hfirst
      exact ⟨front, back ++ leavesOf rest, by simp [leavesOf, htokens], hstart⟩
    · obtain ⟨front, back, htokens, hstart⟩ := exists_of_mem_sitesOfFrom hlater
      refine ⟨tree.leaves ++ front, back, by simp [leavesOf, htokens], ?_⟩
      rw [hstart, Token.totalWidth_append, ← width_eq_totalWidth, ← Nat.add_assoc]
      rfl

end

mutual

/-- What every node of a tree allows, the node at a site does. -/
theorem EveryNode.of_mem_sitesFrom {allows : NodeKind → List Tree → Prop} {place : Place}
    {tree : Tree} {site : Site} (hnodes : tree.EveryNode allows)
    (hmem : site ∈ sitesFrom place tree) :
    allows site.kind site.children ∧ EveryNodeOf allows site.children := by
  cases tree with
  | leaf token => cases hmem
  | node kind children =>
    rw [sitesFrom, List.mem_cons] at hmem
    rcases hmem with rfl | hinside
    · exact hnodes
    · exact EveryNodeOf.of_mem_sitesOfFrom hnodes.2 hinside

theorem EveryNodeOf.of_mem_sitesOfFrom {allows : NodeKind → List Tree → Prop} {place : Place}
    {trees : List Tree} {site : Site} (hnodes : EveryNodeOf allows trees)
    (hmem : site ∈ sitesOfFrom place trees) :
    allows site.kind site.children ∧ EveryNodeOf allows site.children := by
  cases trees with
  | nil => cases hmem
  | cons tree rest =>
    rw [sitesOfFrom, List.mem_append] at hmem
    rcases hmem with hfirst | hlater
    · exact hnodes.1.of_mem_sitesFrom hfirst
    · exact EveryNodeOf.of_mem_sitesOfFrom hnodes.2 hlater

end

end Tree

/-! ## Sites in a text -/

namespace Site

variable {source : String} {site : Site} (hmem : site ∈ (parse source).tree.sites)

include hmem

/-- The tokens of a node are a row of those of the text. -/
theorem exists_tokens : ∃ front back,
    Token.tokenize source = front ++ Tree.leavesOf site.children ++ back ∧
      site.start = Token.totalWidth front := by
  obtain ⟨front, back, htokens, hstart⟩ := Tree.exists_of_mem_sitesFrom hmem
  rw [leaves_parse] at htokens
  exact ⟨front, back, htokens, by rw [hstart]; exact Nat.zero_add _⟩

/-- **The text of a node** stands in the whole text at the byte range of the node. -/
theorem standsAt_of_mem_sites : Text.StandsAt source site.text site.start site.stop := by
  obtain ⟨front, back, htokens, hstart⟩ := exists_tokens hmem
  have hstop : site.stop = site.start + Token.totalWidth (Tree.leavesOf site.children) := by
    rw [← Tree.widthOf_eq_totalWidth]
    rfl
  rw [hstop, hstart]
  exact Token.standsAt_join htokens

/-- **The tokens of a node** are all the tokens of its text. -/
theorem tokenize_text : Token.tokenize site.text = Tree.leavesOf site.children := by
  obtain ⟨front, back, htokens, -⟩ := exists_tokens hmem
  exact Token.tokenize_join htokens

/-- The nodes of the tree of a text are legible. -/
theorem legible_of_mem_sites :
    Legible site.kind site.children ∧ Tree.EveryNodeOf Legible site.children :=
  (everyNode_parse source).of_mem_sitesFrom hmem

end Site

end Syntax

end RubyIndex
