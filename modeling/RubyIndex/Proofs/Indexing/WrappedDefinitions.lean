import RubyIndex.Proofs.Indexing.Revisions
import RubyIndex.Proofs.Syntax.ChildNodes
import RubyIndex.Proofs.Syntax.Derivations
import RubyIndex.Proofs.Syntax.LineBreaks

/-! # Definitions within statements

The doc comment of a node is read off the trees before it under the same parent. A definition behind
a call such as `private`, or in front of a modifier, is the child of a statement, and what stands
before it there is on the line of the statement. So no comment is found for the definition, and a
comment above the statement is lost.

* `commentsAbove_eq_nil`: there is no comment among tokens on one line with something behind them.
* `Visit.docstring_of_line` is the result for definitions. -/

namespace RubyIndex

open Syntax

namespace Syntax

/-- **No comment stands before something else on its line**: if a row of trees is on one line and
the token behind it begins no new one, no comment is read off them. -/
theorem commentsAbove_eq_nil {preceding : List Tree} {next : Token} {later : List Token}
    {text : List Char}
    (htokens : Token.ofChars text = Tree.leavesOf preceding.reverse ++ next :: later)
    (hnext : next.text.toList.head? ≠ some '\n')
    (hline : '\n' ∉ (Tree.textOf preceding.reverse).toList) :
    commentsAbove false preceding = [] := by
  -- the induction goes from the nearest tree away, and the token behind changes with it
  induction preceding generalizing next later with
  | nil => rfl
  | cons tree before ih =>
    cases tree with
    | node kind children => rfl
    | leaf token =>
      have hleaves : Tree.leavesOf (.leaf token :: before).reverse =
          Tree.leavesOf before.reverse ++ [token] := by
        simp [Tree.leavesOf, Tree.leaves]
      rw [hleaves, List.append_assoc, List.singleton_append] at htokens
      rw [Tree.toList_textOf, hleaves, Token.charsOf, List.flatMap_append, List.flatMap_singleton,
        List.mem_append, not_or] at hline
      obtain ⟨hbefore, htoken⟩ := hline
      rw [commentsAbove]
      split
      · refine ih htokens (fun hbreak => htoken (List.mem_of_mem_head? hbreak)) ?_
        rwa [Tree.toList_textOf]
      · -- a line break would be in the text
        rename_i hkind
        have hlexed : token.Lexed := Token.lexed_of_mem_ofChars
          (htokens ▸ List.mem_append_right _ List.mem_cons_self)
        rcases hlexed.newline hkind with hfeed | hreturn
        · exact absurd (hfeed ▸ List.mem_cons_self) htoken
        · exact absurd (hreturn ▸ List.mem_cons_of_mem _ List.mem_cons_self) htoken
      · -- a comment would go on up to a line break
        rename_i hkind
        exact absurd (Token.head?_text_of_comment (Token.ofChars_charsOf_append htokens).2 hkind)
          hnext
      · rfl

/-- The first token of a definition is its keyword or its variable, and no line break. -/
theorem Site.exists_first_of_definition {source : String} {site : Site}
    (hmem : site ∈ (parse source).tree.sites)
    (hkind : site.kind = .assign ∨ site.kind = .methodDef) :
    ∃ first rest, Tree.leavesOf site.children = first :: rest ∧
      first.text.toList.head? ≠ some '\n' := by
  obtain ⟨⟨hlexed, hformed⟩, -⟩ := Site.legible_of_mem_sites hmem
  obtain ⟨hreadable, hbelow⟩ := (everyNode_readable source).of_mem_sitesFrom hmem
  obtain ⟨place, kind, children⟩ := site
  obtain ⟨first, rest, hleaves, hproper⟩ : ∃ first rest,
      Tree.leavesOf children = first :: rest ∧
        (first.kind.isVariable = true ∨ first.kind = .defKw) := by
    rcases hkind with rfl | rfl
    · obtain ⟨inner, others, rfl⟩ := exists_of_produced_assign (hreadable place).produced
      obtain ⟨token, rfl, hvariable⟩ := exists_of_produced_varField (hbelow.1.1 place).produced
      exact ⟨token, _, rfl, .inl hvariable⟩
    · obtain ⟨hopens, -⟩ := hformed
      obtain ⟨first, hfirst, hdef⟩ := (Option.any_eq_true _ _).1 hopens
      obtain ⟨rest, hleaves⟩ := List.head?_eq_some_iff.1 hfirst
      exact ⟨first, rest, hleaves, .inr (eq_of_beq hdef)⟩
  refine ⟨first, rest, hleaves, fun hbreak => ?_⟩
  have hfirst : first.Lexed := hlexed first (hleaves ▸ List.mem_cons_self)
  rcases hfirst.kind_of_head?_newline hbreak with hnewline | herror
  · rw [hnewline] at hproper
    exact absurd hproper (by decide)
  · rw [herror] at hproper
    exact absurd hproper (by decide)

end Syntax

namespace Indexing

/-- **A definition behind the beginning of its line has no docstring.** Let the text between the
start of a node and a definition among its children be on one line. What is registered for the
definition has no docstring, so it has the doc comment of the node only if there is none. -/
theorem Visit.docstring_of_line {source header : String} (file : String) {parent : Site}
    {visit : Visit} (hparent : parent ∈ (parse source).tree.sites)
    (hvisit : visit ∈ visits (parse source).tree) (hchild : visit.site ∈ parent.childNodes)
    (hkind : visit.site.kind = .assign ∨ visit.site.kind = .methodDef)
    (hheader : Text.StandsAt source header parent.start visit.site.start)
    (hline : '\n' ∉ header.toList) :
    (visit.revision file).docstring = none ∧
      ((visit.revision file).docstring = parent.docComment? ↔ parent.docComment? = none) := by
  obtain ⟨first, rest, hleaves, hfirst⟩ :=
    Site.exists_first_of_definition (site_mem_of_mem_visits hvisit) hkind
  obtain ⟨front, back, htokens, -⟩ := Site.exists_tokens_of_mem_childNodes hparent hchild
  have hnone : visit.site.docComment? = none := by
    -- the text between the starts is that of the trees before the definition
    obtain rfl := hheader.unique (Site.standsAt_preceding hparent hchild)
    rw [hleaves, List.append_assoc, List.append_assoc, List.cons_append] at htokens
    have habove : commentsAbove false visit.site.place.preceding = [] :=
      commentsAbove_eq_nil (Token.ofChars_charsOf_append htokens).2 hfirst hline
    rw [Site.docComment?, habove]
    rfl
  rw [docstring_revision, hnone]
  exact ⟨rfl, eq_comm⟩

/-- A method behind a call. -/
theorem Visit.docstring_of_line_private :
    ∃ parent ∈ (parse "private def f\nend\n").tree.sites,
      ∃ visit ∈ visits (parse "private def f\nend\n").tree,
        visit.site ∈ parent.childNodes ∧ (visit.revision "a.rb").docstring = none := by
  obtain ⟨visit, hvisit, hkind⟩ : ∃ visit ∈ visits (parse "private def f\nend\n").tree,
      visit.site.kind = .methodDef := by decide +kernel
  obtain ⟨parent, hparent, hchild⟩ :=
    Site.exists_parent (site_mem_of_mem_visits hvisit) (by rw [hkind]; decide)
  have hplaces : ∀ parent ∈ (parse "private def f\nend\n").tree.sites,
      ∀ child ∈ parent.childNodes, child.kind = .methodDef →
        parent.start = 0 ∧ child.start = 8 := by decide +kernel
  obtain ⟨hstart, hdefinition⟩ := hplaces parent hparent visit.site hchild hkind
  have hheader : Text.StandsAt "private def f\nend\n" "private " parent.start visit.site.start :=
    ⟨"", "def f\nend\n", by decide, hstart.symm, by rw [hstart, hdefinition]; decide⟩
  have hnone := docstring_of_line "a.rb" hparent hvisit hchild (.inr hkind) hheader (by decide)
  exact ⟨parent, hparent, visit, hvisit, hchild, hnone.1⟩

/-- A comment above a call is lost for the method behind it. -/
theorem Visit.docstring_ne_private :
    ∃ parent ∈ (parse "# d\nprivate def f\nend\n").tree.sites,
      ∃ visit ∈ visits (parse "# d\nprivate def f\nend\n").tree,
        visit.site ∈ parent.childNodes ∧ parent.kind = .statement ∧
          visit.site.kind = .methodDef ∧ parent.docComment? = some "d" ∧
            (visit.revision "a.rb").docstring = none := by
  obtain ⟨visit, hvisit, hkind, hnone⟩ :
      ∃ visit ∈ visits (parse "# d\nprivate def f\nend\n").tree,
        visit.site.kind = .methodDef ∧ (visit.revision "a.rb").docstring = none := by
    decide +kernel
  obtain ⟨parent, hparent, hchild⟩ :=
    Site.exists_parent (site_mem_of_mem_visits hvisit) (by rw [hkind]; decide)
  have hcomment : ∀ parent ∈ (parse "# d\nprivate def f\nend\n").tree.sites,
      ∀ child ∈ parent.childNodes, child.kind = .methodDef →
        parent.kind = .statement ∧ parent.docComment? = some "d" := by decide +kernel
  obtain ⟨hstatement, hlost⟩ := hcomment parent hparent visit.site hchild hkind
  exact ⟨parent, hparent, visit, hvisit, hchild, hstatement, hkind, hlost, hnone⟩

end Indexing

end RubyIndex
