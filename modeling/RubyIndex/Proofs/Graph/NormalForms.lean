import RubyIndex.Proofs.Graph.DisplayPaths

/-! # Normal forms of graph paths

Symbol paths and display paths are made by replacements one after the other, each of which could
in principle put in what an earlier one has removed. None does: what a replacement puts in has no
character of a mark of Ruby paths, so marks neither come back nor come together around it. The
paths that have no such mark are therefore those that are left as they are.

* `Graph.not_infix_replaceInTurn`: what is replaced is gone after several replacements.
* `Graph.IsGraphPath` and `Graph.IsTreePath` are the normal forms.
* `Graph.normalForms` says that they are what the two kinds of paths come to, and where they
  stay. -/

namespace RubyIndex.Graph

open Text

/-! ## Replacements in turn -/

variable {rules : List (String × String)} {sought text : List Char}

/-- **Replacements that are apart from a text**: each puts something in, and nothing of the text. -/
def Apart (rules : List (String × String)) (sought : List Char) : Prop :=
  ∀ rule ∈ rules, rule.2.toList ≠ [] ∧ ∀ character ∈ sought, character ∉ rule.2.toList

instance (rules : List (String × String)) (sought : List Char) : Decidable (Apart rules sought) :=
  decidable_of_iff
    (rules.all fun rule => !rule.2.toList.isEmpty && sought.all fun character =>
      !rule.2.toList.contains character)
    (by simp [Apart])

theorem replaceInTurn_cons (text : List Char) (pattern replacement : String)
    (rules : List (String × String)) :
    replaceInTurn text ((pattern, replacement) :: rules) =
      replaceInTurn (replaceAll pattern.toList replacement.toList text) rules := rfl

/-- What stands in a text after replacements has stood in it before. -/
theorem infix_of_infix_replaceInTurn (hapart : Apart rules sought)
    (hinside : sought <:+: replaceInTurn text rules) : sought <:+: text := by
  induction rules generalizing text with
  | nil => exact hinside
  | cons rule rules ih =>
    have hfirst := hapart rule List.mem_cons_self
    exact infix_of_infix_replaceAll hfirst.1 hfirst.2
      (ih (fun later hlater => hapart later (List.mem_cons_of_mem _ hlater)) hinside)

/-- **What is replaced by one of several rules is gone** after all of them. -/
theorem not_infix_replaceInTurn {pattern : String} (hrule : pattern ∈ rules.map (·.1))
    (hne : pattern.toList ≠ []) (hapart : Apart rules pattern.toList) :
    ¬pattern.toList <:+: replaceInTurn text rules := by
  induction rules generalizing text with
  | nil => cases hrule
  | cons rule rules ih =>
    have hlater : Apart rules pattern.toList := fun later hlater =>
      hapart later (List.mem_cons_of_mem _ hlater)
    rcases List.mem_cons.1 hrule with rfl | hmem
    · -- it is gone after its own rule, and the others do not put it in
      have hfirst := hapart rule List.mem_cons_self
      exact fun hinside => not_infix_replaceAll hne hfirst.1 hfirst.2
        (infix_of_infix_replaceInTurn hlater hinside)
    · exact ih hmem hlater

/-- Where no pattern of a rule stands, nothing is replaced. -/
theorem replaceInTurn_eq_self (hnone : ∀ rule ∈ rules, ¬rule.1.toList <:+: text) :
    replaceInTurn text rules = text := by
  induction rules with
  | nil => rfl
  | cons rule rules ih =>
    have hfirst : occursIn rule.1.toList text = false :=
      Bool.eq_false_iff.2 fun hoccurs => hnone rule List.mem_cons_self (occursIn_iff.1 hoccurs)
    rw [show rule :: rules = (rule.1, rule.2) :: rules from rfl, replaceInTurn_cons,
      replaceAll_eq_self_of_occursIn hfirst]
    exact ih fun later hlater => hnone later (List.mem_cons_of_mem _ hlater)

/-! ## Symbol paths -/

/-- The marks that Ruby paths have between and in front of names. -/
def rubyMarks : List String := ["#", ".", ">", "::"]

/-- **The normal form of graph paths**: no mark of Ruby paths stands in them, and no slash in front
of them. -/
structure IsGraphPath (path : List Char) : Prop where
  unmarked : ∀ mark ∈ rubyMarks, ¬mark.toList <:+: path
  front : path.head? ≠ some '/'

/-- Both lists of replacements remove the marks of Ruby paths. -/
theorem not_infix_of_mem_rubyMarks {mark : String} (hmark : mark ∈ rubyMarks) (text : List Char) :
    ¬mark.toList <:+: replaceInTurn text symbolPathRules ∧
      ¬mark.toList <:+: replaceInTurn text treePathRules := by
  have hremoved : ∀ mark ∈ rubyMarks, mark.toList ≠ [] ∧
      (mark ∈ symbolPathRules.map (·.1) ∧ Apart symbolPathRules mark.toList) ∧
      (mark ∈ treePathRules.map (·.1) ∧ Apart treePathRules mark.toList) := by decide
  obtain ⟨hne, ⟨hsymbol, hapart⟩, htree, hapartTree⟩ := hremoved mark hmark
  exact ⟨not_infix_replaceInTurn hsymbol hne hapart, not_infix_replaceInTurn htree hne hapartTree⟩

/-- Every pattern that is replaced has a mark of Ruby paths in it. -/
theorem IsGraphPath.replaceInTurn_eq_self {path : List Char} (hnormal : IsGraphPath path) :
    replaceInTurn path symbolPathRules = path ∧ replaceInTurn path treePathRules = path := by
  have hpatterns : ∀ rule ∈ symbolPathRules ++ treePathRules, ∃ mark ∈ rubyMarks,
      mark.toList.isPrefixOf rule.1.toList = true := by decide
  have hnone : ∀ rule ∈ symbolPathRules ++ treePathRules, ¬rule.1.toList <:+: path := by
    intro rule hrule hinside
    obtain ⟨mark, hmark, hahead⟩ := hpatterns rule hrule
    exact hnormal.unmarked mark hmark
      ((List.isPrefixOf_iff_prefix.1 hahead).isInfix.trans hinside)
  exact ⟨Graph.replaceInTurn_eq_self fun rule hrule => hnone rule (List.mem_append_left _ hrule),
    Graph.replaceInTurn_eq_self fun rule hrule => hnone rule (List.mem_append_right _ hrule)⟩

theorem toList_symbolPath (path : String) :
    (symbolPath path).toList = trimSlashes (replaceInTurn path.toList symbolPathRules) :=
  String.toList_ofList

/-- **Symbol paths are in normal form.** -/
theorem isGraphPath_symbolPath (path : String) : IsGraphPath (symbolPath path).toList := by
  rw [toList_symbolPath]
  constructor
  · intro mark hmark hinside
    exact (not_infix_of_mem_rubyMarks hmark path.toList).1
      (hinside.trans (List.dropWhile_suffix _).isInfix)
  · intro hslash
    have hfirst := List.head?_dropWhile_not (· == '/') (replaceInTurn path.toList symbolPathRules)
    rw [← trimSlashes, hslash] at hfirst
    cases hfirst

/-- Symbol paths stay as they are. -/
theorem symbolPath_eq_self {path : String} (hnormal : IsGraphPath path.toList) :
    symbolPath path = path := by
  refine String.toList_injective ?_
  rw [toList_symbolPath, hnormal.replaceInTurn_eq_self.1, trimSlashes]
  cases htext : path.toList with
  | nil => rfl
  | cons first rest =>
    refine List.dropWhile_cons_of_neg fun hslash => hnormal.front ?_
    rw [htext, List.head?_cons, beq_iff_eq.1 hslash]

/-! ## Display paths -/

/-- **The components of a path** between its slashes. The empty path has none. -/
def pathComponents (path : List Char) : List (List Char) :=
  if path.isEmpty then [] else pieces '/' path

/-- **The normal form of display paths**: they are graph paths with no slash at the end, and no
component is empty or has the mark of local scopes in it. -/
structure IsTreePath (path : List Char) : Prop extends IsGraphPath path where
  back : path.getLast? ≠ some '/'
  nonempty : ∀ component ∈ pathComponents path, component ≠ []
  unscoped : ∀ component ∈ pathComponents path, ¬localMark <:+: component

theorem isDisplayed_iff {component : List Char} :
    isDisplayed component = true ↔ component ≠ [] ∧ ¬localMark <:+: component := by
  rw [isDisplayed, Bool.and_eq_true, Bool.not_eq_true', Bool.not_eq_true',
    List.isEmpty_eq_false_iff, Bool.eq_false_iff, Ne, Ne, occursIn_iff]

/-- The components of what is displayed are the displayed components. -/
theorem pathComponents_shown {components : List (List Char)}
    (hslash : ∀ component ∈ components, '/' ∉ component) :
    pathComponents (shown components) = components.filter isDisplayed := by
  unfold pathComponents
  split
  · rename_i hempty
    exact (shown_eq_nil_iff.1 (List.isEmpty_iff.1 hempty)).symm
  · rename_i hsome
    refine pieces_intercalate (fun hnone => hsome ?_) fun component hmem =>
      hslash component (List.mem_of_mem_filter hmem)
    rw [List.isEmpty_iff, shown_eq_nil_iff, hnone]

/-- A path none of whose components is empty has no slash at either end. -/
theorem no_slash_at_ends {path : List Char}
    (hnonempty : ∀ component ∈ pathComponents path, component ≠ []) :
    path.head? ≠ some '/' ∧ path.getLast? ≠ some '/' := by
  constructor
  · intro hslash
    obtain ⟨rest, rfl⟩ := List.head?_eq_some_iff.1 hslash
    refine hnonempty [] ?_ rfl
    rw [pathComponents, if_neg (by simp), pieces_cons_self]
    exact List.mem_cons_self
  · intro hslash
    obtain ⟨front, rfl⟩ := List.getLast?_eq_some_iff.1 hslash
    refine hnonempty [] ?_ rfl
    rw [pathComponents, if_neg (by simp), pieces_append_cons]
    exact List.mem_append_right _ List.mem_cons_self

/-- What is displayed has the marks that its components have. -/
theorem not_infix_shown {pattern text : List Char} (hslash : '/' ∉ pattern) (hne : pattern ≠ [])
    (hnone : ¬pattern <:+: text) : ¬pattern <:+: shown (pieces '/' text) := by
  intro hinside
  have hpieces : ∀ piece ∈ pieces '/' text, '/' ∉ piece := fun _ => not_mem_of_mem_pieces
  rw [← occursIn_iff, ← any_pieces hslash, List.any_eq_true] at hinside
  obtain ⟨component, hcomponent, hoccurs⟩ := hinside
  by_cases hempty : shown (pieces '/' text) = []
  · rw [hempty, show pieces '/' [] = [[]] from rfl, List.mem_singleton] at hcomponent
    rw [hcomponent, occursIn_iff, List.infix_nil] at hoccurs
    exact hne hoccurs
  · have hfiltered := pathComponents_shown hpieces
    rw [pathComponents, if_neg (by rwa [List.isEmpty_iff])] at hfiltered
    rw [hfiltered] at hcomponent
    refine hnone (occursIn_iff.1 ?_)
    rw [← any_pieces hslash]
    exact List.any_eq_true.2 ⟨component, List.mem_of_mem_filter hcomponent, hoccurs⟩

/-- **Display paths are in normal form.** -/
theorem isTreePath_treePath (path : String) : IsTreePath (treePath path).toList := by
  have hcomponents : ∀ component ∈ pathComponents (treePath path).toList,
      component ≠ [] ∧ ¬localMark <:+: component := by
    intro component hmem
    rw [toList_treePath, pathComponents_shown fun _ => not_mem_of_mem_pieces] at hmem
    exact isDisplayed_iff.1 (List.mem_filter.1 hmem).2
  have hends := no_slash_at_ends fun component hmem => (hcomponents component hmem).1
  refine ⟨⟨fun mark hmark => ?_, hends.1⟩, hends.2, fun component hmem =>
    (hcomponents component hmem).1, fun component hmem => (hcomponents component hmem).2⟩
  have hmarks : ∀ mark ∈ rubyMarks, '/' ∉ mark.toList ∧ mark.toList ≠ [] := by decide
  rw [toList_treePath]
  exact not_infix_shown (hmarks mark hmark).1 (hmarks mark hmark).2
    (not_infix_of_mem_rubyMarks hmark path.toList).2

/-- Display paths stay as they are. -/
theorem treePath_eq_self {path : String} (hnormal : IsTreePath path.toList) :
    treePath path = path := by
  refine String.toList_injective ?_
  rw [toList_treePath, hnormal.toIsGraphPath.replaceInTurn_eq_self.2]
  by_cases hempty : path.toList = []
  · rw [hempty]
    rfl
  · have hcomponents : pathComponents path.toList = pieces '/' path.toList := by
      rw [pathComponents, if_neg (by rwa [List.isEmpty_iff])]
    have hall : ∀ component ∈ pieces '/' path.toList, isDisplayed component = true := by
      intro component hmem
      rw [← hcomponents] at hmem
      exact isDisplayed_iff.2 ⟨hnormal.nonempty component hmem, hnormal.unscoped component hmem⟩
    rw [shown, List.filter_eq_self.2 hall, intercalate_pieces]

/-! ## Both kinds of paths -/

/-- **Normal forms of graph paths.** Whatever a Ruby path is like, its symbol path and its display
path are in normal form. The paths in normal form are those that stay as they are, so that nothing
changes a second time. -/
theorem normalForms (path : String) :
    (IsGraphPath (symbolPath path).toList ∧
      symbolPath (symbolPath path) = symbolPath path ∧
      (symbolPath path = path ↔ IsGraphPath path.toList)) ∧
    (IsTreePath (treePath path).toList ∧
      treePath (treePath path) = treePath path ∧
      (treePath path = path ↔ IsTreePath path.toList)) := by
  have hsymbol := isGraphPath_symbolPath path
  have htree := isTreePath_treePath path
  exact ⟨⟨hsymbol, symbolPath_eq_self hsymbol, fun hsame => hsame ▸ hsymbol, symbolPath_eq_self⟩,
    htree, treePath_eq_self htree, fun hsame => hsame ▸ htree, treePath_eq_self⟩

/-- Odd rows of colons, and an extension next to marks. -/
example :
    symbolPath ":::::A:::.rb#b.rb.>" = ":A/:_rb/$methods/b_rb/$classmethods/@" ∧
      treePath ":::::A:::.rb#b.rb.>x_local_0" = ":A/:_rb/b_rb" := by
  decide +kernel

end RubyIndex.Graph
