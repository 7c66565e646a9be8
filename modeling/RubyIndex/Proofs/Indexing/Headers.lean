import RubyIndex.Indexing.Source
import RubyIndex.Proofs.Registry.Names
import RubyIndex.Proofs.Syntax.Shape

/-! # The names that nodes carry

In a legible tree the headers of definitions and the targets of assignments hold names of the right
kinds: the segments of a qualified name are constants, the name of a method is an operator or free
of path marks, and a variable is a word after its sigils. -/

namespace RubyIndex.Indexing

open Syntax

/-! ## Parts of nodes -/

/-- The first node of a kind among several trees is as all their nodes are. -/
theorem allows_of_firstNode? {allows : NodeKind → List Tree → Prop} {kind : NodeKind}
    {trees inner : List Tree} (hnodes : Tree.EveryNodeOf allows trees)
    (hfirst : Tree.firstNode? kind trees = some inner) : allows kind inner := by
  fun_induction Tree.firstNode? kind trees with
  | case1 => cases hfirst
  | case2 children rest =>
    obtain rfl := Option.some.inj hfirst
    exact hnodes.1.1
  | case3 found children rest hother ih => exact ih hnodes.2 hfirst
  | case4 token rest ih => exact ih hnodes.2 hfirst

/-- The tokens among several trees are leaves of theirs. -/
theorem mem_leavesOf_of_mem_tokensOf {trees : List Tree} {token : Token}
    (hmem : token ∈ Tree.tokensOf trees) : token ∈ Tree.leavesOf trees := by
  induction trees with
  | nil => cases hmem
  | cons tree rest ih =>
    rw [Tree.leavesOf, List.mem_append]
    cases tree with
    | leaf found =>
      rcases List.mem_cons.1 hmem with rfl | hlater
      · exact .inl List.mem_cons_self
      · exact .inr (ih hlater)
    | node kind children =>
      -- tokens inside the node are leaves, but not among the tokens
      exact .inr (ih hmem)

/-! ## Readings -/

variable (site : Site) (hlegible : Tree.EveryNodeOf Legible site.children)

include hlegible

/-- The segments of the name of a module or class are constants. -/
theorem isConstant_of_mem_segments {name : ConstName} (hname : site.constName? = some name)
    {segment : String} (hmem : segment ∈ name.segments) : IsConstant segment := by
  obtain ⟨inner, hinner, rfl⟩ := Option.map_eq_some_iff.1 hname
  obtain ⟨hlexed, -⟩ := allows_of_firstNode? hlegible hinner
  obtain ⟨token, htoken, rfl⟩ := List.mem_map.1 hmem
  obtain ⟨hlisted, hconst⟩ := List.mem_filter.1 htoken
  exact (hlexed token (mem_leavesOf_of_mem_tokensOf hlisted)).isConstant (eq_of_beq hconst)

/-- The name of a method is a method name. -/
theorem names_of_methodName? {name : String} (hname : site.methodName? = some name) :
    ObjectKind.Names .method name := by
  obtain ⟨htext, hnonempty⟩ := Option.filter_eq_some_iff.1 hname
  obtain ⟨inner, hinner, rfl⟩ := Option.map_eq_some_iff.1 htext
  obtain ⟨hlexed, hspells⟩ := allows_of_firstNode? hlegible hinner
  constructor
  · intro hempty
    rw [hempty] at hnonempty
    exact absurd hnonempty (by decide)
  · -- all leaves below the node are part of the name
    rcases hspells with ⟨token, hleaves, hoperator⟩ | hstands
    · have hlisted := (hlexed token (by rw [hleaves]; exact List.mem_cons_self)).mem_operatorNames
        hoperator
      left
      rw [Tree.textOf, hleaves]
      simpa [String.join_cons] using hlisted
    · right
      rw [Tree.textOf, String.toList_join, List.flatMap_map, List.all_flatMap, List.all_eq_true]
      exact fun token htoken => (hlexed token htoken).all_continuesMethodName
        (List.all_eq_true.1 hstands token htoken)

/-- The target of an assignment is a lexed token. -/
theorem lexed_of_target? {target : Token} (htarget : site.target? = some target) :
    target.Lexed := by
  obtain ⟨inner, hinner, hfind⟩ := Option.bind_eq_some_iff.1 htarget
  obtain ⟨hlexed, -⟩ := allows_of_firstNode? hlegible hinner
  exact hlexed target (mem_leavesOf_of_mem_tokensOf (List.mem_of_find?_eq_some hfind))

omit hlegible in
/-- An instance variable of the namespace is recorded under the same word as a class variable. -/
theorem classVariableName_sigil {word : String} (hword : IsWord word) :
    classVariableName ("@" ++ word) = "@@" ++ word := by
  have hsigil : "@".toList = ['@'] := rfl
  have hdrop : word.toList.dropWhile (· == '@') = word.toList := by
    cases htext : word.toList with
    | nil => rfl
    | cons first rest =>
      -- a word does not begin with a sigil, so one sigil only is dropped
      have hfirst : (first == '@') = false := by
        refine beq_false_of_ne fun hsame => (hword.isPlain.not_mem rfl : '@' ∉ _) ?_
        rw [htext, hsame]
        exact List.mem_cons_self
      rw [List.dropWhile_cons, hfirst, if_neg Bool.false_ne_true]
  rw [classVariableName, String.toList_append, hsigil, List.singleton_append,
    List.dropWhile_cons, if_pos (beq_self_eq_true _), hdrop, String.ofList_toList]

end RubyIndex.Indexing
