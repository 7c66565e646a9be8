import RubyIndex.Proofs.Graph.SymbolPaths
import RubyIndex.Proofs.Indexing.Scopes

/-! # Paths of local variables

A path is taken for that of a local variable if the mark of local scopes is in it behind a `>`. The
path of a scope in a namespace has such a place, and so has that of a scope inside another. Only
the path of a scope that hangs off the root has none: it is the bare name of the scope, with no `>`
in front of the mark. What is registered has no such place either, since methods with a `>` in
their name are operators, which are too short for the mark.

* `Graph.isLocalVariable_joinPath` goes one step into a path.
* `Graph.isLocalVariable_scopePath` says which paths of scopes have such a place.
* `Registry.Built.isLocalVariable_iff` is the result for registries that are built from texts. -/

namespace RubyIndex

open Syntax Text Registry

namespace Graph

/-! ## Places of the mark -/

/-- There is no such place without a `>`. -/
theorem isLocalVariable_of_not_mem {path : String} (hnot : '>' ∉ path.toList) :
    isLocalVariable path = false := by
  rw [isLocalVariable, pieces_of_not_mem hnot]
  rfl

/-- **One step into a path**: the mark is in the outer path behind a `>`, or anywhere in the
name. -/
theorem isLocalVariable_joinPath {outer : String} (houter : outer ≠ "") (name : String) :
    isLocalVariable (joinPath outer scopeSeparator name) =
      (isLocalVariable outer || occursIn localMark name.toList) := by
  have hmark : '>' ∉ localMark := by decide
  have htext : (joinPath outer scopeSeparator name).toList =
      outer.toList ++ '>' :: name.toList := by
    rw [toList_joinPath, if_neg houter, List.append_assoc]
    rfl
  obtain ⟨first, others, hpieces⟩ := List.exists_cons_of_ne_nil (pieces_ne_nil '>' outer.toList)
  rw [isLocalVariable, isLocalVariable, htext, pieces_append_cons, hpieces, List.cons_append,
    List.drop_one, List.drop_one, List.tail_cons, List.tail_cons, List.any_append,
    any_pieces hmark]

/-- Stored names have the mark in them. -/
theorem occursIn_stored (requested : String) (count : Nat) :
    occursIn localMark (ScopeNames.stored requested count).toList = true := by
  rw [occursIn_iff, ScopeNames.toList_stored]
  exact ⟨requested.toList, Nat.toDigits 10 count, rfl⟩

/-- The stored name of a body has no `>` in it. -/
theorem not_mem_stored_body (count : Nat) : '>' ∉ (ScopeNames.stored "" count).toList := by
  rw [ScopeNames.toList_stored, List.mem_append]
  rintro (hmark | hdigit)
  · exact absurd hmark (by decide)
  · cases Nat.isDigit_of_mem_toDigits (by decide) (by decide) hdigit

/-! ## Paths of scopes -/

/-- **Paths of local scopes**: all of them have the mark behind a `>`, but those of scopes that hang
off the root. -/
theorem isLocalVariable_scopePath {registry : Registry} (hsound : Sound registry)
    (hscoped : Scoped registry) {id : ScopeId} {scope : LocalScope}
    (hscope : registry.scope? id = some scope) :
    ∃ path, registry.scopePath? id = some path ∧ path ≠ "" ∧
      (isLocalVariable path = true ↔ scope.anchor ≠ .namespace .root) := by
  obtain ⟨owner, holder, -, hnamed, hholder, -⟩ := hscoped.exists_owner hscope
  obtain ⟨requested, count, -, hname⟩ := hscoped.isStored hscope
  have hne : scope.name ≠ "" := (hscoped.isStored hscope).ne_empty
  have hmark : occursIn localMark scope.name.toList = true :=
    hname ▸ occursIn_stored requested count
  rcases hscoped.anchor_cases hnamed hscope with
    ⟨hanchor, number, hbody⟩ | ⟨around, outer, hanchor, hlater, haround, houter⟩
  · refine ⟨joinPath holder.path scopeSeparator scope.name, ?_, joinPath_ne_empty hne, ?_⟩
    · rw [scopePath?_of_namespace hscope hanchor, hholder]
      rfl
    · rw [hanchor]
      by_cases hroot : owner = .root
      · -- the path is the bare name, and that of a body has no `>`
        subst hroot
        have hbare : '>' ∉ scope.name.toList := hbody ▸ not_mem_stored_body number
        rw [hsound.path_root hholder, joinPath_eq_ite, if_pos rfl,
          isLocalVariable_of_not_mem hbare]
        exact iff_of_false Bool.false_ne_true fun hother => hother rfl
      · rw [isLocalVariable_joinPath (hsound.path_ne_empty hholder hroot), hmark, Bool.or_true]
        exact iff_of_true rfl fun hsame => hroot (ScopeAnchor.namespace.inj hsame)
  · obtain ⟨-, names, path, hpath, hspells⟩ := hscoped.exists_path hholder haround houter
    refine ⟨joinPath path scopeSeparator scope.name, ?_, joinPath_ne_empty hne, ?_⟩
    · rw [scopePath?_of_scope hscope houter hanchor hlater, hpath]
      rfl
    · rw [isLocalVariable_joinPath hspells.path_ne_empty, hmark, Bool.or_true, hanchor]
      exact iff_of_true rfl fun hsame => nomatch hsame

/-! ## Paths of objects -/

/-- The mark is in no method name, nor is it behind a `>` in one. -/
theorem isLocalVariable_methodName {name : String} (hname : IsMethodName name) :
    isLocalVariable name = false := by
  rcases hname.2 with hoperator | hall
  · have hoperators : ∀ operator ∈ operatorNames, isLocalVariable operator = false := by decide
    exact hoperators name hoperator
  · refine isLocalVariable_of_not_mem fun hmem => ?_
    cases List.all_eq_true.1 hall '>' hmem

/-- **Paths of objects** do not have the mark behind a `>`. -/
theorem isLocalVariable_of_pathShape {path : String} (hshape : PathShape path.toList) :
    isLocalVariable path = false := by
  rw [isLocalVariable]
  generalize path.toList = text at hshape ⊢
  cases hshape with
  | plain hwithin hhead hword =>
    rw [pieces_of_not_mem (not_mem_of_within hwithin '>' rfl (by decide) (by decide))]
    rfl
  | method hname => exact isLocalVariable_methodName hname
  | @member owner name mark howner hne hmark hname =>
    -- only the name can have a `>` in it
    have hfront : '>' ∉ owner.toList ++ [mark] := by
      rw [List.mem_append, List.mem_singleton, not_or]
      refine ⟨howner.not_mem '>' rfl (by decide), ?_⟩
      rcases hmark with rfl | rfl <;> decide
    rw [List.append_cons, drop_one_pieces_append hfront]
    exact isLocalVariable_methodName hname

end Graph

namespace Registry

open RubyIndex.Graph

/-- **Variables in local scopes.** In a built registry every local scope has a path, and a name
under it is taken for that of a local variable exactly if the scope does not hang off the root, or
if the mark of local scopes happens to be in the name. No registered object is taken for one. -/
theorem Built.isLocalVariable_iff {registry : Registry} (hbuilt : Built registry) :
    (∀ id scope, registry.scope? id = some scope →
      ∃ path, registry.scopePath? id = some path ∧
        ∀ name, isLocalVariable (joinPath path scopeSeparator name) = true ↔
          scope.anchor ≠ .namespace .root ∨ occursIn localMark name.toList = true) ∧
      ∀ id object, registry.get? id = some object → isLocalVariable object.path = false := by
  constructor
  · intro id scope hscope
    obtain ⟨path, hpath, hne, hlocal⟩ :=
      isLocalVariable_scopePath hbuilt.sound hbuilt.scoped hscope
    refine ⟨path, hpath, fun name => ?_⟩
    rw [isLocalVariable_joinPath hne, Bool.or_eq_true, hlocal]
  · intro id object hget
    by_cases hroot : id = .root
    · subst hroot
      rw [hbuilt.sound.path_root hget]
      rfl
    · exact isLocalVariable_of_pathShape (hbuilt.sound.pathShape hget hroot)

/-- A variable in a method with a `>` for its name, and the method itself. -/
theorem Built.isLocalVariable_iff_operator :
    let registry := ((Indexing.indexSource "a.rb" "class A\ndef >(b)\nx = 1\nend\nend\n").apply
      .empty).2
    registry.scopePath? ⟨2⟩ = some "A>_local_0>>_local_0" ∧
      isLocalVariable (joinPath "A>_local_0>>_local_0" scopeSeparator "x") = true ∧
      isLocalVariable "A#>" = false := by
  intro registry
  obtain ⟨hscopes, hobjects⟩ := Built.isLocalVariable_iff
    (.indexSource "a.rb" "class A\ndef >(b)\nx = 1\nend\nend\n" .empty)
  have hscope : registry.scope? ⟨2⟩ = some ⟨">_local_0", .scope ⟨1⟩, []⟩ := by decide +kernel
  have hobject : (registry.get? ⟨2⟩).map (·.path) = some "A#>" := by decide +kernel
  obtain ⟨path, hpath, hlocal⟩ := hscopes ⟨2⟩ _ hscope
  obtain rfl : path = "A>_local_0>>_local_0" :=
    Option.some.inj (hpath.symm.trans (by decide +kernel))
  obtain ⟨object, hget, hshown⟩ := Option.map_eq_some_iff.1 hobject
  exact ⟨hpath, (hlocal "x").2 (.inl (by decide)), hshown ▸ hobjects ⟨2⟩ object hget⟩

/-- A variable in the body of a file is in a local scope, but is not taken for a local variable: the
path of this scope is its bare name. -/
theorem Built.not_isLocalVariable_file :
    let registry := ((Indexing.indexSource "a.rb" "x = 1\n").apply .empty).2
    Built registry ∧ registry.scope? ⟨0⟩ = some ⟨"_local_0", .namespace .root, []⟩ ∧
      registry.scopePath? ⟨0⟩ = some "_local_0" ∧
      isLocalVariable (joinPath "_local_0" scopeSeparator "x") = false :=
  ⟨.indexSource "a.rb" "x = 1\n" .empty, by decide +kernel⟩

end Registry

end RubyIndex
