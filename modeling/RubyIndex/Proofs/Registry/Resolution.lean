import Mathlib.Logic.Relation
import RubyIndex.Proofs.Registry.Permanence

/-! # Resolution of scope names

A name is looked for among the children of a scope, then among those of the scope that it hangs off,
and so on outwards. Namespaces give out names of their own, so children of one scope can have the
same name; then the earliest one is found. The search ends because a scope is later than the one it
hangs off, and it ends at the latest with the scope that hangs off a namespace.

* `Registry.IsFirstChild` and `Registry.Resolves` say what is found, by names and anchors only.
* `Registry.SearchesScopes` is the search without a bound.
* `Linked.resolves_iff` goes one step outwards.
* `Registry.Resolution` says that the search ends and what it ends with, and
  `Reachable.resolution` that it does so in every reachable registry. -/

namespace RubyIndex.Registry

open Relation

variable {registry : Registry}

/-! ## What is found -/

/-- A scope hangs off another one. -/
def HangsOff (registry : Registry) (id around : ScopeId) : Prop :=
  ∃ scope, registry.scope? id = some scope ∧ scope.anchor = .scope around

/-- A scope of the given name hangs off another one. -/
def IsChildNamed (registry : Registry) (target : String) (around child : ScopeId) : Prop :=
  ∃ scope, registry.scope? child = some scope ∧ scope.anchor = .scope around ∧ scope.name = target

/-- **The earliest child** of a scope with the given name. -/
def IsFirstChild (registry : Registry) (target : String) (around child : ScopeId) : Prop :=
  registry.IsChildNamed target around child ∧
    ∀ other, registry.IsChildNamed target around other → child.index ≤ other.index

/-- **What a name resolves to**: the earliest child of that name of the first scope that has any, on
the way from a scope outwards. -/
def Resolves (registry : Registry) (target : String) (id child : ScopeId) : Prop :=
  ∃ around, ReflTransGen registry.HangsOff id around ∧ registry.IsFirstChild target around child ∧
    ∀ nearer, ReflTransGen registry.HangsOff id nearer → TransGen registry.HangsOff nearer around →
      ∀ other, ¬ registry.IsChildNamed target nearer other

/-- **The search for a name without a bound**: it ends with a child of that name, or, where there is
none, at a scope that hangs off a namespace, and it goes on to the scope around otherwise. -/
inductive SearchesScopes (registry : Registry) (target : String) :
    ScopeId → Option ScopeId → Prop where
  | unknown {id : ScopeId} (hscope : registry.scope? id = none) :
      SearchesScopes registry target id none
  | found {id child : ScopeId} {scope : LocalScope} (hscope : registry.scope? id = some scope)
      (hchild : registry.childNamed? target scope = some child) :
      SearchesScopes registry target id (some child)
  | ends {id : ScopeId} {scope : LocalScope} {owner : ObjectId}
      (hscope : registry.scope? id = some scope)
      (hchild : registry.childNamed? target scope = none)
      (hanchor : scope.anchor = .namespace owner) : SearchesScopes registry target id none
  | outwards {id around : ScopeId} {scope : LocalScope} {result : Option ScopeId}
      (hscope : registry.scope? id = some scope)
      (hchild : registry.childNamed? target scope = none)
      (hanchor : scope.anchor = .scope around)
      (hsearch : SearchesScopes registry target around result) :
      SearchesScopes registry target id result

/-! ## Ways outwards -/

theorem HangsOff.eq_of_scope? {id around : ScopeId} {scope : LocalScope}
    (hhangs : registry.HangsOff id around) (hscope : registry.scope? id = some scope) :
    scope.anchor = .scope around := by
  obtain ⟨found, hfound, hanchor⟩ := hhangs
  obtain rfl := Option.some.inj (hfound.symm.trans hscope)
  exact hanchor

/-- A scope hangs off one other at most. -/
theorem HangsOff.unique {id around other : ScopeId} (hhangs : registry.HangsOff id around)
    (hother : registry.HangsOff id other) : around = other := by
  obtain ⟨scope, hscope, hanchor⟩ := hhangs
  exact ScopeAnchor.scope.inj (hanchor.symm.trans (hother.eq_of_scope? hscope))

/-- Children of a scope hang off it. -/
theorem IsChildNamed.hangsOff {target : String} {around child : ScopeId}
    (hchild : registry.IsChildNamed target around child) : registry.HangsOff child around := by
  obtain ⟨scope, hscope, hanchor, -⟩ := hchild
  exact ⟨scope, hscope, hanchor⟩

namespace Linked

variable {target : String} {id : ScopeId} {scope : LocalScope} (hlinked : Linked registry)

include hlinked

/-- What a scope hangs off is there. -/
theorem exists_scope_of_hangsOff {around : ScopeId} (hhangs : registry.HangsOff id around) :
    ∃ outer, registry.scope? around = some outer := by
  obtain ⟨scope, hscope, hanchor⟩ := hhangs
  refine Option.isSome_iff_exists.1 (isSome_scope?_iff.2 ?_)
  exact Nat.lt_trans (hlinked.later hscope hanchor) (index_lt_of_scope? hscope)

/-- On the way outwards scopes are earlier and earlier, so no way leads back. -/
theorem index_lt_of_transGen {around : ScopeId} (hway : TransGen registry.HangsOff id around) :
    around.index < id.index := by
  induction hway with
  | single hhangs =>
    obtain ⟨scope, hscope, hanchor⟩ := hhangs
    exact hlinked.later hscope hanchor
  | tail _ hhangs ih =>
    obtain ⟨scope, hscope, hanchor⟩ := hhangs
    exact Nat.lt_trans (hlinked.later hscope hanchor) ih

theorem not_transGen_self (id : ScopeId) : ¬ TransGen registry.HangsOff id id :=
  fun hway => Nat.lt_irrefl _ (hlinked.index_lt_of_transGen hway)

/-! ## Children by name -/

/-- The children of a name are found in the list of children. -/
theorem mem_children_iff (hscope : registry.scope? id = some scope) (child : ScopeId) :
    (child ∈ scope.children ∧ (registry.scope? child).any (·.name == target) = true) ↔
      registry.IsChildNamed target id child := by
  rw [hlinked.children hscope, Option.map_eq_some_iff, Option.any_eq_true]
  constructor
  · rintro ⟨⟨found, hfound, hanchor⟩, other, hother, hname⟩
    obtain rfl := Option.some.inj (hfound.symm.trans hother)
    exact ⟨found, hfound, hanchor, beq_iff_eq.1 hname⟩
  · rintro ⟨found, hfound, hanchor, hname⟩
    exact ⟨⟨found, hfound, hanchor⟩, found, hfound, beq_iff_eq.2 hname⟩

/-- No child is found if and only if there is none of the name. -/
theorem childNamed?_eq_none_iff (hscope : registry.scope? id = some scope) :
    registry.childNamed? target scope = none ↔
      ∀ child, ¬ registry.IsChildNamed target id child := by
  rw [childNamed?, List.find?_eq_none]
  refine forall_congr' fun child => ?_
  rw [← hlinked.mem_children_iff hscope, not_and]

/-- **The earliest child** of the name is found: children are listed in the order of their
creation. -/
theorem childNamed?_eq_some_iff (hscope : registry.scope? id = some scope) (child : ScopeId) :
    registry.childNamed? target scope = some child ↔ registry.IsFirstChild target id child := by
  have hfirst : ∀ child, registry.childNamed? target scope = some child →
      registry.IsFirstChild target id child := by
    intro child hfound
    rw [childNamed?, List.find?_eq_some_iff_append] at hfound
    obtain ⟨hname, front, back, hchildren, hfront⟩ := hfound
    have hmem : child ∈ scope.children := by simp [hchildren]
    refine ⟨(hlinked.mem_children_iff hscope child).1 ⟨hmem, hname⟩, fun other hother => ?_⟩
    obtain ⟨hotherMem, hotherName⟩ := (hlinked.mem_children_iff hscope other).2 hother
    have hincreasing := hlinked.increasing hscope
    rw [hchildren] at hotherMem hincreasing
    -- a child in front of it would have been found instead of it
    rcases List.mem_append.1 hotherMem with hbefore | hbehind
    · have hnot := hfront other hbefore
      rw [hotherName] at hnot
      cases hnot
    · rcases List.mem_cons.1 hbehind with rfl | hlater
      · exact Nat.le_refl _
      · have hpairs := (List.pairwise_append.1 hincreasing).2.1
        exact Nat.le_of_lt ((List.pairwise_cons.1 hpairs).1 other hlater)
  refine ⟨hfirst child, fun hisFirst => ?_⟩
  cases hfound : registry.childNamed? target scope with
  | none => exact absurd hisFirst.1 ((hlinked.childNamed?_eq_none_iff hscope).1 hfound child)
  | some other =>
    -- of two earliest children neither is earlier
    have hother := hfirst other hfound
    have hsame : other.index = child.index :=
      Nat.le_antisymm (hother.2 child hisFirst.1) (hisFirst.2 other hother.1)
    exact congrArg some (congrArg ScopeId.mk hsame)

end Linked

/-! ## One step outwards -/

/-- The search starts among the children of the scope itself. -/
theorem resolveScope?_of_namespace {target : String} {id : ScopeId} {scope : LocalScope}
    {owner : ObjectId} (hscope : registry.scope? id = some scope)
    (hanchor : scope.anchor = .namespace owner) :
    registry.resolveScope? id target = registry.childNamed? target scope := by
  rw [resolveScope?, scopeChain_of_namespace hscope hanchor, List.findSome?_singleton]

theorem resolveScope?_of_scope {target : String} {id around : ScopeId} {scope : LocalScope}
    (hscope : registry.scope? id = some scope) (hanchor : scope.anchor = .scope around)
    (hlater : around.index < id.index) :
    registry.resolveScope? id target =
      (registry.childNamed? target scope).or (registry.resolveScope? around target) := by
  rw [resolveScope?, scopeChain_of_scope hscope hanchor hlater, List.findSome?_cons,
    ← resolveScope?]
  cases registry.childNamed? target scope <;> rfl

theorem resolveScope?_of_unknown {target : String} {id : ScopeId}
    (hscope : registry.scope? id = none) : registry.resolveScope? id target = none := by
  rw [resolveScope?, scopeChain, hscope]
  rfl

namespace Linked

variable {target : String} {id child : ScopeId} (hlinked : Linked registry)

include hlinked

/-- A name resolves to the earliest child of the scope itself, or, if there is none, to what it
resolves to in the scope around it. -/
theorem resolves_iff : registry.Resolves target id child ↔
    registry.IsFirstChild target id child ∨
      ((∀ other, ¬ registry.IsChildNamed target id other) ∧
        ∃ around, registry.HangsOff id around ∧ registry.Resolves target around child) := by
  constructor
  · rintro ⟨around, hway, hfirst, hnearer⟩
    rcases hway.cases_head with rfl | ⟨middle, hhangs, hrest⟩
    · exact .inl hfirst
    · refine .inr ⟨hnearer id .refl (.head' hhangs hrest), middle, hhangs, around, hrest, hfirst, ?_⟩
      exact fun nearer hnear => hnearer nearer (.head hhangs hnear)
  · rintro (hfirst | ⟨hnone, around, hhangs, outer, hrest, hfirst, hnearer⟩)
    · -- nothing is nearer to a scope than the scope itself
      refine ⟨id, .refl, hfirst, fun nearer hnear hway => ?_⟩
      exact absurd (TransGen.trans_right hnear hway) (hlinked.not_transGen_self id)
    · refine ⟨outer, .head hhangs hrest, hfirst, fun nearer hnear hway => ?_⟩
      rcases hnear.cases_head with rfl | ⟨middle, hmiddle, hnear⟩
      · exact hnone
      · obtain rfl := hhangs.unique hmiddle
        exact hnearer nearer hnear hway

/-- An unknown scope has no children. -/
theorem not_resolves_of_unknown (hscope : registry.scope? id = none) :
    ¬ registry.Resolves target id child := by
  rintro ⟨around, hway, hfirst, -⟩
  rcases hway.cases_head with rfl | ⟨middle, ⟨found, hfound, -⟩, -⟩
  · obtain ⟨outer, houter⟩ := hlinked.exists_scope_of_hangsOff hfirst.1.hangsOff
    cases hscope.symm.trans houter
  · cases hscope.symm.trans hfound

/-! ## The search -/

/-- **What the search finds** is what the name resolves to. -/
theorem resolveScope?_eq_some_iff (id child : ScopeId) :
    registry.resolveScope? id target = some child ↔ registry.Resolves target id child := by
  cases hscope : registry.scope? id with
  | none =>
    rw [resolveScope?_of_unknown hscope]
    exact iff_of_false nofun (hlinked.not_resolves_of_unknown hscope)
  | some scope =>
    induction id, scope, hscope using outwards_induction hlinked.later with
    | offNamespace id scope owner hscope hanchor =>
      -- there is nothing further out than a scope that hangs off a namespace
      have houtermost : ¬ ∃ around, registry.HangsOff id around ∧
          registry.Resolves target around child := by
        rintro ⟨around, hhangs, -⟩
        cases hanchor.symm.trans (hhangs.eq_of_scope? hscope)
      rw [resolveScope?_of_namespace hscope hanchor, hlinked.resolves_iff,
        hlinked.childNamed?_eq_some_iff hscope]
      simp only [houtermost, and_false, or_false]
    | offScope id scope around outer hscope houter hanchor hlater ih =>
      -- a scope hangs off one scope only, so the search has one way to go on
      have honly : (∃ other, registry.HangsOff id other ∧
          registry.Resolves target other child) ↔ registry.Resolves target around child := by
        refine ⟨fun ⟨other, hhangs, hresolves⟩ => ?_, fun hresolves =>
          ⟨around, ⟨scope, hscope, hanchor⟩, hresolves⟩⟩
        obtain rfl := ScopeAnchor.scope.inj (hanchor.symm.trans (hhangs.eq_of_scope? hscope))
        exact hresolves
      rw [hlinked.resolves_iff, ← hlinked.childNamed?_eq_some_iff hscope,
        ← hlinked.childNamed?_eq_none_iff hscope, honly,
        resolveScope?_of_scope hscope hanchor hlater, Option.or_eq_some_iff, ih]

/-- The search ends with what is found. -/
theorem searchesScopes_resolveScope? (id : ScopeId) :
    registry.SearchesScopes target id (registry.resolveScope? id target) := by
  cases hscope : registry.scope? id with
  | none =>
    rw [resolveScope?_of_unknown hscope]
    exact .unknown hscope
  | some scope =>
    induction id, scope, hscope using outwards_induction hlinked.later with
    | offNamespace id scope owner hscope hanchor =>
      rw [resolveScope?_of_namespace hscope hanchor]
      cases hchild : registry.childNamed? target scope with
      | none => exact .ends hscope hchild hanchor
      | some child => exact .found hscope hchild
    | offScope id scope around outer hscope houter hanchor hlater ih =>
      rw [resolveScope?_of_scope hscope hanchor hlater]
      cases hchild : registry.childNamed? target scope with
      | none => exact .outwards hscope hchild hanchor ih
      | some child => exact .found hscope hchild

/-- The search ends with nothing else. -/
theorem eq_of_searchesScopes {id : ScopeId} {result : Option ScopeId}
    (hsearch : registry.SearchesScopes target id result) :
    result = registry.resolveScope? id target := by
  induction hsearch with
  | unknown hscope => exact (resolveScope?_of_unknown hscope).symm
  | @found id child scope hscope hchild =>
    cases hanchor : scope.anchor with
    | «namespace» owner => rw [resolveScope?_of_namespace hscope hanchor, hchild]
    | scope around =>
      rw [resolveScope?_of_scope hscope hanchor (hlinked.later hscope hanchor), hchild,
        Option.some_or]
  | ends hscope hchild hanchor => rw [resolveScope?_of_namespace hscope hanchor, hchild]
  | outwards hscope hchild hanchor _ ih =>
    rw [resolveScope?_of_scope hscope hanchor (hlinked.later hscope hanchor), hchild,
      Option.none_or, ih]

/-- The way outwards ends with a scope that hangs off a namespace. -/
theorem exists_outermost {id : ScopeId} {scope : LocalScope}
    (hscope : registry.scope? id = some scope) :
    ∃ outermost last owner, ReflTransGen registry.HangsOff id outermost ∧
      registry.scope? outermost = some last ∧ last.anchor = .namespace owner := by
  induction id, scope, hscope using outwards_induction hlinked.later with
  | offNamespace id scope owner hscope hanchor =>
    exact ⟨id, scope, owner, .refl, hscope, hanchor⟩
  | offScope id scope around outer hscope houter hanchor hlater ih =>
    obtain ⟨outermost, last, owner, hway, hlast⟩ := ih
    exact ⟨outermost, last, owner, .head ⟨scope, hscope, hanchor⟩ hway, hlast⟩

/-- A name that a child on the way outwards has resolves to something. -/
theorem exists_resolves {id around other : ScopeId}
    (hway : ReflTransGen registry.HangsOff id around)
    (hchild : registry.IsChildNamed target around other) :
    ∃ child, registry.Resolves target id child := by
  induction hway using ReflTransGen.head_induction_on with
  | refl =>
    obtain ⟨outer, houter⟩ := hlinked.exists_scope_of_hangsOff hchild.hangsOff
    cases hfound : registry.childNamed? target outer with
    | none => exact absurd hchild ((hlinked.childNamed?_eq_none_iff houter).1 hfound other)
    | some child =>
      exact ⟨child, hlinked.resolves_iff.2
        (.inl ((hlinked.childNamed?_eq_some_iff houter child).1 hfound))⟩
  | @head id middle hhangs _ ih =>
    have ⟨scope, hscope, _⟩ := hhangs
    -- a nearer child of the name hides the one further out
    cases hfound : registry.childNamed? target scope with
    | none =>
      obtain ⟨child, hresolves⟩ := ih
      exact ⟨child, hlinked.resolves_iff.2 (.inr
        ⟨(hlinked.childNamed?_eq_none_iff hscope).1 hfound, middle, hhangs, hresolves⟩)⟩
    | some child =>
      exact ⟨child, hlinked.resolves_iff.2
        (.inl ((hlinked.childNamed?_eq_some_iff hscope child).1 hfound))⟩

/-- **Nothing is found** if and only if no scope on the way outwards has a child of the name. -/
theorem resolveScope?_eq_none_iff (id : ScopeId) :
    registry.resolveScope? id target = none ↔
      ∀ around, ReflTransGen registry.HangsOff id around →
        ∀ child, ¬ registry.IsChildNamed target around child := by
  constructor
  · intro hnone around hway child hchild
    obtain ⟨found, hresolves⟩ := hlinked.exists_resolves hway hchild
    cases hnone.symm.trans ((hlinked.resolveScope?_eq_some_iff id found).2 hresolves)
  · intro hnone
    cases hfound : registry.resolveScope? id target with
    | none => rfl
    | some child =>
      obtain ⟨around, hway, hfirst, -⟩ := (hlinked.resolveScope?_eq_some_iff id child).1 hfound
      exact absurd hfirst.1 (hnone around hway child)

end Linked

/-! ## Reachable registries -/

/-- The scopes of reachable registries are linked. -/
theorem Reachable.linked (hreach : Reachable registry) : Linked registry := by
  have hnone : ∀ id, Registry.empty.scope? id = none := fun id => by simp [Registry.empty, scope?]
  refine hreach.keeps ⟨fun _ hlinked hok => ?_, fun hlinked hok => ?_⟩
    ⟨fun hscope => ?_, fun hscope => ?_, fun hscope => ?_⟩
  · refine hlinked.ofSame ?_
    obtain ⟨parent, -, -, ⟨existing, -, -, -, rfl⟩ | ⟨-, -, rfl⟩⟩ := registerWith_eq_ok_iff.1 hok
    · rfl
    · rfl
  · exact (gainsScope_of_newLocalScope hok).2.linked (index_lt_of_newLocalScope hok) hlinked
  · cases (hnone _).symm.trans hscope
  · cases (hnone _).symm.trans hscope
  · cases (hnone _).symm.trans hscope

/-- **Resolution** of a name in a scope: the search ends, and what it ends with. -/
structure Resolution (registry : Registry) (id : ScopeId) (target : String) : Prop where
  /-- The way outwards leads to a scope that hangs off a namespace. -/
  outermost : ∀ scope, registry.scope? id = some scope →
    ∃ outermost last owner, ReflTransGen registry.HangsOff id outermost ∧
      registry.scope? outermost = some last ∧ last.anchor = .namespace owner
  /-- The search without a bound ends, and it ends with what is found. -/
  search_iff : ∀ result, registry.SearchesScopes target id result ↔
    result = registry.resolveScope? id target
  /-- A scope is found if and only if the name resolves to it. -/
  found_iff : ∀ child, registry.resolveScope? id target = some child ↔
    registry.Resolves target id child
  /-- Nothing is found if and only if the scope is unknown or neither it nor any scope on the way
  outwards has a child of the name. -/
  none_iff : registry.resolveScope? id target = none ↔
    registry.scope? id = none ∨ ∀ around, ReflTransGen registry.HangsOff id around →
      ∀ child, ¬ registry.IsChildNamed target around child

/-- **Names resolve outwards**, whatever requests a registry has been through: the search for a name
from any scope ends; it finds the earliest child of the name of the first scope on its way that has
one; and it finds nothing exactly where the scope is unknown or no scope on the way has one. -/
theorem Reachable.resolution (hreach : Reachable registry) (id : ScopeId) (target : String) :
    Resolution registry id target where
  outermost _ hscope := hreach.linked.exists_outermost hscope
  search_iff result := ⟨hreach.linked.eq_of_searchesScopes, fun hresult =>
    hresult ▸ hreach.linked.searchesScopes_resolveScope? id⟩
  found_iff := hreach.linked.resolveScope?_eq_some_iff id
  none_iff := by
    refine ⟨fun hnone => .inr ((hreach.linked.resolveScope?_eq_none_iff id).1 hnone), ?_⟩
    rintro (hunknown | hnone)
    · exact resolveScope?_of_unknown hunknown
    · exact (hreach.linked.resolveScope?_eq_none_iff id).2 hnone

/-- Two namespaces have given one name to children of the same scope: from the second child, the
first one is found. -/
theorem Reachable.resolution_twins :
    let named := ((Edit.attempt fun registry =>
      registry.registerWith .root "A" (.newNamespace .classFlavor) id).apply .empty).2
    let outer := ((Edit.newLocalScope ⟨1⟩ none (.namespace ⟨1⟩)).apply named).2
    let single := ((Edit.newLocalScope ⟨1⟩ (some "x") (.scope ⟨0⟩)).apply outer).2
    let registry := ((Edit.newLocalScope .root (some "x") (.scope ⟨0⟩)).apply single).2
    registry.scopes.toList.map (·.name) = ["_local_0", "x_local_0", "x_local_0"] ∧
      registry.resolveScope? ⟨2⟩ "x_local_0" = some ⟨1⟩ ∧
      registry.Resolves "x_local_0" ⟨2⟩ ⟨1⟩ := by
  intro named outer single registry
  have hreach : Reachable registry :=
    .newLocalScope _ _ _ (.newLocalScope _ _ _ (.newLocalScope _ _ _
      (.registerWith _ _ _ (fun _ => rfl) .empty)))
  have hfound : registry.resolveScope? ⟨2⟩ "x_local_0" = some ⟨1⟩ := by decide +kernel
  have hresolution := Reachable.resolution hreach ⟨2⟩ "x_local_0"
  exact ⟨by decide +kernel, hfound, (hresolution.found_iff ⟨1⟩).1 hfound⟩

end RubyIndex.Registry
