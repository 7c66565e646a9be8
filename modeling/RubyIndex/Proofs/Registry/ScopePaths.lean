import Mathlib.Data.List.Nodup
import RubyIndex.Proofs.Registry.Scopes

/-! # Paths of local scopes

From a scope outwards, each scope hangs off the next, and the outermost one hangs off the namespace
that has named them all. The path of a scope spells the names on the way. Since it can be read back,
and a namespace gives no name twice, no two scopes have the same path.

* `scopeNamespace?_of_scope` and `scopePath?_of_scope` go one step outwards.
* `Scoped.eq_of_name` and `Scoped.exists_path` are what the names and the paths of scopes are like.
* `Registry.ScopeTree` says how scopes fit together, and `Scoped.toScopeTree` that they do. -/

namespace RubyIndex.Registry

open ScopeNames

variable {registry : Registry}

/-! ## One step outwards -/

section Chain

variable {id : ScopeId} {scope : LocalScope} (hscope : registry.scope? id = some scope)

include hscope

theorem scopeChain_of_namespace {owner : ObjectId} (hanchor : scope.anchor = .namespace owner) :
    registry.scopeChain id = [scope] := by
  rw [scopeChain, hscope]
  dsimp only
  rw [hanchor]

theorem scopeChain_of_scope {around : ScopeId} (hanchor : scope.anchor = .scope around)
    (hlater : around.index < id.index) :
    registry.scopeChain id = scope :: registry.scopeChain around := by
  rw [scopeChain, hscope]
  dsimp only
  rw [hanchor]
  exact if_pos hlater

theorem scopeChain_ne_nil : registry.scopeChain id ≠ [] := by
  rw [scopeChain, hscope]
  dsimp only
  split
  · exact List.cons_ne_nil _ _
  · split
    · exact List.cons_ne_nil _ _
    · exact List.cons_ne_nil _ _

theorem scopeNamespace?_of_namespace {owner : ObjectId}
    (hanchor : scope.anchor = .namespace owner) :
    registry.scopeNamespace? id = some owner := by
  obtain ⟨name, anchor, children⟩ := scope
  obtain rfl : anchor = .namespace owner := hanchor
  rw [scopeNamespace?, scopeChain_of_namespace hscope rfl]
  rfl

/-- A scope is in the namespace that the scope around it is in. -/
theorem scopeNamespace?_of_scope {around : ScopeId} {outer : LocalScope}
    (houter : registry.scope? around = some outer) (hanchor : scope.anchor = .scope around)
    (hlater : around.index < id.index) :
    registry.scopeNamespace? id = registry.scopeNamespace? around := by
  rw [scopeNamespace?, scopeNamespace?, scopeChain_of_scope hscope hanchor hlater,
    List.getLast?_cons_of_ne_nil (scopeChain_ne_nil houter)]

theorem scopePath?_of_namespace {owner : ObjectId} (hanchor : scope.anchor = .namespace owner) :
    registry.scopePath? id =
      (registry.get? owner).map fun holder => joinPath holder.path scopeSeparator scope.name := by
  rw [scopePath?, scopeNamespace?_of_namespace hscope hanchor,
    scopeChain_of_namespace hscope hanchor, Option.bind_some]
  rfl

/-- The path of a scope is that of the scope around it and the name of the scope. -/
theorem scopePath?_of_scope {around : ScopeId} {outer : LocalScope}
    (houter : registry.scope? around = some outer) (hanchor : scope.anchor = .scope around)
    (hlater : around.index < id.index) :
    registry.scopePath? id =
      (registry.scopePath? around).map fun path => joinPath path scopeSeparator scope.name := by
  rw [scopePath?, scopePath?, scopeNamespace?_of_scope hscope houter hanchor hlater,
    scopeChain_of_scope hscope hanchor hlater, Option.map_map]
  rfl

end Chain

/-! ## Requests and their answers -/

/-- What has named a scope is a namespace. -/
theorem exists_of_hasNamed {owner : ObjectId} {id : ScopeId} (hnamed : registry.HasNamed owner id) :
    ∃ object names, registry.get? owner = some object ∧ object.isNamespace = true ∧
      object.scopeNames? = some names ∧ registry.requestsOf owner = names.requests := by
  cases hget : registry.get? owner with
  | none =>
    rw [HasNamed, requestsOf, hget] at hnamed
    cases hnamed
  | some object =>
    have hrequests := requestsOf_of_get? hget
    rw [HasNamed, hrequests] at hnamed
    rw [hrequests]
    unfold CodeObject.scopeRequests CodeObject.scopeNames? at hnamed ⊢
    cases hdetails : object.details with
    | «namespace» flavor superclass names =>
      refine ⟨object, names, rfl, ?_, ?_, rfl⟩
      · rw [CodeObject.isNamespace, CodeObject.kind, hdetails]
        rfl
      · rw [hdetails]
    | _ =>
      rw [hdetails] at hnamed
      cases hnamed

/-- What is asked for is no name or that of a method. -/
theorem Hangs.requested {owner : ObjectId} {name : String} {anchor : ScopeAnchor}
    (hhangs : registry.Hangs owner name anchor) : name = "" ∨ Syntax.IsMethodName name := by
  cases hhangs with
  | offNamespace => exact .inl rfl
  | offScope hname haround => exact .inr hname

/-- Between two requests for one name, the number of requests for it has grown. -/
theorem countP_take_lt {requests : List (String × ScopeId)} {place number : Nat}
    {requested : String} {id : ScopeId} (hrequest : requests[place]? = some (requested, id))
    (hlt : place < number) :
    (requests.take place).countP (·.1 == requested) <
      (requests.take number).countP (·.1 == requested) := by
  have hnext : (requests.take (place + 1)).countP (·.1 == requested) =
      (requests.take place).countP (·.1 == requested) + 1 := by
    rw [List.take_add_one, hrequest, List.countP_append, Option.toList_some, List.countP_singleton,
      if_pos (beq_self_eq_true _)]
  rw [← Nat.succ_le_iff, Nat.succ_eq_add_one, ← hnext]
  exact (List.take_prefix_take_left hlt).sublist.countP_le

namespace Scoped

variable (hscoped : Scoped registry)

include hscoped

/-- A scope is named once, and so by one object only. -/
theorem owner_unique {owner other : ObjectId} {id : ScopeId} (hnamed : registry.HasNamed owner id)
    (hother : registry.HasNamed other id) : owner = other := by
  obtain ⟨first, hfirst, rfl⟩ := List.mem_map.1 hnamed
  obtain ⟨second, hsecond, hsame⟩ := List.mem_map.1 hother
  obtain ⟨place, hplace⟩ := List.mem_iff_getElem?.1 hfirst
  obtain ⟨number, hnumber⟩ := List.mem_iff_getElem?.1 hsecond
  exact (hscoped.once hplace (hnumber.trans (by rw [← hsame]))).1

/-- No object names a scope twice. -/
theorem nodup_answers (owner : ObjectId) : ((registry.requestsOf owner).map (·.2)).Nodup := by
  rw [List.nodup_iff_getElem?_ne_getElem?]
  intro place number hlt hnumber hsame
  rw [List.length_map] at hnumber
  have hplace := Nat.lt_trans hlt hnumber
  rw [List.getElem?_map, List.getElem?_map, List.getElem?_eq_getElem hplace,
    List.getElem?_eq_getElem hnumber, Option.map_some, Option.map_some,
    Option.some.injEq] at hsame
  have hfirst := List.getElem?_eq_getElem hplace
  have hsecond := List.getElem?_eq_getElem hnumber
  exact Nat.ne_of_lt hlt (hscoped.once (hfirst.trans rfl)
    (hsecond.trans (congrArg some (Prod.ext rfl hsame.symm)))).2

/-- The name of a scope is a stored name. -/
theorem isStored {id : ScopeId} {scope : LocalScope} (hscope : registry.scope? id = some scope) :
    IsStored scope.name := by
  obtain ⟨owner, place, requested, -, hname, hhangs⟩ := hscoped.named hscope
  exact ⟨requested, _, hhangs.requested, hname⟩

/-- **Names are distinct**: a namespace gives no name to two scopes. -/
theorem eq_of_name {owner : ObjectId} {first second : ScopeId} {scope other : LocalScope}
    (hfirst : registry.HasNamed owner first) (hsecond : registry.HasNamed owner second)
    (hscope : registry.scope? first = some scope) (hother : registry.scope? second = some other)
    (hname : scope.name = other.name) : first = second := by
  obtain ⟨holder, place, requested, hrequest, hstored, -⟩ := hscoped.named hscope
  obtain ⟨keeper, number, asked, hasked, hotherStored, -⟩ := hscoped.named hother
  obtain rfl := hscoped.owner_unique (hasNamed_of_getElem? hrequest) hfirst
  obtain rfl := hscoped.owner_unique (hasNamed_of_getElem? hasked) hsecond
  rw [hstored, hotherStored, next_eq_stored, next_eq_stored] at hname
  obtain ⟨rfl, hcount⟩ := stored_inj hname
  -- as many requests came before either of them
  have hplace : place = number := by
    rcases Nat.lt_trichotomy place number with hlt | heq | hgt
    · exact absurd hcount (Nat.ne_of_lt (countP_take_lt hrequest hlt))
    · exact heq
    · exact absurd hcount (Nat.ne_of_gt (countP_take_lt hasked hgt))
  rw [hplace, hasked] at hrequest
  exact (Prod.mk.inj (Option.some.inj hrequest)).2.symm

/-! ## Paths -/

/-- A scope hangs off the namespace that has named it, or off an earlier scope that the namespace
has named. -/
theorem anchor_cases {owner : ObjectId} {id : ScopeId} {scope : LocalScope}
    (hnamed : registry.HasNamed owner id) (hscope : registry.scope? id = some scope) :
    (scope.anchor = .namespace owner ∧ ∃ count, scope.name = stored "" count) ∨
      ∃ around outer, scope.anchor = .scope around ∧ around.index < id.index ∧
        registry.HasNamed owner around ∧ registry.scope? around = some outer := by
  obtain ⟨holder, place, requested, hrequest, hname, hhangs⟩ := hscoped.named hscope
  obtain rfl := hscoped.owner_unique (hasNamed_of_getElem? hrequest) hnamed
  generalize hanchor : scope.anchor = anchor at hhangs
  cases hhangs with
  | offNamespace => exact .inl ⟨rfl, _, hname⟩
  | offScope hmethod haround =>
    obtain ⟨outer, houter⟩ := Option.isSome_iff_exists.1
      (isSome_scope?_iff.2 (hscoped.known haround))
    exact .inr ⟨_, outer, rfl, hscoped.later hscope hanchor, haround, houter⟩

/-- **The path of a scope** starts with that of the namespace that has named the scope, and spells
the names of the scopes from there to the scope itself. -/
theorem exists_path {owner : ObjectId} {holder : CodeObject}
    (hholder : registry.get? owner = some holder) {id : ScopeId} {scope : LocalScope}
    (hnamed : registry.HasNamed owner id) (hscope : registry.scope? id = some scope) :
    registry.scopeNamespace? id = some owner ∧ ∃ names path,
      registry.scopePath? id = some path ∧
        SpellsScope holder.path (names ++ [scope.name]) path := by
  -- the induction follows the anchors outwards: each is numbered before what hangs off it
  induction hindex : id.index using Nat.strong_induction_on generalizing id scope with
  | _ index ih =>
    subst hindex
    rcases hscoped.anchor_cases hnamed hscope with
      ⟨hanchor, count, hname⟩ | ⟨around, outer, hanchor, hlater, haround, houter⟩
    · refine ⟨scopeNamespace?_of_namespace hscope hanchor, [],
        joinPath holder.path scopeSeparator scope.name, ?_, ?_⟩
      · rw [scopePath?_of_namespace hscope hanchor, hholder]
        rfl
      · rw [hname]
        exact .body count
    · obtain ⟨hnamespace, names, path, hpath, hspells⟩ := ih _ hlater haround houter rfl
      refine ⟨?_, names ++ [outer.name], joinPath path scopeSeparator scope.name, ?_, ?_⟩
      · rw [scopeNamespace?_of_scope hscope houter hanchor hlater, hnamespace]
      · rw [scopePath?_of_scope hscope houter hanchor hlater, hpath]
        rfl
      · exact .inside hspells (hscoped.isStored hscope)

end Scoped

/-! ## Sound registries -/

namespace Sound

variable (hsound : Sound registry)

include hsound

/-- The path of a namespace does not begin with an underscore: it is empty or begins with a
constant. -/
theorem head?_path_ne {id : ObjectId} {object : CodeObject}
    (hget : registry.get? id = some object) (hnamespace : object.isNamespace = true) :
    object.path.toList.head? ≠ some '_' := by
  refine hsound.namespace_induction (motive := (·.toList.head? ≠ some '_')) (by decide) ?_
    hget hnamespace
  rintro owner name ⟨first, rest, htext, hupper, -⟩ howner
  rw [head?_joinPath]
  split
  · rw [htext]
    rintro hunderscore
    rw [Option.some.inj hunderscore] at hupper
    cases hupper
  · exact howner

/-- No two objects have the same path. -/
theorem eq_of_path {first second : ObjectId} {object other : CodeObject}
    (hfirst : registry.get? first = some object) (hsecond : registry.get? second = some other)
    (hpath : object.path = other.path) : first = second := by
  by_cases hempty : object.path = ""
  · have hroot : ∀ {id : ObjectId} {object : CodeObject}, registry.get? id = some object →
        object.path = "" → id = .root := fun hget hempty =>
      Classical.byContradiction fun hne => hsound.path_ne_empty hget hne hempty
    rw [hroot hfirst hempty, hroot hsecond (hpath ▸ hempty)]
  · have hlookup := hsound.lookup?_path hfirst hempty
    rw [hpath, hsound.lookup?_path hsecond (hpath ▸ hempty)] at hlookup
    exact (Option.some.inj hlookup).symm

end Sound

/-! ## The tree of scopes -/

/-- **The tree of local scopes.** Scopes, the names that namespaces have given to them, and the
lists of children say the same, and a scope can be told by its path. -/
structure ScopeTree (registry : Registry) : Prop where
  /-- One namespace has named a scope, and has done so once. The scope is in this namespace, and it
  hangs off it or off an earlier scope that this namespace has named; there it is listed once. -/
  owned : ∀ id scope, registry.scope? id = some scope → ∃ owner object names,
    registry.get? owner = some object ∧ object.isNamespace = true ∧
      object.scopeNames? = some names ∧ names.scopes.count id = 1 ∧
      (∀ other holder held, registry.get? other = some holder → holder.scopeNames? = some held →
        id ∈ held.scopes → other = owner) ∧
      registry.scopeNamespace? id = some owner ∧
      (scope.anchor = .namespace owner ∨ ∃ around outer, scope.anchor = .scope around ∧
        around.index < id.index ∧ around ∈ names.scopes ∧ registry.scope? around = some outer ∧
        outer.children.count id = 1)
  /-- No two children of a scope have the same stored name. -/
  siblings : ∀ id scope, registry.scope? id = some scope →
    (scope.children.map fun child => (registry.scope? child).map (·.name)).Nodup
  /-- Every scope has a path. -/
  paths : ∀ id scope, registry.scope? id = some scope → ∃ path, registry.scopePath? id = some path
  /-- No two scopes have the same path. -/
  distinct : ∀ first second path, registry.scopePath? first = some path →
    registry.scopePath? second = some path → first = second

namespace Scoped

variable (hscoped : Scoped registry)

include hscoped

/-- Who has named a scope. -/
theorem exists_owner {id : ScopeId} {scope : LocalScope}
    (hscope : registry.scope? id = some scope) : ∃ owner object names,
      registry.HasNamed owner id ∧ registry.get? owner = some object ∧
        object.isNamespace = true ∧ object.scopeNames? = some names ∧
        registry.requestsOf owner = names.requests := by
  obtain ⟨owner, place, requested, hrequest, -⟩ := hscoped.named hscope
  have hnamed := hasNamed_of_getElem? hrequest
  obtain ⟨object, names, hfound⟩ := exists_of_hasNamed hnamed
  exact ⟨owner, object, names, hnamed, hfound⟩

/-- A scope that hangs off another is listed there once. -/
theorem count_children {id around : ScopeId} {scope outer : LocalScope}
    (hscope : registry.scope? id = some scope) (houter : registry.scope? around = some outer)
    (hanchor : scope.anchor = .scope around) : outer.children.count id = 1 := by
  have hnodup : outer.children.Nodup := by
    refine (hscoped.increasing houter).imp ?_
    rintro first _ hless rfl
    exact Nat.lt_irrefl _ hless
  refine hnodup.count.trans (if_pos ((hscoped.children houter id).2 ?_))
  rw [hscope, Option.map_some, hanchor]

/-- Children of one scope have different names. -/
theorem nodup_names {id : ScopeId} {scope : LocalScope}
    (hscope : registry.scope? id = some scope) :
    (scope.children.map fun child => (registry.scope? child).map (·.name)).Nodup := by
  have hchild : ∀ child ∈ scope.children, ∃ found owner, registry.scope? child = some found ∧
      registry.HasNamed owner child ∧ registry.HasNamed owner id := by
    intro child hmem
    obtain ⟨found, hfound, hanchor⟩ := Option.map_eq_some_iff.1
      ((hscoped.children hscope child).1 hmem)
    obtain ⟨owner, -, -, hnamed, -⟩ := hscoped.exists_owner hfound
    rcases hscoped.anchor_cases hnamed hfound with ⟨hother, -⟩ | ⟨around, -, hother, -, haround, -⟩
    · cases hanchor.symm.trans hother
    · obtain rfl := ScopeAnchor.scope.inj (hanchor.symm.trans hother)
      exact ⟨found, owner, hfound, hnamed, haround⟩
  refine List.pairwise_map.2 ((hscoped.increasing hscope).imp_of_mem ?_)
  intro first second hfirst hsecond hless hsame
  obtain ⟨found, owner, hfound, hnamed, haround⟩ := hchild first hfirst
  obtain ⟨other, keeper, hother, hotherNamed, hotherAround⟩ := hchild second hsecond
  -- both are named by the object that has named the scope
  obtain rfl := hscoped.owner_unique haround hotherAround
  rw [hfound, hother, Option.map_some, Option.map_some, Option.some.injEq] at hsame
  obtain rfl := hscoped.eq_of_name hnamed hotherNamed hfound hother hsame
  exact Nat.lt_irrefl _ hless

/-- **Scopes are told apart by their paths.** -/
theorem eq_of_path (hsound : Sound registry) {first second : ScopeId} {path : String}
    (hfirst : registry.scopePath? first = some path)
    (hsecond : registry.scopePath? second = some path) : first = second := by
  have hscope : ∀ {id : ScopeId}, registry.scopePath? id = some path →
      ∃ scope, registry.scope? id = some scope := by
    intro id hpath
    cases hfound : registry.scope? id with
    | some scope => exact ⟨scope, rfl⟩
    | none =>
      rw [scopePath?, scopeNamespace?, scopeChain, hfound] at hpath
      cases hpath
  obtain ⟨scope, hscopeFirst⟩ := hscope hfirst
  obtain ⟨other, hscopeSecond⟩ := hscope hsecond
  obtain ⟨owner, object, -, hnamed, hget, hkind, -⟩ := hscoped.exists_owner hscopeFirst
  obtain ⟨keeper, holder, -, hkept, hheld, hheldKind, -⟩ := hscoped.exists_owner hscopeSecond
  obtain ⟨-, names, found, hfound, hspells⟩ := hscoped.exists_path hget hnamed hscopeFirst
  obtain ⟨-, others, again, hagain, hspellsOther⟩ := hscoped.exists_path hheld hkept hscopeSecond
  obtain rfl := Option.some.inj (hfound.symm.trans hfirst)
  obtain rfl := Option.some.inj (hagain.symm.trans hsecond)
  obtain ⟨howner, hnames⟩ := hspells.unique hspellsOther
    (hsound.isNamespacePath hget hkind) (hsound.isNamespacePath hheld hheldKind)
    (hsound.head?_path_ne hget hkind) (hsound.head?_path_ne hheld hheldKind)
  -- the namespaces are the same, and so are the names of the scopes themselves
  obtain rfl := hsound.eq_of_path hget hheld howner
  have hname : scope.name = other.name := by
    have hlast := congrArg List.getLast? hnames
    rwa [List.getLast?_concat, List.getLast?_concat, Option.some.injEq] at hlast
  exact hscoped.eq_of_name hnamed hkept hscopeFirst hscopeSecond hname

/-- **Scopes form a tree** in a sound registry. -/
theorem toScopeTree (hsound : Sound registry) : ScopeTree registry where
  owned id scope hscope := by
    obtain ⟨owner, object, names, hnamed, hget, hkind, hnames, hrequests⟩ :=
      hscoped.exists_owner hscope
    have hanswers : names.scopes = (registry.requestsOf owner).map (·.2) := by
      rw [hrequests]
      rfl
    refine ⟨owner, object, names, hget, hkind, hnames, ?_, ?_,
      (hscoped.exists_path hget hnamed hscope).1, ?_⟩
    · rw [hanswers]
      exact (hscoped.nodup_answers owner).count.trans (if_pos hnamed)
    · intro other holder held hholder hheld hmem
      refine hscoped.owner_unique ?_ hnamed
      rw [HasNamed, requestsOf_of_get? hholder, CodeObject.scopeRequests, hheld]
      exact hmem
    · rcases hscoped.anchor_cases hnamed hscope with
        ⟨hanchor, -⟩ | ⟨around, outer, hanchor, hlater, haround, houter⟩
      · exact .inl hanchor
      · exact .inr ⟨around, outer, hanchor, hlater, hanswers ▸ haround, houter,
          hscoped.count_children hscope houter hanchor⟩
  siblings id scope := hscoped.nodup_names
  paths id scope hscope := by
    obtain ⟨owner, object, -, hnamed, hget, -⟩ := hscoped.exists_owner hscope
    obtain ⟨-, names, path, hpath, -⟩ := hscoped.exists_path hget hnamed hscope
    exact ⟨path, hpath⟩
  distinct first second path := hscoped.eq_of_path hsound

end Scoped

end RubyIndex.Registry
