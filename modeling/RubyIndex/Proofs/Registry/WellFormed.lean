import RubyIndex.Proofs.Registry.Growth

/-! # Well-formed registries

The objects of a registry, its path index and the lists of children say the same thing in three
ways. `Registry.WellFormed` states how they fit together, strongly enough to survive every
request.

* `wellFormed_empty` and `WellFormed.ofObjects` are the plain cases.
* `WellFormed.modifyObject` and `WellFormed.addObject` are the two ways in which objects change.
* `WellFormed.registerWith`, `WellFormed.newLocalScope` and `WellFormed.copyObject` carry it over
  the requests.
* `WellFormed.lookup?_eq_some_iff` and `WellFormed.parentModule_iff` read it; `ParentModule` is the
  search for a namespace without a bound. -/

namespace RubyIndex.Registry

/-! ## The invariant -/

/-- **A well-formed registry.** The objects, the lists of children and the path index describe
one tree of objects, numbered so that owners come before what they own. -/
structure WellFormed (registry : Registry) : Prop where
  /-- Object 0 is a namespace with the empty path and without owner. -/
  root : ∃ object, registry.get? .root = some object ∧ object.owner = none ∧
    object.path = "" ∧ object.isNamespace = true
  /-- Every other object has an earlier namespace as its owner, and its path from there. -/
  owned : ∀ {id object}, registry.get? id = some object → id ≠ .root →
    ∃ owner parent, object.owner = some owner ∧ registry.get? owner = some parent ∧
      owner.index < id.index ∧ parent.isNamespace = true ∧
      object.path = joinPath parent.path object.details.separator object.name
  /-- The children of an object are the objects that it owns. -/
  children : ∀ {id object}, registry.get? id = some object → ∀ child,
    child ∈ object.children ↔ (registry.get? child).bind (·.owner) = some id
  /-- Children are listed in the order of registration. -/
  increasing : ∀ {id object}, registry.get? id = some object →
    object.children.Pairwise fun first second => first.index < second.index
  /-- The index lists every object but the root, in order. -/
  ids : registry.index.ids = (List.range' 1 (registry.objects.size - 1)).map ObjectId.mk
  /-- The index lists every object under its own path. -/
  paths : ∀ {path id}, (path, id) ∈ registry.index.entries →
    (registry.get? id).map (·.path) = some path

/-- The registry that holds the root only is well-formed. -/
theorem wellFormed_empty : WellFormed empty := by
  -- the root is the only object to look at
  have hget : ∀ {id object}, empty.get? id = some object → id = .root ∧ object = .root := by
    intro id object hget
    have hlt : id.index < 1 := index_lt_of_get? hget
    obtain ⟨index⟩ := id
    obtain rfl : index = 0 := by simpa using hlt
    exact ⟨rfl, (Option.some.inj hget).symm⟩
  refine ⟨⟨.root, rfl, rfl, rfl, rfl⟩, ?_, ?_, ?_, rfl, ?_⟩
  · intro id object hobject hne
    exact absurd (hget hobject).1 hne
  · intro id object hobject child
    obtain ⟨rfl, rfl⟩ := hget hobject
    refine iff_of_false List.not_mem_nil ?_
    cases hchild : empty.get? child with
    | none => simp
    | some found =>
      obtain ⟨-, rfl⟩ := hget hchild
      simp [CodeObject.root]
  · intro id object hobject
    obtain ⟨rfl, rfl⟩ := hget hobject
    exact List.Pairwise.nil
  · intro path id hmem
    cases hmem

/-! ## The search for a namespace -/

/-- **The search outwards** from an object for a namespace, with what it ends with. Nothing bounds
how long it takes: where owners go round in a circle it does not end. -/
inductive SearchesTo (registry : Registry) : ObjectId → Option ObjectId → Prop where
  | unknown {id : ObjectId} (hget : registry.get? id = none) : SearchesTo registry id none
  | found {id : ObjectId} {object : CodeObject} (hget : registry.get? id = some object)
      (hnamespace : object.isNamespace = true) : SearchesTo registry id (some id)
  | ownerless {id : ObjectId} {object : CodeObject} (hget : registry.get? id = some object)
      (hother : object.isNamespace = false) (howner : object.owner = none) :
      SearchesTo registry id none
  | outwards {id owner : ObjectId} {object : CodeObject} {result : Option ObjectId}
      (hget : registry.get? id = some object) (hother : object.isNamespace = false)
      (howner : object.owner = some owner) (hsearch : SearchesTo registry owner result) :
      SearchesTo registry id result

/-- **The nearest namespace around an object**: the search outwards from its owner. -/
def ParentModule (registry : Registry) (id : ObjectId) (result : Option ObjectId) : Prop :=
  match (registry.get? id).bind (·.owner) with
  | none => result = none
  | some owner => registry.SearchesTo owner result

namespace WellFormed

variable {registry changed : Registry}

/-- Only the objects and their index matter. -/
theorem ofObjects (hwell : WellFormed registry) (hobjects : changed.objects = registry.objects)
    (hindex : changed.index = registry.index) : WellFormed changed := by
  obtain ⟨objects, index, scopes⟩ := registry
  obtain ⟨_, _, changedScopes⟩ := changed
  obtain rfl : _ = objects := hobjects
  obtain rfl : _ = index := hindex
  exact ⟨hwell.root, hwell.owned, hwell.children, hwell.increasing, hwell.ids, hwell.paths⟩

/-- A new scope leaves the objects as they are. -/
theorem addScope (hwell : WellFormed registry) (scope : LocalScope) :
    WellFormed (registry.addScope scope) :=
  hwell.ofObjects (objects_addScope registry scope) (index_addScope registry scope)

/-! ## Changes of one object -/

/-- An object after a change of one object is in the place of the one that it replaces. -/
theorem exists_of_get?_modifyObject {id other : ObjectId} {object : CodeObject}
    {change : CodeObject → CodeObject} (hchange : ∀ object, (change object).SamePlace object)
    (hget : (registry.modifyObject id change).get? other = some object) :
    ∃ before, registry.get? other = some before ∧ object.SamePlace before := by
  rw [get?_modifyObject] at hget
  split at hget
  · obtain ⟨before, hbefore, rfl⟩ := Option.map_eq_some_iff.1 hget
    exact ⟨before, hbefore, hchange before⟩
  · exact ⟨object, hget, .refl object⟩

/-- **A change in place.** An object that is changed in its place leaves the registry
well-formed. -/
theorem modifyObject (hwell : WellFormed registry) (id : ObjectId)
    {change : CodeObject → CodeObject} (hchange : ∀ object, (change object).SamePlace object) :
    WellFormed (registry.modifyObject id change) := by
  have hextends := Extends.modifyObject registry id hchange
  -- what objects own is read off their owners, which a change in place leaves alone
  have howner : ∀ other, ((registry.modifyObject id change).get? other).bind (·.owner) =
      (registry.get? other).bind (·.owner) := by
    intro other
    rw [get?_modifyObject]
    split
    · cases registry.get? other with
      | none => rfl
      | some before => exact (hchange before).owner
    · rfl
  refine ⟨?_, ?_, ?_, ?_, ?_, ?_⟩
  · obtain ⟨before, hget, hnone, hpath, hnamespace⟩ := hwell.root
    obtain ⟨object, hobject, halike⟩ := hextends.objects hget
    exact ⟨object, hobject, halike.owner.trans hnone, halike.path.trans hpath,
      halike.isNamespace.trans hnamespace⟩
  · intro other object hget hne
    obtain ⟨before, hbefore, hsame⟩ := exists_of_get?_modifyObject hchange hget
    obtain ⟨owner, parent, hparent, hgetParent, hlt, hnamespace, hpath⟩ :=
      hwell.owned hbefore hne
    obtain ⟨found, hfound, halike⟩ := hextends.objects hgetParent
    refine ⟨owner, found, hsame.owner.trans hparent, hfound, hlt,
      halike.isNamespace.trans hnamespace, ?_⟩
    rw [hsame.path, hsame.separator, hsame.name, halike.path, hpath]
  · intro other object hget child
    obtain ⟨before, hbefore, hsame⟩ := exists_of_get?_modifyObject hchange hget
    rw [hsame.children, hwell.children hbefore, howner]
  · intro other object hget
    obtain ⟨before, hbefore, hsame⟩ := exists_of_get?_modifyObject hchange hget
    rw [hsame.children]
    exact hwell.increasing hbefore
  · rw [index_modifyObject, size_objects_modifyObject]
    exact hwell.ids
  · intro path other hmem
    obtain ⟨before, hget, hpath⟩ := Option.map_eq_some_iff.1 (hwell.paths hmem)
    obtain ⟨object, hobject, halike⟩ := hextends.objects hget
    rw [hobject, ← hpath]
    exact congrArg some halike.path

/-! ## New objects -/

/-- The identities of one object more. -/
private theorem ids_succ {count : Nat} (hpos : 0 < count) :
    (List.range' 1 (count + 1 - 1)).map ObjectId.mk =
      (List.range' 1 (count - 1)).map ObjectId.mk ++ [⟨count⟩] := by
  obtain ⟨count, rfl⟩ : ∃ before, count = before + 1 := ⟨count - 1, by omega⟩
  rw [Nat.add_sub_cancel, Nat.add_sub_cancel, List.range'_concat]
  simp [Nat.add_comm]

/-- There is a root, so there are objects. -/
theorem size_pos (hwell : WellFormed registry) : 0 < registry.objects.size := by
  obtain ⟨object, hget, -⟩ := hwell.root
  exact index_lt_of_get? hget

/-- An object with an owner is not the root, and its owner is an earlier namespace. -/
theorem owned_of_owner (hwell : WellFormed registry) {id owner : ObjectId}
    (howner : (registry.get? id).bind (·.owner) = some owner) :
    ∃ object parent, registry.get? id = some object ∧ registry.get? owner = some parent ∧
      owner.index < id.index ∧ parent.isNamespace = true := by
  obtain ⟨object, hget, howns⟩ := Option.bind_eq_some_iff.1 howner
  have hne : id ≠ .root := by
    rintro rfl
    obtain ⟨root, hroot, hnone, -, -⟩ := hwell.root
    obtain rfl : root = object := Option.some.inj (hroot.symm.trans hget)
    rw [hnone] at howns
    cases howns
  obtain ⟨found, parent, hfound, hparent, hlt, hnamespace, -⟩ := hwell.owned hget hne
  obtain rfl : found = owner := Option.some.inj (hfound.symm.trans howns)
  exact ⟨object, parent, hget, hparent, hlt, hnamespace⟩

/-- Owners come before what they own. -/
theorem owner_lt (hwell : WellFormed registry) {id owner : ObjectId}
    (howner : (registry.get? id).bind (·.owner) = some owner) :
    owner.index < id.index ∧ id.index < registry.objects.size := by
  obtain ⟨object, -, hget, -, hlt, -⟩ := hwell.owned_of_owner howner
  exact ⟨hlt, index_lt_of_get? hget⟩

/-- An object after one was added is the new one, or an old one with perhaps a child more. -/
theorem get?_addObject_cases {owner : ObjectId} {path : String} {object : CodeObject}
    (howner : owner.index < registry.objects.size) {id : ObjectId} {found : CodeObject}
    (hget : (registry.addObject owner path object).get? id = some found) :
    (id = ⟨registry.objects.size⟩ ∧ found = object) ∨
      ∃ before, registry.get? id = some before ∧
        found = if id = owner then before.addChild ⟨registry.objects.size⟩ else before := by
  have hid := index_lt_of_get? hget
  rw [size_objects_addObject] at hid
  by_cases hbefore : id.index < registry.objects.size
  · rw [get?_addObject_of_lt registry owner path object hbefore] at hget
    obtain ⟨before, hgetBefore, rfl⟩ := Option.map_eq_some_iff.1 hget
    exact .inr ⟨before, hgetBefore, rfl⟩
  · have hindex : id.index = registry.objects.size := by omega
    obtain rfl : id = ⟨registry.objects.size⟩ := by rw [← hindex]
    have hadded := get?_addObject_added registry path object howner
    exact .inl ⟨rfl, Option.some.inj (hget.symm.trans hadded)⟩

/-- The new object has its own owner, and all others keep theirs. -/
theorem owner_addObject {owner : ObjectId} {path : String} {object : CodeObject}
    (howner : owner.index < registry.objects.size) (id : ObjectId) :
    ((registry.addObject owner path object).get? id).bind (·.owner) =
      if id = ⟨registry.objects.size⟩ then object.owner
      else (registry.get? id).bind (·.owner) := by
  split
  · rename_i hnew
    rw [hnew, get?_addObject_added registry path object howner]
    rfl
  · rename_i hnew
    cases hget : (registry.addObject owner path object).get? id with
    | some found =>
      rcases get?_addObject_cases howner hget with ⟨hsame, -⟩ | ⟨before, hbefore, rfl⟩
      · exact absurd hsame hnew
      · rw [hbefore]
        by_cases hid : id = owner <;> simp [hid, CodeObject.addChild]
    | none =>
      have hbefore : registry.get? id = none := by
        rw [get?_eq_none_iff, size_objects_addObject] at hget
        rw [get?_eq_none_iff]
        omega
      rw [hbefore]

/-- The children of the objects after one was added are what these objects own. -/
theorem children_addObject (hwell : WellFormed registry) {owner : ObjectId} {path : String}
    {object : CodeObject} (hlt : owner.index < registry.objects.size)
    (howner : object.owner = some owner) (hchildren : object.children = []) {id : ObjectId}
    {found : CodeObject} (hget : (registry.addObject owner path object).get? id = some found)
    (child : ObjectId) :
    child ∈ found.children ↔
      ((registry.addObject owner path object).get? child).bind (·.owner) = some id := by
  rw [owner_addObject hlt, howner]
  rcases get?_addObject_cases hlt hget with ⟨rfl, rfl⟩ | ⟨before, hbefore, rfl⟩
  · -- nothing is owned by the new object yet, as owners come before what they own
    rw [hchildren]
    refine iff_of_false List.not_mem_nil ?_
    split
    · rintro ⟨⟩
      exact Nat.lt_irrefl _ hlt
    · intro howned
      have hbounds := hwell.owner_lt howned
      have : registry.objects.size < child.index := hbounds.1
      omega
  · have hold := hwell.children hbefore child
    by_cases hnew : child = ⟨registry.objects.size⟩
    · -- the new object is a child of its owner, and of no other object
      have hnot : child ∉ before.children := by
        intro hmem
        have hbounds := (hwell.owner_lt (hold.1 hmem)).2
        rw [hnew] at hbounds
        exact Nat.lt_irrefl _ hbounds
      rw [if_pos hnew]
      by_cases hid : id = owner
      · rw [if_pos hid, hid, hnew]
        simp [CodeObject.addChild]
      · rw [if_neg hid]
        exact iff_of_false hnot fun hsame => hid (Option.some.inj hsame).symm
    · rw [if_neg hnew, ← hold]
      by_cases hid : id = owner
      · rw [if_pos hid]
        simp [CodeObject.addChild, hnew]
      · rw [if_neg hid]

/-- Objects are owned by namespaces after one was added under a namespace. -/
theorem owned_addObject (hwell : WellFormed registry) {owner : ObjectId}
    {parent object : CodeObject} {path : String} (hparent : registry.get? owner = some parent)
    (hnamespace : parent.isNamespace = true) (howner : object.owner = some owner)
    (hpath : object.path = joinPath parent.path object.details.separator object.name)
    (hfree : registry.lookup? path = none) {id : ObjectId} {found : CodeObject}
    (hget : (registry.addObject owner path object).get? id = some found) (hne : id ≠ .root) :
    ∃ above holder, found.owner = some above ∧
      (registry.addObject owner path object).get? above = some holder ∧ above.index < id.index ∧
      holder.isNamespace = true ∧
      found.path = joinPath holder.path found.details.separator found.name := by
  have hlt : owner.index < registry.objects.size := index_lt_of_get? hparent
  have hextends := Extends.addObject registry owner object hfree
  rcases get?_addObject_cases hlt hget with ⟨rfl, rfl⟩ | ⟨before, hbefore, hfound⟩
  · -- the new object has its path from its owner
    obtain ⟨kept, hkept, halike⟩ := hextends.objects hparent
    exact ⟨owner, kept, howner, hkept, hlt, halike.isNamespace.trans hnamespace,
      by rw [halike.path, hpath]⟩
  · have hsame : found.Alike before := by
      rw [hfound]
      split
      · exact before.alike_addChild _
      · exact .refl before
    obtain ⟨above, holder, habove, hholder, hless, hkind, hjoin⟩ := hwell.owned hbefore hne
    obtain ⟨kept, hkept, halike⟩ := hextends.objects hholder
    refine ⟨above, kept, hsame.owner.trans habove, hkept, hless,
      halike.isNamespace.trans hkind, ?_⟩
    rw [hsame.path, hsame.separator, hsame.name, halike.path, hjoin]

/-- Children are listed in the order of their creation after one was added. -/
theorem increasing_addObject (hwell : WellFormed registry) {owner : ObjectId} {path : String}
    {object : CodeObject} (hlt : owner.index < registry.objects.size)
    (hchildren : object.children = []) {id : ObjectId} {found : CodeObject}
    (hget : (registry.addObject owner path object).get? id = some found) :
    found.children.Pairwise (·.index < ·.index) := by
  rcases get?_addObject_cases hlt hget with ⟨rfl, rfl⟩ | ⟨before, hbefore, rfl⟩
  · rw [hchildren]
    exact List.Pairwise.nil
  · split
    · -- the new child comes last, and its number is the highest
      refine List.pairwise_append.2 ⟨hwell.increasing hbefore, by simp, ?_⟩
      intro first hfirst second hsecond
      obtain rfl : second = ⟨registry.objects.size⟩ := by simpa using hsecond
      exact (hwell.owner_lt ((hwell.children hbefore first).1 hfirst)).2
    · exact hwell.increasing hbefore

/-- The index lists the paths of the objects after one was added at a path that is free. -/
theorem paths_addObject (hwell : WellFormed registry) {owner : ObjectId} {path : String}
    {object : CodeObject} (hlt : owner.index < registry.objects.size)
    (hobject : object.path = path) (hfree : registry.lookup? path = none) {other : String}
    {id : ObjectId} (hmem : (other, id) ∈ (registry.addObject owner path object).index.entries) :
    ((registry.addObject owner path object).get? id).map (·.path) = some other := by
  have hextends := Extends.addObject registry owner object hfree
  rw [index_addObject, PathIndex.entries_insert_of_find?_eq_none _ hfree, List.mem_append] at hmem
  rcases hmem with hmem | hmem
  · obtain ⟨before, hget, hbefore⟩ := Option.map_eq_some_iff.1 (hwell.paths hmem)
    obtain ⟨found, hfound, halike⟩ := hextends.objects hget
    rw [hfound, ← hbefore]
    exact congrArg some halike.path
  · obtain ⟨rfl, rfl⟩ : other = path ∧ id = ⟨registry.objects.size⟩ := by
      simpa using hmem
    rw [get?_addObject_added registry other object hlt]
    exact congrArg some hobject

/-- **A new object.** A namespace can be given a new object without children, at the path that
comes from its own, if that path is free. -/
theorem addObject (hwell : WellFormed registry) {owner : ObjectId} {parent object : CodeObject}
    {path : String} (hparent : registry.get? owner = some parent)
    (hnamespace : parent.isNamespace = true) (howner : object.owner = some owner)
    (hchildren : object.children = []) (hobject : object.path = path)
    (hpath : path = joinPath parent.path object.details.separator object.name)
    (hfree : registry.lookup? path = none) :
    WellFormed (registry.addObject owner path object) := by
  have hlt : owner.index < registry.objects.size := index_lt_of_get? hparent
  refine ⟨?_, hwell.owned_addObject hparent hnamespace howner (hobject.trans hpath) hfree,
    hwell.children_addObject hlt howner hchildren, hwell.increasing_addObject hlt hchildren, ?_,
    hwell.paths_addObject hlt hobject hfree⟩
  · obtain ⟨before, hget, hnone, hempty, hroot⟩ := hwell.root
    obtain ⟨found, hfound, halike⟩ :=
      (Extends.addObject registry owner object hfree).objects hget
    exact ⟨found, hfound, halike.owner.trans hnone, halike.path.trans hempty,
      halike.isNamespace.trans hroot⟩
  · rw [index_addObject, size_objects_addObject, ids_succ hwell.size_pos, PathIndex.ids,
      PathIndex.entries_insert_of_find?_eq_none _ hfree, List.map_append, ← hwell.ids]
    rfl

/-! ## Requests -/

/-- A registration, whatever is registered where, keeps a registry well-formed. -/
theorem registerWith (hwell : WellFormed registry) {owner id : ObjectId} {name : String}
    {details : Details} {init : CodeObject → CodeObject} (hinit : RevisesOnly init)
    (hok : registry.registerWith owner name details init = .ok (id, changed)) :
    WellFormed changed := by
  obtain ⟨parent, hparent, hnamespace, hcases⟩ := registerWith_eq_ok_iff.1 hok
  rcases hcases with ⟨existing, -, -, -, rfl⟩ | ⟨hfree, -, rfl⟩
  · -- an object at the path is reopened
    exact hwell.modifyObject id hinit.samePlace
  · -- the initialisation cannot take a new object out of its place
    have hsame := hinit.samePlace
      { name, path := joinPath parent.path details.separator name, owner := some owner, details }
    refine hwell.addObject hparent hnamespace hsame.owner hsame.children hsame.path ?_ hfree
    rw [hsame.separator, hsame.name]

/-- A copy of an object of another registry is a registration. -/
theorem copyObject (hwell : WellFormed registry) {other : Registry} {object : CodeObject}
    {id : ObjectId} (hok : registry.copyObject other object = .ok (id, changed)) :
    WellFormed changed := by
  obtain ⟨owner, -, hregistered⟩ := copyObject_eq_ok_iff.1 hok
  exact hwell.registerWith (revisesOnly_copy object) hregistered

/-- A new local scope is recorded in a namespace and changes nothing else about objects. -/
theorem newLocalScope (hwell : WellFormed registry) {owner : ObjectId} {name : Option String}
    {anchor : ScopeAnchor} {scope : ScopeId}
    (hok : registry.newLocalScope owner name anchor = .ok (scope, changed)) :
    WellFormed changed := by
  unfold Registry.newLocalScope at hok
  split at hok
  · cases hok
  · cases hok
  · rw [Except.ok.injEq, Prod.mk.injEq] at hok
    obtain ⟨rfl, rfl⟩ := hok
    exact (hwell.modifyObject owner (samePlace_recordScope _ _)).addScope _

/-! ## Readings -/

/-- **The path index.** A path leads to an object if and only if it is the path of this object,
which is not the root. -/
theorem lookup?_eq_some_iff (hwell : WellFormed registry) {path : String} {id : ObjectId} :
    registry.lookup? path = some id ↔
      id ≠ .root ∧ (registry.get? id).map (·.path) = some path := by
  -- the identities of the index are all numbers of objects but the first
  have hlisted : id ∈ registry.index.ids ↔ id ≠ .root ∧ id.index < registry.objects.size := by
    obtain ⟨index⟩ := id
    rw [hwell.ids]
    simp only [List.mem_map, List.mem_range'_1, ObjectId.mk.injEq, exists_eq_right, ne_eq,
      ObjectId.root]
    have := hwell.size_pos
    omega
  rw [Registry.lookup?, PathIndex.find?_eq_some_iff]
  constructor
  · intro hmem
    exact ⟨(hlisted.1 (List.mem_map.2 ⟨_, hmem, rfl⟩)).1, hwell.paths hmem⟩
  · rintro ⟨hne, hpath⟩
    obtain ⟨object, hget, rfl⟩ := Option.map_eq_some_iff.1 hpath
    obtain ⟨⟨other, _⟩, hmem, rfl⟩ := List.mem_map.1 (hlisted.2 ⟨hne, index_lt_of_get? hget⟩)
    have hother := hwell.paths hmem
    obtain rfl : object.path = other := by simpa [hget] using hother
    exact hmem

/-- The path of the root is empty. -/
theorem path_root (hwell : WellFormed registry) {object : CodeObject}
    (hget : registry.get? .root = some object) : object.path = "" := by
  obtain ⟨root, hroot, -, hempty, -⟩ := hwell.root
  obtain rfl := Option.some.inj (hroot.symm.trans hget)
  exact hempty

/-- An object is found at its path, if that is not empty. -/
theorem lookup?_path (hwell : WellFormed registry) {id : ObjectId} {object : CodeObject}
    (hget : registry.get? id = some object) (hpath : object.path ≠ "") :
    registry.lookup? object.path = some id := by
  refine hwell.lookup?_eq_some_iff.2 ⟨?_, by rw [hget, Option.map_some]⟩
  rintro rfl
  exact hpath (hwell.path_root hget)

/-- An object is the one at its path, if that is not empty. -/
theorem at?_path (hwell : WellFormed registry) {id : ObjectId} {object : CodeObject}
    (hget : registry.get? id = some object) (hpath : object.path ≠ "") :
    registry.at? object.path = some object := by
  rw [at?, hwell.lookup?_path hget hpath, Option.bind_some, hget]

/-- The owner of a copy is at the path of the owner of the object. -/
theorem path_of_mergeOwner (hwell : WellFormed registry) {path : String} {owner : ObjectId}
    {parent : CodeObject}
    (howner : registry.mergeOwner path = .ok owner) (hparent : registry.get? owner = some parent) :
    parent.path = path := by
  unfold mergeOwner at howner
  split at howner
  · rename_i hempty
    obtain rfl := Except.ok.inj howner
    rw [hwell.path_root hparent, String.isEmpty_iff.1 hempty]
  · cases hlookup : registry.lookup? path with
    | none =>
      rw [hlookup] at howner
      cases howner
    | some found =>
      rw [hlookup] at howner
      obtain rfl := Except.ok.inj howner
      have hpath := (hwell.lookup?_eq_some_iff.1 hlookup).2
      rw [hparent, Option.map_some, Option.some.injEq] at hpath
      exact hpath

/-- The path of an object under the path of its owner. -/
theorem path_eq_ownerPath (hwell : WellFormed registry) {id : ObjectId} {object : CodeObject}
    (hget : registry.get? id = some object) (hne : id ≠ .root) :
    object.path = joinPath (registry.ownerPath object) object.details.separator object.name := by
  obtain ⟨owner, parent, howner, hparent, -, -, hpath⟩ := hwell.owned hget hne
  rw [hpath, ownerPath, howner, Option.bind_some, hparent, Option.map_some, Option.getD_some]

/-- The search outwards from an object ends with the object itself if it is a namespace. -/
theorem searchesTo_iff_of_isNamespace {id : ObjectId} {object : CodeObject}
    (hget : registry.get? id = some object) (hnamespace : object.isNamespace = true)
    {result : Option ObjectId} : registry.SearchesTo id result ↔ result = some id := by
  constructor
  · intro hsearch
    cases hsearch with
    | unknown hnone =>
      rw [hget] at hnone
      cases hnone
    | found _ _ => rfl
    | ownerless hfound hother _ | outwards hfound hother _ _ =>
      obtain rfl := Option.some.inj (hfound.symm.trans hget)
      rw [hnamespace] at hother
      cases hother
  · rintro rfl
    exact .found hget hnamespace

/-- **The enclosing namespace.** The search for the nearest namespace around an object ends, and
what it ends with is the owner. -/
theorem parentModule_iff (hwell : WellFormed registry) (id : ObjectId)
    {result : Option ObjectId} :
    registry.ParentModule id result ↔ result = (registry.get? id).bind (·.owner) := by
  unfold ParentModule
  cases howner : (registry.get? id).bind (·.owner) with
  | none => rfl
  | some owner =>
    -- the owner is a namespace itself, so the search ends where it starts
    obtain ⟨-, parent, -, hparent, -, hnamespace⟩ := hwell.owned_of_owner howner
    exact searchesTo_iff_of_isNamespace hparent hnamespace

/-- `parentModule?` finds what the search ends with. -/
theorem parentModule?_eq (hwell : WellFormed registry) (id : ObjectId) :
    registry.parentModule? id = (registry.get? id).bind (·.owner) := by
  rw [parentModule?]
  cases howner : (registry.get? id).bind (·.owner) with
  | none => rfl
  | some owner =>
    obtain ⟨-, parent, -, hparent, -, hnamespace⟩ := hwell.owned_of_owner howner
    simp [hparent, hnamespace]

end WellFormed

end RubyIndex.Registry
