import RubyIndex.Registry.Merge

/-! # How requests let a registry grow

No request takes an object away or moves it. Definitions revise objects in few of their parts,
namespaces name local scopes, owners get children, and all else that happens is added behind
what is there.

* `CodeObject.Alike` relates states of an object with the same name, path, owner and kind, and
  `CodeObject.SamePlace` those that have the same children too.
* `RevisesOnly` is what an initialisation of a registered object may do.
* `Registry.Extends` relates a registry to one that it has grown into; `Extends.modifyObject`,
  `Extends.addObject` and `Extends.addScope` are its steps. -/

namespace RubyIndex

/-! ## Changes of one object -/

namespace CodeObject

/-- **Alike objects.** Two states of an object agree on its name, path, owner, kind and
separator. -/
structure Alike (first second : CodeObject) : Prop where
  name : first.name = second.name
  path : first.path = second.path
  owner : first.owner = second.owner
  kind : first.kind = second.kind
  separator : first.details.separator = second.details.separator

/-- **The same place.** Two alike states of an object have the same children. -/
structure SamePlace (first second : CodeObject) : Prop extends Alike first second where
  children : first.children = second.children

@[refl] theorem Alike.refl (object : CodeObject) : object.Alike object := ⟨rfl, rfl, rfl, rfl, rfl⟩

theorem Alike.trans {first second third : CodeObject} (hfirst : first.Alike second)
    (hsecond : second.Alike third) : first.Alike third :=
  ⟨hfirst.name.trans hsecond.name, hfirst.path.trans hsecond.path,
    hfirst.owner.trans hsecond.owner, hfirst.kind.trans hsecond.kind,
    hfirst.separator.trans hsecond.separator⟩

/-- Alike objects are namespaces together. -/
theorem Alike.isNamespace {first second : CodeObject} (halike : first.Alike second) :
    first.isNamespace = second.isNamespace := by
  rw [CodeObject.isNamespace, CodeObject.isNamespace, halike.kind]

@[refl] theorem SamePlace.refl (object : CodeObject) : object.SamePlace object :=
  ⟨.refl object, rfl⟩

/-- A further child changes nothing else. -/
theorem alike_addChild (child : ObjectId) (object : CodeObject) :
    (object.addChild child).Alike object := ⟨rfl, rfl, rfl, rfl, rfl⟩

end CodeObject

/-- The details without the parts that a definition may revise. -/
def Details.unrevised : Details → Details
  | .namespace flavor _ scopes => .namespace flavor none scopes
  | .method receiver _ => .method receiver ""
  | .instanceVariable _ => .instanceVariable ""
  | .classVariable _ => .classVariable ""

@[simp] theorem Details.kind_unrevised (details : Details) :
    details.unrevised.kind = details.kind := by
  cases details <;> rfl

@[simp] theorem Details.separator_unrevised (details : Details) :
    details.unrevised.separator = details.separator := by
  cases details <;> rfl

@[simp] theorem Details.kind_withoutScopes (details : Details) :
    details.withoutScopes.kind = details.kind := by
  cases details <;> rfl

@[simp] theorem Details.separator_withoutScopes (details : Details) :
    details.withoutScopes.separator = details.separator := by
  cases details <;> rfl

/-- **The variant** of an object: the details that are decided when it is added. -/
def Details.variant (details : Details) : Details := details.unrevised.withoutScopes

/-- An object without the parts that a definition may revise: its origin, its docstring, and
the superclass, signature or value that it has. -/
def CodeObject.unrevised (object : CodeObject) : CodeObject :=
  { object with origin := none, docstring := "", details := object.details.unrevised }

/-- **A revising initialisation.** It changes an object in its origin, its docstring, and its
superclass, signature or value only. -/
def RevisesOnly (init : CodeObject → CodeObject) : Prop :=
  ∀ object, (init object).unrevised = object.unrevised

/-- A revising initialisation leaves an object in its place. -/
theorem RevisesOnly.samePlace {init : CodeObject → CodeObject} (hinit : RevisesOnly init)
    (object : CodeObject) : (init object).SamePlace object := by
  have hsame := hinit object
  have hdetails : (init object).details.unrevised = object.details.unrevised :=
    congrArg CodeObject.details hsame
  refine ⟨⟨?_, ?_, ?_, ?_, ?_⟩, ?_⟩
  · exact (congrArg CodeObject.name hsame :)
  · exact (congrArg CodeObject.path hsame :)
  · exact (congrArg CodeObject.owner hsame :)
  · show (init object).details.kind = object.details.kind
    rw [← Details.kind_unrevised, hdetails, Details.kind_unrevised]
  · rw [← Details.separator_unrevised, hdetails, Details.separator_unrevised]
  · exact (congrArg CodeObject.children hsame :)

/-- A revision revises. -/
theorem Revision.revisesOnly_apply (revision : Revision) : RevisesOnly revision.apply := by
  intro object
  have hdetails : (revision.reviseDetails object.details).unrevised = object.details.unrevised := by
    cases object.details <;> rfl
  simp only [CodeObject.unrevised, Revision.apply, hdetails]

namespace Registry

/-- A copy takes over the origin and the docstring, which revises it. -/
theorem revisesOnly_copy (object : CodeObject) :
    RevisesOnly fun merged =>
      { merged with origin := object.origin, docstring := object.docstring } :=
  fun _ => rfl

/-- Naming a scope leaves an object in its place. -/
theorem samePlace_recordScope (requested : String) (scope : ScopeId) (object : CodeObject) :
    (recordScope requested scope object).SamePlace object := by
  unfold recordScope
  -- only namespaces have names of scopes
  cases hdetails : object.details with
  | «namespace» flavor superclass scopes =>
    refine ⟨⟨rfl, rfl, rfl, ?_, ?_⟩, rfl⟩
    · simp [CodeObject.kind, Details.kind, hdetails]
    · simp [Details.separator, hdetails]
  | method _ _ => exact .refl object
  | instanceVariable _ => exact .refl object
  | classVariable _ => exact .refl object

/-! ## Growth -/

/-- **Growth.** Every object of the first registry is in the second, with the name, path, owner
and kind it had; paths and scopes are only added. -/
structure Extends (before after : Registry) : Prop where
  objects : ∀ {id object}, before.get? id = some object →
    ∃ found, after.get? id = some found ∧ found.Alike object
  index : before.index.entries <+: after.index.entries
  scopes : before.scopes.size ≤ after.scopes.size

namespace Extends

variable {registry first second third : Registry}

@[refl] theorem refl (registry : Registry) : registry.Extends registry :=
  ⟨fun {_ object} hget => ⟨object, hget, .refl object⟩, List.prefix_rfl, Nat.le_refl _⟩

theorem trans (hfirst : first.Extends second) (hsecond : second.Extends third) :
    first.Extends third := by
  refine ⟨?_, hfirst.index.trans hsecond.index, Nat.le_trans hfirst.scopes hsecond.scopes⟩
  intro id object hget
  obtain ⟨middle, hmiddle, halike⟩ := hfirst.objects hget
  obtain ⟨found, hfound, hlater⟩ := hsecond.objects hmiddle
  exact ⟨found, hfound, hlater.trans halike⟩

/-- A path stays with its object. -/
theorem lookup? (hextends : first.Extends second) {path : String} {id : ObjectId}
    (hlookup : first.lookup? path = some id) : second.lookup? path = some id :=
  PathIndex.find?_eq_some_iff.2
    (hextends.index.subset (PathIndex.find?_eq_some_iff.1 hlookup))

/-- A change of one object in its place. -/
theorem modifyObject (registry : Registry) (id : ObjectId) {change : CodeObject → CodeObject}
    (hchange : ∀ object, (change object).SamePlace object) :
    registry.Extends (registry.modifyObject id change) := by
  refine ⟨?_, List.prefix_rfl, Nat.le_refl _⟩
  intro other object hget
  rw [get?_modifyObject, hget]
  split
  · exact ⟨change object, rfl, (hchange object).toAlike⟩
  · exact ⟨object, rfl, .refl object⟩

/-- A new object at a free path. -/
theorem addObject (registry : Registry) (owner : ObjectId) {path : String} (object : CodeObject)
    (hfree : registry.lookup? path = none) :
    registry.Extends (registry.addObject owner path object) := by
  refine ⟨?_, ?_, Nat.le_refl _⟩
  · intro id found hget
    rw [get?_addObject_of_lt registry owner path object (index_lt_of_get? hget), hget]
    by_cases hid : id = owner
    · exact ⟨found.addChild ⟨registry.objects.size⟩, by simp [hid], found.alike_addChild _⟩
    · exact ⟨found, by simp [hid], .refl found⟩
  · rw [index_addObject, PathIndex.entries_insert_of_find?_eq_none _ hfree]
    exact List.prefix_append _ _

/-- A new scope. -/
theorem addScope (registry : Registry) (scope : LocalScope) :
    registry.Extends (registry.addScope scope) := by
  refine ⟨fun {_ object} hget => ⟨object, ?_, .refl object⟩, ?_, ?_⟩
  · rw [← hget, get?, get?, objects_addScope]
  · exact (index_addScope registry scope).symm ▸ List.prefix_rfl
  · rw [size_scopes_addScope]
    exact Nat.le_succ _

end Extends

end Registry

end RubyIndex
