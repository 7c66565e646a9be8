import RubyIndex.Registry.Error
import RubyIndex.Registry.PathIndex

/-! # The registry

A registry holds code objects and local scopes in the order of their creation. Its first object
is the root namespace, which does not count as registered. Objects are found by their identity,
which is their position, or through the path index by their path. -/

namespace RubyIndex

/-- What a local scope hangs off. -/
inductive ScopeAnchor where
  | scope (anchor : ScopeId)
  | «namespace» (anchor : ObjectId)
  deriving DecidableEq, Repr

/-- A lexical scope of a body. -/
structure LocalScope where
  /-- The name under which the scope is found among its siblings. -/
  name : String
  anchor : ScopeAnchor
  /-- The scopes that hang off this one, oldest first. -/
  children : List ScopeId := []
  deriving DecidableEq, Repr

/-- The code objects and local scopes of a program. -/
structure Registry where
  /-- The objects by position; the first is the root. -/
  objects : Array CodeObject
  /-- The registered objects by path, in order of registration. -/
  index : PathIndex
  /-- The local scopes by position. -/
  scopes : Array LocalScope
  deriving DecidableEq, Repr

namespace Registry

/-- The registry that holds the root namespace only. -/
def empty : Registry := ⟨#[CodeObject.root], .empty, #[]⟩

/-- The registry after everything in it is discarded. -/
def clear (_ : Registry) : Registry := empty

/-- The object with the given identity. -/
def get? (registry : Registry) (object : ObjectId) : Option CodeObject :=
  registry.objects[object.index]?

/-- Exactly the identities below the number of objects have an object. -/
theorem isSome_get?_iff {registry : Registry} {object : ObjectId} :
    (registry.get? object).isSome ↔ object.index < registry.objects.size := by
  simp [get?]

/-- Beyond the number of objects there are none. -/
theorem get?_eq_none_iff {registry : Registry} {object : ObjectId} :
    registry.get? object = none ↔ registry.objects.size ≤ object.index := by
  simp [get?]

theorem index_lt_of_get? {registry : Registry} {id : ObjectId} {object : CodeObject}
    (hget : registry.get? id = some object) : id.index < registry.objects.size :=
  isSome_get?_iff.1 (by rw [hget]; rfl)

/-- The registered objects with their identities, in order of registration. -/
def entries (registry : Registry) : List (ObjectId × CodeObject) :=
  registry.index.ids.filterMap fun id => (registry.get? id).map (id, ·)

/-- The registered objects in order of registration. -/
def registered (registry : Registry) : List CodeObject := registry.entries.map (·.2)

/-- The number of registered objects. -/
def size (registry : Registry) : Nat := registry.index.size

/-- Whether nothing is registered. -/
def isEmpty (registry : Registry) : Bool := registry.size == 0

/-- The identity of the registered object at a path. -/
def lookup? (registry : Registry) (path : String) : Option ObjectId := registry.index.find? path

/-- Whether a path is taken. -/
def contains (registry : Registry) (path : String) : Bool := (registry.lookup? path).isSome

/-- The registered object at a path. -/
def at? (registry : Registry) (path : String) : Option CodeObject :=
  (registry.lookup? path).bind registry.get?

/-- The objects registered under an object, in order of registration. -/
def children (registry : Registry) (object : ObjectId) : List CodeObject :=
  match registry.get? object with
  | none => []
  | some owner => owner.children.filterMap registry.get?

/-- The nearest namespace that strictly encloses an object. An owner has an earlier position
than what it owns. -/
def parentModule? (registry : Registry) (object : ObjectId) : Option ObjectId :=
  match (registry.get? object).bind (·.owner) with
  | none => none
  | some owner =>
      match registry.get? owner with
      | none => none
      | some enclosing =>
          if enclosing.isNamespace then some owner
          -- owners come first, so the search is not cut short
          else if owner.index < object.index then parentModule? registry owner
          else none
termination_by object.index

/-- The namespace with the given identity. -/
def namespaceAt (registry : Registry) (object : ObjectId) : Except RegistryError CodeObject :=
  match registry.get? object with
  | none => .error (.unknownObject object)
  | some found => if found.isNamespace then .ok found else .error (.notANamespace found.path)

/-- A namespace is found at an identity if and only if the object there is one. -/
theorem namespaceAt_eq_ok_iff {registry : Registry} {id : ObjectId} {object : CodeObject} :
    registry.namespaceAt id = .ok object ↔
      registry.get? id = some object ∧ object.isNamespace = true := by
  unfold namespaceAt
  cases registry.get? id with
  | none => simp
  | some found => cases hnamespace : found.isNamespace <;> simp <;> grind

/-- The registry with one object changed. -/
def modifyObject (registry : Registry) (object : ObjectId) (change : CodeObject → CodeObject) :
    Registry :=
  { registry with objects := registry.objects.modify object.index change }

/-- A change of one object is seen at its identity and nowhere else. -/
theorem get?_modifyObject (registry : Registry) (object id : ObjectId)
    (change : CodeObject → CodeObject) :
    (registry.modifyObject object change).get? id =
      if id = object then (registry.get? id).map change else registry.get? id := by
  obtain ⟨index⟩ := object
  obtain ⟨position⟩ := id
  simp only [get?, modifyObject, Array.getElem?_modify, ObjectId.mk.injEq, eq_comm]

@[simp] theorem size_objects_modifyObject (registry : Registry) (object : ObjectId)
    (change : CodeObject → CodeObject) :
    (registry.modifyObject object change).objects.size = registry.objects.size :=
  Array.size_modify

@[simp] theorem index_modifyObject (registry : Registry) (object : ObjectId)
    (change : CodeObject → CodeObject) :
    (registry.modifyObject object change).index = registry.index := rfl

@[simp] theorem scopes_modifyObject (registry : Registry) (object : ObjectId)
    (change : CodeObject → CodeObject) :
    (registry.modifyObject object change).scopes = registry.scopes := rfl

end Registry

end RubyIndex
