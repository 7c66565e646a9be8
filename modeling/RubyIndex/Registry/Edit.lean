import RubyIndex.Registry.Register
import RubyIndex.Registry.Scope

/-! # Edits

An edit is a sequence of changes to a registry that stops at the first refused request. The
changes made before the refusal stay. -/

namespace RubyIndex

/-- A computation that changes a registry and may be refused halfway. -/
abbrev Edit (α : Type) := ExceptT RegistryError (StateM Registry) α

namespace Edit

/-- Makes a change that a registry either makes as a whole or refuses as a whole. -/
def attempt {α : Type} (change : Registry → Except RegistryError (α × Registry)) : Edit α :=
  fun registry =>
    match change registry with
    | .ok (value, changed) => (.ok value, changed)
    | .error error => (.error error, registry)

/-- Reads the registry as it is now. -/
def read : Edit Registry := fun registry => (.ok registry, registry)

/-- The outcome of an edit of a registry, and the registry as the edit leaves it. -/
def apply {α : Type} (edit : Edit α) (registry : Registry) :
    Except RegistryError α × Registry :=
  edit registry

@[simp] theorem apply_pure {α : Type} (value : α) (registry : Registry) :
    (pure value : Edit α).apply registry = (.ok value, registry) := rfl

/-- An edit goes on with the next one unless it is refused. -/
theorem apply_bind {α β : Type} (edit : Edit α) (next : α → Edit β) (registry : Registry) :
    (edit >>= next).apply registry =
      match edit.apply registry with
      | (.ok value, changed) => (next value).apply changed
      | (.error error, changed) => (.error error, changed) := by
  simp only [apply, bind, ExceptT.bind, ExceptT.mk, StateT.bind, ExceptT.bindCont]
  rcases edit registry with ⟨_ | _, _⟩ <;> rfl

@[simp] theorem apply_read (registry : Registry) :
    read.apply registry = (.ok registry, registry) := rfl

/-- A refused change leaves the registry as it was. -/
theorem apply_attempt {α : Type} (change : Registry → Except RegistryError (α × Registry))
    (registry : Registry) :
    (attempt change).apply registry =
      match change registry with
      | .ok (value, changed) => (.ok value, changed)
      | .error error => (.error error, registry) := rfl

/-- Registers or reopens an object. -/
def register (owner : ObjectId) (name : String) (details : Details) (revision : Revision) :
    Edit ObjectId :=
  attempt fun registry => registry.register owner name details revision

/-- Creates a local scope. -/
def newLocalScope (owner : ObjectId) (name : Option String) (anchor : ScopeAnchor) :
    Edit ScopeId :=
  attempt fun registry => registry.newLocalScope owner name anchor

end Edit

end RubyIndex
