import RubyIndex.Registry.Edit

/-! # Merging registries

A merge copies the objects of another registry whose paths are free, in their order and under
the objects with their owners' paths. Local scopes are not copied. -/

namespace RubyIndex

namespace Registry

/-- The path of the owner of an object of a registry. -/
def ownerPath (registry : Registry) (object : CodeObject) : String :=
  ((object.owner.bind registry.get?).map (·.path)).getD ""

/-- The object at a path that is to own a copy; the empty path is that of the root. -/
def mergeOwner (registry : Registry) (path : String) : Except RegistryError ObjectId :=
  if path.isEmpty then .ok .root
  else
    match registry.lookup? path with
    | some owner => .ok owner
    | none => .error (.notANamespace path)

/-- Copies one object of another registry. -/
def copyObject (registry other : Registry) (object : CodeObject) :
    Except RegistryError (ObjectId × Registry) :=
  match registry.mergeOwner (other.ownerPath object) with
  | .error error => .error error
  | .ok owner =>
      registry.registerWith owner object.name object.details.withoutScopes fun merged =>
        { merged with origin := object.origin, docstring := object.docstring }

/-- **A copy is a registration** under the object that is found for its owner. -/
theorem copyObject_eq_ok_iff {registry other changed : Registry} {object : CodeObject}
    {id : ObjectId} :
    registry.copyObject other object = .ok (id, changed) ↔
      ∃ owner, registry.mergeOwner (other.ownerPath object) = .ok owner ∧
        registry.registerWith owner object.name object.details.withoutScopes (fun merged =>
          { merged with origin := object.origin, docstring := object.docstring }) =
            .ok (id, changed) := by
  unfold copyObject
  cases registry.mergeOwner (other.ownerPath object) with
  | error error => simp
  | ok owner => simp

end Registry

namespace Edit

/-- Copies those of the given objects of another registry whose paths are free, and counts
them. -/
def copyMissing (other : Registry) : List CodeObject → Edit Nat
  | [] => pure 0
  | object :: rest => do
      -- an object that is registered already stays as it is
      if (← read).contains object.path then copyMissing other rest
      else
        let _ ← attempt fun registry => registry.copyObject other object
        return (← copyMissing other rest) + 1

/-- Copies the objects of another registry whose paths are free, and counts them. -/
def merge (other : Registry) : Edit Nat := copyMissing other other.registered

end Edit

end RubyIndex
