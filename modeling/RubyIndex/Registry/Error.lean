import RubyIndex.Registry.Object

/-! # Registry errors

What can be wrong with a request to a registry, and how it is worded. -/

namespace RubyIndex

/-- The cause for which a registry refuses a request. -/
inductive RegistryError where
  /-- The path is taken by an object of another kind. -/
  | kindMismatch (path : String) (existing requested : ObjectKind)
  /-- The object at the path is no namespace, or there is none. -/
  | notANamespace (path : String)
  /-- The registry has no such object. -/
  | unknownObject (object : ObjectId)
  /-- The registry has no such local scope. -/
  | unknownScope (scope : ScopeId)
  deriving DecidableEq, Repr

/-- The wording of a registry error. -/
def RegistryError.message : RegistryError → String
  | .kindMismatch path existing requested =>
      "cannot register " ++ requested.name ++ " at `" ++ path ++ "`: already registered as " ++
        existing.name
  | .notANamespace path => "`" ++ path ++ "` is not a namespace"
  | .unknownObject object => "unknown code object #" ++ toString object.index
  | .unknownScope scope => "unknown local scope #" ++ toString scope.index

end RubyIndex
