import RubyIndex.Registry.Basic

/-! # Local scopes

A local scope is named by a namespace and hangs off a namespace or an earlier scope. Scopes are
found by name among the children of a scope and of the scopes around it. -/

namespace RubyIndex.Registry

/-- The local scope with the given identity. -/
def scope? (registry : Registry) (scope : ScopeId) : Option LocalScope :=
  registry.scopes[scope.index]?

/-- Exactly the identities below the number of scopes have a scope. -/
theorem isSome_scope?_iff {registry : Registry} {scope : ScopeId} :
    (registry.scope? scope).isSome ↔ scope.index < registry.scopes.size := by
  simp [scope?]

/-! ## Creating scopes -/

/-- Whether a local scope can hang off an anchor. -/
def checkAnchor (registry : Registry) : ScopeAnchor → Except RegistryError Unit
  | .scope anchor =>
      if (registry.scope? anchor).isSome then .ok () else .error (.unknownScope anchor)
  | .namespace anchor => (registry.namespaceAt anchor).map fun _ => ()

/-- The registry with a new scope, entered among the children of the scope it hangs off. -/
def addScope (registry : Registry) (scope : LocalScope) : Registry :=
  let added : ScopeId := ⟨registry.scopes.size⟩
  let scopes := registry.scopes.push scope
  match scope.anchor with
  | .namespace _ => { registry with scopes }
  | .scope anchor =>
      { registry with
        scopes := scopes.modify anchor.index fun enclosing =>
          { enclosing with children := enclosing.children ++ [added] } }

@[simp] theorem size_scopes_addScope (registry : Registry) (scope : LocalScope) :
    (registry.addScope scope).scopes.size = registry.scopes.size + 1 := by
  unfold addScope
  cases scope.anchor <;> simp

/-- A new scope leaves the objects as they are. -/
@[simp] theorem objects_addScope (registry : Registry) (scope : LocalScope) :
    (registry.addScope scope).objects = registry.objects := by
  unfold addScope
  cases scope.anchor <;> rfl

@[simp] theorem index_addScope (registry : Registry) (scope : LocalScope) :
    (registry.addScope scope).index = registry.index := by
  unfold addScope
  cases scope.anchor <;> rfl

/-- The object after naming a scope, if it is a namespace. -/
def recordScope (requested : String) (scope : ScopeId) (object : CodeObject) : CodeObject :=
  match object.details with
  | .namespace flavor superclass scopes =>
      { object with details := .namespace flavor superclass (scopes.record requested scope) }
  | _ => object

/-- Creates a local scope that a namespace names and that hangs off an anchor. -/
def newLocalScope (registry : Registry) (owner : ObjectId) (name : Option String)
    (anchor : ScopeAnchor) : Except RegistryError (ScopeId × Registry) :=
  -- of two faults, that of the anchor is reported
  match registry.checkAnchor anchor, registry.namespaceAt owner with
  | .error error, _ => .error error
  | .ok _, .error error => .error error
  | .ok _, .ok found =>
      let requested := name.getD ""
      let added : ScopeId := ⟨registry.scopes.size⟩
      let stored := (found.scopeNames?.getD {}).next requested
      .ok (added,
        (registry.modifyObject owner (recordScope requested added)).addScope
          { name := stored, anchor })

/-! ## Finding scopes -/

/-- A scope, the scope it hangs off, and so on outwards. A scope has a later position than the
one it hangs off. -/
def scopeChain (registry : Registry) (scope : ScopeId) : List LocalScope :=
  match registry.scope? scope with
  | none => []
  | some found =>
      match found.anchor with
      | .namespace _ => [found]
      | .scope anchor =>
          -- an anchor was there before the scope, so the chain is not cut short
          if anchor.index < scope.index then found :: scopeChain registry anchor else [found]
termination_by scope.index

/-- The namespace that the outermost scope around a scope hangs off. -/
def scopeNamespace? (registry : Registry) (scope : ScopeId) : Option ObjectId :=
  match (registry.scopeChain scope).getLast? with
  | some ⟨_, .namespace anchor, _⟩ => some anchor
  | _ => none

/-- The separator between a local scope and what it hangs off. -/
def scopeSeparator : String := ">"

/-- The path of a local scope, which starts with the path of its namespace. -/
def scopePath? (registry : Registry) (scope : ScopeId) : Option String :=
  ((registry.scopeNamespace? scope).bind registry.get?).map fun outermost =>
    (registry.scopeChain scope).foldr
      (fun inner path => joinPath path scopeSeparator inner.name) outermost.path

/-- The first child of a scope that has the given name. -/
def childNamed? (registry : Registry) (target : String) (scope : LocalScope) : Option ScopeId :=
  scope.children.find? fun child => (registry.scope? child).any (·.name == target)

/-- Finds a scope by name among the children of a scope, then of the scope around it, and so
on outwards. -/
def resolveScope? (registry : Registry) (scope : ScopeId) (target : String) : Option ScopeId :=
  (registry.scopeChain scope).findSome? (registry.childNamed? target)

end RubyIndex.Registry
