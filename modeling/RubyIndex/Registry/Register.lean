import RubyIndex.Registry.Basic

/-! # Registering objects

An object is registered under a namespace, at the path made of the namespace's path and its own
name. Registering at a path that is taken reopens the object there. -/

namespace RubyIndex.Registry

/-- The registry with a new object at a path and under an owner. -/
def addObject (registry : Registry) (owner : ObjectId) (path : String) (object : CodeObject) :
    Registry :=
  let added : ObjectId := ⟨registry.objects.size⟩
  ({ registry with
      objects := registry.objects.push object
      index := registry.index.insert path added }).modifyObject owner (·.addChild added)

/-- A new object stands after all others. -/
theorem get?_addObject_added (registry : Registry) {owner : ObjectId} (path : String)
    (object : CodeObject) (howner : owner.index < registry.objects.size) :
    (registry.addObject owner path object).get? ⟨registry.objects.size⟩ = some object := by
  have hne : (⟨registry.objects.size⟩ : ObjectId) ≠ owner := by
    rintro rfl
    exact Nat.lt_irrefl _ howner
  rw [addObject, get?_modifyObject, if_neg hne]
  simp [get?]

/-- The objects before a new one stay, and its owner alone has one child more. -/
theorem get?_addObject_of_lt (registry : Registry) (owner : ObjectId) {id : ObjectId}
    (path : String) (object : CodeObject) (hid : id.index < registry.objects.size) :
    (registry.addObject owner path object).get? id =
      (registry.get? id).map fun found =>
        if id = owner then found.addChild ⟨registry.objects.size⟩ else found := by
  rw [addObject, get?_modifyObject]
  simp only [get?, Array.getElem?_push, if_neg (Nat.ne_of_lt hid)]
  by_cases howner : id = owner <;> simp [howner]

@[simp] theorem size_objects_addObject (registry : Registry) (owner : ObjectId) (path : String)
    (object : CodeObject) :
    (registry.addObject owner path object).objects.size = registry.objects.size + 1 := by
  simp [addObject]

@[simp] theorem index_addObject (registry : Registry) (owner : ObjectId) (path : String)
    (object : CodeObject) :
    (registry.addObject owner path object).index =
      registry.index.insert path ⟨registry.objects.size⟩ := rfl

@[simp] theorem scopes_addObject (registry : Registry) (owner : ObjectId) (path : String)
    (object : CodeObject) :
    (registry.addObject owner path object).scopes = registry.scopes := rfl

/-- Registers an object under an owner, or reopens the one at its path. Either way the object is
then initialised; what is reopened keeps its details but for what the initialisation changes. -/
def registerWith (registry : Registry) (owner : ObjectId) (name : String) (details : Details)
    (init : CodeObject → CodeObject) : Except RegistryError (ObjectId × Registry) :=
  match registry.namespaceAt owner with
  | .error error => .error error
  | .ok parent =>
      let path := joinPath parent.path details.separator name
      match registry.lookup? path with
      | some found =>
          match registry.get? found with
          | none => .error (.unknownObject found)
          | some existing =>
              -- what is reopened stays of its kind
              if existing.kind = details.kind then .ok (found, registry.modifyObject found init)
              else .error (.kindMismatch path existing.kind details.kind)
      | none =>
          let object := init { name, path, owner := some owner, details }
          .ok (⟨registry.objects.size⟩, registry.addObject owner path object)

/-- What a successful registration does: it changes the object at the path, which is of the same
kind, or adds one where the path is free. -/
theorem registerWith_eq_ok_iff {registry changed : Registry} {owner id : ObjectId} {name : String}
    {details : Details} {init : CodeObject → CodeObject} :
    registry.registerWith owner name details init = .ok (id, changed) ↔
      ∃ parent, registry.get? owner = some parent ∧ parent.isNamespace = true ∧
        ((∃ existing, registry.lookup? (joinPath parent.path details.separator name) = some id ∧
            registry.get? id = some existing ∧ existing.kind = details.kind ∧
            changed = registry.modifyObject id init) ∨
          (registry.lookup? (joinPath parent.path details.separator name) = none ∧
            id = ⟨registry.objects.size⟩ ∧
            changed = registry.addObject owner (joinPath parent.path details.separator name)
              (init { name, path := joinPath parent.path details.separator name,
                      owner := some owner, details }))) := by
  unfold registerWith
  constructor
  · intro hok
    cases hparent : registry.namespaceAt owner with
    | error error => simp [hparent] at hok
    | ok parent =>
      obtain ⟨hget, hnamespace⟩ := namespaceAt_eq_ok_iff.1 hparent
      refine ⟨parent, hget, hnamespace, ?_⟩
      simp only [hparent] at hok
      cases hlookup : registry.lookup? (joinPath parent.path details.separator name) with
      | none =>
        simp only [hlookup, Except.ok.injEq, Prod.mk.injEq] at hok
        exact .inr ⟨rfl, hok.1.symm, hok.2.symm⟩
      | some found =>
        simp only [hlookup] at hok
        cases hfound : registry.get? found with
        | none => simp [hfound] at hok
        | some existing =>
          simp only [hfound] at hok
          split at hok
          · rename_i hkind
            obtain ⟨rfl, rfl⟩ : found = id ∧ registry.modifyObject found init = changed := by
              simpa using hok
            exact .inl ⟨existing, rfl, hfound, hkind, rfl⟩
          · cases hok
  · rintro ⟨parent, hget, hnamespace, hcases⟩
    have hparent : registry.namespaceAt owner = .ok parent :=
      namespaceAt_eq_ok_iff.2 ⟨hget, hnamespace⟩
    rcases hcases with ⟨existing, hlookup, hfound, hkind, rfl⟩ | ⟨hlookup, rfl, rfl⟩
    · simp [hparent, hlookup, hfound, hkind]
    · simp [hparent, hlookup]

/-- Registers an object under an owner, or reopens the one at its path, and revises it. -/
def register (registry : Registry) (owner : ObjectId) (name : String) (details : Details)
    (revision : Revision) : Except RegistryError (ObjectId × Registry) :=
  registry.registerWith owner name details revision.apply

end RubyIndex.Registry
