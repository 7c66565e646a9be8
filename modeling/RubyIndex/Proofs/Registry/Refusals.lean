import RubyIndex.Proofs.Registry.WellFormed

/-! # Causes of refusals

A registry refuses a request for something that is wrong with what the request names: an object that
is unknown or no namespace, a scope that is unknown, or a path at which an object of another kind is.
Each cause is reported with an error of its own, and where there is more than one cause the first
that is listed here is reported.

* `Registry.NoNamespace`, `Registry.RefusesObject` and `Registry.RefusesScope` are the causes with
  their errors.
* `WellFormed.registerWith_eq_error_iff` and `newLocalScope_eq_error_iff` say that a request is
  refused if and only if there is a cause. -/

namespace RubyIndex.Registry

variable {registry : Registry}

/-! ## The causes -/

/-- **Why an object is no namespace**: it is unknown, or it is of another kind. -/
inductive NoNamespace (registry : Registry) (id : ObjectId) : RegistryError → Prop where
  | unknown (hget : registry.get? id = none) : NoNamespace registry id (.unknownObject id)
  | ofOtherKind {object : CodeObject} (hget : registry.get? id = some object)
      (hkind : object.isNamespace = false) : NoNamespace registry id (.notANamespace object.path)

/-- **Why a registration is refused**: its owner is no namespace, or its path is taken by an object
of another kind. -/
inductive RefusesObject (registry : Registry) (owner : ObjectId) (name : String)
    (details : Details) : RegistryError → Prop where
  | owner {error : RegistryError} (howner : registry.NoNamespace owner error) :
      RefusesObject registry owner name details error
  | kind {parent existing : CodeObject} (hparent : registry.get? owner = some parent)
      (hnamespace : parent.isNamespace = true)
      (htaken : registry.at? (joinPath parent.path details.separator name) = some existing)
      (hkind : existing.kind ≠ details.kind) :
      RefusesObject registry owner name details
        (.kindMismatch (joinPath parent.path details.separator name) existing.kind details.kind)

/-- Why nothing hangs off an anchor: it is an unknown scope, or no namespace. -/
inductive NoAnchor (registry : Registry) : ScopeAnchor → RegistryError → Prop where
  | scope {around : ScopeId} (hscope : registry.scope? around = none) :
      NoAnchor registry (.scope around) (.unknownScope around)
  | «namespace» {holder : ObjectId} {error : RegistryError}
      (hholder : registry.NoNamespace holder error) : NoAnchor registry (.namespace holder) error

/-- **Why a local scope is refused**: nothing hangs off its anchor, or else its owner is no
namespace. -/
inductive RefusesScope (registry : Registry) (owner : ObjectId) (anchor : ScopeAnchor) :
    RegistryError → Prop where
  | anchor {error : RegistryError} (hanchor : registry.NoAnchor anchor error) :
      RefusesScope registry owner anchor error
  | owner {error : RegistryError} (hanchor : ∀ fault, ¬ registry.NoAnchor anchor fault)
      (howner : registry.NoNamespace owner error) : RefusesScope registry owner anchor error

/-! ## Checks -/

/-- A namespace is not found for one of the causes. -/
theorem namespaceAt_eq_error_iff {id : ObjectId} {error : RegistryError} :
    registry.namespaceAt id = .error error ↔ registry.NoNamespace id error := by
  constructor
  · intro herror
    unfold namespaceAt at herror
    cases hget : registry.get? id with
    | none =>
      rw [hget] at herror
      obtain rfl := Except.error.inj herror
      exact .unknown hget
    | some object =>
      rw [hget] at herror
      dsimp only at herror
      split at herror
      · cases herror
      · rename_i hkind
        obtain rfl := Except.error.inj herror
        exact .ofOtherKind hget (Bool.eq_false_iff.2 hkind)
  · rintro (hget | ⟨hget, hkind⟩)
    · rw [namespaceAt, hget]
    · rw [namespaceAt, hget]
      exact if_neg (Bool.eq_false_iff.1 hkind)

/-- An anchor does not pass its check for one of the causes. -/
theorem checkAnchor_eq_error_iff {anchor : ScopeAnchor} {error : RegistryError} :
    registry.checkAnchor anchor = .error error ↔ registry.NoAnchor anchor error := by
  cases anchor with
  | scope around =>
    rw [checkAnchor]
    constructor
    · intro herror
      split at herror
      · cases herror
      · rename_i hunknown
        obtain rfl := Except.error.inj herror
        exact .scope (Option.not_isSome_iff_eq_none.1 hunknown)
    · rintro (hscope | -)
      rw [hscope]
      rfl
  | «namespace» holder =>
    have hcheck : registry.checkAnchor (.namespace holder) = .error error ↔
        registry.namespaceAt holder = .error error := by
      rw [checkAnchor]
      cases registry.namespaceAt holder <;> simp [Except.map]
    rw [hcheck, namespaceAt_eq_error_iff]
    exact ⟨.namespace, fun | .namespace hholder => hholder⟩

/-! ## Requests -/

/-- **A registration is refused** if and only if there is a cause, and the error names it. -/
theorem WellFormed.registerWith_eq_error_iff (hwell : WellFormed registry) {owner : ObjectId}
    {name : String} {details : Details} {init : CodeObject → CodeObject} {error : RegistryError} :
    registry.registerWith owner name details init = .error error ↔
      registry.RefusesObject owner name details error := by
  constructor
  · intro herror
    unfold Registry.registerWith at herror
    cases howner : registry.namespaceAt owner with
    | error fault =>
      rw [howner] at herror
      obtain rfl := Except.error.inj herror
      exact .owner (namespaceAt_eq_error_iff.1 howner)
    | ok parent =>
      obtain ⟨hparent, hnamespace⟩ := namespaceAt_eq_ok_iff.1 howner
      rw [howner] at herror
      dsimp only at herror
      cases hlookup : registry.lookup? (joinPath parent.path details.separator name) with
      | none =>
        rw [hlookup] at herror
        cases herror
      | some id =>
        rw [hlookup] at herror
        -- the path index leads to an object that there is
        obtain ⟨-, hlisted⟩ := hwell.lookup?_eq_some_iff.1 hlookup
        obtain ⟨existing, hget, -⟩ := Option.map_eq_some_iff.1 hlisted
        simp only [hget] at herror
        split at herror
        · cases herror
        · rename_i hkind
          obtain rfl := Except.error.inj herror
          exact .kind hparent hnamespace (by rw [at?, hlookup, Option.bind_some, hget]) hkind
  · rintro (howner | ⟨hparent, hnamespace, htaken, hkind⟩)
    · rw [Registry.registerWith, namespaceAt_eq_error_iff.2 howner]
    · obtain ⟨id, hlookup, hget⟩ := Option.bind_eq_some_iff.1 htaken
      rw [Registry.registerWith, namespaceAt_eq_ok_iff.2 ⟨hparent, hnamespace⟩]
      simp only [hlookup, hget]
      exact if_neg hkind

/-- **A local scope is refused** if and only if there is a cause, and the error names it. -/
theorem newLocalScope_eq_error_iff {owner : ObjectId} {name : Option String}
    {anchor : ScopeAnchor} {error : RegistryError} :
    registry.newLocalScope owner name anchor = .error error ↔
      registry.RefusesScope owner anchor error := by
  constructor
  · intro herror
    unfold newLocalScope at herror
    split at herror
    · rename_i fault hanchor
      obtain rfl := Except.error.inj herror
      exact .anchor (checkAnchor_eq_error_iff.1 hanchor)
    · rename_i fault hanchor howner
      obtain rfl := Except.error.inj herror
      -- the anchor is checked first, so a fault of the owner shows only if the anchor has none
      refine .owner (fun other hother => ?_) (namespaceAt_eq_error_iff.1 howner)
      cases hanchor.symm.trans (checkAnchor_eq_error_iff.2 hother)
    · cases herror
  · rintro (hanchor | ⟨hanchor, howner⟩)
    · rw [newLocalScope, checkAnchor_eq_error_iff.2 hanchor]
    · rw [newLocalScope, namespaceAt_eq_error_iff.2 howner]
      cases hcheck : registry.checkAnchor anchor with
      | error fault => exact absurd (checkAnchor_eq_error_iff.1 hcheck) (hanchor fault)
      | ok checked => rfl

end RubyIndex.Registry
