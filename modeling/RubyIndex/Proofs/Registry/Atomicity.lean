import RubyIndex.Proofs.Registry.Reachable
import RubyIndex.Proofs.Registry.Refusals

/-! # Refused requests leave no trace

A registration changes the objects, the path index and the children of the owner; a new local scope
changes the names that the owner has given out, the scopes, and the children of the scope that it
hangs off. These are changes in a row, and nothing takes one of them back. A refusal leaves no trace
only because all that a request can be refused for is checked before its first change.

* `Edit.registerInSteps` and `Edit.newLocalScopeInSteps` make the requests check by check and change
  by change; `Edit.registerInSteps_eq` and `Edit.newLocalScopeInSteps_eq` say that they are the
  requests that are made or refused as a whole.
* `Edit.Whole` is what such requests have in common.
* `Request.answers` is a run of requests, in which a refusal does not keep the next request from
  being made; `Request.answers_accepted` says that the refused ones make no difference to it.
* `Reachable.refusals`: when a reachable registry refuses a request, with which error, and that
  nothing else comes of it. -/

namespace RubyIndex

/-! ## Requests step by step -/

namespace Edit

variable {α β : Type}

/-- A change, which is made whatever the registry is like. -/
def change (update : Registry → Registry) : Edit Unit := fun registry => (.ok (), update registry)

/-- A check, which changes nothing. -/
def check (found : Registry → Except RegistryError α) : Edit α := fun registry =>
  (found registry, registry)

/-- A refusal. What has been changed before it stays changed. -/
def refuse (error : RegistryError) : Edit α := fun registry => (.error error, registry)

theorem apply_read_bind (next : Registry → Edit β) (registry : Registry) :
    (read >>= next).apply registry = (next registry).apply registry := rfl

/-- What follows a check is not reached if the check fails. -/
theorem apply_check_bind (found : Registry → Except RegistryError α) (next : α → Edit β)
    (registry : Registry) :
    (check found >>= next).apply registry =
      match found registry with
      | .ok value => (next value).apply registry
      | .error error => (.error error, registry) := by
  have hcheck : (check found).apply registry = (found registry, registry) := rfl
  rw [apply_bind, hcheck]
  cases found registry <;> rfl

/-- **A registration in steps**: the owner is checked, then the kind of what is at the path. Only then
the object is changed, or else added, entered in the index and entered among the children of the
owner. -/
def registerInSteps (owner : ObjectId) (name : String) (details : Details)
    (init : CodeObject → CodeObject) : Edit ObjectId := do
  let parent ← check (·.namespaceAt owner)
  let path := joinPath parent.path details.separator name
  match (← read).lookup? path with
  | some id =>
      match (← read).get? id with
      | none => refuse (.unknownObject id)
      | some existing =>
          if existing.kind = details.kind then
            change (·.modifyObject id init)
            return id
          else refuse (.kindMismatch path existing.kind details.kind)
  | none =>
      let added : ObjectId := ⟨(← read).objects.size⟩
      let object := init { name, path, owner := some owner, details }
      change fun registry => { registry with objects := registry.objects.push object }
      change fun registry => { registry with index := registry.index.insert path added }
      change (·.modifyObject owner (·.addChild added))
      return added

/-- **A local scope in steps**: the anchor is checked, then the owner. Only then the owner gives out
the name, the scope is added, and it is entered among the children of the scope it hangs off. -/
def newLocalScopeInSteps (owner : ObjectId) (name : Option String) (anchor : ScopeAnchor) :
    Edit ScopeId := do
  check (·.checkAnchor anchor)
  let added : ScopeId := ⟨(← read).scopes.size⟩
  let object ← check (·.namespaceAt owner)
  let requested := name.getD ""
  let stored := (object.scopeNames?.getD {}).next requested
  change (·.modifyObject owner (Registry.recordScope requested added))
  change fun registry =>
    { registry with scopes := registry.scopes.push { name := stored, anchor } }
  match anchor with
  | .namespace _ => return added
  | .scope around =>
      change fun registry =>
        { registry with
          scopes := registry.scopes.modify around.index fun enclosing =>
            { enclosing with children := enclosing.children ++ [added] } }
      return added

/-- The steps of a registration are made together or not at all. -/
theorem registerInSteps_eq (owner : ObjectId) (name : String) (details : Details)
    (init : CodeObject → CodeObject) :
    registerInSteps owner name details init =
      attempt fun registry => registry.registerWith owner name details init := by
  funext registry
  show (registerInSteps owner name details init).apply registry = (attempt _).apply registry
  rw [apply_attempt, registerInSteps, apply_check_bind, Registry.registerWith]
  cases registry.namespaceAt owner with
  | error error => rfl
  | ok parent =>
    dsimp only
    rw [apply_read_bind]
    cases registry.lookup? (joinPath parent.path details.separator name) with
    | none =>
      -- the object, the index and the owner are changed in the order in which `addObject` does it
      rfl
    | some id =>
      dsimp only
      rw [apply_read_bind]
      cases registry.get? id with
      | none => rfl
      | some existing =>
        dsimp only
        split
        · rfl
        · rfl

/-- The steps of a new local scope are made together or not at all. -/
theorem newLocalScopeInSteps_eq (owner : ObjectId) (name : Option String) (anchor : ScopeAnchor) :
    newLocalScopeInSteps owner name anchor = newLocalScope owner name anchor := by
  funext registry
  show (newLocalScopeInSteps owner name anchor).apply registry = (attempt _).apply registry
  rw [apply_attempt, newLocalScopeInSteps, apply_check_bind, Registry.newLocalScope]
  cases registry.checkAnchor anchor with
  | error error => rfl
  | ok checked =>
    dsimp only
    rw [apply_read_bind, apply_check_bind]
    cases registry.namespaceAt owner with
    | error error => rfl
    | ok object =>
      dsimp only
      -- only a scope that it hangs off lists the new one
      cases anchor with
      | «namespace» holder => rfl
      | scope around => rfl

/-! ## Edits without traces -/

/-- **An edit that is made as a whole** or refused as a whole: if it is refused, the registry is as it
was. -/
def Whole (edit : Edit α) : Prop :=
  ∀ registry error changed, edit.apply registry = (.error error, changed) → changed = registry

/-- A request that is made or refused as a whole is refused with the error that it fails with. -/
theorem attempt_eq_error_iff {change : Registry → Except RegistryError (α × Registry)}
    {registry changed : Registry} {error : RegistryError} :
    (attempt change).apply registry = (.error error, changed) ↔
      change registry = .error error ∧ changed = registry := by
  rw [apply_attempt]
  cases change registry with
  | ok made => simp
  | error fault => simp [eq_comm]

theorem Whole.attempt (change : Registry → Except RegistryError (α × Registry)) :
    Whole (Edit.attempt change) :=
  fun _ _ _ hrefused => (attempt_eq_error_iff.1 hrefused).2

/-- What is made of the value comes after all changes. -/
theorem Whole.map {edit : Edit α} (hwhole : Whole edit) (function : α → β) :
    Whole (edit >>= fun value => pure (function value)) := by
  intro registry error changed hrefused
  rw [apply_bind] at hrefused
  rcases hresult : edit.apply registry with ⟨fault | value, left⟩
  · rw [hresult] at hrefused
    obtain ⟨-, rfl⟩ := Prod.mk.inj hrefused
    exact hwhole registry fault left hresult
  · rw [hresult] at hrefused
    cases hrefused

theorem whole_registerInSteps (owner : ObjectId) (name : String) (details : Details)
    (init : CodeObject → CodeObject) : Whole (registerInSteps owner name details init) :=
  registerInSteps_eq owner name details init ▸ .attempt _

theorem whole_newLocalScopeInSteps (owner : ObjectId) (name : Option String)
    (anchor : ScopeAnchor) : Whole (newLocalScopeInSteps owner name anchor) :=
  newLocalScopeInSteps_eq owner name anchor ▸ .attempt _

end Edit

/-! ## Runs of requests -/

/-- A request for an object or for a local scope. -/
inductive Request where
  | object (owner : ObjectId) (name : String) (details : Details)
      (init : CodeObject → CodeObject)
  | scope (owner : ObjectId) (name : Option String) (anchor : ScopeAnchor)

namespace Request

/-- Makes a request, which is answered with the number of the object or of the scope. -/
def make : Request → Edit (ObjectId ⊕ ScopeId)
  | .object owner name details init =>
      return .inl (← Edit.registerInSteps owner name details init)
  | .scope owner name anchor => return .inr (← Edit.newLocalScopeInSteps owner name anchor)

theorem whole_make (request : Request) : Edit.Whole request.make := by
  cases request with
  | object owner name details init =>
    exact Edit.Whole.map (Edit.whole_registerInSteps owner name details init) Sum.inl
  | scope owner name anchor =>
    exact Edit.Whole.map (Edit.whole_newLocalScopeInSteps owner name anchor) Sum.inr

/-- **A run of requests**: the answers to requests that are made one after the other, whether or not
the ones before were refused, and the registry that they leave. -/
def answers : List Request → Registry → List (Except RegistryError (ObjectId ⊕ ScopeId)) × Registry
  | [], registry => ([], registry)
  | request :: rest, registry =>
      let made := request.make.apply registry
      let further := answers rest made.2
      (made.1 :: further.1, further.2)

/-- The requests of a run that are not refused. -/
def accepted : List Request → Registry → List Request
  | [], _ => []
  | request :: rest, registry =>
      let made := request.make.apply registry
      if made.1.isOk then request :: accepted rest made.2 else accepted rest made.2

/-- **Refused requests make no difference**: without them, a run has the same answers to the other
requests, and leaves the same registry. -/
theorem answers_accepted (requests : List Request) (registry : Registry) :
    answers (accepted requests registry) registry =
      ((answers requests registry).1.filter (·.isOk), (answers requests registry).2) := by
  induction requests generalizing registry with
  | nil => rfl
  | cons request rest ih =>
    rcases hmade : request.make.apply registry with ⟨error | answer, changed⟩
    · -- the next request meets the registry that this one met
      obtain rfl := request.whole_make registry error changed hmade
      simpa [accepted, answers, hmade, Except.isOk, Except.toBool] using ih changed
    · simp [accepted, answers, hmade, Except.isOk, Except.toBool, ih changed]

end Request

/-! ## Reachable registries -/

namespace Registry

/-- **How a registry refuses requests.** -/
structure Refusals (registry : Registry) : Prop where
  /-- A registration is refused if and only if there is a cause; the error names it, and the registry
  is as it was. -/
  object_iff : ∀ owner name details init error changed,
    (Edit.registerInSteps owner name details init).apply registry = (.error error, changed) ↔
      registry.RefusesObject owner name details error ∧ changed = registry
  /-- A local scope is refused if and only if there is a cause; the error names it, and the registry
  is as it was. -/
  scope_iff : ∀ owner name anchor error changed,
    (Edit.newLocalScopeInSteps owner name anchor).apply registry = (.error error, changed) ↔
      registry.RefusesScope owner anchor error ∧ changed = registry
  /-- The steps of a registration are those of a registration as a whole. -/
  object_eq : ∀ owner name details init,
    (Edit.registerInSteps owner name details init).apply registry =
      (Edit.attempt fun registry => registry.registerWith owner name details init).apply registry
  /-- The steps of a new local scope are those of a new local scope as a whole. -/
  scope_eq : ∀ owner name anchor,
    (Edit.newLocalScopeInSteps owner name anchor).apply registry =
      (Edit.newLocalScope owner name anchor).apply registry
  /-- In a run of further requests, those that are refused make no difference to the answers to the
  others and to what is left. -/
  answers_eq : ∀ requests,
    Request.answers (Request.accepted requests registry) registry =
      ((Request.answers requests registry).1.filter (·.isOk), (Request.answers requests registry).2)

/-- **Refusals.** A reachable registry refuses a request for an object or a local scope if and only if
something is wrong with what the request names. The error says what it is, and nothing in the
registry has changed, so all that follows goes as if the request had not been made. -/
theorem Reachable.refusals {registry : Registry} (hreach : Reachable registry) :
    Refusals registry where
  object_iff owner name details init error changed := by
    rw [Edit.registerInSteps_eq, Edit.attempt_eq_error_iff,
      hreach.wellFormed.registerWith_eq_error_iff]
  scope_iff owner name anchor error changed := by
    rw [Edit.newLocalScopeInSteps_eq, Edit.newLocalScope, Edit.attempt_eq_error_iff,
      newLocalScope_eq_error_iff]
  object_eq owner name details init := by rw [Edit.registerInSteps_eq]
  scope_eq owner name anchor := by rw [Edit.newLocalScopeInSteps_eq]
  answers_eq requests := Request.answers_accepted requests registry

/-- A method is asked to own a scope: that is refused, and the scope that is asked for next gets the
number and the name that it would have got anyway. -/
theorem Reachable.refusals_between :
    let registry := ((Edit.attempt fun registry =>
      registry.registerWith .root "m" (.newMethod .anInstance) id).apply .empty).2
    let refused : Request := .scope ⟨1⟩ (some "x") (.namespace .root)
    let made : Request := .scope .root (some "x") (.namespace .root)
    (Edit.newLocalScopeInSteps ⟨1⟩ (some "x") (.namespace .root)).apply registry =
        (.error (.notANamespace "m"), registry) ∧
      (Request.answers [refused, made] registry).1 =
        [.error (.notANamespace "m"), .ok (.inr ⟨0⟩)] ∧
      Request.accepted [refused, made] registry = [made] ∧
      ((Request.answers [made] registry).2.scope? ⟨0⟩).map (·.name) = some "x_local_0" ∧
      (Request.answers [made] registry).2 = (Request.answers [refused, made] registry).2 := by
  intro registry refused made
  have hreach : Reachable registry := .registerWith _ _ _ (fun _ => rfl) .empty
  have hrefusals := Reachable.refusals hreach
  have hrefused : registry.RefusesScope ⟨1⟩ (.namespace .root) (.notANamespace "m") := by
    have herror : registry.newLocalScope ⟨1⟩ (some "x") (.namespace .root) =
        .error (.notANamespace "m") := rfl
    exact newLocalScope_eq_error_iff.1 herror
  have haccepted : Request.accepted [refused, made] registry = [made] := rfl
  refine ⟨(hrefusals.scope_iff _ _ _ _ _).2 ⟨hrefused, rfl⟩, rfl, haccepted,
    by decide +kernel, ?_⟩
  have hanswers := hrefusals.answers_eq [refused, made]
  rw [haccepted] at hanswers
  exact (Prod.mk.inj hanswers).2

end Registry

end RubyIndex
