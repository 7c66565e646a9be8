import RubyIndex.Proofs.Registry.Growth
import RubyIndex.Proofs.Registry.Outcome
import RubyIndex.Proofs.Registry.ScopeNames

/-! # How local scopes hang together

A local scope is written down in three places: among the requests of the namespace that names it,
in the scope itself, and among the children of the scope that it hangs off. The three agree as long
as a scope hangs off the namespace that names it, or off a scope that this namespace has named
before.

* `Registry.KeepsScopes` says that local scopes have only been added.
* `Registry.Linked` is what holds of the scopes and the lists of children after any requests.
* `Registry.Scoped` is the whole invariant, and `Registry.Hangs` what a request for a scope has to
  observe.
* `Registry.GainsScope` is all that such a request changes.
* `Scoped.registerWith` and `Scoped.gainsScope` are the two ways in which it is kept. -/

namespace RubyIndex

/-! ## Requests for scopes -/

/-- The requests for local scopes that an object has answered; only namespaces answer any. -/
def CodeObject.scopeRequests (object : CodeObject) : List (String × ScopeId) :=
  (object.scopeNames?.getD {}).requests

/-- A revising initialisation leaves the requests of an object alone. -/
theorem RevisesOnly.scopeRequests {init : CodeObject → CodeObject} (hinit : RevisesOnly init)
    (object : CodeObject) : (init object).scopeRequests = object.scopeRequests := by
  have hunrevised : ∀ object : CodeObject,
      object.unrevised.scopeRequests = object.scopeRequests := by
    intro object
    unfold CodeObject.unrevised CodeObject.scopeRequests CodeObject.scopeNames?
    cases object.details <;> rfl
  rw [← hunrevised, hinit object, hunrevised]

/-- A namespace names a scope after those that it has named before. -/
theorem Registry.scopeRequests_recordScope (requested : String) (scope : ScopeId)
    (object : CodeObject) :
    object.scopeRequests <+: (recordScope requested scope object).scopeRequests := by
  unfold recordScope CodeObject.scopeRequests CodeObject.scopeNames?
  cases hdetails : object.details with
  | «namespace» flavor superclass scopes => exact List.prefix_append _ _
  | _ =>
    simp only [hdetails]
    exact List.prefix_rfl

namespace Registry

/-- **Local scopes are only added**: behind those that there are, among the children of scopes, and
among those that namespaces have named. -/
structure KeepsScopes (before after : Registry) : Prop where
  scopes : ∀ {id scope}, before.scope? id = some scope →
    ∃ later, after.scope? id = some later ∧ later.name = scope.name ∧
      later.anchor = scope.anchor ∧ scope.children <+: later.children
  requests : ∀ {id object}, before.get? id = some object →
    ∃ later, after.get? id = some later ∧ object.scopeRequests <+: later.scopeRequests

namespace KeepsScopes

variable {registry first second third : Registry}

@[refl] theorem refl (registry : Registry) : registry.KeepsScopes registry :=
  ⟨fun {_ scope} hscope => ⟨scope, hscope, rfl, rfl, List.prefix_rfl⟩,
    fun {_ object} hget => ⟨object, hget, List.prefix_rfl⟩⟩

theorem trans (hfirst : first.KeepsScopes second) (hsecond : second.KeepsScopes third) :
    first.KeepsScopes third := by
  constructor
  · intro id scope hscope
    obtain ⟨middle, hmiddle, hname, hanchor, hchildren⟩ := hfirst.scopes hscope
    obtain ⟨later, hlater, hlaterName, hlaterAnchor, hlaterChildren⟩ := hsecond.scopes hmiddle
    exact ⟨later, hlater, hlaterName.trans hname, hlaterAnchor.trans hanchor,
      hchildren.trans hlaterChildren⟩
  · intro id object hget
    obtain ⟨middle, hmiddle, hrequests⟩ := hfirst.requests hget
    obtain ⟨later, hlater, hlaterRequests⟩ := hsecond.requests hmiddle
    exact ⟨later, hlater, hrequests.trans hlaterRequests⟩

/-- A change of one object that keeps the scopes it has named. -/
theorem modifyObject (registry : Registry) (id : ObjectId) {change : CodeObject → CodeObject}
    (hchange : ∀ object, object.scopeRequests <+: (change object).scopeRequests) :
    registry.KeepsScopes (registry.modifyObject id change) := by
  refine ⟨fun {_ scope} hscope => ⟨scope, hscope, rfl, rfl, List.prefix_rfl⟩, ?_⟩
  intro other object hget
  rw [get?_modifyObject, hget]
  split
  · exact ⟨change object, rfl, hchange object⟩
  · exact ⟨object, rfl, List.prefix_rfl⟩

/-- A new object. -/
theorem addObject (registry : Registry) (owner : ObjectId) (path : String) (object : CodeObject) :
    registry.KeepsScopes (registry.addObject owner path object) := by
  refine ⟨fun {_ scope} hscope => ⟨scope, hscope, rfl, rfl, List.prefix_rfl⟩, ?_⟩
  intro id found hget
  rw [get?_addObject_of_lt registry owner path object (index_lt_of_get? hget), hget,
    Option.map_some]
  refine ⟨_, rfl, ?_⟩
  split
  · exact List.prefix_rfl
  · exact List.prefix_rfl

/-- A new scope. -/
theorem addScope (registry : Registry) (scope : LocalScope) :
    registry.KeepsScopes (registry.addScope scope) := by
  constructor
  · intro id found hfound
    have hpushed : (registry.scopes.push scope)[id.index]? = some found := by
      rw [Array.getElem?_push_lt (isSome_scope?_iff.1 (by rw [hfound]; rfl))]
      rw [scope?, Array.getElem?_eq_some_iff] at hfound
      exact congrArg some hfound.2
    unfold Registry.addScope scope?
    cases scope.anchor with
    | «namespace» anchor => exact ⟨found, hpushed, rfl, rfl, List.prefix_rfl⟩
    | scope anchor =>
      -- the scope that the new one hangs off has a child more
      rw [Array.getElem?_modify, hpushed]
      split
      · exact ⟨_, rfl, rfl, rfl, List.prefix_append _ _⟩
      · exact ⟨found, rfl, rfl, rfl, List.prefix_rfl⟩
  · intro id object hget
    refine ⟨object, ?_, List.prefix_rfl⟩
    rw [← hget, get?, get?, objects_addScope]

end KeepsScopes

/-- The requests for local scopes that the object with the given identity has answered. -/
def requestsOf (registry : Registry) (owner : ObjectId) : List (String × ScopeId) :=
  ((registry.get? owner).map (·.scopeRequests)).getD []

/-- **Naming.** An object has named a scope if the scope is the answer to one of its requests. -/
def HasNamed (registry : Registry) (owner : ObjectId) (scope : ScopeId) : Prop :=
  scope ∈ (registry.requestsOf owner).map (·.2)

theorem requestsOf_of_get? {registry : Registry} {owner : ObjectId} {object : CodeObject}
    (hget : registry.get? owner = some object) :
    registry.requestsOf owner = object.scopeRequests := by
  rw [requestsOf, hget]
  rfl

/-- Who has answered a request has named the answer. -/
theorem hasNamed_of_getElem? {registry : Registry} {owner : ObjectId} {place : Nat}
    {requested : String} {id : ScopeId}
    (hrequest : (registry.requestsOf owner)[place]? = some (requested, id)) :
    registry.HasNamed owner id :=
  List.mem_map.2 ⟨_, List.mem_of_getElem? hrequest, rfl⟩

theorem index_lt_of_scope? {registry : Registry} {id : ScopeId} {scope : LocalScope}
    (hscope : registry.scope? id = some scope) : id.index < registry.scopes.size :=
  isSome_scope?_iff.1 (by rw [hscope]; rfl)

/-- **Induction on the way outwards.** Where scopes hang off earlier ones only, what holds of those
that hang off a namespace, and of any other if it holds of the scope around, holds of all. -/
theorem outwards_induction {registry : Registry}
    (hlater : ∀ {id scope around}, registry.scope? id = some scope →
      scope.anchor = .scope around → around.index < id.index)
    {motive : ∀ id scope, registry.scope? id = some scope → Prop}
    (offNamespace : ∀ id scope owner (hscope : registry.scope? id = some scope),
      scope.anchor = .namespace owner → motive id scope hscope)
    (offScope : ∀ id scope around outer (hscope : registry.scope? id = some scope)
      (houter : registry.scope? around = some outer), scope.anchor = .scope around →
      around.index < id.index → motive around outer houter → motive id scope hscope)
    (id : ScopeId) (scope : LocalScope) (hscope : registry.scope? id = some scope) :
    motive id scope hscope := by
  induction hindex : id.index using Nat.strong_induction_on generalizing id scope with
  | _ index ih =>
    subst hindex
    cases hanchor : scope.anchor with
    | «namespace» owner => exact offNamespace id scope owner hscope hanchor
    | scope around =>
      have hearlier := hlater hscope hanchor
      obtain ⟨outer, houter⟩ := Option.isSome_iff_exists.1
        (isSome_scope?_iff.2 (Nat.lt_trans hearlier (index_lt_of_scope? hscope)))
      exact offScope id scope around outer hscope houter hanchor hearlier
        (ih _ hearlier around outer houter rfl)

/-- Requests are only added to those that there are. -/
theorem KeepsScopes.requestsOf {before after : Registry} (hkeeps : before.KeepsScopes after)
    (owner : ObjectId) : before.requestsOf owner <+: after.requestsOf owner := by
  cases hget : before.get? owner with
  | none =>
    rw [Registry.requestsOf, hget]
    exact List.nil_prefix
  | some object =>
    obtain ⟨later, hlater, hrequests⟩ := hkeeps.requests hget
    rwa [requestsOf_of_get? hget, requestsOf_of_get? hlater]

theorem KeepsScopes.hasNamed {before after : Registry} (hkeeps : before.KeepsScopes after)
    {owner : ObjectId} {scope : ScopeId} (hnamed : before.HasNamed owner scope) :
    after.HasNamed owner scope :=
  ((hkeeps.requestsOf owner).map _).subset hnamed

/-! ## The invariants -/

/-- **Linked scopes.** A scope hangs off an earlier one, and is listed there. -/
structure Linked (registry : Registry) : Prop where
  /-- A scope that hangs off another is the later one. -/
  later : ∀ {id scope around}, registry.scope? id = some scope → scope.anchor = .scope around →
    around.index < id.index
  /-- The children of a scope are the scopes that hang off it. -/
  children : ∀ {id scope}, registry.scope? id = some scope → ∀ child,
    child ∈ scope.children ↔ (registry.scope? child).map (·.anchor) = some (.scope id)
  /-- Children are listed in the order of their creation. -/
  increasing : ∀ {id scope}, registry.scope? id = some scope →
    scope.children.Pairwise fun first second => first.index < second.index

/-- What does not change scopes keeps the links. -/
theorem Linked.ofSame {registry changed : Registry} (hlinked : Linked registry)
    (hscopes : changed.scopes = registry.scopes) : Linked changed := by
  have hscope : ∀ id, changed.scope? id = registry.scope? id := fun id => by
    rw [scope?, scope?, hscopes]
  refine ⟨fun hfound => hlinked.later (hscope _ ▸ hfound), fun hfound child => ?_,
    fun hfound => hlinked.increasing (hscope _ ▸ hfound)⟩
  rw [hscope child]
  exact hlinked.children (hscope _ ▸ hfound) child

/-- **Where a scope hangs.** The scope of the body of a namespace hangs off the namespace that names
it, which is asked for no name; that of the body of a method hangs off a scope of the same
namespace, and the name of the method is asked for. -/
inductive Hangs (registry : Registry) (owner : ObjectId) : String → ScopeAnchor → Prop where
  | offNamespace : Hangs registry owner "" (.namespace owner)
  | offScope {name : String} {around : ScopeId} (hname : Syntax.IsMethodName name)
      (haround : registry.HasNamed owner around) : Hangs registry owner name (.scope around)

/-- Where a scope hangs depends on what the owner has named. -/
theorem Hangs.imp {before after : Registry} {owner : ObjectId}
    (hnamed : ∀ scope, before.HasNamed owner scope → after.HasNamed owner scope) {name : String}
    {anchor : ScopeAnchor} (hhangs : before.Hangs owner name anchor) :
    after.Hangs owner name anchor := by
  cases hhangs with
  | offNamespace => exact .offNamespace
  | offScope hname haround => exact .offScope hname (hnamed _ haround)

/-- **Scopes that agree** with the requests that they answer and with the lists of children. -/
structure Scoped (registry : Registry) : Prop where
  /-- Every scope answers some request of an object, under the name that this request stores, and
  hangs where it has to. -/
  named : ∀ {id scope}, registry.scope? id = some scope → ∃ owner place requested,
    (registry.requestsOf owner)[place]? = some (requested, id) ∧
      scope.name = (⟨(registry.requestsOf owner).take place⟩ : ScopeNames).next requested ∧
      registry.Hangs owner requested scope.anchor
  /-- A scope that hangs off another is the later one. -/
  later : ∀ {id scope around}, registry.scope? id = some scope → scope.anchor = .scope around →
    around.index < id.index
  /-- No scope answers two requests. -/
  once : ∀ {id : ScopeId} {owner other : ObjectId} {place number : Nat} {requested again : String},
    (registry.requestsOf owner)[place]? = some (requested, id) →
    (registry.requestsOf other)[number]? = some (again, id) → owner = other ∧ place = number
  /-- What answers a request is a scope. -/
  known : ∀ {owner id}, registry.HasNamed owner id → id.index < registry.scopes.size
  /-- The children of a scope are the scopes that hang off it. -/
  children : ∀ {id scope}, registry.scope? id = some scope → ∀ child,
    child ∈ scope.children ↔ (registry.scope? child).map (·.anchor) = some (.scope id)
  /-- Children are listed in the order of their creation. -/
  increasing : ∀ {id scope}, registry.scope? id = some scope →
    scope.children.Pairwise fun first second => first.index < second.index

theorem Scoped.linked {registry : Registry} (hscoped : Scoped registry) : Linked registry :=
  ⟨hscoped.later, hscoped.children, hscoped.increasing⟩

/-- The empty registry has no scopes. -/
theorem scoped_empty : Scoped empty := by
  have hnone : ∀ id, empty.scope? id = none := fun id => by simp [empty, scope?]
  have hrequests : ∀ owner, empty.requestsOf owner = [] := by
    intro owner
    cases hget : empty.get? owner with
    | none => rw [Registry.requestsOf, hget]; rfl
    | some object =>
      obtain ⟨rfl⟩ : owner = .root := by
        have hlt : owner.index < 1 := index_lt_of_get? hget
        obtain ⟨index⟩ := owner
        obtain rfl : index = 0 := by simpa using hlt
        rfl
      rfl
  refine ⟨?_, ?_, ?_, ?_, ?_, ?_⟩
  · intro id scope hscope
    cases (hnone id).symm.trans hscope
  · intro id scope around hscope
    cases (hnone id).symm.trans hscope
  · intro id owner other place number requested again hrequest
    rw [hrequests, List.getElem?_nil] at hrequest
    cases hrequest
  · intro owner id hnamed
    rw [HasNamed, hrequests] at hnamed
    cases hnamed
  · intro id scope hscope
    cases (hnone id).symm.trans hscope
  · intro id scope hscope
    cases (hnone id).symm.trans hscope

namespace Scoped

variable {registry changed : Registry}

/-! ## Registrations -/

/-- What neither changes scopes nor requests for them keeps the agreement. -/
theorem ofSame (hscoped : Scoped registry) (hscopes : changed.scopes = registry.scopes)
    (hrequests : ∀ owner, changed.requestsOf owner = registry.requestsOf owner) :
    Scoped changed := by
  have hscope : ∀ id, changed.scope? id = registry.scope? id := fun id => by
    rw [scope?, scope?, hscopes]
  have hnamed : ∀ {owner id}, changed.HasNamed owner id ↔ registry.HasNamed owner id := by
    intro owner id
    rw [HasNamed, HasNamed, hrequests]
  have hlinked := hscoped.linked.ofSame hscopes
  refine ⟨?_, hlinked.later, ?_, ?_, hlinked.children, hlinked.increasing⟩
  · intro id scope hfound
    obtain ⟨owner, place, requested, hrequest, hname, hhangs⟩ := hscoped.named (hscope id ▸ hfound)
    rw [← hrequests owner] at hrequest hname
    exact ⟨owner, place, requested, hrequest, hname, hhangs.imp fun _ => hnamed.2⟩
  · intro id owner other place number requested again hfirst hsecond
    rw [hrequests] at hfirst hsecond
    exact hscoped.once hfirst hsecond
  · intro owner id hfound
    rw [hscopes]
    exact hscoped.known (hnamed.1 hfound)

/-- A change of an object that leaves its requests alone. -/
theorem modifyObject (hscoped : Scoped registry) (id : ObjectId)
    {change : CodeObject → CodeObject}
    (hchange : ∀ object, (change object).scopeRequests = object.scopeRequests) :
    Scoped (registry.modifyObject id change) := by
  refine hscoped.ofSame rfl fun owner => ?_
  rw [requestsOf, requestsOf, get?_modifyObject]
  split
  · rw [Option.map_map]
    exact congrArg (Option.getD · []) (congrArg (Option.map · _) (funext hchange))
  · rfl

/-- A new object that has answered no requests. -/
theorem addObject (hscoped : Scoped registry) {owner : ObjectId} (path : String)
    {object : CodeObject} (howner : owner.index < registry.objects.size)
    (hobject : object.scopeRequests = []) : Scoped (registry.addObject owner path object) := by
  refine hscoped.ofSame (scopes_addObject ..) fun other => ?_
  rcases Nat.lt_trichotomy other.index registry.objects.size with hlt | heq | hgt
  · rw [requestsOf, requestsOf, get?_addObject_of_lt registry owner path object hlt,
      Option.map_map]
    refine congrArg (Option.getD · []) (congrArg (Option.map · _) (funext fun found => ?_))
    show (if other = owner then found.addChild _ else found).scopeRequests = found.scopeRequests
    split
    · rfl
    · rfl
  · obtain rfl : other = ⟨registry.objects.size⟩ := congrArg ObjectId.mk heq
    have hnone : registry.get? ⟨registry.objects.size⟩ = none :=
      get?_eq_none_iff.2 (Nat.le_refl _)
    rw [requestsOf_of_get? (get?_addObject_added registry path object howner), hobject,
      requestsOf, hnone]
    rfl
  · have hnone : registry.get? other = none := get?_eq_none_iff.2 (Nat.le_of_lt hgt)
    have hlater : (registry.addObject owner path object).get? other = none := by
      rw [get?_eq_none_iff, size_objects_addObject]
      exact hgt
    rw [requestsOf, requestsOf, hnone, hlater]

/-- **A registration** of an object that has named no scopes keeps the agreement. -/
theorem registerWith (hscoped : Scoped registry) {owner id : ObjectId} {name : String}
    {details : Details} {init : CodeObject → CodeObject} (hinit : RevisesOnly init)
    (hdetails : details.withoutScopes = details)
    (hok : registry.registerWith owner name details init = .ok (id, changed)) :
    Scoped changed := by
  obtain ⟨parent, hparent, -, hcases⟩ := registerWith_eq_ok_iff.1 hok
  rcases hcases with ⟨existing, -, -, -, rfl⟩ | ⟨-, -, rfl⟩
  · exact hscoped.modifyObject id hinit.scopeRequests
  · refine hscoped.addObject _ (index_lt_of_get? hparent) ?_
    rw [hinit.scopeRequests, CodeObject.scopeRequests, CodeObject.scopeNames?, ← hdetails]
    cases details <;> rfl

/-- A copy names no scopes. -/
theorem copyObject (hscoped : Scoped registry) {other : Registry} {object : CodeObject}
    {id : ObjectId} (hok : registry.copyObject other object = .ok (id, changed)) :
    Scoped changed := by
  have hdetails : object.details.withoutScopes.withoutScopes = object.details.withoutScopes := by
    cases object.details <;> rfl
  obtain ⟨owner, -, hregistered⟩ := copyObject_eq_ok_iff.1 hok
  exact hscoped.registerWith (revisesOnly_copy object) hdetails hregistered

end Scoped

/-- A registration leaves all scopes as they are. -/
theorem KeepsScopes.registerWith {registry changed : Registry} {owner id : ObjectId}
    {name : String} {details : Details} {init : CodeObject → CodeObject} (hinit : RevisesOnly init)
    (hok : registry.registerWith owner name details init = .ok (id, changed)) :
    registry.KeepsScopes changed := by
  obtain ⟨parent, -, -, hcases⟩ := registerWith_eq_ok_iff.1 hok
  rcases hcases with ⟨existing, -, -, -, rfl⟩ | ⟨-, -, rfl⟩
  · exact .modifyObject registry id fun object =>
      (hinit.scopeRequests object).symm ▸ List.prefix_rfl
  · exact .addObject registry owner _ _

/-! ## New scopes -/

/-- A new scope stands behind all others. -/
theorem scope?_addScope_added (registry : Registry) {name : String} {anchor : ScopeAnchor}
    (hearlier : ∀ around, anchor = .scope around → around.index < registry.scopes.size) :
    (registry.addScope ⟨name, anchor, []⟩).scope? ⟨registry.scopes.size⟩ =
      some ⟨name, anchor, []⟩ := by
  unfold addScope scope?
  cases anchor with
  | «namespace» _ => exact Array.getElem?_push_size
  | scope around =>
    have hne : around.index ≠ registry.scopes.size := Nat.ne_of_lt (hearlier around rfl)
    dsimp only
    rw [Array.getElem?_modify, if_neg hne, Array.getElem?_push_size]

/-- The scopes before a new one stay, and the one that it hangs off alone has one child more. -/
theorem scope?_addScope_of_lt (registry : Registry) (scope : LocalScope) {id : ScopeId}
    (hid : id.index < registry.scopes.size) :
    (registry.addScope scope).scope? id = (registry.scope? id).map fun found =>
      if scope.anchor = .scope id then
        { found with children := found.children ++ [⟨registry.scopes.size⟩] }
      else found := by
  obtain ⟨index⟩ := id
  unfold addScope scope?
  cases scope.anchor with
  | «namespace» _ => simp [Array.getElem?_push, Nat.ne_of_lt hid]
  | scope around =>
    obtain ⟨position⟩ := around
    simp only [Array.getElem?_modify, Array.getElem?_push, if_neg (Nat.ne_of_lt hid),
      ScopeAnchor.scope.injEq, ScopeId.mk.injEq]
    by_cases hsame : position = index <;> simp [hsame]

/-- A namespace enters a scope behind the requests it has answered. -/
theorem scopeRequests_recordScope_of_isNamespace (requested : String) (scope : ScopeId)
    {object : CodeObject} (hnamespace : object.isNamespace = true) :
    (recordScope requested scope object).scopeRequests =
      object.scopeRequests ++ [(requested, scope)] := by
  unfold recordScope CodeObject.scopeRequests CodeObject.scopeNames?
  cases hdetails : object.details with
  | «namespace» flavor superclass scopes => rfl
  | _ =>
    rw [CodeObject.isNamespace, CodeObject.kind, hdetails] at hnamespace
    cases hnamespace

/-- The anchor of a scope is checked before the scope is added. -/
theorem checkAnchor_of_newLocalScope {before after : Registry} {owner : ObjectId}
    {name : Option String} {anchor : ScopeAnchor} {scope : ScopeId}
    (hok : before.newLocalScope owner name anchor = .ok (scope, after)) :
    before.checkAnchor anchor = .ok () := by
  unfold Registry.newLocalScope at hok
  split at hok
  · cases hok
  · cases hok
  · assumption

/-- A scope that another is hung off is an earlier one. -/
theorem index_lt_of_newLocalScope {before after : Registry} {owner : ObjectId}
    {name : Option String} {anchor : ScopeAnchor} {scope : ScopeId}
    (hok : before.newLocalScope owner name anchor = .ok (scope, after)) :
    ∀ around, anchor = .scope around → around.index < before.scopes.size := by
  rintro around rfl
  have hchecked := checkAnchor_of_newLocalScope hok
  refine isSome_scope?_iff.1 ?_
  by_contra hunknown
  rw [checkAnchor, if_neg hunknown] at hchecked
  cases hchecked

/-- **A new local scope** stands behind all others and answers one more request of its owner. -/
structure GainsScope (before : Registry) (owner : ObjectId) (requested : String)
    (anchor : ScopeAnchor) (after : Registry) : Prop where
  keeps : before.KeepsScopes after
  size : after.scopes.size = before.scopes.size + 1
  requests : ∀ other, after.requestsOf other =
    if other = owner then before.requestsOf owner ++ [(requested, ⟨before.scopes.size⟩)]
    else before.requestsOf other
  added : (∀ around, anchor = .scope around → around.index < before.scopes.size) →
    after.scope? ⟨before.scopes.size⟩ =
      some ⟨(⟨before.requestsOf owner⟩ : ScopeNames).next requested, anchor, []⟩
  others : ∀ {id : ScopeId}, id.index < before.scopes.size → after.scope? id =
    (before.scope? id).map fun scope =>
      if anchor = .scope id then
        { scope with children := scope.children ++ [⟨before.scopes.size⟩] }
      else scope

/-- What a request for a local scope changes. -/
theorem gainsScope_of_newLocalScope {before after : Registry} {owner : ObjectId}
    {name : Option String} {anchor : ScopeAnchor} {scope : ScopeId}
    (hok : before.newLocalScope owner name anchor = .ok (scope, after)) :
    scope = ⟨before.scopes.size⟩ ∧ before.GainsScope owner (name.getD "") anchor after := by
  unfold Registry.newLocalScope at hok
  split at hok
  · cases hok
  · cases hok
  · rename_i object hanchor howner
    obtain ⟨hget, hnamespace⟩ := namespaceAt_eq_ok_iff.1 howner
    rw [Except.ok.injEq, Prod.mk.injEq] at hok
    obtain ⟨rfl, rfl⟩ := hok
    refine ⟨rfl, ?_, ?_, fun other => ?_, fun hearlier => ?_, fun {id} hid => ?_⟩
    · exact (KeepsScopes.modifyObject before owner (scopeRequests_recordScope _ _)).trans
        (.addScope _ _)
    · rw [size_scopes_addScope, scopes_modifyObject]
    · rw [requestsOf, get?, objects_addScope, ← get?, get?_modifyObject]
      split
      · rename_i hsame
        rw [hsame, hget, requestsOf_of_get? hget]
        exact scopeRequests_recordScope_of_isNamespace _ _ hnamespace
      · rfl
    · rw [requestsOf_of_get? hget]
      exact scope?_addScope_added (before.modifyObject owner _) hearlier
    · exact scope?_addScope_of_lt (before.modifyObject owner _) _ hid

namespace GainsScope

variable {before after : Registry} {owner : ObjectId} {requested : String} {anchor : ScopeAnchor}

/-- The new scope is named by the owner. -/
theorem hasNamed (hgains : before.GainsScope owner requested anchor after) :
    after.HasNamed owner ⟨before.scopes.size⟩ := by
  rw [HasNamed, hgains.requests, if_pos rfl, List.map_append]
  exact List.mem_append_right _ List.mem_cons_self

/-- An answer to a request was given before, or it is the new scope. -/
theorem request_cases (hgains : before.GainsScope owner requested anchor after)
    {other : ObjectId} {place : Nat} {asked : String} {id : ScopeId}
    (hrequest : (after.requestsOf other)[place]? = some (asked, id)) :
    (before.requestsOf other)[place]? = some (asked, id) ∨
      (other = owner ∧ place = (before.requestsOf owner).length ∧ id = ⟨before.scopes.size⟩) := by
  rw [hgains.requests] at hrequest
  split at hrequest
  · rename_i hsame
    subst hsame
    rw [List.getElem?_append] at hrequest
    split at hrequest
    · exact .inl hrequest
    · rename_i hge
      obtain ⟨hlast, hanswer⟩ := List.getElem?_eq_some_iff.1 hrequest
      have hplace : place - (before.requestsOf other).length = 0 := Nat.lt_one_iff.1 hlast
      simp only [hplace, List.getElem_cons_zero, Prod.mk.injEq] at hanswer
      exact .inr ⟨rfl, by omega, hanswer.2.symm⟩
  · exact .inl hrequest

variable (hearlier : ∀ around, anchor = .scope around → around.index < before.scopes.size)

include hearlier

/-- A scope is the new one, or it was there before and has at most one child more. -/
theorem scope_cases (hgains : before.GainsScope owner requested anchor after) {id : ScopeId}
    {scope : LocalScope} (hscope : after.scope? id = some scope) :
    (id = ⟨before.scopes.size⟩ ∧
        scope = ⟨(⟨before.requestsOf owner⟩ : ScopeNames).next requested, anchor, []⟩) ∨
      ∃ old, before.scope? id = some old ∧ scope.name = old.name ∧ scope.anchor = old.anchor ∧
        scope.children =
          if anchor = .scope id then old.children ++ [⟨before.scopes.size⟩] else old.children := by
  have hlt : id.index < before.scopes.size + 1 := by
    rw [← hgains.size]
    exact index_lt_of_scope? hscope
  rcases Nat.lt_succ_iff_lt_or_eq.1 hlt with hold | hnew
  · right
    rw [hgains.others hold] at hscope
    obtain ⟨old, hfound, rfl⟩ := Option.map_eq_some_iff.1 hscope
    refine ⟨old, hfound, ?_⟩
    split
    · exact ⟨rfl, rfl, rfl⟩
    · exact ⟨rfl, rfl, rfl⟩
  · left
    obtain rfl : id = ⟨before.scopes.size⟩ := congrArg ScopeId.mk hnew
    exact ⟨rfl, (Option.some.inj ((hgains.added hearlier).symm.trans hscope)).symm⟩

/-- What scopes hang off stays, and the new scope hangs off its anchor. -/
theorem anchor_eq (hgains : before.GainsScope owner requested anchor after) (id : ScopeId) :
    (after.scope? id).map (·.anchor) =
      if id = ⟨before.scopes.size⟩ then some anchor else (before.scope? id).map (·.anchor) := by
  rcases Nat.lt_trichotomy id.index before.scopes.size with hold | hnew | hbeyond
  · rw [if_neg (fun hsame => absurd hold (by rw [hsame]; exact Nat.lt_irrefl _)),
      hgains.others hold, Option.map_map]
    refine congrArg (Option.map · _) (funext fun scope => ?_)
    show (if anchor = .scope id then _ else scope : LocalScope).anchor = scope.anchor
    split
    · rfl
    · rfl
  · obtain rfl : id = ⟨before.scopes.size⟩ := congrArg ScopeId.mk hnew
    rw [if_pos rfl, hgains.added hearlier]
    rfl
  · have hnone : ∀ {registry : Registry}, registry.scopes.size ≤ id.index →
        registry.scope? id = none := fun hle => Array.getElem?_eq_none hle
    rw [if_neg (fun hsame => absurd hbeyond (by rw [hsame]; exact Nat.lt_irrefl _)),
      hnone (Nat.le_of_lt hbeyond), hnone (by rw [hgains.size]; exact hbeyond)]

/-! ### What stays true -/

section Linked

variable (hlinked : Linked before)

include hlinked

/-- The new scope is a child of the scope that it hangs off, and has no children. -/
theorem mem_children_iff (hgains : before.GainsScope owner requested anchor after) {id : ScopeId}
    {scope : LocalScope} (hscope : after.scope? id = some scope) (child : ScopeId) :
    child ∈ scope.children ↔ (after.scope? child).map (·.anchor) = some (.scope id) := by
  rw [hgains.anchor_eq hearlier]
  rcases hgains.scope_cases hearlier hscope with ⟨rfl, rfl⟩ | ⟨old, hold, -, -, hchildren⟩
  · refine iff_of_false List.not_mem_nil fun hchild => ?_
    split at hchild
    · exact Nat.lt_irrefl _ (hearlier _ (Option.some.inj hchild))
    · obtain ⟨found, hfound, hanchor⟩ := Option.map_eq_some_iff.1 hchild
      exact Nat.lt_asymm (hlinked.later hfound hanchor) (index_lt_of_scope? hfound)
  · have hmem := hlinked.children hold child
    rw [hchildren]
    -- the new scope was nowhere a child, and other children are listed where they were
    by_cases hnew : child = ⟨before.scopes.size⟩
    · subst hnew
      have hnot : (⟨before.scopes.size⟩ : ScopeId) ∉ old.children := fun hlisted => by
        obtain ⟨found, hfound, -⟩ := Option.map_eq_some_iff.1 (hmem.1 hlisted)
        exact Nat.lt_irrefl _ (index_lt_of_scope? hfound)
      rw [if_pos rfl, Option.some.injEq]
      split
      · rename_i hhere
        exact iff_of_true (List.mem_append_right _ List.mem_cons_self) hhere
      · rename_i helsewhere
        exact iff_of_false hnot helsewhere
    · rw [if_neg hnew, ← hmem]
      split
      · simp [hnew]
      · rfl

/-- The new scope is the last of the children. -/
theorem pairwise_children (hgains : before.GainsScope owner requested anchor after) {id : ScopeId}
    {scope : LocalScope} (hscope : after.scope? id = some scope) :
    scope.children.Pairwise fun first second => first.index < second.index := by
  rcases hgains.scope_cases hearlier hscope with ⟨rfl, rfl⟩ | ⟨old, hold, -, -, hchildren⟩
  · exact List.Pairwise.nil
  · rw [hchildren]
    split
    · refine List.pairwise_append.2 ⟨hlinked.increasing hold, List.pairwise_singleton _ _, ?_⟩
      intro child hchild new hnew
      obtain ⟨found, hfound, -⟩ :=
        Option.map_eq_some_iff.1 ((hlinked.children hold child).1 hchild)
      rw [List.mem_singleton.1 hnew]
      exact index_lt_of_scope? hfound
    · exact hlinked.increasing hold

/-- **A new local scope** that hangs off an earlier one keeps the links. -/
theorem linked (hgains : before.GainsScope owner requested anchor after) : Linked after := by
  refine ⟨?_, hgains.mem_children_iff hearlier hlinked, hgains.pairwise_children hearlier hlinked⟩
  intro id scope around hscope haround
  rcases hgains.scope_cases hearlier hscope with ⟨rfl, rfl⟩ | ⟨old, hold, -, hanchor, -⟩
  · exact hearlier around haround
  · exact hlinked.later hold (hanchor ▸ haround)

end Linked

variable (hscoped : Scoped before)

include hscoped

/-- The new scope and those before it answer requests, and hang where they have to. -/
theorem named (hgains : before.GainsScope owner requested anchor after)
    (hhangs : before.Hangs owner requested anchor) {id : ScopeId} {scope : LocalScope}
    (hscope : after.scope? id = some scope) : ∃ other place asked,
      (after.requestsOf other)[place]? = some (asked, id) ∧
        scope.name = (⟨(after.requestsOf other).take place⟩ : ScopeNames).next asked ∧
        after.Hangs other asked scope.anchor := by
  rcases hgains.scope_cases hearlier hscope with ⟨rfl, rfl⟩ | ⟨old, hold, hname, hanchor, -⟩
  · refine ⟨owner, (before.requestsOf owner).length, requested, ?_, ?_,
      hhangs.imp fun _ => hgains.keeps.hasNamed⟩
    · rw [hgains.requests, if_pos rfl, List.getElem?_concat_length]
    · rw [hgains.requests, if_pos rfl, List.take_left]
  · -- an earlier request stays at its place, with the same requests before it
    obtain ⟨other, place, asked, hrequest, hstored, hwhere⟩ := hscoped.named hold
    obtain ⟨further, hfurther⟩ := hgains.keeps.requestsOf other
    obtain ⟨hplace, -⟩ := List.getElem?_eq_some_iff.1 hrequest
    refine ⟨other, place, asked, ?_, ?_, ?_⟩
    · rw [← hfurther, List.getElem?_append_left hplace, hrequest]
    · rw [← hfurther, List.take_append_of_le_length (Nat.le_of_lt hplace), hname, hstored]
    · rw [hanchor]
      exact hwhere.imp fun _ => hgains.keeps.hasNamed

omit hearlier in
/-- The new scope has answered no request before. -/
theorem once (hgains : before.GainsScope owner requested anchor after) {id : ScopeId}
    {first second : ObjectId} {place number : Nat} {asked again : String}
    (hfirst : (after.requestsOf first)[place]? = some (asked, id))
    (hsecond : (after.requestsOf second)[number]? = some (again, id)) :
    first = second ∧ place = number := by
  have hfresh : ∀ {other : ObjectId} {place : Nat} {asked : String},
      (before.requestsOf other)[place]? ≠ some (asked, ⟨before.scopes.size⟩) := by
    intro other place asked hrequest
    exact Nat.lt_irrefl _ (hscoped.known (hasNamed_of_getElem? hrequest))
  rcases hgains.request_cases hfirst with hold | ⟨rfl, rfl, rfl⟩
  · rcases hgains.request_cases hsecond with holdSecond | ⟨-, -, rfl⟩
    · exact hscoped.once hold holdSecond
    · exact absurd hold hfresh
  · rcases hgains.request_cases hsecond with holdSecond | ⟨rfl, rfl, -⟩
    · exact absurd holdSecond hfresh
    · exact ⟨rfl, rfl⟩

end GainsScope

/-- **A new local scope** keeps the agreement if it hangs where it has to. -/
theorem Scoped.gainsScope {before after : Registry} {owner : ObjectId} {requested : String}
    {anchor : ScopeAnchor} (hscoped : Scoped before) (hhangs : before.Hangs owner requested anchor)
    (hgains : before.GainsScope owner requested anchor after) : Scoped after := by
  have hearlier : ∀ around, anchor = .scope around → around.index < before.scopes.size := by
    rintro around rfl
    cases hhangs with
    | offScope hname haround => exact hscoped.known haround
  have hlinked := hgains.linked hearlier hscoped.linked
  refine ⟨hgains.named hearlier hscoped hhangs, hlinked.later, hgains.once hscoped, ?_,
    hlinked.children, hlinked.increasing⟩
  intro other id hnamed
  obtain ⟨⟨asked, _⟩, hmem, rfl⟩ := List.mem_map.1 hnamed
  obtain ⟨place, hrequest⟩ := List.mem_iff_getElem?.1 hmem
  rw [hgains.size]
  rcases hgains.request_cases hrequest with hold | ⟨-, -, rfl⟩
  · exact Nat.lt_succ_of_lt (hscoped.known (hasNamed_of_getElem? hold))
  · exact Nat.lt_succ_self _

end Registry

end RubyIndex
