import RubyIndex.Proofs.Indexing.Repetition
import RubyIndex.Proofs.Registry.Reachable
import RubyIndex.Proofs.Registry.ScopePaths

/-! # What stays as a registry grows

The numbers of objects and scopes are kept outside of a registry, and so are the paths of scopes
once they have been computed. No request but that to discard everything makes them stale.

* `Registry.LeadsTo` relates a registry to those that further requests lead to; what is `Lasting`
  survives all of them, by `LeadsTo.keeps` and `Reachable.keeps`.
* `CodeObject.ContinuesAs` and `Registry.Retains` say what stays, and `Retains.registerWith` and
  `Retains.newLocalScope` that single requests leave it.
* `Registry.Anchored` says that scopes hang off what was there before them, which makes their paths
  depend on the past only: `Anchored.scopePath?_eq`.
* `Registry.Reachable.retains` is the result. -/

namespace RubyIndex

open Edit

/-! ## Objects -/

namespace CodeObject

/-- **An object continues** as a later state of itself: it keeps its name, its path, its owner, its
kind and variant, and children are only added behind those that it has. -/
structure ContinuesAs (object later : CodeObject) : Prop where
  name : later.name = object.name
  path : later.path = object.path
  owner : later.owner = object.owner
  kind : later.kind = object.kind
  flavor : later.flavor? = object.flavor?
  receiver : later.receiver? = object.receiver?
  children : object.children <+: later.children

variable {first second third : CodeObject}

@[refl] theorem ContinuesAs.refl (object : CodeObject) : object.ContinuesAs object :=
  ⟨rfl, rfl, rfl, rfl, rfl, rfl, List.prefix_rfl⟩

theorem ContinuesAs.trans (hfirst : first.ContinuesAs second) (hsecond : second.ContinuesAs third) :
    first.ContinuesAs third where
  name := hsecond.name.trans hfirst.name
  path := hsecond.path.trans hfirst.path
  owner := hsecond.owner.trans hfirst.owner
  kind := hsecond.kind.trans hfirst.kind
  flavor := hsecond.flavor.trans hfirst.flavor
  receiver := hsecond.receiver.trans hfirst.receiver
  children := hfirst.children.trans hsecond.children

theorem continuesAs_addChild (child : ObjectId) (object : CodeObject) :
    object.ContinuesAs (object.addChild child) :=
  ⟨rfl, rfl, rfl, rfl, rfl, rfl, List.prefix_append _ _⟩

@[simp] theorem flavor?_unrevised (object : CodeObject) :
    object.unrevised.flavor? = object.flavor? := by
  unfold unrevised flavor?
  cases object.details <;> rfl

@[simp] theorem receiver?_unrevised (object : CodeObject) :
    object.unrevised.receiver? = object.receiver? := by
  unfold unrevised receiver?
  cases object.details <;> rfl

end CodeObject

/-- A revising initialisation leaves an object what it is. -/
theorem RevisesOnly.continuesAs {init : CodeObject → CodeObject} (hinit : RevisesOnly init)
    (object : CodeObject) : object.ContinuesAs (init object) := by
  have hplace := hinit.samePlace object
  refine ⟨hplace.name, hplace.path, hplace.owner, hplace.kind, ?_, ?_, ?_⟩
  · rw [← CodeObject.flavor?_unrevised, hinit object, CodeObject.flavor?_unrevised]
  · rw [← CodeObject.receiver?_unrevised, hinit object, CodeObject.receiver?_unrevised]
  · exact hplace.children ▸ List.prefix_rfl

namespace Registry

/-- Naming a scope leaves an object what it is. -/
theorem continuesAs_recordScope (requested : String) (scope : ScopeId) (object : CodeObject) :
    object.ContinuesAs (recordScope requested scope object) := by
  have hplace := samePlace_recordScope requested scope object
  refine ⟨hplace.name, hplace.path, hplace.owner, hplace.kind, ?_, ?_, ?_⟩
  · unfold recordScope CodeObject.flavor?
    cases hdetails : object.details <;> simp only [hdetails]
  · unfold recordScope CodeObject.receiver?
    cases hdetails : object.details <;> simp only [hdetails]
  · exact hplace.children ▸ List.prefix_rfl

/-! ## Registries -/

/-- **What a registry retains**: its objects and local scopes under their numbers, and its paths. -/
structure Retains (before after : Registry) : Prop extends KeepsScopes before after where
  objects : ∀ {id object}, before.get? id = some object →
    ∃ later, after.get? id = some later ∧ object.ContinuesAs later
  paths : ∀ {path id}, before.lookup? path = some id → after.lookup? path = some id

namespace Retains

variable {registry changed first second third : Registry}

@[refl] theorem refl (registry : Registry) : registry.Retains registry :=
  ⟨.refl registry, fun {_ object} hget => ⟨object, hget, .refl object⟩, id⟩

theorem trans (hfirst : first.Retains second) (hsecond : second.Retains third) :
    first.Retains third where
  toKeepsScopes := hfirst.toKeepsScopes.trans hsecond.toKeepsScopes
  objects hget := by
    obtain ⟨middle, hmiddle, hcontinues⟩ := hfirst.objects hget
    obtain ⟨later, hlater, hfurther⟩ := hsecond.objects hmiddle
    exact ⟨later, hlater, hcontinues.trans hfurther⟩
  paths hlookup := hsecond.paths (hfirst.paths hlookup)

/-- A registration changes an object that is there, or adds one at a free path. -/
theorem registerWith {owner id : ObjectId} {name : String} {details : Details}
    {init : CodeObject → CodeObject} (hinit : RevisesOnly init)
    (hok : registry.registerWith owner name details init = .ok (id, changed)) :
    registry.Retains changed := by
  have hscopes := KeepsScopes.registerWith hinit hok
  obtain ⟨parent, -, -, hcases⟩ := registerWith_eq_ok_iff.1 hok
  rcases hcases with ⟨existing, -, -, -, rfl⟩ | ⟨hfree, -, rfl⟩
  · refine ⟨hscopes, fun {other object} hget => ?_, fun hlookup => hlookup⟩
    rw [get?_modifyObject, hget]
    split
    · exact ⟨init object, rfl, hinit.continuesAs object⟩
    · exact ⟨object, rfl, .refl object⟩
  · refine ⟨hscopes, fun {other object} hget => ?_,
      (Extends.addObject registry owner _ hfree).lookup?⟩
    rw [get?_addObject_of_lt registry owner _ _ (index_lt_of_get? hget), hget, Option.map_some]
    refine ⟨_, rfl, ?_⟩
    split
    · exact CodeObject.continuesAs_addChild _ object
    · exact .refl object

/-- A new scope is recorded by its owner, and leaves the objects and the index alone otherwise. -/
theorem newLocalScope {owner : ObjectId} {name : Option String} {anchor : ScopeAnchor}
    {scope : ScopeId} (hok : registry.newLocalScope owner name anchor = .ok (scope, changed)) :
    registry.Retains changed := by
  have hscopes := (gainsScope_of_newLocalScope hok).2.keeps
  unfold Registry.newLocalScope at hok
  split at hok
  · cases hok
  · cases hok
  · rw [Except.ok.injEq, Prod.mk.injEq] at hok
    obtain ⟨rfl, rfl⟩ := hok
    refine ⟨hscopes, fun {other object} hget => ?_, fun {path id} hlookup => ?_⟩
    · rw [get?, objects_addScope, ← get?, get?_modifyObject, hget]
      split
      · exact ⟨_, rfl, continuesAs_recordScope _ _ object⟩
      · exact ⟨object, rfl, .refl object⟩
    · rwa [lookup?, index_addScope, index_modifyObject]

end Retains

/-! ## Further requests -/

/-- **Further requests**, made or refused, in any sequence. Everything but discarding all is
allowed, and what is merged may be any registry. -/
inductive LeadsTo (before : Registry) : Registry → Prop where
  | refl : LeadsTo before before
  /-- A registration whose initialisation revises. -/
  | registerWith {registry : Registry} (owner : ObjectId) (name : String) (details : Details)
      {init : CodeObject → CodeObject} (hinit : RevisesOnly init)
      (hleads : LeadsTo before registry) :
      LeadsTo before ((Edit.attempt fun registry =>
        registry.registerWith owner name details init).apply registry).2
  | newLocalScope {registry : Registry} (owner : ObjectId) (name : Option String)
      (anchor : ScopeAnchor) (hleads : LeadsTo before registry) :
      LeadsTo before ((Edit.newLocalScope owner name anchor).apply registry).2
  | merge {registry : Registry} (other : Registry) (hleads : LeadsTo before registry) :
      LeadsTo before ((Edit.merge other).apply registry).2
  | indexSource {registry : Registry} (file source : String) (hleads : LeadsTo before registry) :
      LeadsTo before ((Indexing.indexSource file source).apply registry).2

/-- **A lasting property** is kept by the registrations that revise and by the local scopes that are
made. -/
structure Lasting (property : Registry → Prop) : Prop where
  registerWith : ∀ {registry changed owner id name details init}, RevisesOnly init →
    property registry → registry.registerWith owner name details init = .ok (id, changed) →
    property changed
  newLocalScope : ∀ {registry changed owner name anchor scope}, property registry →
    registry.newLocalScope owner name anchor = .ok (scope, changed) → property changed

namespace Lasting

variable {property : Registry → Prop}

theorem keeps_registerWith (hlasting : Lasting property) (owner : ObjectId) (name : String)
    (details : Details) {init : CodeObject → CodeObject} (hinit : RevisesOnly init) :
    Keeps property (Edit.attempt fun registry => registry.registerWith owner name details init) :=
  Keeps.attempt fun _ _ _ hproperty hok => hlasting.registerWith hinit hproperty hok

theorem stableUnderRequests (hlasting : Lasting property) :
    Indexing.StableUnderRequests property where
  register owner name details revision :=
    hlasting.keeps_registerWith owner name details revision.revisesOnly_apply
  newLocalScope _ _ _ :=
    Keeps.attempt fun _ _ _ hproperty hok => hlasting.newLocalScope hproperty hok

/-- A copy is a registration, so a merge makes nothing but registrations. -/
theorem keeps_merge (hlasting : Lasting property) (other : Registry) :
    Keeps property (Edit.merge other) := by
  refine Edit.keeps_merge fun object _ registry id changed hproperty _ hok => ?_
  obtain ⟨owner, -, hregistered⟩ := copyObject_eq_ok_iff.1 hok
  exact hlasting.registerWith (revisesOnly_copy object) hproperty hregistered

end Lasting

/-- Further requests keep what is lasting. -/
theorem LeadsTo.keeps {property : Registry → Prop} (hlasting : Lasting property)
    {before after : Registry} (hbefore : property before) (hleads : before.LeadsTo after) :
    property after := by
  have hstable := hlasting.stableUnderRequests
  induction hleads with
  | refl => exact hbefore
  | registerWith owner name details hinit _ ih =>
    exact (hlasting.keeps_registerWith owner name details hinit _ ih).leaves
  | newLocalScope owner name anchor _ ih =>
    exact (hstable.newLocalScope owner name anchor _ ih).leaves
  | merge other _ ih => exact (hlasting.keeps_merge other _ ih).leaves
  | indexSource file source _ ih =>
    exact (Indexing.keeps_indexSource hstable file source _ ih).leaves

/-- What is lasting and holds of the empty registry holds of all that are reachable. -/
theorem Reachable.keeps {property : Registry → Prop} (hlasting : Lasting property)
    (hempty : property .empty) {registry : Registry} (hreach : Reachable registry) :
    property registry := by
  have hstable := hlasting.stableUnderRequests
  induction hreach with
  | empty => exact hempty
  | registerWith owner name details hinit _ ih =>
    exact (hlasting.keeps_registerWith owner name details hinit _ ih).leaves
  | newLocalScope owner name anchor _ ih =>
    exact (hstable.newLocalScope owner name anchor _ ih).leaves
  | @merge _ other _ _ ih _ => exact (hlasting.keeps_merge other _ ih).leaves
  | indexSource file source _ ih =>
    exact (Indexing.keeps_indexSource hstable file source _ ih).leaves
  | clear _ _ => exact hempty

/-- What there was in a registry is lasting. -/
theorem lasting_retains (before : Registry) : Lasting before.Retains where
  registerWith hinit hretains hok := hretains.trans (.registerWith hinit hok)
  newLocalScope hretains hok := hretains.trans (.newLocalScope hok)

/-! ## Paths of scopes -/

/-- **Anchored scopes** hang off an object that there is, or off an earlier scope. -/
structure Anchored (registry : Registry) : Prop where
  known : ∀ {id scope owner}, registry.scope? id = some scope → scope.anchor = .namespace owner →
    ∃ holder, registry.get? owner = some holder
  earlier : ∀ {id scope around}, registry.scope? id = some scope → scope.anchor = .scope around →
    around.index < id.index

namespace Anchored

variable {registry changed : Registry}

theorem registerWith (hanchored : Anchored registry) {owner id : ObjectId} {name : String}
    {details : Details} {init : CodeObject → CodeObject} (hinit : RevisesOnly init)
    (hok : registry.registerWith owner name details init = .ok (id, changed)) :
    Anchored changed := by
  have hretains := Retains.registerWith hinit hok
  have hscopes : changed.scopes = registry.scopes := by
    obtain ⟨parent, -, -, ⟨existing, -, -, -, rfl⟩ | ⟨-, -, rfl⟩⟩ := registerWith_eq_ok_iff.1 hok
    · rfl
    · rfl
  have hscope : ∀ id, changed.scope? id = registry.scope? id := fun id => by
    rw [scope?, scope?, hscopes]
  constructor
  · intro id scope holder hfound hanchor
    obtain ⟨object, hget⟩ := hanchored.known (hscope id ▸ hfound) hanchor
    obtain ⟨later, hlater, -⟩ := hretains.objects hget
    exact ⟨later, hlater⟩
  · intro id scope around hfound hanchor
    exact hanchored.earlier (hscope id ▸ hfound) hanchor

/-- The anchor of a new scope is checked before the scope is added. -/
theorem newLocalScope (hanchored : Anchored registry) {owner : ObjectId} {name : Option String}
    {anchor : ScopeAnchor} {scope : ScopeId}
    (hok : registry.newLocalScope owner name anchor = .ok (scope, changed)) : Anchored changed := by
  have hretains := Retains.newLocalScope hok
  have hgains := (gainsScope_of_newLocalScope hok).2
  have hchecked := checkAnchor_of_newLocalScope hok
  have hearlier := index_lt_of_newLocalScope hok
  have hknown : ∀ holder, anchor = .namespace holder →
      ∃ object, registry.get? holder = some object := by
    rintro holder rfl
    cases hfound : registry.namespaceAt holder with
    | error error =>
      rw [checkAnchor, hfound] at hchecked
      cases hchecked
    | ok object => exact ⟨object, (namespaceAt_eq_ok_iff.1 hfound).1⟩
  constructor
  · intro id found holder hfound hanchor
    have hbefore : ∃ object, registry.get? holder = some object := by
      rcases hgains.scope_cases hearlier hfound with ⟨-, rfl⟩ | ⟨old, hold, -, hsame, -⟩
      · exact hknown holder hanchor
      · exact hanchored.known hold (hsame ▸ hanchor)
    obtain ⟨object, hget⟩ := hbefore
    obtain ⟨later, hlater, -⟩ := hretains.objects hget
    exact ⟨later, hlater⟩
  · intro id found around hfound hanchor
    rcases hgains.scope_cases hearlier hfound with ⟨rfl, rfl⟩ | ⟨old, hold, -, hsame, -⟩
    · exact hearlier around hanchor
    · exact hanchored.earlier hold (hsame ▸ hanchor)

end Anchored

/-- The scopes of reachable registries are anchored. -/
theorem Reachable.anchored {registry : Registry} (hreach : Reachable registry) :
    Anchored registry := by
  have hnone : ∀ id, Registry.empty.scope? id = none := fun id => by simp [Registry.empty, scope?]
  refine hreach.keeps ⟨fun hinit hanchored => hanchored.registerWith hinit,
    fun hanchored => hanchored.newLocalScope⟩ ?_
  constructor
  · intro id scope owner hscope
    cases (hnone id).symm.trans hscope
  · intro id scope around hscope
    cases (hnone id).symm.trans hscope

/-- **The path of a scope** is made of what was there before the scope, and so it stays. -/
theorem Anchored.scopePath?_eq {before after : Registry} (hanchored : Anchored before)
    (hretains : before.Retains after) {id : ScopeId} {scope : LocalScope}
    (hscope : before.scope? id = some scope) :
    ∃ path, before.scopePath? id = some path ∧ after.scopePath? id = some path := by
  induction id, scope, hscope using outwards_induction hanchored.earlier with
  | offNamespace id scope owner hscope hwhere =>
    obtain ⟨later, hlater, hname, hanchor, -⟩ := hretains.scopes hscope
    obtain ⟨holder, hholder⟩ := hanchored.known hscope hwhere
    obtain ⟨kept, hkept, hcontinues⟩ := hretains.objects hholder
    refine ⟨joinPath holder.path scopeSeparator scope.name, ?_, ?_⟩
    · rw [scopePath?_of_namespace hscope hwhere, hholder, Option.map_some]
    · rw [scopePath?_of_namespace hlater (hanchor.trans hwhere), hkept, Option.map_some,
        hcontinues.path, hname]
  | offScope id scope around outer hscope houter hwhere hearlier ih =>
    obtain ⟨later, hlater, hname, hanchor, -⟩ := hretains.scopes hscope
    obtain ⟨laterOuter, hlaterOuter, -⟩ := hretains.scopes houter
    obtain ⟨path, hpath, hlaterPath⟩ := ih
    refine ⟨joinPath path scopeSeparator scope.name, ?_, ?_⟩
    · rw [scopePath?_of_scope hscope houter hwhere hearlier, hpath, Option.map_some]
    · rw [scopePath?_of_scope hlater hlaterOuter (hanchor.trans hwhere) hearlier, hlaterPath,
        Option.map_some, hname]

/-- **Permanence.** Whatever is requested of a registry, short of discarding everything, and whether
the requests are made or refused: numbers stand for the objects and scopes that they stood for,
paths lead to the same objects, children are only added, and scopes keep their paths. -/
theorem Reachable.retains {before after : Registry} (hreach : Reachable before)
    (hleads : before.LeadsTo after) :
    before.Retains after ∧ ∀ id scope, before.scope? id = some scope →
      ∃ path, before.scopePath? id = some path ∧ after.scopePath? id = some path := by
  have hretains := hleads.keeps (lasting_retains before) (.refl before)
  exact ⟨hretains, fun _ _ hscope => hreach.anchored.scopePath?_eq hretains hscope⟩

/-- A class with a method, before and after a text that is refused halfway: the class has been
reopened, and the scope of the method has its path still. -/
theorem Reachable.retains_refused :
    let before := ((Indexing.indexSource "a.rb" "class A\ndef x\nend\nend\n").apply .empty).2
    let refused := (Indexing.indexSource "b.rb" "class A\ndef y\nend\nend\ndef A\nend\n").apply
      before
    refused.1.isOk = false ∧ before.Retains refused.2 ∧
      before.scopePath? ⟨2⟩ = some "A>_local_0>x_local_0" ∧
      refused.2.scopePath? ⟨2⟩ = some "A>_local_0>x_local_0" := by
  intro before refused
  have hretains := Reachable.retains (.indexSource "a.rb" "class A\ndef x\nend\nend\n" .empty)
    (.indexSource "b.rb" "class A\ndef y\nend\nend\ndef A\nend\n" .refl)
  have hpath : before.scopePath? ⟨2⟩ = some "A>_local_0>x_local_0" := by decide +kernel
  obtain ⟨scope, hscope⟩ : ∃ scope, before.scope? ⟨2⟩ = some scope :=
    Option.isSome_iff_exists.1 (by decide +kernel)
  obtain ⟨path, hbefore, hafter⟩ := hretains.2 ⟨2⟩ scope hscope
  obtain rfl := Option.some.inj (hbefore.symm.trans hpath)
  exact ⟨by decide +kernel, hretains.1, hpath, hafter⟩

end Registry

end RubyIndex
