import RubyIndex.Proofs.Registry.Names
import RubyIndex.Proofs.Registry.Outcome
import RubyIndex.Proofs.Registry.Refusals

/-! # Requests to sound registries

A registration in a sound registry, under a namespace and with a name of the right kind, either
lets the registry grow by one declaration or meets a top-level object of another kind.

* `Registry.Grows` relates a sound registry to one it has grown into, with what was declared.
* `Registry.TopLevelClash` is the one way in which a registration is refused.
* `Registry.Sound.registerWith_grows` and `Registry.Sound.registerWith_refused` are the two
  outcomes of a registration. -/

namespace RubyIndex.Registry

open Edit Syntax

/-! ## Growth of sound registries -/

/-- **Sound growth.** A registry has grown into a sound one by entering declarations. -/
structure Grows (before after : Registry) (added : List Declaration) : Prop where
  extending : before.Extends after
  sound : after.Sound
  declarations : after.declarations = added.foldl enter before.declarations

variable {registry first second third : Registry}

theorem Grows.refl (hsound : Sound registry) : registry.Grows registry [] :=
  ⟨.refl registry, hsound, rfl⟩

theorem Grows.trans {added further : List Declaration} (hfirst : first.Grows second added)
    (hsecond : second.Grows third further) : first.Grows third (added ++ further) :=
  ⟨hfirst.extending.trans hsecond.extending, hsecond.sound, by
    rw [hsecond.declarations, hfirst.declarations, List.foldl_append]⟩

/-! ## Registrations -/

/-- **A clash at the top level.** The error is about an object directly under the root whose path
is a constant: a namespace where a method is requested, or a method where a namespace is. -/
def TopLevelClash (registry : Registry) (error : RegistryError) : Prop :=
  ∃ object requested, registry.at? object.path = some object ∧ object.owner = some .root ∧
    IsConstant object.path ∧ error = .kindMismatch object.path object.kind requested ∧
    ((object.kind = .namespace ∧ requested = .method) ∨
      (object.kind = .method ∧ requested = .namespace))

namespace Sound

/-- A change in place changes no names. -/
theorem modifyObject (hsound : Sound registry) (id : ObjectId)
    {change : CodeObject → CodeObject} (hchange : ∀ object, (change object).SamePlace object) :
    Sound (registry.modifyObject id change) where
  toWellFormed := hsound.toWellFormed.modifyObject id hchange
  names hget hne := by
    obtain ⟨before, hbefore, hsame⟩ := WellFormed.exists_of_get?_modifyObject hchange hget
    rw [hsame.kind, hsame.name]
    exact hsound.names hbefore hne

theorem addScope (hsound : Sound registry) (scope : LocalScope) :
    Sound (registry.addScope scope) where
  toWellFormed := hsound.toWellFormed.addScope scope
  names {id object} hget hne := by
    refine hsound.names ?_ hne
    rw [← hget, get?, get?, objects_addScope]

/-- An object that is changed in its place has been declared before. -/
theorem grows_modifyObject (hsound : Sound registry) {id : ObjectId} {path : String}
    (hlookup : registry.lookup? path = some id) {change : CodeObject → CodeObject}
    (hchange : ∀ object, (change object).SamePlace object) (kind : ObjectKind) (name : String) :
    registry.Grows (registry.modifyObject id change) [⟨path, kind, name⟩] := by
  have hextends := Extends.modifyObject registry id hchange
  have htaken : registry.declarations.any (path == ·.path) = true := by
    rw [hsound.any_declarations_iff, hlookup]
    exact Option.some_ne_none id
  refine ⟨hextends, hsound.modifyObject id hchange, ?_⟩
  rw [hextends.declarations_eq hsound.toWellFormed rfl, List.foldl_cons, List.foldl_nil, enter,
    if_pos htaken]

/-- A new object at a free path is declared after all others. -/
theorem grows_addObject (hsound : Sound registry) {owner : ObjectId} {parent object : CodeObject}
    (hparent : registry.get? owner = some parent) (hnamespace : parent.isNamespace = true)
    (howner : object.owner = some owner) (hchildren : object.children = [])
    (hpath : object.path = joinPath parent.path object.details.separator object.name)
    (hname : object.kind.Names object.name) (hfree : registry.lookup? object.path = none) :
    registry.Grows (registry.addObject owner object.path object) [object.declaration] := by
  have hlt : owner.index < registry.objects.size := index_lt_of_get? hparent
  have hwell := hsound.toWellFormed.addObject hparent hnamespace howner hchildren rfl hpath hfree
  refine ⟨.addObject registry owner object hfree, ⟨hwell, ?_⟩, ?_⟩
  · intro id found hget hne
    rcases WellFormed.get?_addObject_cases hlt hget with ⟨-, rfl⟩ | ⟨before, hbefore, rfl⟩
    · exact hname
    · -- the owner has a child more, which leaves its kind and its name
      have hnames := hsound.names hbefore hne
      split
      · exact hnames
      · exact hnames
  · have hnew : ¬ registry.declarations.any (object.path == ·.path) = true := by
      rw [hsound.any_declarations_iff, hfree]
      exact fun hne => hne rfl
    rw [hsound.declarations_addObject object hlt hfree, List.foldl_cons, List.foldl_nil, enter,
      CodeObject.declaration, if_neg hnew]

/-- **A registration that is made** lets the registry grow by the declaration of the name, and
there is an object of the requested kind at its path. -/
theorem registerWith_grows (hsound : Sound registry) {owner id : ObjectId} {name : String}
    {details : Details} {init : CodeObject → CodeObject} {changed : Registry}
    (hinit : RevisesOnly init) (hname : details.kind.Names name)
    (hok : registry.registerWith owner name details init = .ok (id, changed)) :
    ∃ parent, registry.get? owner = some parent ∧
      registry.Grows changed [declare parent.path details.separator details.kind name] ∧
      ∃ object, changed.get? id = some object ∧ object.kind = details.kind ∧
        object.path = joinPath parent.path details.separator name := by
  obtain ⟨parent, hparent, hnamespace, hcases⟩ := registerWith_eq_ok_iff.1 hok
  refine ⟨parent, hparent, ?_⟩
  rcases hcases with ⟨existing, hlookup, hget, hkind, rfl⟩ | ⟨hfree, rfl, rfl⟩
  · -- the path is taken by an object of the same kind, which is reopened
    obtain ⟨object, hobject, halike⟩ :=
      (Extends.modifyObject registry id hinit.samePlace).objects hget
    have hpath : existing.path = joinPath parent.path details.separator name := by
      simpa [hget] using (hsound.lookup?_eq_some_iff.1 hlookup).2
    exact ⟨hsound.grows_modifyObject hlookup hinit.samePlace details.kind name, object, hobject,
      halike.kind.trans hkind, halike.path.trans hpath⟩
  · -- the path is free, and the object there is the initialised one
    have hsame := hinit.samePlace
      { name, path := joinPath parent.path details.separator name, owner := some owner, details }
    generalize init { name, path := joinPath parent.path details.separator name,
                      owner := some owner, details } = object at hsame ⊢
    have hpath : object.path = joinPath parent.path details.separator name := hsame.path
    have hdeclaration : object.declaration =
        declare parent.path details.separator details.kind name := hsame.declaration
    rw [← hpath] at hfree ⊢
    rw [← hdeclaration]
    refine ⟨?_, object, get?_addObject_added registry object.path object
      (index_lt_of_get? hparent), hsame.kind, rfl⟩
    refine hsound.grows_addObject hparent hnamespace hsame.owner hsame.children ?_ ?_ hfree
    · rw [hsame.separator, hsame.name, hpath]
    · rw [hsame.kind, hsame.name]
      exact hname

/-- **A registration that is refused** under a namespace meets an object of another kind at its
path. -/
theorem exists_of_registerWith_error (hsound : Sound registry) {owner : ObjectId}
    {parent : CodeObject} {name : String} {details : Details} {init : CodeObject → CodeObject}
    {error : RegistryError} (hparent : registry.get? owner = some parent)
    (hnamespace : parent.isNamespace = true)
    (herror : registry.registerWith owner name details init = .error error) :
    ∃ existing, registry.at? (joinPath parent.path details.separator name) = some existing ∧
      existing.kind ≠ details.kind ∧
      error = .kindMismatch (joinPath parent.path details.separator name) existing.kind
        details.kind := by
  rcases hsound.registerWith_eq_error_iff.1 herror with howner | ⟨hfound, -, htaken, hkind⟩
  · have hfault := namespaceAt_eq_error_iff.2 howner
    cases hfault.symm.trans (namespaceAt_eq_ok_iff.2 ⟨hparent, hnamespace⟩)
  · obtain rfl := Option.some.inj (hparent.symm.trans hfound)
    exact ⟨_, htaken, hkind, rfl⟩

/-- A registration that is refused under a namespace meets a top-level object. -/
theorem registerWith_refused (hsound : Sound registry) {owner : ObjectId} {parent : CodeObject}
    {name : String} {details : Details} {init : CodeObject → CodeObject} {error : RegistryError}
    (hparent : registry.get? owner = some parent) (hnamespace : parent.isNamespace = true)
    (hname : details.kind.Names name)
    (herror : registry.registerWith owner name details init = .error error) :
    TopLevelClash registry error := by
  obtain ⟨existing, hat, hkind, rfl⟩ :=
    hsound.exists_of_registerWith_error hparent hnamespace herror
  obtain ⟨id, hlookup, hget⟩ := Option.bind_eq_some_iff.1 hat
  obtain ⟨hne, hlisted⟩ := hsound.lookup?_eq_some_iff.1 hlookup
  rw [hget, Option.map_some, Option.some.injEq] at hlisted
  obtain ⟨hconstant, howner, hkinds⟩ :=
    hsound.clash hparent hnamespace hname hget hne hlisted hkind
  rw [← hlisted] at hat ⊢
  exact ⟨existing, details.kind, hat, howner, hconstant, rfl, hkinds⟩

/-! ## Merges -/

/-- A copy of an object of a sound registry keeps a registry sound. -/
theorem copyObject {other changed : Registry} (hsound : Sound registry) (hother : Sound other)
    {object : CodeObject} (hmem : object ∈ other.registered) {id : ObjectId}
    (hok : registry.copyObject other object = .ok (id, changed)) : Sound changed := by
  obtain ⟨source, hne, hget⟩ := hother.exists_of_mem_registered hmem
  -- a copy loses its scopes and keeps its kind and its name
  have hname : object.details.withoutScopes.kind.Names object.name := by
    rw [Details.kind_withoutScopes]
    exact hother.names hget hne
  obtain ⟨owner, -, hregistered⟩ := copyObject_eq_ok_iff.1 hok
  obtain ⟨parent, -, hgrows, -⟩ :=
    hsound.registerWith_grows (revisesOnly_copy object) hname hregistered
  exact hgrows.sound

/-- **Merging sound registries** keeps them sound, even where the merge is refused. -/
theorem keeps_merge {other : Registry} (hother : Sound other) :
    Keeps Sound (Edit.merge other) :=
  Edit.keeps_merge fun _ hmem _ _ _ hsound _ hok => hsound.copyObject hother hmem hok

end Sound

end RubyIndex.Registry
