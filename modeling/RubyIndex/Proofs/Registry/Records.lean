import RubyIndex.Proofs.Registry.Registration

/-! # What registrations record

What an object is, apart from its place among other objects, is decided by the registrations at its
path: the first one adds it, and each of them revises it. So the object after a list of
registrations can be computed from the one before.

* `CodeObject.portrait` is what an object is apart from its place.
* `Registration.record` is the effect of one registration on the portrait at a path.
* `Registry.Records` relates a registry to the one that a list of registrations makes of it.
* `Edit.Makes` is the guarantee of an edit that makes registrations, with `Edit.Makes.bind` for
  sequences. A refused edit has made some first part of them. -/

namespace RubyIndex

/-! ## Portraits -/

/-- **The portrait of an object**: the object without its owner, its children and the local scopes
that it has named. -/
def CodeObject.portrait (object : CodeObject) : CodeObject :=
  { object with owner := none, children := [], details := object.details.withoutScopes }

namespace CodeObject

@[simp] theorem portrait_addChild (child : ObjectId) (object : CodeObject) :
    (object.addChild child).portrait = object.portrait := rfl

@[simp] theorem origin_portrait (object : CodeObject) :
    object.portrait.origin = object.origin := rfl

@[simp] theorem docstring_portrait (object : CodeObject) :
    object.portrait.docstring = object.docstring := rfl

@[simp] theorem kind_portrait (object : CodeObject) : object.portrait.kind = object.kind := by
  unfold portrait kind
  cases object.details <;> rfl

@[simp] theorem superclass?_portrait (object : CodeObject) :
    object.portrait.superclass? = object.superclass? := by
  unfold portrait superclass?
  cases object.details <;> rfl

@[simp] theorem signature?_portrait (object : CodeObject) :
    object.portrait.signature? = object.signature? := by
  unfold portrait signature?
  cases object.details <;> rfl

@[simp] theorem value?_portrait (object : CodeObject) :
    object.portrait.value? = object.value? := by
  unfold portrait value?
  cases object.details <;> rfl

@[simp] theorem flavor?_portrait (object : CodeObject) :
    object.portrait.flavor? = object.flavor? := by
  unfold portrait flavor?
  cases object.details <;> rfl

@[simp] theorem receiver?_portrait (object : CodeObject) :
    object.portrait.receiver? = object.receiver? := by
  unfold portrait receiver?
  cases object.details <;> rfl

@[simp] theorem separator_portrait (object : CodeObject) :
    object.portrait.details.separator = object.details.separator := by
  unfold portrait
  cases object.details <;> rfl

@[simp] theorem variant_portrait (object : CodeObject) :
    object.portrait.details.variant = object.details.variant := by
  unfold portrait
  cases object.details <;> rfl

/-- The variant of a namespace is its flavor. -/
theorem flavor?_eq_some_iff {object : CodeObject} {flavor : Flavor} :
    object.flavor? = some flavor ↔ object.details.variant = .newNamespace flavor := by
  unfold flavor? Details.variant Details.newNamespace
  cases object.details <;> simp [Details.unrevised, Details.withoutScopes]

/-- The variant of a method is what it is called on. -/
theorem receiver?_eq_some_iff {object : CodeObject} {receiver : Receiver} :
    object.receiver? = some receiver ↔ object.details.variant = .newMethod receiver := by
  unfold receiver? Details.variant Details.newMethod
  cases object.details <;> simp [Details.unrevised, Details.withoutScopes]

end CodeObject

/-- A change that does not look at the place of an object. -/
def RevisesPortrait (init : CodeObject → CodeObject) : Prop :=
  ∀ object, (init object).portrait = init object.portrait

/-- Revisions do not look at the place of an object. -/
theorem Revision.revisesPortrait_apply (revision : Revision) : RevisesPortrait revision.apply := by
  intro object
  have hdetails : (revision.reviseDetails object.details).withoutScopes =
      revision.reviseDetails object.details.withoutScopes := by
    cases object.details <;> rfl
  simp only [CodeObject.portrait, Revision.apply, hdetails]

/-- What a copy takes over does not look at its place. -/
theorem revisesPortrait_copy (object : CodeObject) :
    RevisesPortrait fun merged =>
      { merged with origin := object.origin, docstring := object.docstring } :=
  fun _ => rfl

/-- Naming a scope does not show in the portrait. -/
theorem Registry.portrait_recordScope (requested : String) (scope : ScopeId)
    (object : CodeObject) : (recordScope requested scope object).portrait = object.portrait := by
  unfold recordScope CodeObject.portrait
  cases hdetails : object.details with
  | «namespace» flavor superclass scopes => rfl
  | _ => simp only [hdetails]

/-! ## Revisions in turn -/

namespace CodeObject

/-- An object after several revisions, one after the other. -/
def revisedBy (object : CodeObject) (revisions : List Revision) : CodeObject :=
  revisions.foldl (fun revised revision => revision.apply revised) object

/-- A part of an object that a revision replaces if it says something about it is, after several
revisions, what the last of those says that say something. -/
theorem read_revisedBy {α : Type} (read : CodeObject → Option α) (part : Revision → Option α)
    (kinds : ObjectKind → Prop)
    (hread : ∀ (object : CodeObject) (revision : Revision), kinds object.kind →
      read (revision.apply object) = (part revision).or (read object))
    (object : CodeObject) (hkind : kinds object.kind) (revisions : List Revision) :
    read (object.revisedBy revisions) = (revisions.reverse.findSome? part).or (read object) := by
  induction revisions generalizing object with
  | nil => rfl
  | cons revision rest ih =>
    have hsame : (revision.apply object).kind = object.kind :=
      (revision.revisesOnly_apply.samePlace object).kind
    rw [revisedBy, List.foldl_cons]
    refine (ih (revision.apply object) (by rw [hsame]; exact hkind)).trans ?_
    rw [hread object revision hkind, List.reverse_cons, List.findSome?_append, Option.or_assoc]
    cases hpart : part revision <;> simp [hpart]

theorem revisedBy_append (object : CodeObject) (first second : List Revision) :
    object.revisedBy (first ++ second) = (object.revisedBy first).revisedBy second :=
  List.foldl_append

/-- A revision that says nothing changes nothing. -/
theorem revisedBy_of_forall_eq_empty (object : CodeObject) {revisions : List Revision}
    (hempty : ∀ revision ∈ revisions, revision = {}) : object.revisedBy revisions = object := by
  induction revisions generalizing object with
  | nil => rfl
  | cons revision rest ih =>
    have hsame : revision.apply object = object := by
      rw [hempty revision List.mem_cons_self]
      obtain ⟨_, _, _, _, _, _, details⟩ := object
      cases details <;> rfl
    rw [revisedBy, List.foldl_cons, hsame]
    exact ih object fun later hlater => hempty later (List.mem_cons_of_mem _ hlater)

/-- Several revisions revise. -/
theorem revisesOnly_revisedBy (revisions : List Revision) :
    RevisesOnly (·.revisedBy revisions) := by
  intro object
  induction revisions generalizing object with
  | nil => rfl
  | cons revision rest ih =>
    exact (ih (revision.apply object)).trans (revision.revisesOnly_apply object)

/-- Revisions leave an object of its kind. -/
theorem kind_revisedBy (object : CodeObject) (revisions : List Revision) :
    (object.revisedBy revisions).kind = object.kind :=
  ((revisesOnly_revisedBy revisions).samePlace object).kind

/-- Revisions leave an object of its variant. -/
theorem variant_revisedBy (object : CodeObject) (revisions : List Revision) :
    (object.revisedBy revisions).details.variant = object.details.variant :=
  congrArg (·.details.withoutScopes) (revisesOnly_revisedBy revisions object)

theorem origin_revisedBy (object : CodeObject) (revisions : List Revision) :
    (object.revisedBy revisions).origin =
      (revisions.reverse.findSome? (·.origin)).or object.origin :=
  read_revisedBy (·.origin) (·.origin) (fun _ => True) (fun _ _ _ => rfl) object trivial revisions

theorem docstring_revisedBy (object : CodeObject) (revisions : List Revision) :
    (object.revisedBy revisions).docstring =
      (revisions.reverse.findSome? (·.docstring)).getD object.docstring := by
  have hread := read_revisedBy (fun object => some object.docstring) (·.docstring)
    (fun _ => True) ?_ object trivial revisions
  · cases hfound : revisions.reverse.findSome? (·.docstring) <;> simpa [hfound] using hread
  · intro object revision _
    cases hdocstring : revision.docstring <;> simp [Revision.apply, hdocstring]

/-- Only namespaces have superclasses. -/
theorem superclass?_of_kind_ne {object : CodeObject} (hkind : object.kind ≠ .namespace) :
    object.superclass? = none := by
  unfold kind at hkind
  unfold superclass?
  cases hdetails : object.details with
  | «namespace» flavor superclass scopes => exact absurd (by rw [hdetails]; rfl) hkind
  | _ => rfl

/-- The superclass of a namespace. -/
theorem superclass?_revisedBy (object : CodeObject) (hkind : object.kind = .namespace)
    (revisions : List Revision) :
    (object.revisedBy revisions).superclass? =
      (revisions.reverse.findSome? (·.superclass)).or object.superclass? := by
  refine read_revisedBy superclass? (·.superclass) (· = .namespace) ?_ object hkind revisions
  intro object revision hkind
  unfold kind at hkind
  unfold superclass? Revision.apply
  cases hdetails : object.details with
  | «namespace» flavor superclass scopes => rfl
  | _ =>
    rw [hdetails] at hkind
    cases hkind

/-- The signature of a method. -/
theorem signature?_revisedBy (object : CodeObject) (hkind : object.kind = .method)
    (revisions : List Revision) :
    (object.revisedBy revisions).signature? =
      (revisions.reverse.findSome? (·.signature)).or object.signature? := by
  refine read_revisedBy signature? (·.signature) (· = .method) ?_ object hkind revisions
  intro object revision hkind
  unfold kind at hkind
  unfold signature? Revision.apply
  cases hdetails : object.details with
  | method receiver signature =>
    cases hrevised : revision.signature <;> simp [Revision.reviseDetails, hrevised]
  | _ =>
    rw [hdetails] at hkind
    cases hkind

/-- The value of a variable. -/
theorem value?_revisedBy (object : CodeObject)
    (hkind : object.kind = .instanceVariable ∨ object.kind = .classVariable)
    (revisions : List Revision) :
    (object.revisedBy revisions).value? =
      (revisions.reverse.findSome? (·.value)).or object.value? := by
  refine read_revisedBy value? (·.value)
    (fun kind => kind = .instanceVariable ∨ kind = .classVariable) ?_ object hkind revisions
  intro object revision hkind
  unfold kind at hkind
  unfold value? Revision.apply
  cases hdetails : object.details with
  | instanceVariable value =>
    cases hrevised : revision.value <;> simp [Revision.reviseDetails, hrevised]
  | classVariable value =>
    cases hrevised : revision.value <;> simp [Revision.reviseDetails, hrevised]
  | _ =>
    rw [hdetails] at hkind
    rcases hkind with hkind | hkind <;> cases hkind

/-- Only methods have signatures. -/
theorem kind_of_signature? {object : CodeObject} {signature : String}
    (hsignature : object.signature? = some signature) : object.kind = .method := by
  unfold signature? at hsignature
  unfold kind
  cases hdetails : object.details with
  | method receiver own => rfl
  | _ =>
    rw [hdetails] at hsignature
    cases hsignature

/-- Only variables have values. -/
theorem kind_of_value? {object : CodeObject} {value : String}
    (hvalue : object.value? = some value) :
    object.kind = .instanceVariable ∨ object.kind = .classVariable := by
  unfold value? at hvalue
  unfold kind
  cases hdetails : object.details with
  | instanceVariable own => exact .inl rfl
  | classVariable own => exact .inr rfl
  | _ =>
    rw [hdetails] at hvalue
    cases hvalue

end CodeObject

/-! ## Registrations -/

/-- A request to register what is declared, with its details and what is said about it. -/
structure Registration where
  declaration : Declaration
  details : Details
  revision : Revision

namespace Registration

/-- The object that a registration adds where its path is free, before it is revised. -/
def added (registration : Registration) : CodeObject :=
  CodeObject.portrait
    { name := registration.declaration.name
      path := registration.declaration.path
      owner := none
      details := registration.details }

theorem kind_added (registration : Registration) :
    registration.added.kind = registration.details.kind := by
  rw [added, CodeObject.kind_portrait, CodeObject.kind]

/-- The portrait at a path after a registration. -/
def record (path : String) (before : Option CodeObject) (registration : Registration) :
    Option CodeObject :=
  if registration.declaration.path = path then
    some (registration.revision.apply (before.getD registration.added))
  else before

/-- What is recorded about an object that is there is revised by the registrations at its path. -/
theorem foldl_record_some (path : String) (made : List Registration) (base : CodeObject) :
    made.foldl (record path) (some base) =
      some (base.revisedBy ((made.filter (·.declaration.path == path)).map (·.revision))) := by
  induction made generalizing base with
  | nil => rfl
  | cons registration rest ih =>
    rw [List.foldl_cons, record]
    by_cases hpath : registration.declaration.path = path
    · rw [if_pos hpath, List.filter_cons_of_pos (by simpa using hpath)]
      exact ih _
    · rw [if_neg hpath, List.filter_cons_of_neg (by simpa using hpath)]
      exact ih base

/-- Registrations at other paths leave no record. -/
theorem foldl_record_filter (path : String) (made : List Registration)
    (before : Option CodeObject) :
    (made.filter (·.declaration.path == path)).foldl (record path) before =
      made.foldl (record path) before := by
  rw [List.foldl_filter]
  refine congrArg (List.foldl · before made) (funext fun found => funext fun registration => ?_)
  unfold record
  by_cases hpath : registration.declaration.path = path
  · rw [if_pos (by simpa using hpath)]
  · rw [if_neg (by simpa using hpath), if_neg hpath]

/-- **The object at a path after registrations** comes from the one before, or from the first
registration at the path, by the revisions at the path in turn. -/
theorem exists_of_foldl_record {path : String} {made : List Registration}
    {before : Option CodeObject} {object : CodeObject}
    (hrecorded : made.foldl (record path) before = some object) :
    ∃ base, (before = some base ∨
        before = none ∧ ∃ first ∈ made, first.declaration.path = path ∧ base = first.added) ∧
      object =
        base.revisedBy ((made.filter (·.declaration.path == path)).map (·.revision)) := by
  cases before with
  | some base =>
    rw [foldl_record_some, Option.some.injEq] at hrecorded
    exact ⟨base, .inl rfl, hrecorded.symm⟩
  | none =>
    induction made with
    | nil => cases hrecorded
    | cons registration rest ih =>
      rw [List.foldl_cons, record] at hrecorded
      by_cases hpath : registration.declaration.path = path
      · -- the first registration at the path adds the object that it then revises
        rw [if_pos hpath, foldl_record_some, Option.some.injEq] at hrecorded
        refine ⟨registration.added, .inr ⟨rfl, registration, List.mem_cons_self, hpath, rfl⟩, ?_⟩
        rw [List.filter_cons_of_pos (by simpa using hpath), ← hrecorded]
        rfl
      · rw [if_neg hpath] at hrecorded
        obtain ⟨base, hbase, hobject⟩ := ih hrecorded
        refine ⟨base, hbase.imp_right ?_, ?_⟩
        · rintro ⟨hnone, first, hfirst, hfirstPath⟩
          exact ⟨hnone, first, List.mem_cons_of_mem _ hfirst, hfirstPath⟩
        · rw [List.filter_cons_of_neg (by simpa using hpath)]
          exact hobject

end Registration

namespace Registry

/-- The portrait of the registered object at a path. -/
def portrait? (registry : Registry) (path : String) : Option CodeObject :=
  (registry.at? path).map (·.portrait)

variable {registry first second third : Registry}

namespace Sound

variable {owner id : ObjectId} {path : String}

/-- The object at a path is changed alone. -/
theorem portrait?_modifyObject (hsound : Sound registry)
    (hlookup : registry.lookup? path = some id) {change : CodeObject → CodeObject}
    (hportrait : RevisesPortrait change) (other : String) :
    (registry.modifyObject id change).portrait? other =
      if path = other then (registry.portrait? other).map change else registry.portrait? other := by
  have hlookupSame : (registry.modifyObject id change).lookup? other = registry.lookup? other := rfl
  unfold portrait? at?
  rw [hlookupSame]
  by_cases hpath : path = other
  · subst hpath
    rw [if_pos rfl, hlookup, Option.bind_some, Option.bind_some, get?_modifyObject, if_pos rfl,
      Option.map_map, Option.map_map]
    exact congrArg (Option.map · _) (funext hportrait)
  · rw [if_neg hpath]
    cases hother : registry.lookup? other with
    | none => rfl
    | some found =>
      -- another path leads to another object
      have hne : found ≠ id := by
        rintro rfl
        have hsame := (hsound.lookup?_eq_some_iff.1 hlookup).2
        rw [(hsound.lookup?_eq_some_iff.1 hother).2, Option.some.injEq] at hsame
        exact hpath hsame.symm
      rw [Option.bind_some, Option.bind_some, get?_modifyObject, if_neg hne]

/-- A new object is at its path, and no other path leads to it. -/
theorem portrait?_addObject (hsound : Sound registry) {object : CodeObject}
    (howner : owner.index < registry.objects.size) (hfree : registry.lookup? path = none)
    (other : String) :
    (registry.addObject owner path object).portrait? other =
      if path = other then some object.portrait else registry.portrait? other := by
  have hentries := PathIndex.entries_insert_of_find?_eq_none ⟨registry.objects.size⟩ hfree
  have hadded : (registry.addObject owner path object).lookup? path =
      some ⟨registry.objects.size⟩ := by
    rw [lookup?, index_addObject, PathIndex.find?_eq_some_iff, hentries]
    exact List.mem_append_right _ List.mem_cons_self
  by_cases hpath : path = other
  · subst hpath
    rw [if_pos rfl, portrait?, at?, hadded, Option.bind_some,
      get?_addObject_added registry path object howner, Option.map_some]
  · rw [if_neg hpath]
    have hlookup : (registry.addObject owner path object).lookup? other =
        registry.lookup? other := by
      refine Option.ext fun found => ?_
      rw [lookup?, lookup?, index_addObject, PathIndex.find?_eq_some_iff,
        PathIndex.find?_eq_some_iff, hentries, List.mem_append, List.mem_singleton, Prod.mk.injEq]
      exact or_iff_left fun hsame => hpath hsame.1.symm
    unfold portrait? at?
    rw [hlookup]
    cases hother : registry.lookup? other with
    | none => rfl
    | some found =>
      obtain ⟨-, hfound⟩ := hsound.lookup?_eq_some_iff.1 hother
      obtain ⟨before, hget, -⟩ := Option.map_eq_some_iff.1 hfound
      -- a further child does not show in the portrait
      rw [Option.bind_some, Option.bind_some,
        get?_addObject_of_lt registry owner path object (index_lt_of_get? hget), hget]
      by_cases hid : found = owner <;> simp [hid]

/-- **A registration shows at its path only.** -/
theorem portrait?_registerWith (hsound : Sound registry) {changed : Registry}
    {parent : CodeObject} {name : String} {details : Details} {init : CodeObject → CodeObject}
    (hparent : registry.get? owner = some parent) (hportrait : RevisesPortrait init)
    (hok : registry.registerWith owner name details init = .ok (id, changed)) (other : String) :
    changed.portrait? other =
      if joinPath parent.path details.separator name = other then
        some (init ((registry.portrait? other).getD (CodeObject.portrait
          { name, path := joinPath parent.path details.separator name, owner := none, details })))
      else registry.portrait? other := by
  obtain ⟨found, hfound, -, hcases⟩ := registerWith_eq_ok_iff.1 hok
  obtain rfl := Option.some.inj (hfound.symm.trans hparent)
  -- an object at the path is revised as it stands, and a free path begins with a new object
  rcases hcases with ⟨existing, hlookup, hget, -, rfl⟩ | ⟨hfree, -, rfl⟩
  · rw [hsound.portrait?_modifyObject hlookup hportrait]
    by_cases hpath : joinPath found.path details.separator name = other
    · have hat : registry.portrait? other = some existing.portrait := by
        rw [portrait?, at?, ← hpath, hlookup, Option.bind_some, hget, Option.map_some]
      rw [if_pos hpath, if_pos hpath, hat, Option.map_some, Option.getD_some]
    · rw [if_neg hpath, if_neg hpath]
  · rw [hsound.portrait?_addObject (index_lt_of_get? hparent) hfree]
    by_cases hpath : joinPath found.path details.separator name = other
    · have hat : registry.portrait? other = none := by
        rw [portrait?, at?, ← hpath, hfree]
        rfl
      rw [if_pos hpath, if_pos hpath, hat, Option.getD_none, hportrait]
      rfl
    · rw [if_neg hpath, if_neg hpath]

/-- The object at a path. -/
theorem portrait?_of_get? (hsound : Sound registry) {object : CodeObject}
    (hget : registry.get? id = some object) (hne : id ≠ .root) :
    registry.portrait? object.path = some object.portrait := by
  rw [portrait?, hsound.at?_path hget (hsound.path_ne_empty hget hne), Option.map_some]

/-- Where a path is free, nothing is there. -/
theorem portrait?_eq_none_iff (hsound : Sound registry) :
    registry.portrait? path = none ↔ registry.contains path = false := by
  unfold portrait? at? contains
  cases hlookup : registry.lookup? path with
  | none => simp
  | some found =>
    obtain ⟨-, hpath⟩ := hsound.lookup?_eq_some_iff.1 hlookup
    obtain ⟨object, hget, -⟩ := Option.map_eq_some_iff.1 hpath
    simp [hget]

/-- **A copy is a registration** under the object at the owner's path. -/
theorem exists_of_copyObject (hsound : Sound registry) {other changed : Registry}
    (hother : Sound other) {source : ObjectId} {object : CodeObject}
    (hget : other.get? source = some object) (hne : source ≠ .root)
    (hok : registry.copyObject other object = .ok (id, changed)) :
    ∃ owner parent, registry.get? owner = some parent ∧
      joinPath parent.path object.details.withoutScopes.separator object.name = object.path ∧
      registry.registerWith owner object.name object.details.withoutScopes (fun merged =>
        { merged with origin := object.origin, docstring := object.docstring }) =
          .ok (id, changed) := by
  obtain ⟨owner, howner, hregistered⟩ := copyObject_eq_ok_iff.1 hok
  obtain ⟨parent, hparent, -⟩ := registerWith_eq_ok_iff.1 hregistered
  refine ⟨owner, parent, hparent, ?_, hregistered⟩
  rw [hsound.path_of_mergeOwner howner hparent, Details.separator_withoutScopes,
    ← hother.path_eq_ownerPath hget hne]

/-- **A copy shows at its path only**, and it shows there what the object is. -/
theorem portrait?_copyObject (hsound : Sound registry) {other changed : Registry}
    (hother : Sound other) {source : ObjectId} {object : CodeObject}
    (hget : other.get? source = some object) (hne : source ≠ .root)
    (hfree : registry.contains object.path = false)
    (hok : registry.copyObject other object = .ok (id, changed)) (path : String) :
    changed.portrait? path =
      if object.path = path then other.portrait? path else registry.portrait? path := by
  obtain ⟨owner, parent, hparent, hpath, hregistered⟩ :=
    hsound.exists_of_copyObject hother hget hne hok
  rw [hsound.portrait?_registerWith hparent (revisesPortrait_copy object) hregistered, hpath]
  split
  · rename_i hsame
    rw [← hsame, hsound.portrait?_eq_none_iff.2 hfree, hother.portrait?_of_get? hget hne]
    unfold CodeObject.portrait
    cases object.details <;> rfl
  · rfl

/-- A registration does not change what the root is. -/
theorem portrait_root_registerWith (hsound : Sound registry) {changed : Registry} {name : String}
    {details : Details} {init : CodeObject → CodeObject}
    (hok : registry.registerWith owner name details init = .ok (id, changed)) :
    (changed.get? .root).map (·.portrait) = (registry.get? .root).map (·.portrait) := by
  obtain ⟨parent, -, -, hcases⟩ := registerWith_eq_ok_iff.1 hok
  rcases hcases with ⟨existing, hlookup, -, -, rfl⟩ | ⟨-, -, rfl⟩
  · have hne := (hsound.lookup?_eq_some_iff.1 hlookup).1
    rw [get?_modifyObject, if_neg hne.symm]
  · obtain ⟨root, hroot, -⟩ := hsound.root
    rw [get?_addObject_of_lt registry owner _ _ (index_lt_of_get? hroot), hroot]
    by_cases hid : ObjectId.root = owner <;> simp [hid]

end Sound

/-! ## Records -/

/-- What is registered at a path stays registered there. -/
theorem Extends.at? (hextends : first.Extends second) {path : String} {object : CodeObject}
    (hat : first.at? path = some object) :
    ∃ found, second.at? path = some found ∧ found.Alike object := by
  obtain ⟨id, hlookup, hget⟩ := Option.bind_eq_some_iff.1 hat
  obtain ⟨found, hfound, halike⟩ := hextends.objects hget
  exact ⟨found, Option.bind_eq_some_iff.2 ⟨id, hextends.lookup? hlookup, hfound⟩, halike⟩

/-- **A record of registrations.** A registry has grown into a sound one by registrations, and they
decide what is at every path. -/
structure Records (before after : Registry) (made : List Registration) : Prop
    extends Grows before after (made.map (·.declaration)) where
  /-- What is registered is of the kind that was requested. -/
  kinds : ∀ registration ∈ made, ∃ object, after.at? registration.declaration.path = some object ∧
    object.kind = registration.details.kind
  /-- The root stays what it is. -/
  root : (after.get? .root).map (·.portrait) = (before.get? .root).map (·.portrait)
  /-- At every path is what the registrations there make of what was there before. -/
  portraits : ∀ path, after.portrait? path =
    made.foldl (Registration.record path) (before.portrait? path)

namespace Records

variable {made further : List Registration}

theorem refl (hsound : Sound registry) : registry.Records registry [] :=
  ⟨.refl hsound, fun _ hmem => absurd hmem List.not_mem_nil, rfl, fun _ => rfl⟩

theorem trans (hfirst : first.Records second made) (hsecond : second.Records third further) :
    first.Records third (made ++ further) := by
  refine ⟨?_, ?_, hsecond.root.trans hfirst.root, fun path => ?_⟩
  · rw [List.map_append]
    exact hfirst.toGrows.trans hsecond.toGrows
  · intro registration hmem
    rcases List.mem_append.1 hmem with hmade | hfurther
    · obtain ⟨object, hat, hkind⟩ := hfirst.kinds registration hmade
      obtain ⟨found, hfound, halike⟩ := hsecond.extending.at? hat
      exact ⟨found, hfound, halike.kind.trans hkind⟩
    · exact hsecond.kinds registration hfurther
  · rw [hsecond.portraits, hfirst.portraits, List.foldl_append]

/-- No registration is at the path of the root. -/
theorem path_ne_empty (hrecords : first.Records second made) {registration : Registration}
    (hmem : registration ∈ made) : registration.declaration.path ≠ "" := by
  obtain ⟨object, hat, -⟩ := hrecords.kinds registration hmem
  obtain ⟨id, hlookup, hget⟩ := Option.bind_eq_some_iff.1 hat
  obtain ⟨hne, hpath⟩ := hrecords.sound.lookup?_eq_some_iff.1 hlookup
  rw [hget, Option.map_some, Option.some.injEq] at hpath
  rw [← hpath]
  exact hrecords.sound.path_ne_empty hget hne

/-- An object is of the kind that the registrations at its path request. -/
theorem kind_eq (hrecords : first.Records second made) {registration : Registration}
    (hmem : registration ∈ made) {id : ObjectId} {object : CodeObject}
    (hget : second.get? id = some object) (hpath : registration.declaration.path = object.path) :
    object.kind = registration.details.kind := by
  obtain ⟨found, hat, hkind⟩ := hrecords.kinds registration hmem
  have hne := hrecords.path_ne_empty hmem
  rw [hpath] at hat hne
  rw [hrecords.sound.at?_path hget hne, Option.some.injEq] at hat
  rw [hat, hkind]

/-- The portrait at a path is of the kind that the registrations there request. -/
theorem kind_eq_of_portrait? (hrecords : first.Records second made) {registration : Registration}
    (hmem : registration ∈ made) {portrait : CodeObject}
    (hportrait : second.portrait? registration.declaration.path = some portrait) :
    portrait.kind = registration.details.kind := by
  obtain ⟨found, hat, hkind⟩ := hrecords.kinds registration hmem
  rw [portrait?, hat, Option.map_some, Option.some.injEq] at hportrait
  rw [← hportrait, CodeObject.kind_portrait, hkind]

/-- **An object after registrations** is what the registrations at its path make of the object that
had its identity before. -/
theorem foldl_record_get? (hrecords : first.Records second made) (hsound : Sound first)
    {id : ObjectId} {object : CodeObject} (hget : second.get? id = some object) :
    made.foldl (Registration.record object.path) ((first.get? id).map (·.portrait)) =
      some object.portrait := by
  by_cases hroot : id = .root
  · subst hroot
    -- the root has the empty path, where nothing is registered
    have hnone : made.filter (·.declaration.path == object.path) = [] := by
      rw [List.filter_eq_nil_iff]
      intro registration hmem
      rw [hrecords.sound.path_root hget]
      simpa using hrecords.path_ne_empty hmem
    rw [← hrecords.root, hget, Option.map_some, Registration.foldl_record_some, hnone]
    rfl
  · have hlookup :=
      hrecords.sound.lookup?_path hget (hrecords.sound.path_ne_empty hget hroot)
    have hat := hrecords.sound.portrait?_of_get? hget hroot
    -- the path led to the same identity before, if it led anywhere
    have hbefore : first.portrait? object.path = (first.get? id).map (·.portrait) := by
      rw [portrait?, Registry.at?]
      cases hfirst : first.lookup? object.path with
      | some other =>
        have hsame := hrecords.extending.lookup? hfirst
        rw [hlookup, Option.some.injEq] at hsame
        rw [hsame, Option.bind_some]
      | none =>
        cases hgetFirst : first.get? id with
        | none => rfl
        | some before =>
          obtain ⟨found, hfound, halike⟩ := hrecords.extending.objects hgetFirst
          obtain rfl := Option.some.inj (hfound.symm.trans hget)
          have htaken := hsound.lookup?_path hgetFirst (hsound.path_ne_empty hgetFirst hroot)
          rw [← halike.path, hfirst] at htaken
          cases htaken
    rw [← hbefore, ← hrecords.portraits, hat]

end Records

end Registry

namespace Registry

/-- **A refusal.** A registry refuses a registration at a path where an object of another kind
is. -/
def Refuses (registry : Registry) (registration : Registration) : Prop :=
  ∃ object, registry.at? registration.declaration.path = some object ∧
    object.kind ≠ registration.details.kind

end Registry

/-! ## Edits that make registrations -/

namespace Edit

open Registry

variable {α β : Type} {registry : Registry} {made further : List Registration}
  {after : α → Registry → Prop}

/-- **The guarantee of an edit that makes registrations.** It ends with all of them made, or it is
refused at a clash at the top level: then it has made those before the first that is refused. -/
def Makes (edit : Edit α) (registry : Registry) (made : List Registration)
    (after : α → Registry → Prop) : Prop :=
  edit.Yields registry (fun value changed => registry.Records changed made ∧ after value changed)
    fun error changed => TopLevelClash changed error ∧
      ∃ part refused, part ++ [refused] <+: made ∧ registry.Records changed part ∧
        changed.Refuses refused

namespace Makes

theorem pure {value : α} (hsound : registry.Sound) (hafter : after value registry) :
    (Pure.pure value : Edit α).Makes registry [] after :=
  Yields.pure ⟨.refl hsound, hafter⟩

/-- **Sequences** make the registrations of both edits. -/
theorem bind {edit : Edit α} {next : α → Edit β} {middle : α → Registry → Prop}
    {after : β → Registry → Prop} (hedit : edit.Makes registry made middle)
    (hnext : ∀ value changed, registry.Records changed made → middle value changed →
      (next value).Makes changed further after) :
    (edit >>= next).Makes registry (made ++ further) after := by
  have hweak : edit.Yields registry
      (fun value changed => registry.Records changed made ∧ middle value changed)
      fun error changed => TopLevelClash changed error ∧
        ∃ part refused, part ++ [refused] <+: made ++ further ∧ registry.Records changed part ∧
          changed.Refuses refused := by
    refine hedit.mono (fun _ _ hdone => hdone) ?_
    rintro error changed ⟨hclash, part, refused, hpart, hrecords⟩
    exact ⟨hclash, part, refused, hpart.trans (List.prefix_append _ _), hrecords⟩
  refine hweak.bind fun value changed hdone => (hnext value changed hdone.1 hdone.2).mono ?_ ?_
  · exact fun result final hfinal => ⟨hdone.1.trans hfinal.1, hfinal.2⟩
  · -- what was made before the second edit is part of what was made before its refusal
    rintro error final ⟨hclash, part, refused, hpart, hrecords, hrefuses⟩
    refine ⟨hclash, made ++ part, refused, ?_, hdone.1.trans hrecords, hrefuses⟩
    rw [List.append_assoc]
    exact (List.prefix_append_right_inj _).2 hpart

/-- A sequence that ends with a value makes the registrations of the edit before it. -/
theorem bind_pure {edit : Edit α} {next : α → β} {middle : α → Registry → Prop}
    {after : β → Registry → Prop} (hedit : edit.Makes registry made middle)
    (hnext : ∀ value changed, registry.Records changed made → middle value changed →
      after (next value) changed) :
    (edit >>= fun value => Pure.pure (next value)).Makes registry made after := by
  rw [← List.append_nil made]
  exact hedit.bind fun value changed hrecords hmiddle =>
    pure hrecords.sound (hnext value changed hrecords hmiddle)

/-- What follows a reading may use the registry as it is. -/
theorem bind_read {next : Registry → Edit α} (hnext : (next registry).Makes registry made after) :
    (Edit.read >>= next).Makes registry made after := Yields.bind_read hnext

/-- An edit that is not refused has made all registrations. -/
theorem records {edit : Edit α} (hedit : edit.Makes registry made after)
    (hok : (edit.apply registry).1.isOk = true) :
    registry.Records (edit.apply registry).2 made := by
  rw [Makes, Yields] at hedit
  rcases hresult : edit.apply registry with ⟨error | value, changed⟩
  · rw [hresult] at hok
    cases hok
  · rw [hresult] at hedit
    exact hedit.1

/-- An edit has made some first part of its registrations. -/
theorem exists_records {edit : Edit α} (hedit : edit.Makes registry made after) :
    ∃ part, part <+: made ∧ registry.Records (edit.apply registry).2 part := by
  rw [Makes, Yields] at hedit
  rcases hresult : edit.apply registry with ⟨error | value, changed⟩
  · rw [hresult] at hedit
    obtain ⟨-, part, refused, hpart, hrecords, -⟩ := hedit
    exact ⟨part, (List.prefix_append _ _).trans hpart, hrecords⟩
  · rw [hresult] at hedit
    exact ⟨made, List.prefix_rfl, hedit.1⟩

/-- An edit that is refused has made the registrations before one that is refused. -/
theorem exists_refused {edit : Edit α} (hedit : edit.Makes registry made after)
    (hok : (edit.apply registry).1.isOk = false) :
    ∃ part refused, part ++ [refused] <+: made ∧
      registry.Records (edit.apply registry).2 part ∧ (edit.apply registry).2.Refuses refused := by
  rw [Makes, Yields] at hedit
  rcases hresult : edit.apply registry with ⟨error | value, changed⟩
  · rw [hresult] at hedit
    exact hedit.2
  · rw [hresult] at hok
    cases hok

end Makes

end Edit

/-! ## Requests -/

namespace Registry.Sound

open Edit

variable {registry : Registry} {owner : ObjectId} {parent : CodeObject}

/-- **The guarantee of a registration** by indexing. -/
theorem register_makes (hsound : Sound registry) {name : String} {details : Details}
    (revision : Revision) (hparent : registry.get? owner = some parent)
    (hnamespace : parent.isNamespace = true) (hname : details.kind.Names name) :
    (Edit.register owner name details revision).Makes registry
      [⟨declare parent.path details.separator details.kind name, details, revision⟩]
      fun id changed => ∃ object, changed.get? id = some object ∧ object.kind = details.kind ∧
        object.path = joinPath parent.path details.separator name := by
  refine Yields.attempt ?_ ?_
  · intro id changed hok
    obtain ⟨found, hfound, hgrows, hobject⟩ :=
      hsound.registerWith_grows revision.revisesOnly_apply hname hok
    obtain rfl := Option.some.inj (hfound.symm.trans hparent)
    refine ⟨⟨hgrows, ?_, hsound.portrait_root_registerWith hok, fun path => ?_⟩, hobject⟩
    · intro registration hmem
      obtain rfl := List.mem_singleton.1 hmem
      obtain ⟨object, hget, hkind, hpath⟩ := hobject
      have hne : object.path ≠ "" := by
        rw [hpath]
        exact joinPath_ne_empty hname.ne_empty
      have hat := hgrows.sound.at?_path hget hne
      rw [hpath] at hat
      exact ⟨object, hat, hkind⟩
    · exact hsound.portrait?_registerWith hparent revision.revisesPortrait_apply hok path
  · intro error herror
    obtain ⟨existing, hat, hkind, -⟩ :=
      hsound.exists_of_registerWith_error hparent hnamespace herror
    exact ⟨hsound.registerWith_refused hparent hnamespace hname herror, [], _, List.prefix_rfl,
      .refl hsound, existing, hat, hkind⟩

/-- **The guarantee of a new local scope.** It is never refused if its anchor is there and its
owner is a namespace, and it registers nothing. -/
theorem newLocalScope_makes (hsound : Sound registry) (name : Option String) {anchor : ScopeAnchor}
    (hparent : registry.get? owner = some parent) (hnamespace : parent.isNamespace = true)
    (hanchor : registry.checkAnchor anchor = .ok ()) :
    (Edit.newLocalScope owner name anchor).Makes registry []
      fun scope changed => scope.index < changed.scopes.size := by
  have hfound := namespaceAt_eq_ok_iff.2 ⟨hparent, hnamespace⟩
  refine Yields.attempt ?_ ?_
  · intro scope changed hok
    simp only [Registry.newLocalScope, hanchor, hfound, Except.ok.injEq, Prod.mk.injEq] at hok
    obtain ⟨rfl, rfl⟩ := hok
    set scope : LocalScope :=
      { name := (parent.scopeNames?.getD {}).next (name.getD ""), anchor }
    set named := recordScope (name.getD "") ⟨registry.scopes.size⟩
    have hplace : ∀ object, (named object).SamePlace object := samePlace_recordScope _ _
    have hextends : registry.Extends ((registry.modifyObject owner named).addScope scope) :=
      (Extends.modifyObject registry owner hplace).trans (.addScope _ _)
    have hindex : ((registry.modifyObject owner named).addScope scope).index = registry.index := by
      rw [index_addScope, index_modifyObject]
    -- the objects stay as they are but for the scopes that the owner has named
    have hportrait : ∀ id, (((registry.modifyObject owner named).addScope scope).get? id).map
        (·.portrait) = (registry.get? id).map (·.portrait) := by
      intro id
      have hget : ((registry.modifyObject owner named).addScope scope).get? id =
          (registry.modifyObject owner named).get? id := by
        rw [get?, get?, objects_addScope]
      rw [hget, get?_modifyObject]
      split
      · rw [Option.map_map]
        exact congrArg (Option.map · _) (funext (portrait_recordScope _ _))
      · rfl
    refine ⟨⟨⟨hextends, (hsound.modifyObject owner hplace).addScope _,
      hextends.declarations_eq hsound.toWellFormed hindex⟩,
      fun _ hmem => absurd hmem List.not_mem_nil, hportrait _, fun path => ?_⟩, ?_⟩
    · rw [portrait?, portrait?, at?, at?, lookup?, lookup?, hindex, Option.map_bind,
        Option.map_bind]
      exact congrArg (Option.bind _) (funext hportrait)
    · show registry.scopes.size < ((registry.modifyObject owner named).addScope scope).scopes.size
      rw [size_scopes_addScope, scopes_modifyObject]
      exact Nat.lt_succ_self _
  · intro error herror
    simp [Registry.newLocalScope, hanchor, hfound] at herror

end Registry.Sound

end RubyIndex
