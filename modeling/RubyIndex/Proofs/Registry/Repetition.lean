import RubyIndex.Proofs.Document.Entries
import RubyIndex.Proofs.Registry.Admission

/-! # Making registrations again

Registrations that are made a second time change nothing. Every path is taken already, so nothing
is added; and what the revisions at a path say, taken together, they have said before.

* `CodeObject.revisedBy_revisedBy`: revisions say the same when they are made again.
* `Registry.SameObjects` relates registries that differ in their local scopes only.
* `Registry.Records.again`: registrations that are made again leave the same objects.
* `Registry.SameObjects.ofRegistry_eq`: the documents of registries with the same objects are the
  same. -/

namespace RubyIndex

/-! ## Revisions -/

namespace Revision

/-- What two revisions say together, where the second has the last word. -/
def followedBy (first second : Revision) : Revision where
  origin := second.origin.or first.origin
  docstring := second.docstring.or first.docstring
  superclass := second.superclass.or first.superclass
  signature := second.signature.or first.signature
  value := second.value.or first.value

/-- To say something twice is to say it once. -/
theorem followedBy_self (revision : Revision) : revision.followedBy revision = revision := by
  simp only [followedBy, Option.or_self]

/-- Two revisions in turn are one revision. -/
theorem apply_followedBy (first second : Revision) (object : CodeObject) :
    (first.followedBy second).apply object = second.apply (first.apply object) := by
  have hdetails : (first.followedBy second).reviseDetails object.details =
      second.reviseDetails (first.reviseDetails object.details) := by
    cases object.details <;>
      simp only [reviseDetails, followedBy, Option.getD_or, Option.or_assoc]
  simp only [apply, hdetails]
  simp only [followedBy, Option.getD_or, Option.or_assoc]

end Revision

namespace CodeObject

/-- Several revisions in turn are one revision. -/
theorem exists_revision (revisions : List Revision) :
    ∃ revision : Revision, ∀ object : CodeObject,
      object.revisedBy revisions = revision.apply object := by
  induction revisions with
  | nil =>
    refine ⟨{}, fun object => ?_⟩
    have hempty : ∀ revision ∈ ([{}] : List Revision), revision = {} := by simp
    exact (revisedBy_of_forall_eq_empty object hempty).symm
  | cons revision rest ih =>
    obtain ⟨later, hlater⟩ := ih
    refine ⟨revision.followedBy later, fun object => ?_⟩
    rw [Revision.apply_followedBy, ← hlater]
    rfl

/-- **Revisions that are made again** change nothing. -/
theorem revisedBy_revisedBy (object : CodeObject) (revisions : List Revision) :
    (object.revisedBy revisions).revisedBy revisions = object.revisedBy revisions := by
  obtain ⟨revision, hrevision⟩ := exists_revision revisions
  rw [hrevision, hrevision, ← Revision.apply_followedBy, Revision.followedBy_self]

/-- An object without the local scopes that it has named. -/
def withoutScopes (object : CodeObject) : CodeObject :=
  { object with details := object.details.withoutScopes }

/-- An object is its portrait in its place. -/
theorem withoutScopes_eq_of_portrait_eq {first second : CodeObject}
    (hportrait : first.portrait = second.portrait) (howner : first.owner = second.owner)
    (hchildren : first.children = second.children) :
    first.withoutScopes = second.withoutScopes := by
  have hplace : ∀ object : CodeObject, object.withoutScopes =
      { object.portrait with owner := object.owner, children := object.children } :=
    fun _ => rfl
  rw [hplace, hplace, hportrait, howner, hchildren]

end CodeObject

/-- What is recorded at a path does not change when the registrations are made again. -/
theorem Registration.foldl_record_again (path : String) (made : List Registration)
    (before : Option CodeObject) :
    made.foldl (record path) (made.foldl (record path) before) =
      made.foldl (record path) before := by
  cases hrecorded : made.foldl (record path) before with
  | some object =>
    obtain ⟨base, -, rfl⟩ := exists_of_foldl_record hrecorded
    rw [foldl_record_some, CodeObject.revisedBy_revisedBy]
  | none =>
    cases before with
    | some base =>
      rw [foldl_record_some] at hrecorded
      cases hrecorded
    | none => exact hrecorded

/-! ## Registries -/

/-- An index is the list of its entries. -/
theorem PathIndex.eq_of_entries_eq {first second : PathIndex}
    (hentries : first.entries = second.entries) : first = second := by
  cases first
  cases second
  cases hentries
  rfl

namespace Registry

/-- **The same objects.** Two registries have the same objects under the same paths, apart from the
local scopes that namespaces have named. -/
structure SameObjects (first second : Registry) : Prop where
  objects : second.objects.map (·.withoutScopes) = first.objects.map (·.withoutScopes)
  index : second.index = first.index

variable {registry first second third : Registry} {made : List Registration}

/-- An object is found under the same identity, apart from the scopes that it has named. -/
theorem SameObjects.get? (hsame : first.SameObjects second) (id : ObjectId) :
    (second.get? id).map (·.withoutScopes) = (first.get? id).map (·.withoutScopes) := by
  have hget := congrArg (·[id.index]?) hsame.objects
  simp only [Array.getElem?_map] at hget
  exact hget

/-- A row of declarations whose paths are taken enters nothing. -/
theorem foldl_enter_of_taken {declared : List Declaration} {entered : List Declaration}
    (htaken : ∀ declaration ∈ declared, entered.any (declaration.path == ·.path) = true) :
    declared.foldl enter entered = entered := by
  induction declared with
  | nil => rfl
  | cons declaration rest ih =>
    rw [List.foldl_cons, enter, if_pos (htaken declaration List.mem_cons_self)]
    exact ih fun later hlater => htaken later (List.mem_cons_of_mem _ hlater)

namespace Records

/-- Nothing is entered again. -/
theorem index_again (hfirst : first.Records second made) (hagain : second.Records third made) :
    third.index = second.index := by
  have hdeclarations : third.declarations = second.declarations := by
    rw [hagain.declarations]
    refine foldl_enter_of_taken fun declaration hmem => ?_
    obtain ⟨registration, hregistration, rfl⟩ := List.mem_map.1 hmem
    obtain ⟨object, hat, -⟩ := hfirst.kinds registration hregistration
    obtain ⟨id, hlookup, -⟩ := Option.bind_eq_some_iff.1 hat
    rw [hfirst.sound.any_declarations_iff, hlookup]
    exact Option.some_ne_none id
  -- the index has only grown, and it lists no more paths than before
  have hlength : second.index.entries.length = third.index.entries.length := by
    have hpaths := congrArg List.length (congrArg (List.map Declaration.path) hdeclarations)
    simp only [declarations, List.map_map, List.length_map] at hpaths
    have hbefore := congrArg List.length hfirst.sound.map_path_registered
    have hafter := congrArg List.length hagain.sound.map_path_registered
    simp only [List.length_map] at hbefore hafter
    rw [← hbefore, ← hafter, hpaths]
  exact PathIndex.eq_of_entries_eq (hagain.extending.index.eq_of_length hlength).symm

/-- No objects are added again. -/
theorem size_again (hfirst : first.Records second made) (hagain : second.Records third made) :
    third.objects.size = second.objects.size := by
  have hids := congrArg List.length hagain.sound.ids
  rw [index_again hfirst hagain, hfirst.sound.ids] at hids
  simp only [List.length_map, List.length_range'] at hids
  have hpositive := hfirst.sound.size_pos
  have hpositiveAgain := hagain.sound.size_pos
  omega

/-- **Objects are left as they are** by registrations that are made again. -/
theorem get?_again (hfirst : first.Records second made) (hagain : second.Records third made)
    {id : ObjectId} {object found : CodeObject} (hget : second.get? id = some object)
    (hfound : third.get? id = some found) : found.withoutScopes = object.withoutScopes := by
  obtain ⟨later, hlater, halike⟩ := hagain.extending.objects hget
  obtain rfl : found = later := Option.some.inj (hfound.symm.trans hlater)
  have howner : ∀ child,
      (third.get? child).bind (·.owner) = (second.get? child).bind (·.owner) := by
    intro child
    cases hchild : second.get? child with
    | none =>
      rw [get?_eq_none_iff, ← size_again hfirst hagain, ← get?_eq_none_iff] at hchild
      rw [hchild]
    | some before =>
      obtain ⟨after, hafter, halikeChild⟩ := hagain.extending.objects hchild
      rw [hafter, Option.bind_some, Option.bind_some, halikeChild.owner]
  refine CodeObject.withoutScopes_eq_of_portrait_eq ?_ halike.owner ?_
  · by_cases hroot : id = .root
    · subst hroot
      have hportrait := hagain.root
      rw [hfound, hget, Option.map_some, Option.map_some, Option.some.injEq] at hportrait
      exact hportrait
    · have hportrait := hagain.sound.portrait?_of_get? hfound hroot
      rw [halike.path, hagain.portraits, hfirst.portraits, Registration.foldl_record_again,
        ← hfirst.portraits, hfirst.sound.portrait?_of_get? hget hroot, Option.some.injEq]
        at hportrait
      exact hportrait.symm
  · -- children are listed in the order of their numbers, and they are the same
    have hnodup : ∀ {registry : Registry} {object : CodeObject}, registry.WellFormed →
        registry.get? id = some object → object.children.Nodup := by
      intro registry object hwell hget
      refine (hwell.increasing hget).imp ?_
      rintro earlier _ hless rfl
      exact Nat.lt_irrefl _ hless
    have hasymm : ∀ earlier later : ObjectId, earlier ∈ found.children → later ∈ object.children →
        earlier.index < later.index → later.index < earlier.index → earlier = later :=
      fun earlier later _ _ hless hmore => absurd hmore (Nat.lt_asymm hless)
    refine List.Perm.eq_of_pairwise hasymm (hagain.sound.increasing hfound)
      (hfirst.sound.increasing hget) ?_
    · rw [List.perm_ext_iff_of_nodup (hnodup hagain.sound.toWellFormed hfound)
        (hnodup hfirst.sound.toWellFormed hget)]
      intro child
      rw [hagain.sound.children hfound, hfirst.sound.children hget, howner]

/-- **Registrations that are made again** leave the same objects. -/
theorem again (hfirst : first.Records second made) (hagain : second.Records third made) :
    second.SameObjects third := by
  refine ⟨Array.ext_getElem? fun index => ?_, index_again hfirst hagain⟩
  rw [Array.getElem?_map, Array.getElem?_map]
  show (third.get? ⟨index⟩).map _ = (second.get? ⟨index⟩).map _
  cases hget : second.get? ⟨index⟩ with
  | none =>
    rw [get?_eq_none_iff, ← size_again hfirst hagain, ← get?_eq_none_iff] at hget
    rw [hget]
  | some object =>
    obtain ⟨found, hfound, -⟩ := hagain.extending.objects hget
    rw [hfound, Option.map_some, Option.map_some, get?_again hfirst hagain hget hfound]

/-- Registrations that have been made are admitted again. -/
theorem admits_again (hrecords : first.Records second made) : second.Admits made := by
  rw [← hrecords.admits_append_iff]
  exact hrecords.admits.of_subset (List.append_subset.2 ⟨.refl made, .refl made⟩)

end Records

/-! ## Documents -/

/-- An entry shows nothing of the scopes that an object has named. -/
theorem ofObject?_withoutScopes (files : List String) (renderer : Markup.DocRenderer)
    (registry : Registry) (id : ObjectId) (object : CodeObject) :
    DocumentEntry.ofObject? files renderer registry id object.withoutScopes =
      DocumentEntry.ofObject? files renderer registry id object := by
  obtain ⟨_, _, _, _, _, _, details⟩ := object
  cases details <;> rfl

/-- Of the namespace around an object, an entry shows the path. -/
theorem ofObject?_congr (files : List String) (renderer : Markup.DocRenderer) (id : ObjectId)
    (object : CodeObject)
    (hpath : ((second.parentModule? id).bind second.get?).map (·.path) =
      ((first.parentModule? id).bind first.get?).map (·.path)) :
    DocumentEntry.ofObject? files renderer second id object =
      DocumentEntry.ofObject? files renderer first id object := by
  unfold DocumentEntry.ofObject?
  cases hfirst : (first.parentModule? id).bind first.get? with
  | none =>
    rw [hfirst, Option.map_none, Option.map_eq_none_iff] at hpath
    rw [hpath]
  | some enclosing =>
    rw [hfirst] at hpath
    obtain ⟨other, hsecond, hother⟩ := Option.map_eq_some_iff.1 hpath
    simp only [hsecond, Option.bind_eq_bind, Option.bind_some, hother]

/-- **Documents show nothing of local scopes.** -/
theorem SameObjects.ofRegistry_eq (hsame : first.SameObjects second) (hfirst : WellFormed first)
    (hsecond : WellFormed second) (files : List String) (renderer : Markup.DocRenderer) :
    Document.ofRegistry files renderer second = Document.ofRegistry files renderer first := by
  have hpath : ∀ id, (second.get? id).map (·.path) = (first.get? id).map (·.path) := by
    intro id
    have hmapped := congrArg (Option.map CodeObject.path) (hsame.get? id)
    rw [Option.map_map, Option.map_map] at hmapped
    exact hmapped
  have howner : ∀ id, (second.get? id).bind (·.owner) = (first.get? id).bind (·.owner) := by
    intro id
    have hbound := congrArg (Option.bind · CodeObject.owner) (hsame.get? id)
    simp only [Option.bind_map] at hbound
    exact hbound
  have henclosing : ∀ id, ((second.parentModule? id).bind second.get?).map (·.path) =
      ((first.parentModule? id).bind first.get?).map (·.path) := by
    intro id
    rw [hfirst.parentModule?_eq, hsecond.parentModule?_eq, howner, Option.map_bind, Option.map_bind]
    exact congrArg (Option.bind _) (funext hpath)
  have hentry : ∀ (registry : Registry) (id : ObjectId),
      ((registry.get? id).map (id, ·)).bind (fun entry =>
          DocumentEntry.ofObject? files renderer registry entry.1 entry.2) =
        ((registry.get? id).map (·.withoutScopes)).bind
          (DocumentEntry.ofObject? files renderer registry id) := by
    intro registry id
    cases registry.get? id with
    | none => rfl
    | some object => exact (ofObject?_withoutScopes files renderer registry id object).symm
  -- an entry is made from the object without its scopes and from the path around it
  rw [Document.ofRegistry, Document.ofRegistry, entries, entries, hsame.index,
    List.filterMap_filterMap, List.filterMap_filterMap]
  refine congrArg Document.mk (List.filterMap_congr fun id _ => ?_)
  rw [hentry second, hentry first, hsame.get?]
  exact congrArg (Option.bind _) (funext fun object =>
    ofObject?_congr files renderer id object (henclosing id))

end Registry

end RubyIndex
