import RubyIndex.Proofs.Indexing.Built
import RubyIndex.Proofs.Indexing.Revisions

/-! # Where objects come from

A registry that was built from texts holds nothing that is not in the texts. Every object has a
history: the requests that were made for it, in the text that added it and in later ones. They
decide what the object is like, whatever else was requested, merged or refused.

* `Registry.MadeBy` relates a registry, its history and the texts. `MadeBy.records` and
  `MadeBy.merge` are the steps.
* `MadeAt.exists_founder` and `MadeAt.exists_visit` read off what the first request and the last
  definition decide.
* `Registry.BuiltBy` lists the histories of built registries, and `BuiltBy.madeBy` is the run. -/

namespace RubyIndex

open Syntax Indexing

namespace Indexing.Visit

/-- **A request with an origin** is the one for the object that is defined. -/
theorem exists_of_origin {visit : Visit} {file : String} {registration : Registration}
    {origin : Origin} (hmem : registration ∈ visit.registrations file)
    (horigin : registration.revision.origin = some origin) :
    ∃ defined, visit.defined? = some defined ∧
      registration = ⟨defined, visit.details defined, visit.revision file⟩ ∧
      origin = visit.origin file := by
  rcases mem_registrations_iff.1 hmem with ⟨declaration, -, rfl⟩ | ⟨defined, hdefined, rfl⟩
  · cases horigin
  · rw [origin_revision] at horigin
    exact ⟨defined, hdefined, rfl, (Option.some.inj horigin).symm⟩

end Indexing.Visit

namespace Registration

/-- The first of the requests for an object, which adds it. -/
def founder? (requests : List Registration) : Option Registration := requests.head?

/-- The last of the requests for an object that is a definition. -/
def lastDefinition? (requests : List Registration) : Option Registration :=
  requests.reverse.find? (·.revision.origin.isSome)

variable {path : String} {requests : List Registration} {object : CodeObject}

/-- **An object that requests have made** is the one that the first of them adds, revised by them
all. -/
theorem eq_revisedBy_of_foldl_record
    (hpaths : ∀ request ∈ requests, request.declaration.path = path)
    (hmade : requests.foldl (record path) none = some object) :
    ∃ founder, founder? requests = some founder ∧
      object = founder.added.revisedBy (requests.map (·.revision)) := by
  cases requests with
  | nil => cases hmade
  | cons founder rest =>
    obtain ⟨hpath, hrest⟩ := List.forall_mem_cons.1 hpaths
    have hall : rest.filter (·.declaration.path == path) = rest :=
      List.filter_eq_self.2 fun request hmem => beq_iff_eq.2 (hrest request hmem)
    rw [List.foldl_cons, record, if_pos hpath, foldl_record_some, hall] at hmade
    exact ⟨founder, rfl, (Option.some.inj hmade).symm⟩

/-- The origin of an object that requests have made is that of the last definition. -/
theorem exists_lastDefinition {founder : Registration} {origin : Origin}
    (horigin : (founder.added.revisedBy (requests.map (·.revision))).origin = some origin) :
    ∃ last ∈ requests, lastDefinition? requests = some last ∧
      last.revision.origin = some origin := by
  rw [CodeObject.origin_revisedBy, ← List.map_reverse, List.findSome?_map, Option.or_eq_some_iff]
    at horigin
  rcases horigin with hfound | ⟨-, hadded⟩
  · obtain ⟨earlier, last, later, hrequests, hlast, hnone⟩ := List.findSome?_eq_some_iff.1 hfound
    have hmem : last ∈ requests.reverse := by
      rw [hrequests]
      exact List.mem_append_right _ List.mem_cons_self
    have hgiven : last.revision.origin = some origin := hlast
    refine ⟨last, List.mem_reverse.1 hmem, List.find?_eq_some_iff_append.2 ?_, hgiven⟩
    refine ⟨by rw [hgiven]; rfl, earlier, later, hrequests, fun request hmem => ?_⟩
    have hnot : request.revision.origin = none := hnone request hmem
    rw [hnot]
    rfl
  · cases hadded

end Registration

namespace Registry

/-! ## Histories -/

/-- **What requests have made at a path.** They come from texts and are of the kind of the object
there, and it is what they make in turn, the first one first. -/
structure MadeAt (texts : String → String → Prop) (path : String) (requests : List Registration)
    (made : Option CodeObject) : Prop where
  paths : ∀ request ∈ requests, request.declaration.path = path
  requested : ∀ request ∈ requests,
    ∃ file source, texts file source ∧ request ∈ registrations file source
  kinds : ∀ object ∈ made, ∀ request ∈ requests, request.details.kind = object.kind
  eq_foldl : made = requests.foldl (Registration.record path) none

/-- **A registry that its history has made.** The history holds the requests for the object at every
path. -/
structure MadeBy (texts : String → String → Prop) (history : String → List Registration)
    (registry : Registry) : Prop where
  sound : registry.Sound
  /-- The root was not defined by any text. -/
  root : (registry.get? .root).bind (·.origin) = none
  madeAt : ∀ path, MadeAt texts path (history path) (registry.portrait? path)

/-- Nothing is at a path of the empty registry. -/
theorem portrait?_empty (path : String) : empty.portrait? path = none := rfl

/-- The portrait of the root tells whether it has an origin. -/
theorem origin_root_of_portrait_eq {before after : Registry}
    (hsame : (after.get? .root).map (·.portrait) = (before.get? .root).map (·.portrait)) :
    (after.get? .root).bind (·.origin) = (before.get? .root).bind (·.origin) := by
  have hparts : ∀ found : Option CodeObject,
      found.bind (·.origin) = (found.map (·.portrait)).bind (·.origin) := by
    intro found
    cases found <;> rfl
  rw [hparts, hsame, ← hparts]

/-- **A registry that has absorbed objects of another one.** At a path is what was there or, where
nothing was, what is there in the other registry. -/
structure Absorbs (before other after : Registry) : Prop where
  sound : after.Sound
  root : (after.get? .root).map (·.portrait) = (before.get? .root).map (·.portrait)
  portraits : ∀ path, after.portrait? path = before.portrait? path ∨
    before.portrait? path = none ∧ after.portrait? path = other.portrait? path

/-- A copy to a free path absorbs an object more. -/
theorem Absorbs.copyObject {before other after changed : Registry} {id : ObjectId}
    {object : CodeObject} (habsorbs : before.Absorbs other after) (hother : other.Sound)
    (hmem : object ∈ other.registered) (hfree : after.contains object.path = false)
    (hok : after.copyObject other object = .ok (id, changed)) : before.Absorbs other changed := by
  obtain ⟨source, hne, hget⟩ := hother.exists_of_mem_registered hmem
  obtain ⟨owner, parent, -, -, hregistered⟩ :=
    habsorbs.sound.exists_of_copyObject hother hget hne hok
  have hroot := habsorbs.sound.portrait_root_registerWith hregistered
  refine ⟨habsorbs.sound.copyObject hother hmem hok, hroot.trans habsorbs.root, fun path => ?_⟩
  rw [habsorbs.sound.portrait?_copyObject hother hget hne hfree hok]
  split
  · rename_i hpath
    subst hpath
    have hnone := habsorbs.sound.portrait?_eq_none_iff.2 hfree
    -- the path was free from the beginning
    refine .inr ⟨?_, rfl⟩
    rcases habsorbs.portraits object.path with hsame | ⟨hbefore, -⟩
    · rw [← hsame, hnone]
    · exact hbefore
  · exact habsorbs.portraits path

/-- **A merge absorbs** objects of the other registry, whether it is refused or not. -/
theorem Sound.absorbs_merge {registry other : Registry} (hsound : registry.Sound)
    (hother : other.Sound) : registry.Absorbs other ((Edit.merge other).apply registry).2 := by
  have hkeeps : Edit.Keeps (registry.Absorbs other) (Edit.merge other) :=
    Edit.keeps_merge fun object hmem after id changed habsorbs hfree hok =>
      habsorbs.copyObject hother hmem hfree hok
  exact (hkeeps registry ⟨hsound, rfl, fun _ => .inl rfl⟩).leaves

section

variable {texts : String → String → Prop} {path : String} {requests : List Registration}
  {object : CodeObject} {origin : Origin}

namespace MadeAt

/-- Without requests nothing is there. -/
theorem nil (texts : String → String → Prop) (path : String) : MadeAt texts path [] none where
  paths _ hmem := absurd hmem List.not_mem_nil
  requested _ hmem := absurd hmem List.not_mem_nil
  kinds _ hmade := nomatch hmade
  eq_foldl := rfl

/-- Where nothing is, nothing was requested. -/
theorem eq_nil (hmade : MadeAt texts path requests none) : requests = [] := by
  cases requests with
  | nil => rfl
  | cons founder rest =>
    have hfolded := hmade.eq_foldl
    rw [List.foldl_cons, Registration.record, if_pos (hmade.paths founder List.mem_cons_self),
      Registration.foldl_record_some] at hfolded
    cases hfolded

/-- **The first request** decides about the variant of an object. -/
theorem exists_founder (hmade : MadeAt texts path requests (some object)) :
    ∃ founder, Registration.founder? requests = some founder ∧
      object.details.variant = founder.details.variant := by
  obtain ⟨founder, hfounder, rfl⟩ :=
    Registration.eq_revisedBy_of_foldl_record hmade.paths hmade.eq_foldl.symm
  refine ⟨founder, hfounder, ?_⟩
  rw [CodeObject.variant_revisedBy]
  exact CodeObject.variant_portrait _

/-- **The last definition** decides about the origin of an object. It is of the kind of the
object. -/
theorem exists_visit (hmade : MadeAt texts path requests (some object))
    (horigin : object.origin = some origin) :
    ∃ source, texts origin.file source ∧ ∃ visit ∈ visits (parse source).tree,
      ∃ defined, visit.defined? = some defined ∧ defined.path = path ∧
        (visit.details defined).kind = object.kind ∧ origin = visit.origin origin.file ∧
        Registration.lastDefinition? requests =
          some ⟨defined, visit.details defined, visit.revision origin.file⟩ := by
  have hkinds := hmade.kinds object rfl
  obtain ⟨founder, -, rfl⟩ :=
    Registration.eq_revisedBy_of_foldl_record hmade.paths hmade.eq_foldl.symm
  obtain ⟨last, hmem, hlast, hgiven⟩ := Registration.exists_lastDefinition horigin
  obtain ⟨file, source, htext, hrequested⟩ := hmade.requested last hmem
  obtain ⟨visit, hvisit, hlisted⟩ := List.mem_flatMap.1 hrequested
  obtain ⟨defined, hdefined, rfl, rfl⟩ := Visit.exists_of_origin hlisted hgiven
  exact ⟨source, htext, visit, hvisit, defined, hdefined, hmade.paths _ hmem, hkinds _ hmem, rfl,
    hlast⟩

end MadeAt

namespace MadeBy

variable {registry changed other : Registry} {history further : String → List Registration}

theorem empty (texts : String → String → Prop) : MadeBy texts (fun _ => []) .empty where
  sound := sound_empty
  root := rfl
  madeAt path := portrait?_empty path ▸ .nil texts path

/-- The history of an object has made it. -/
theorem madeAt_of_get? (hmade : MadeBy texts history registry) {id : ObjectId}
    (hget : registry.get? id = some object) (hne : id ≠ .root) :
    MadeAt texts object.path (history object.path) (some object.portrait) :=
  hmade.sound.portrait?_of_get? hget hne ▸ hmade.madeAt object.path

/-- **Requests of a text that are made** are added to the histories of their paths. -/
theorem records (hmade : MadeBy texts history registry) {file source : String}
    (htext : texts file source) {made : List Registration}
    (hrequested : made ⊆ registrations file source) (hrecords : registry.Records changed made) :
    MadeBy texts (fun path => history path ++ made.filter (·.declaration.path == path))
      changed := by
  refine ⟨hrecords.sound, (origin_root_of_portrait_eq hrecords.root).trans hmade.root,
    fun path => ?_⟩
  have hbefore := hmade.madeAt path
  refine ⟨?_, ?_, ?_, ?_⟩
  · intro request hmem
    rcases List.mem_append.1 hmem with hold | hnew
    · exact hbefore.paths request hold
    · exact eq_of_beq (List.mem_filter.1 hnew).2
  · intro request hmem
    rcases List.mem_append.1 hmem with hold | hnew
    · exact hbefore.requested request hold
    · exact ⟨file, source, htext, hrequested (List.mem_filter.1 hnew).1⟩
  · intro object hportrait request hmem
    rcases List.mem_append.1 hmem with hold | hnew
    · cases hpresent : registry.portrait? path with
      | none =>
        rw [hpresent] at hbefore
        rw [hbefore.eq_nil] at hold
        cases hold
      | some existing =>
        -- an object that was there is only revised
        rw [hrecords.portraits, hpresent, Registration.foldl_record_some] at hportrait
        obtain rfl := Option.some.inj hportrait
        rw [CodeObject.kind_revisedBy]
        exact hbefore.kinds existing hpresent request hold
    · obtain ⟨hlisted, hpath⟩ := List.mem_filter.1 hnew
      obtain rfl : request.declaration.path = path := eq_of_beq hpath
      exact (hrecords.kind_eq_of_portrait? hlisted hportrait).symm
  · rw [hrecords.portraits, hbefore.eq_foldl, List.foldl_append, Registration.foldl_record_filter]

/-- **A merge** takes the histories of new objects over with the objects. -/
theorem merge (hmade : MadeBy texts history registry) (hother : MadeBy texts further other) :
    let merged := ((Edit.merge other).apply registry).2
    MadeBy texts (fun path =>
      if registry.contains path then history path
      else if merged.contains path then further path
      else []) merged := by
  intro merged
  obtain ⟨hsound, hroot, hportraits⟩ := hmade.sound.absorbs_merge hother.sound
  refine ⟨hsound, (origin_root_of_portrait_eq hroot).trans hmade.root, fun path => ?_⟩
  cases hbefore : registry.contains path with
  | true =>
    -- the path was taken before the merge
    have hsame : merged.portrait? path = registry.portrait? path := by
      refine (hportraits path).resolve_right fun hfree => ?_
      rw [hmade.sound.portrait?_eq_none_iff.1 hfree.1] at hbefore
      cases hbefore
    rw [hsame, if_pos rfl]
    exact hmade.madeAt path
  | false =>
    rw [if_neg Bool.false_ne_true]
    cases hafter : merged.contains path with
    | true =>
      have hcopied : merged.portrait? path = other.portrait? path := by
        rcases hportraits path with hsame | ⟨-, hcopied⟩
        · rw [hmade.sound.portrait?_eq_none_iff.2 hbefore] at hsame
          rw [hsound.portrait?_eq_none_iff.1 hsame] at hafter
          cases hafter
        · exact hcopied
      rw [hcopied, if_pos rfl]
      exact hother.madeAt path
    | false =>
      rw [hsound.portrait?_eq_none_iff.2 hafter, if_neg Bool.false_ne_true]
      exact .nil texts path

end MadeBy

end

/-- **A registry that comes from texts** has some history of requests in the texts. -/
def ComesFrom (texts : String → String → Prop) (registry : Registry) : Prop :=
  ∃ history, MadeBy texts history registry

/-- A text that is indexed, whether it is refused or not. -/
theorem ComesFrom.indexSource {registry : Registry} {texts : String → String → Prop}
    (hcomes : ComesFrom texts registry) {file source : String} (htext : texts file source) :
    ComesFrom texts ((Indexing.indexSource file source).apply registry).2 := by
  obtain ⟨history, hmade⟩ := hcomes
  obtain ⟨made, hfront, hrecords⟩ := (indexSource_makes hmade.sound file source).exists_records
  exact ⟨_, hmade.records htext hfront.subset hrecords⟩

/-! ## The histories of built registries -/

/-- **The history of a built registry.** Indexing a text adds the requests that were made, which are
all of them unless one was refused. Merging takes over the histories of the objects that are
copied. -/
inductive BuiltBy : (String → List Registration) → Registry → Prop where
  | empty : BuiltBy (fun _ => []) .empty
  | indexSource {history : String → List Registration} {registry : Registry}
      {made : List Registration} (file source : String) (hbuilt : BuiltBy history registry)
      (hfront : made <+: registrations file source)
      (hrecords : registry.Records ((Indexing.indexSource file source).apply registry).2 made) :
      BuiltBy (fun path => history path ++ made.filter (·.declaration.path == path))
        ((Indexing.indexSource file source).apply registry).2
  | merge {history further : String → List Registration} {registry other : Registry}
      (hbuilt : BuiltBy history registry) (hother : BuiltBy further other) :
      BuiltBy (fun path =>
        if registry.contains path then history path
        else if ((Edit.merge other).apply registry).2.contains path then further path
        else []) ((Edit.merge other).apply registry).2

/-- **The objects of a built registry** are what their histories say. -/
theorem BuiltBy.madeBy {history : String → List Registration} {registry : Registry}
    (hbuilt : BuiltBy history registry) : MadeBy (fun _ _ => True) history registry := by
  induction hbuilt with
  | empty => exact .empty _
  | indexSource file source _ hfront hrecords ih => exact ih.records trivial hfront.subset hrecords
  | merge _ _ ih ihOther => exact ih.merge ihOther

/-- A text that is not refused adds all its requests. -/
theorem BuiltBy.indexSource_of_isOk {history : String → List Registration} {registry : Registry}
    (hbuilt : BuiltBy history registry) (file source : String)
    (hok : ((Indexing.indexSource file source).apply registry).1.isOk = true) :
    BuiltBy (fun path =>
        history path ++ (registrations file source).filter (·.declaration.path == path))
      ((Indexing.indexSource file source).apply registry).2 :=
  hbuilt.indexSource file source List.prefix_rfl
    ((indexSource_makes hbuilt.madeBy.sound file source).records hok)

/-- The built registries are those that have histories. -/
theorem built_iff_exists_builtBy {registry : Registry} :
    Built registry ↔ ∃ history, BuiltBy history registry := by
  constructor
  · intro hbuilt
    induction hbuilt with
    | empty => exact ⟨_, .empty⟩
    | indexSource file source _ ih =>
      obtain ⟨history, hhistory⟩ := ih
      obtain ⟨made, hfront, hrecords⟩ :=
        (indexSource_makes hhistory.madeBy.sound file source).exists_records
      exact ⟨_, hhistory.indexSource file source hfront hrecords⟩
    | merge _ _ ih ihOther =>
      obtain ⟨history, hhistory⟩ := ih
      obtain ⟨further, hother⟩ := ihOther
      exact ⟨_, hhistory.merge hother⟩
  · rintro ⟨history, hhistory⟩
    induction hhistory with
    | empty => exact .empty
    | indexSource file source _ _ _ ih => exact ih.indexSource file source
    | merge _ _ ih ihOther => exact ih.merge ihOther

end Registry

end RubyIndex
