import Mathlib.Data.List.Forall2
import RubyIndex.Document.Registry
import RubyIndex.Proofs.Registry.Declarations

/-! # The entries of documents

The document of a registry has one entry for each registered object whose origin is in the given
files, in the order of registration.

* `DocumentEntry.Describes` is what an entry repeats of its object.
* `Registry.WellFormed.forall₂_document` pairs objects and entries; `forall₂_describes` is its case
  for what entries repeat.
* `Registry.WellFormed.nodup_paths_document`: no two entries have one path. -/

namespace RubyIndex

open Markup

/-- **An entry describes an object** by its name, path and kind, by its definition line if it has
one, and by where it is defined. -/
structure DocumentEntry.Describes (entry : DocumentEntry) (object : CodeObject) : Prop where
  name : entry.name = object.name
  path : entry.path = object.path
  kind : entry.kind = object.kind.name
  exported : entry.exported = object.isExported
  signature : entry.signature = object.signature?.map DocumentEntry.withoutKeyword
  origin : ∃ origin, object.origin = some origin ∧ entry.file = origin.file ∧
    entry.defStart = some origin.start ∧ entry.defEnd = some origin.stop

/-- Whether the origin of an object is in one of the given files. -/
def CodeObject.isDefinedIn (files : List String) (object : CodeObject) : Bool :=
  object.origin.any fun origin => files.contains origin.file

namespace Registry.WellFormed

variable {registry : Registry} {files : List String} {id : ObjectId} {object : CodeObject}

/-- A registered object that is defined in the files has an entry, which describes it. -/
theorem exists_ofObject? (hwell : WellFormed registry) (renderer : DocRenderer)
    (hentry : (id, object) ∈ registry.entries) (hfile : object.isDefinedIn files = true) :
    ∃ entry, DocumentEntry.ofObject? files renderer registry id object = some entry ∧
      entry.Describes object := by
  obtain ⟨hne, hget⟩ := hwell.mem_entries_iff.1 hentry
  obtain ⟨owner, parent, howner, hparent, -⟩ := hwell.owned hget hne
  obtain ⟨origin, horigin, hcontains⟩ := (Option.any_eq_true _ _).1 hfile
  -- the nearest namespace around the object is its owner
  have henclosing : (registry.parentModule? id).bind registry.get? = some parent := by
    rw [hwell.parentModule?_eq, hget, Option.bind_some, howner, Option.bind_some, hparent]
  simp only [DocumentEntry.ofObject?, henclosing, horigin, Option.bind_eq_bind, Option.bind_some,
    hcontains, if_true]
  exact ⟨_, rfl, rfl, rfl, rfl, rfl, rfl, origin, horigin, rfl, rfl, rfl⟩

/-- An object that is not defined in the files has no entry. -/
theorem ofObject?_eq_none (renderer : DocRenderer) (registry : Registry) (id : ObjectId)
    (hfile : object.isDefinedIn files = false) :
    DocumentEntry.ofObject? files renderer registry id object = none := by
  unfold CodeObject.isDefinedIn at hfile
  unfold DocumentEntry.ofObject?
  cases (registry.parentModule? id).bind registry.get? with
  | none => rfl
  | some enclosing =>
    cases horigin : object.origin with
    | none => rfl
    | some origin =>
      rw [horigin, Option.any_some] at hfile
      simp only [Option.bind_eq_bind, Option.bind_some, hfile]
      rfl

/-- **Entries and objects.** The entries of a document stand side by side with the registered
objects that are defined in the files, in their order. What making an entry of an object establishes
about the two therefore holds along the lists. -/
theorem forall₂_document (hwell : WellFormed registry) (files : List String)
    (renderer : DocRenderer) {relation : DocumentEntry → CodeObject → Prop}
    (hmade : ∀ id object entry, (id, object) ∈ registry.entries →
      DocumentEntry.ofObject? files renderer registry id object = some entry →
      relation entry object) :
    List.Forall₂ relation (Document.ofRegistry files renderer registry).objects
      (registry.registered.filter (·.isDefinedIn files)) := by
  -- over the rest of the entries
  have hrest : ∀ entries ⊆ registry.entries, List.Forall₂ relation
      (entries.filterMap fun entry =>
        DocumentEntry.ofObject? files renderer registry entry.1 entry.2)
      ((entries.map (·.2)).filter (·.isDefinedIn files)) := by
    intro entries hsub
    induction entries with
    | nil => exact .nil
    | cons first rest ih =>
      obtain ⟨id, object⟩ := first
      obtain ⟨hfirst, hlater⟩ := List.cons_subset.1 hsub
      cases hfile : object.isDefinedIn files with
      | true =>
        obtain ⟨entry, hentry, -⟩ := hwell.exists_ofObject? renderer hfirst hfile
        simp only [List.filterMap_cons, hentry, List.map_cons]
        rw [List.filter_cons_of_pos hfile]
        exact .cons (hmade id object entry hfirst hentry) (ih hlater)
      | false =>
        simp only [List.filterMap_cons, ofObject?_eq_none renderer registry id hfile, List.map_cons]
        rw [List.filter_cons_of_neg (Bool.eq_false_iff.1 hfile)]
        exact ih hlater
  exact hrest _ (List.Subset.refl _)

/-- What has an entry is defined in the files, and the entry describes it. -/
theorem describes_of_ofObject? (hwell : WellFormed registry) {renderer : DocRenderer}
    {entry : DocumentEntry} (hentry : (id, object) ∈ registry.entries)
    (hmade : DocumentEntry.ofObject? files renderer registry id object = some entry) :
    entry.Describes object := by
  cases hfile : object.isDefinedIn files with
  | true =>
    obtain ⟨found, hfound, hdescribes⟩ := hwell.exists_ofObject? renderer hentry hfile
    obtain rfl := Option.some.inj (hfound.symm.trans hmade)
    exact hdescribes
  | false => cases (ofObject?_eq_none renderer registry id hfile).symm.trans hmade

/-- **The entries of a document** describe the registered objects that are defined in the files, one
by one and in their order. -/
theorem forall₂_describes (hwell : WellFormed registry) (files : List String)
    (renderer : DocRenderer) :
    List.Forall₂ DocumentEntry.Describes (Document.ofRegistry files renderer registry).objects
      (registry.registered.filter (·.isDefinedIn files)) :=
  hwell.forall₂_document files renderer fun _ _ _ hentry hmade =>
    hwell.describes_of_ofObject? hentry hmade

/-- Every entry describes a registered object. -/
theorem exists_of_mem_document (hwell : WellFormed registry) {renderer : DocRenderer}
    {entry : DocumentEntry} (hmem : entry ∈ (Document.ofRegistry files renderer registry).objects) :
    ∃ id object, id ≠ .root ∧ registry.get? id = some object ∧ entry.Describes object := by
  obtain ⟨⟨id, object⟩, hentry, hmade⟩ := List.mem_filterMap.1 hmem
  obtain ⟨hne, hget⟩ := hwell.mem_entries_iff.1 hentry
  exact ⟨id, object, hne, hget, hwell.describes_of_ofObject? hentry hmade⟩

/-- The entries have the paths of the objects. -/
theorem map_path_document (hwell : WellFormed registry) (files : List String)
    (renderer : DocRenderer) :
    (Document.ofRegistry files renderer registry).objects.map (·.path) =
      (registry.registered.filter (·.isDefinedIn files)).map (·.path) := by
  rw [← List.forall₂_eq_eq_eq, List.forall₂_map_left_iff, List.forall₂_map_right_iff]
  exact (hwell.forall₂_describes files renderer).imp fun _ _ hdescribes => hdescribes.path

/-- No two entries have one path. -/
theorem nodup_paths_document (hwell : WellFormed registry) (files : List String)
    (renderer : DocRenderer) :
    ((Document.ofRegistry files renderer registry).objects.map (·.path)).Nodup := by
  rw [hwell.map_path_document]
  exact hwell.nodup_paths.sublist (List.filter_sublist.map _)

end Registry.WellFormed

end RubyIndex
