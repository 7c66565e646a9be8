import Mathlib.Data.List.Basic
import RubyIndex.Proofs.Registry.WellFormed

/-! # The declarations of a registry

Of the registered objects, their paths, kinds and names tell what was declared, in order of
registration. A declaration whose path is taken adds nothing; any other is entered behind those
that are there.

* `enter` enters a declaration, and `foldl_enter_nil` says what entering a list from nothing
  leaves.
* `Registry.WellFormed.declarations_addObject` and `Registry.Extends.declarations_eq` tell how
  the declarations change with the registry. -/

namespace RubyIndex

/-- A named object at a path. -/
structure Declaration where
  path : String
  kind : ObjectKind
  name : String
  deriving DecidableEq, Repr

/-- A name under the path of an owner. -/
def declare (owner separator : String) (kind : ObjectKind) (name : String) : Declaration :=
  ⟨joinPath owner separator name, kind, name⟩

/-- An object as it is declared. -/
def CodeObject.declaration (object : CodeObject) : Declaration :=
  ⟨object.path, object.kind, object.name⟩

/-- Alike objects are declared alike. -/
theorem CodeObject.Alike.declaration {first second : CodeObject} (halike : first.Alike second) :
    first.declaration = second.declaration := by
  rw [CodeObject.declaration, CodeObject.declaration, halike.path, halike.kind, halike.name]

/-! ## Entering declarations -/

/-- The declarations with one more, unless its path is taken. -/
def enter (entered : List Declaration) (declaration : Declaration) : List Declaration :=
  if entered.any (declaration.path == ·.path) then entered else entered ++ [declaration]

/-- **Entering a list from nothing** leaves out the declarations whose path came up before. -/
theorem foldl_enter_nil (declarations : List Declaration) :
    declarations.foldl enter [] =
      declarations.eraseDupsBy fun later earlier => later.path == earlier.path := by
  -- the library keeps what it has seen in reverse
  have hloop : ∀ entered : List Declaration, declarations.foldl enter entered.reverse =
      List.eraseDupsBy.loop (fun later earlier => later.path == earlier.path)
        declarations entered := by
    induction declarations with
    | nil => exact fun entered => rfl
    | cons declaration rest ih =>
      intro entered
      rw [List.foldl_cons, List.eraseDupsBy.loop, enter, List.any_reverse]
      cases htaken : entered.any (declaration.path == ·.path) with
      | true => exact ih entered
      | false =>
        have hentered : entered.reverse ++ [declaration] = (declaration :: entered).reverse := by
          rw [List.reverse_cons]
        rw [if_neg Bool.false_ne_true, hentered]
        exact ih (declaration :: entered)
  exact hloop []

namespace Registry

/-! ## The declarations of a registry -/

/-- The registered objects as they are declared, in order of registration. -/
def declarations (registry : Registry) : List Declaration :=
  registry.registered.map (·.declaration)

theorem declarations_eq_filterMap (registry : Registry) :
    registry.declarations =
      registry.index.ids.filterMap fun id => (registry.get? id).map (·.declaration) := by
  unfold declarations registered entries
  rw [List.map_map, List.map_filterMap]
  refine List.filterMap_congr fun id _ => ?_
  cases registry.get? id <;> rfl

variable {registry first second : Registry}

namespace WellFormed

/-- Listed identities have objects. -/
theorem exists_of_mem_ids (hwell : WellFormed registry) {id : ObjectId}
    (hmem : id ∈ registry.index.ids) : ∃ object, registry.get? id = some object := by
  obtain ⟨⟨path, _⟩, hentry, rfl⟩ := List.mem_map.1 hmem
  obtain ⟨object, hget, -⟩ := Option.map_eq_some_iff.1 (hwell.paths hentry)
  exact ⟨object, hget⟩

/-- The entries are all objects but the root. -/
theorem mem_entries_iff (hwell : WellFormed registry) {id : ObjectId} {object : CodeObject} :
    (id, object) ∈ registry.entries ↔ id ≠ .root ∧ registry.get? id = some object := by
  have hlisted : id ∈ registry.index.ids ∧ registry.get? id = some object ↔
      id ≠ .root ∧ registry.get? id = some object := by
    refine and_congr_left fun hget => ?_
    rw [PathIndex.ids, List.mem_map]
    constructor
    · rintro ⟨⟨path, listed⟩, hentry, rfl⟩
      exact (hwell.lookup?_eq_some_iff.1 (PathIndex.find?_eq_some_iff.2 hentry)).1
    · intro hne
      have hlookup : registry.lookup? object.path = some id :=
        hwell.lookup?_eq_some_iff.2 ⟨hne, by rw [hget, Option.map_some]⟩
      exact ⟨_, PathIndex.find?_eq_some_iff.1 hlookup, rfl⟩
  rw [← hlisted, entries, List.mem_filterMap]
  constructor
  · rintro ⟨listed, hlisted, hentry⟩
    obtain ⟨found, hget, hsame⟩ := Option.map_eq_some_iff.1 hentry
    cases hsame
    exact ⟨hlisted, hget⟩
  · rintro ⟨hlisted, hget⟩
    exact ⟨id, hlisted, by rw [hget]; rfl⟩

/-- Registered objects are objects other than the root. -/
theorem exists_of_mem_registered (hwell : WellFormed registry) {object : CodeObject}
    (hmem : object ∈ registry.registered) :
    ∃ id, id ≠ .root ∧ registry.get? id = some object := by
  obtain ⟨⟨id, _⟩, hentry, rfl⟩ := List.mem_map.1 hmem
  exact ⟨id, hwell.mem_entries_iff.1 hentry⟩

/-- The registered objects have the paths of the index. -/
theorem map_path_registered (hwell : WellFormed registry) :
    registry.registered.map (·.path) = registry.index.entries.map (·.1) := by
  rw [registered, entries, PathIndex.ids, List.map_map, List.map_filterMap, List.filterMap_map,
    ← List.filterMap_eq_map]
  refine List.filterMap_congr fun entry hentry => ?_
  rw [Function.comp_apply, Function.comp_apply, ← hwell.paths hentry]
  cases registry.get? entry.2 <;> rfl

/-- No two registered objects have one path. -/
theorem nodup_paths (hwell : WellFormed registry) :
    (registry.registered.map (·.path)).Nodup := by
  rw [hwell.map_path_registered]
  exact registry.index.distinct

/-- A path is declared if and only if it is taken. -/
theorem any_declarations_iff (hwell : WellFormed registry) (path : String) :
    registry.declarations.any (path == ·.path) = true ↔ registry.lookup? path ≠ none := by
  rw [List.any_eq_true, declarations_eq_filterMap, Option.ne_none_iff_exists']
  constructor
  · rintro ⟨declaration, hmem, hpath⟩
    obtain ⟨id, hid, hdeclared⟩ := List.mem_filterMap.1 hmem
    obtain ⟨object, hget, rfl⟩ := Option.map_eq_some_iff.1 hdeclared
    obtain ⟨⟨other, listed⟩, hentry, hlisted⟩ := List.mem_map.1 hid
    obtain rfl : listed = id := hlisted
    refine ⟨listed, PathIndex.find?_eq_some_iff.2 ?_⟩
    have hother := hwell.paths hentry
    rw [hget, Option.map_some, Option.some.injEq] at hother
    obtain rfl : path = object.path := eq_of_beq hpath
    rw [hother]
    exact hentry
  · rintro ⟨id, hlookup⟩
    have hentry := PathIndex.find?_eq_some_iff.1 hlookup
    obtain ⟨object, hget, rfl⟩ := Option.map_eq_some_iff.1 (hwell.paths hentry)
    refine ⟨object.declaration, List.mem_filterMap.2 ⟨id, List.mem_map.2 ⟨_, hentry, rfl⟩, ?_⟩, ?_⟩
    · rw [hget]
      rfl
    · exact beq_self_eq_true _

end WellFormed

/-- A registry that has grown without new paths declares what it did. -/
theorem Extends.declarations_eq (hextends : first.Extends second) (hwell : WellFormed first)
    (hindex : second.index = first.index) : second.declarations = first.declarations := by
  rw [declarations_eq_filterMap, declarations_eq_filterMap, hindex]
  refine List.filterMap_congr fun id hid => ?_
  obtain ⟨object, hget⟩ := hwell.exists_of_mem_ids hid
  obtain ⟨found, hfound, halike⟩ := hextends.objects hget
  rw [hget, hfound, Option.map_some, Option.map_some, halike.declaration]

/-- A new object at a free path is declared after all others. -/
theorem WellFormed.declarations_addObject (hwell : WellFormed registry) {owner : ObjectId}
    {path : String} (object : CodeObject) (howner : owner.index < registry.objects.size)
    (hfree : registry.lookup? path = none) :
    (registry.addObject owner path object).declarations =
      registry.declarations ++ [object.declaration] := by
  rw [declarations_eq_filterMap, declarations_eq_filterMap, index_addObject, PathIndex.ids,
    PathIndex.entries_insert_of_find?_eq_none _ hfree, List.map_append, List.filterMap_append]
  have hadded := get?_addObject_added registry path object howner
  refine congr (congrArg _ (List.filterMap_congr fun id hid => ?_)) ?_
  · obtain ⟨before, hget⟩ := hwell.exists_of_mem_ids hid
    obtain ⟨found, hfound, halike⟩ := (Extends.addObject registry owner object hfree).objects hget
    rw [hget, hfound, Option.map_some, Option.map_some, halike.declaration]
  · simp [hadded]

end Registry

end RubyIndex
