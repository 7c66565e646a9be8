import RubyIndex.Registry.Object

/-! # The path index

The identities of the registered objects by their paths, in the order in which the paths were
entered. No path is listed twice. -/

namespace RubyIndex

/-- Identities of objects by path, in the order in which the paths were entered. -/
structure PathIndex where
  entries : List (String × ObjectId)
  distinct : (entries.map (·.1)).Nodup
  deriving DecidableEq, Repr

namespace PathIndex

/-- The index without paths. -/
def empty : PathIndex := ⟨[], List.nodup_nil⟩

/-- The identity under a path. -/
def find? (index : PathIndex) (path : String) : Option ObjectId := index.entries.lookup path

/-- The identities in order. -/
def ids (index : PathIndex) : List ObjectId := index.entries.map (·.2)

/-- The number of paths. -/
def size (index : PathIndex) : Nat := index.entries.length

theorem find?_eq_none_iff {index : PathIndex} {path : String} :
    index.find? path = none ↔ path ∉ index.entries.map (·.1) := by
  rw [find?, List.lookup_eq_none_iff]
  simp only [List.mem_map, bne_iff_ne, ne_eq]
  constructor
  · rintro hnone ⟨entry, hmem, rfl⟩
    exact hnone entry hmem rfl
  · intro hnot entry hmem hpath
    exact hnot ⟨entry, hmem, hpath.symm⟩

/-- The index leads from a path to an identity if and only if it lists them together. -/
theorem find?_eq_some_iff {index : PathIndex} {path : String} {object : ObjectId} :
    index.find? path = some object ↔ (path, object) ∈ index.entries := by
  obtain ⟨entries, distinct⟩ := index
  show entries.lookup path = some object ↔ (path, object) ∈ entries
  induction entries with
  | nil => simp
  | cons entry rest ih =>
    obtain ⟨other, kept⟩ := entry
    rw [List.map_cons, List.nodup_cons] at distinct
    have hrest := ih distinct.2
    rw [List.lookup_cons, List.mem_cons]
    by_cases hpath : path = other
    · subst hpath
      have hnot : (path, object) ∉ rest := fun hmem =>
        distinct.1 (List.mem_map.2 ⟨_, hmem, rfl⟩)
      simp [hnot, eq_comm]
    · have hbeq : (path == other) = false := beq_false_of_ne hpath
      simp only [hbeq, hrest, Prod.mk.injEq, hpath, false_and, false_or]

/-- The index with an identity under a path, in the place of the one already there, or else after
all others. -/
def insert (index : PathIndex) (path : String) (object : ObjectId) : PathIndex :=
  if isNew : index.find? path = none then
    { entries := index.entries ++ [(path, object)]
      distinct := by
        rw [List.map_append, List.nodup_append]
        refine ⟨index.distinct, by simp, ?_⟩
        rintro other hother _ hpath rfl
        obtain rfl : other = path := by simpa using hpath
        exact find?_eq_none_iff.1 isNew hother }
  else
    { entries := index.entries.map fun entry => if entry.1 = path then (path, object) else entry
      distinct := by
        have same : (index.entries.map fun entry =>
            if entry.1 = path then (path, object) else entry).map (·.1) =
            index.entries.map (·.1) := by
          rw [List.map_map]
          refine List.map_congr_left fun entry _ => ?_
          by_cases hpath : entry.1 = path <;> simp [hpath]
        rw [same]
        exact index.distinct }

/-- A path that is not listed yet is entered after all others. -/
theorem entries_insert_of_find?_eq_none {index : PathIndex} {path : String} (object : ObjectId)
    (isNew : index.find? path = none) :
    (index.insert path object).entries = index.entries ++ [(path, object)] := by
  rw [insert, dif_pos isNew]

end PathIndex

end RubyIndex
