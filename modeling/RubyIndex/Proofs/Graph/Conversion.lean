import Mathlib.Data.List.Induction
import Mathlib.Data.List.Nodup
import RubyIndex.Graph.Symbol

/-! # Conversion of documents

A document may list several objects with one symbol path, be it that their Ruby paths are the same or
that different Ruby paths are rewritten alike. The graph keeps the first of them, with its doc, and
nothing of the others. A conversion goes through the objects once: it keeps the place of every symbol
by the path of the symbol, and appends to the symbols and to the docs at the same time.

* `Graph.firstObjects` lists the objects that are kept, by what is in front of them only, and
  `Graph.firstOfEachPath_nil` says that they are those with which graphs are made.
* `Graph.Conversion` is the conversion on its way, `Conversion.Converts.add` one step of it, and
  `Conversion.converts_foldl` all of them.
* `SymbolGraph.ofDocument_keepsFirst` is what the graph of a document consists of. -/

namespace RubyIndex.Graph

/-! ## Objects that are kept -/

/-- Whether no object before a place has the symbol path of the object there. -/
def isFirst (objects : List DocumentEntry) (entry : DocumentEntry × Nat) : Bool :=
  ∀ earlier ∈ objects.take entry.2, symbolPath earlier.path ≠ symbolPath entry.1.path

/-- **The objects whose symbol paths no earlier object has**, in their order. -/
def firstObjects (objects : List DocumentEntry) : List DocumentEntry :=
  (objects.zipIdx.filter (isFirst objects)).map (·.1)

/-- An object at the end is the first of its path if its path is a new one. -/
theorem isFirst_last (objects : List DocumentEntry) (object : DocumentEntry) :
    isFirst (objects ++ [object]) (object, objects.length) = true ↔
      symbolPath object.path ∉ objects.map fun earlier => symbolPath earlier.path := by
  simp [isFirst]

/-- An object at the end is kept if its symbol path is a new one, and it changes nothing about those
in front of it. -/
theorem firstObjects_concat (objects : List DocumentEntry) (object : DocumentEntry) :
    firstObjects (objects ++ [object]) =
      if symbolPath object.path ∈ objects.map fun earlier => symbolPath earlier.path then
        firstObjects objects
      else firstObjects objects ++ [object] := by
  have hfront : objects.zipIdx.filter (isFirst (objects ++ [object])) =
      objects.zipIdx.filter (isFirst objects) := by
    refine List.filter_congr fun entry hmem => ?_
    have hplace : entry.2 < objects.length := (List.mem_zipIdx' hmem).1
    rw [isFirst, isFirst, List.take_append_of_le_length (Nat.le_of_lt hplace)]
  rw [firstObjects, List.zipIdx_append, List.filter_append, List.map_append, hfront,
    ← firstObjects, Nat.zero_add, List.zipIdx_singleton, List.filter_cons, List.filter_nil]
  simp only [isFirst_last, ite_not]
  split
  · rw [List.map_nil, List.append_nil]
  · rw [List.map_singleton]

/-- The same symbol paths come up among the objects that are kept. -/
theorem mem_paths_firstObjects {objects : List DocumentEntry} {path : String} :
    (path ∈ (firstObjects objects).map fun object => symbolPath object.path) ↔
      path ∈ objects.map fun object => symbolPath object.path := by
  induction objects using List.reverseRecOn with
  | nil => rfl
  | append_singleton objects object ih =>
    rw [firstObjects_concat, List.map_append, List.mem_append, ← ih]
    split
    · rename_i hold
      -- the path of an object that is left out is there already
      refine ⟨.inl, fun hmem => hmem.elim id fun hlast => ?_⟩
      rw [List.map_singleton, List.mem_singleton] at hlast
      exact ih.2 (hlast ▸ hold)
    · rw [List.map_append, List.mem_append]

/-- No two of the objects that are kept have one symbol path. -/
theorem nodup_paths_firstObjects (objects : List DocumentEntry) :
    ((firstObjects objects).map fun object => symbolPath object.path).Nodup := by
  induction objects using List.reverseRecOn with
  | nil => exact List.nodup_nil
  | append_singleton objects object ih =>
    rw [firstObjects_concat]
    split
    · exact ih
    · rename_i hnew
      rw [List.map_append, List.map_singleton]
      refine List.nodup_append.2 ⟨ih, List.nodup_singleton _, ?_⟩
      rintro path hkept _ hlast rfl
      rw [List.mem_singleton.1 hlast] at hkept
      exact hnew (mem_paths_firstObjects.1 hkept)

/-- What is kept of the objects after some whose paths have been seen: the path of an object at the
end must be among neither those seen nor those of the other objects. -/
theorem firstOfEachPath_concat (seen : List String) (objects : List DocumentEntry)
    (object : DocumentEntry) :
    firstOfEachPath seen (objects ++ [object]) =
      if symbolPath object.path ∈ seen ∨
          symbolPath object.path ∈ objects.map fun earlier => symbolPath earlier.path then
        firstOfEachPath seen objects
      else firstOfEachPath seen objects ++ [object] := by
  induction objects generalizing seen with
  | nil => simp [firstOfEachPath]
  | cons first objects ih =>
    simp only [List.cons_append, firstOfEachPath, List.contains_iff_mem, List.map_cons,
      List.mem_cons]
    by_cases hseen : symbolPath first.path ∈ seen
    · -- the first object is left out, and that its path has been seen is known already
      rw [if_pos hseen, if_pos hseen, ih]
      exact if_congr (by grind) rfl rfl
    · -- the first object is kept, and its path is one more that has been seen
      rw [if_neg hseen, if_neg hseen, ih, apply_ite (List.cons first)]
      exact if_congr (by grind) rfl rfl

/-- Graphs are made of the objects that are kept. -/
theorem firstOfEachPath_nil (objects : List DocumentEntry) :
    firstOfEachPath [] objects = firstObjects objects := by
  induction objects using List.reverseRecOn with
  | nil => rfl
  | append_singleton objects object ih =>
    rw [firstOfEachPath_concat, firstObjects_concat, ih]
    simp only [List.not_mem_nil, false_or]

/-! ## One object after the other -/

/-- **A conversion on its way**: the place of every symbol by its path, and the graph so far. -/
structure Conversion where
  places : List (String × Nat)
  graph : SymbolGraph

namespace Conversion

/-- The conversion before the first object. -/
def start : Conversion := ⟨[], ⟨[], []⟩⟩

/-- The conversion after one object more, which is passed over if its symbol path has a place. -/
def add (conversion : Conversion) (object : DocumentEntry) : Conversion :=
  let symbol := Symbol.ofObject object
  match conversion.places.lookup symbol.path with
  | some _ => conversion
  | none =>
      { places := (symbol.path, conversion.graph.symbols.length) :: conversion.places
        graph :=
          { symbols := conversion.graph.symbols ++ [symbol]
            docs := conversion.graph.docs ++ (SymbolDoc.ofObject? object).toList } }

/-- **What a conversion has come to** after some objects: the symbols and the docs are those of the
objects that are kept, and the place of a path is where the symbol with this path stands. -/
structure Converts (objects : List DocumentEntry) (conversion : Conversion) : Prop where
  symbols : conversion.graph.symbols = (firstObjects objects).map Symbol.ofObject
  docs : conversion.graph.docs = (firstObjects objects).filterMap SymbolDoc.ofObject?
  places : ∀ path place, conversion.places.lookup path = some place ↔
    (conversion.graph.symbols[place]?).map (·.path) = some path

theorem converts_start : Converts [] start := ⟨rfl, rfl, fun path place => by simp [start]⟩

namespace Converts

variable {objects : List DocumentEntry} {conversion : Conversion}

/-- The paths of the symbols are the symbol paths of the objects. -/
theorem mem_paths (hconverts : Converts objects conversion) {path : String} :
    path ∈ conversion.graph.symbols.map (·.path) ↔
      path ∈ objects.map fun object => symbolPath object.path := by
  rw [hconverts.symbols, List.map_map, ← mem_paths_firstObjects]
  rfl

/-- A path has a place if and only if an object has had it. -/
theorem exists_place_iff (hconverts : Converts objects conversion) {path : String} :
    (∃ place, conversion.places.lookup path = some place) ↔
      path ∈ objects.map fun object => symbolPath object.path := by
  rw [← hconverts.mem_paths, List.mem_iff_getElem?]
  simp only [hconverts.places, List.getElem?_map]

/-- **One step**: after one object more, a conversion has come to what it should. -/
theorem add (hconverts : Converts objects conversion) (object : DocumentEntry) :
    Converts (objects ++ [object]) (conversion.add object) := by
  have hplace : (∃ place, conversion.places.lookup (symbolPath object.path) = some place) ↔
      symbolPath object.path ∈ objects.map fun earlier => symbolPath earlier.path :=
    hconverts.exists_place_iff
  unfold Conversion.add
  dsimp only
  cases hlookup : conversion.places.lookup (Symbol.ofObject object).path with
  | some place =>
    have hold := hplace.1 ⟨place, hlookup⟩
    constructor
    · rw [firstObjects_concat, if_pos hold, hconverts.symbols]
    · rw [firstObjects_concat, if_pos hold, hconverts.docs]
    · exact hconverts.places
  | none =>
    have hnew : ¬ symbolPath object.path ∈ objects.map fun earlier => symbolPath earlier.path := by
      intro hold
      obtain ⟨place, hfound⟩ := hplace.2 hold
      cases hlookup.symm.trans hfound
    constructor
    · rw [firstObjects_concat, if_neg hnew, List.map_append, ← hconverts.symbols]
      rfl
    · rw [firstObjects_concat, if_neg hnew, List.filterMap_append, ← hconverts.docs]
      cases hdoc : SymbolDoc.ofObject? object <;> simp [hdoc]
    · intro path place
      have hunused : (conversion.graph.symbols[place]?).map (·.path) ≠
          some (symbolPath object.path) := by
        intro hused
        rw [← List.getElem?_map] at hused
        exact hnew (hconverts.mem_paths.1 (List.mem_of_getElem? hused))
      have hconcat : ((conversion.graph.symbols ++ [Symbol.ofObject object])[place]?).map (·.path) =
          some path ↔ (conversion.graph.symbols[place]?).map (·.path) = some path ∨
            (place = conversion.graph.symbols.length ∧ symbolPath object.path = path) := by
        grind [Symbol.ofObject]
      rw [hconcat, List.lookup_cons]
      by_cases hpath : path = symbolPath object.path
      · -- the new path has the place behind all symbols, and had none before
        subst hpath
        simp [Symbol.ofObject, hunused, eq_comm]
      · have hother : (path == (Symbol.ofObject object).path) = false := beq_false_of_ne hpath
        simp [hother, hconverts.places, Ne.symm hpath]

end Converts

/-- **All steps**: a conversion of objects one after the other comes to what it should. -/
theorem converts_foldl (objects : List DocumentEntry) :
    Converts objects (objects.foldl Conversion.add start) := by
  induction objects using List.reverseRecOn with
  | nil => exact converts_start
  | append_singleton objects object ih =>
    rw [List.foldl_concat]
    exact ih.add object

end Conversion

/-! ## The graph of a document -/

/-- **A graph keeps the first object of every symbol path.** Whatever a document lists, the symbols
of its graph are those of the objects whose symbol paths no earlier object has, and the docs are
those of the same objects as far as they have docstrings, both in the order of the document. No two
symbols have one path, and every doc is that of exactly one symbol. A conversion that goes through
the objects one after the other comes to this graph. -/
theorem SymbolGraph.ofDocument_keepsFirst (document : Document) :
    let graph := SymbolGraph.ofDocument document
    graph.symbols = (firstObjects document.objects).map Symbol.ofObject ∧
    graph.docs = (firstObjects document.objects).filterMap (fun object =>
      object.docstring.map fun docstring =>
        ⟨symbolPath object.path, docFormat, docstring, object.file⟩) ∧
    (graph.symbols.map (·.path)).Nodup ∧
    (∀ doc ∈ graph.docs, ∃! symbol, symbol ∈ graph.symbols ∧ symbol.path = doc.symbolPath) ∧
    (document.objects.foldl Conversion.add .start).graph = graph := by
  intro graph
  have hkept : graph = ⟨(firstObjects document.objects).map Symbol.ofObject,
      (firstObjects document.objects).filterMap SymbolDoc.ofObject?⟩ := by
    rw [← firstOfEachPath_nil]
    rfl
  have hpaths : (graph.symbols.map (·.path)).Nodup := by
    rw [hkept, List.map_map]
    exact nodup_paths_firstObjects document.objects
  refine ⟨congrArg SymbolGraph.symbols hkept, congrArg SymbolGraph.docs hkept, hpaths, ?_, ?_⟩
  · intro doc hdoc
    rw [hkept] at hdoc
    obtain ⟨object, hobject, hdocument⟩ := List.mem_filterMap.1 hdoc
    obtain ⟨docstring, -, rfl⟩ := Option.map_eq_some_iff.1 hdocument
    have hsymbol : Symbol.ofObject object ∈ graph.symbols := by
      rw [hkept]
      exact List.mem_map_of_mem hobject
    refine ⟨Symbol.ofObject object, ⟨hsymbol, rfl⟩, fun other hother => ?_⟩
    exact List.inj_on_of_nodup_map hpaths hother.1 hsymbol hother.2
  · have hconverts := Conversion.converts_foldl document.objects
    rw [hkept, ← hconverts.symbols, ← hconverts.docs]

/-- The second object has the symbol path of the first, and its docstring is left out with it. -/
example :
    let entry := fun path docstring => (⟨"", path, "", "method", "a.rb", true, none, none,
      docstring, none⟩ : DocumentEntry)
    let graph := SymbolGraph.ofDocument
      ⟨[entry "A.rb" none, entry "A_rb" (some "d"), entry "A#b" (some "e")]⟩
    graph.symbols.map (·.path) = ["A_rb", "A/$methods/b"] ∧
      graph.docs.map (·.data) = ["e"] := by
  decide +kernel

end RubyIndex.Graph
