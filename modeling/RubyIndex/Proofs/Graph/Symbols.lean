import Mathlib.Data.List.Nodup
import RubyIndex.Proofs.Graph.SymbolPaths

/-! # The symbols of documents

The graph of a document keeps the first object of each symbol path. In the document of a registry
built from texts, objects have symbol paths of their own, unless the paths look like files.

* `Graph.firstOfEachPath_eq_self`: where no symbol path comes up twice, all objects are kept.
* `Registry.Built.symbols_ofDocument` is the graph of a registry built from texts, and
  `Registry.Built.symbols_ofDocument_file` is an object that is lost. -/

namespace RubyIndex

open RubyIndex.Graph Markup

/-- Objects with symbol paths of their own are all kept. -/
theorem Graph.firstOfEachPath_eq_self {seen : List String} {objects : List DocumentEntry}
    (hnodup : (objects.map fun object => symbolPath object.path).Nodup)
    (hnew : ∀ object ∈ objects, symbolPath object.path ∉ seen) :
    firstOfEachPath seen objects = objects := by
  induction objects generalizing seen with
  | nil => rfl
  | cons object rest ih =>
    rw [List.map_cons, List.nodup_cons] at hnodup
    have hunseen : ¬ seen.contains (symbolPath object.path) = true := by
      rw [List.contains_iff_mem]
      exact hnew object List.mem_cons_self
    rw [firstOfEachPath, if_neg hunseen, ih hnodup.2]
    intro later hlater hmem
    rcases List.mem_cons.1 hmem with hsame | hseen
    · exact hnodup.1 (hsame ▸ List.mem_map_of_mem hlater)
    · exact hnew later (List.mem_cons_of_mem _ hlater) hseen

namespace Registry.Built

variable {registry : Registry}

/-- **No object is lost in the graph** of a registry built from texts, unless its path looks like a
file: different paths have different symbols, and there is one symbol for each exported object. -/
theorem symbols_ofDocument (hbuilt : Built registry) (files : List String)
    (renderer : DocRenderer) :
    let document := Document.ofRegistry files renderer registry
    (∀ first ∈ document.objects, ∀ second ∈ document.objects,
      looksLikeFile first.path = false → looksLikeFile second.path = false →
      first.path ≠ second.path → symbolPath first.path ≠ symbolPath second.path) ∧
    ((∀ object ∈ document.objects, looksLikeFile object.path = false) →
      (SymbolGraph.ofDocument document).symbols = document.objects.map Symbol.ofObject) := by
  intro document
  have hsound := hbuilt.sound
  -- a symbol path is read back, so it belongs to one path only
  have hback : ∀ object ∈ document.objects, looksLikeFile object.path = false →
      rubyPath (symbolPath object.path).toList = object.path.toList := by
    intro object hmem hname
    obtain ⟨id, found, hne, hget, hdescribes⟩ := hsound.exists_of_mem_document hmem
    have hshape := hsound.pathShape hget hne
    rw [← hdescribes.path] at hshape
    exact rubyPath_symbolPath hshape hname
  have hinjective : ∀ first ∈ document.objects, ∀ second ∈ document.objects,
      looksLikeFile first.path = false → looksLikeFile second.path = false →
      symbolPath first.path = symbolPath second.path → first.path = second.path := by
    intro first hfirst second hsecond hfirstName hsecondName hsame
    apply String.toList_injective
    rw [← hback first hfirst hfirstName, ← hback second hsecond hsecondName, hsame]
  refine ⟨?_, fun hnames => ?_⟩
  · intro first hfirst second hsecond hfirstName hsecondName hne hsame
    exact hne (hinjective first hfirst second hsecond hfirstName hsecondName hsame)
  · have hpaths : (document.objects.map (·.path)).Nodup :=
      hsound.nodup_paths_document files renderer
    have hsymbols : (document.objects.map fun object => symbolPath object.path).Nodup := by
      refine List.Nodup.map_on ?_ hpaths.of_map
      intro first hfirst second hsecond hsame
      have hpath := hinjective first hfirst second hsecond (hnames first hfirst)
        (hnames second hsecond) hsame
      exact List.inj_on_of_nodup_map hpaths hfirst hsecond hpath
    rw [SymbolGraph.ofDocument, firstOfEachPath_eq_self hsymbols fun _ _ => List.not_mem_nil]

/-- A class with an operator, a method of its own and a variable. -/
theorem symbols_ofDocument_members :
    let document := Document.ofRegistry ["a.rb"] renderHtml ((Indexing.indexSource "a.rb"
      "class A\ndef >(b)\nend\ndef self.c\n@d = 1\nend\nend\ndef >(b)\nend\n").apply .empty).2
    (SymbolGraph.ofDocument document).symbols = document.objects.map Symbol.ofObject :=
  (symbols_ofDocument (.indexSource _ _ .empty) ["a.rb"] renderHtml).2 (by decide +kernel)

/-- A method whose name begins with `rb` has the symbol path of a module, which is lost. -/
theorem symbols_ofDocument_file :
    ∃ registry, Built registry ∧
      let document := Document.ofRegistry ["a.rb"] renderHtml registry
      document.objects.map (·.path) = ["A", "A.rb", "A_rb"] ∧
      document.objects.map (fun object => symbolPath object.path) = ["A", "A_rb", "A_rb"] ∧
      (SymbolGraph.ofDocument document).symbols.map (·.rubyPath) = ["A", "A.rb"] :=
  ⟨_, .indexSource "a.rb" "module A\n  def self.rb\n  end\nend\nmodule A_rb\nend\n" .empty,
    by decide +kernel⟩

end Registry.Built

end RubyIndex
