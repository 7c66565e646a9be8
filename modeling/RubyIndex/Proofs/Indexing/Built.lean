import RubyIndex.Proofs.Indexing.Simulation
import RubyIndex.Proofs.Registry.Reachable

/-! # Registries built from texts

Indexing texts and merging what they define keeps a registry sound. From such a registry the
outcome of indexing can be read off: a fresh registry holds exactly what the syntax tree declares,
and the one thing that can go wrong is a name that is both a method and a namespace at the top
level.

* `Registry.Built` lists the ways to build a registry from texts.
* `declarations_indexSource`: what is registered is what the tree declares.
* `Registry.Built.indexSource_outcome`: a text is indexed, or meets a clash at the top level. -/

namespace RubyIndex

open Syntax Indexing

/-! ## Fresh registries -/

/-- **What a text registers.** A text that is indexed into an empty registry registers what its
syntax tree declares, in this order, without the declarations whose path came up before. -/
theorem Indexing.declarations_indexSource (file source : String)
    (hok : ((indexSource file source).apply .empty).1.isOk = true) :
    ((indexSource file source).apply .empty).2.declarations =
      (declarations (parse source).tree).eraseDupsBy fun later earlier =>
        later.path == earlier.path := by
  have hyields := indexSource_yields Registry.sound_empty file source
  rw [Edit.Yields] at hyields
  rcases hresult : (indexSource file source).apply .empty with ⟨error | errors, changed⟩
  · rw [hresult] at hok
    cases hok
  · rw [hresult] at hyields
    have hnone : Registry.empty.declarations = [] := rfl
    rw [hyields.declarations, hnone, foldl_enter_nil]

/-- A nested class with a singleton method, and a class inside a method, which is passed over. -/
theorem Indexing.declarations_indexSource_nested :
    ((indexSource "a.rb"
        "class A::B\ndef self.c\n@d = 1\nclass E\nend\nend\nend\nclass A\nend").apply
          .empty).2.declarations =
      [⟨"A", .namespace, "A"⟩, ⟨"A::B", .namespace, "B"⟩, ⟨"A::B.c", .method, "c"⟩,
        ⟨"A::B::@@d", .classVariable, "@@d"⟩] := by
  rw [Indexing.declarations_indexSource _ _ (by decide +kernel)]
  decide +kernel

namespace Registry

/-! ## Built registries -/

/-- **Built registries.** The registries that come from the empty one by indexing texts and
merging built registries, where refused requests leave what they did before the refusal. -/
inductive Built : Registry → Prop where
  | empty : Built .empty
  | indexSource {registry : Registry} (file source : String) (hbuilt : Built registry) :
      Built ((Indexing.indexSource file source).apply registry).2
  | merge {registry other : Registry} (hbuilt : Built registry) (hother : Built other) :
      Built ((Edit.merge other).apply registry).2

/-- Built registries are reachable. -/
theorem Built.reachable {registry : Registry} (hbuilt : Built registry) : Reachable registry := by
  induction hbuilt with
  | empty => exact .empty
  | indexSource file source _ ih => exact .indexSource file source ih
  | merge _ _ ih ihOther => exact .merge ih ihOther

/-- Built registries are sound. -/
theorem Built.sound {registry : Registry} (hbuilt : Built registry) : Sound registry := by
  induction hbuilt with
  | empty => exact sound_empty
  | indexSource file source _ ih =>
    refine ((indexSource_yields ih file source).mono ?_ ?_).leaves
    · exact fun _ changed hgrows => hgrows.sound
    · exact fun _ changed hrefused => hrefused.1
  | merge _ _ ih ihOther => exact (Sound.keeps_merge ihOther _ ih).leaves

/-- **What can go wrong.** Indexing a text into a built registry succeeds, or is refused because a
top-level method and a top-level namespace have one name. -/
theorem Built.indexSource_outcome {registry : Registry} (hbuilt : Built registry)
    (file source : String) :
    ((Indexing.indexSource file source).apply registry).1.isOk = true ∨
      ∃ error, ((Indexing.indexSource file source).apply registry).1 = .error error ∧
        TopLevelClash ((Indexing.indexSource file source).apply registry).2 error := by
  have hyields := indexSource_yields hbuilt.sound file source
  rw [Edit.Yields] at hyields
  rcases hresult : (Indexing.indexSource file source).apply registry with ⟨error | errors, changed⟩
  · rw [hresult] at hyields
    exact .inr ⟨error, rfl, hyields.2⟩
  · exact .inl rfl

/-- A module where there is a method of its name. -/
theorem Built.indexSource_outcome_clash :
    ∃ error, ((Indexing.indexSource "b.rb" "module A\nend\n").apply
        ((Indexing.indexSource "a.rb" "def A\nend\n").apply .empty).2).1 = .error error ∧
      TopLevelClash ((Indexing.indexSource "b.rb" "module A\nend\n").apply
        ((Indexing.indexSource "a.rb" "def A\nend\n").apply .empty).2).2 error :=
  ((Built.empty.indexSource "a.rb" "def A\nend\n").indexSource_outcome "b.rb"
    "module A\nend\n").resolve_left (by decide +kernel)

end Registry

end RubyIndex
