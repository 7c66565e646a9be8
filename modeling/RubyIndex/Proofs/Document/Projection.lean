import RubyIndex.Build.Exporter
import RubyIndex.Proofs.Document.Entries
import RubyIndex.Proofs.Registry.Merging

/-! # Documents as projections of registries

An entry shows an object together with its place under the owner. Which objects have entries, and
what the entries say, does not depend on the way in which docstrings are rendered, even if that
always fails.

* `DocumentEntry.Projects` is all that an entry shows.
* `Document.withBlankDocstrings_ofRegistry`: a renderer decides on the docstrings only.
* `Registry.Reachable.projects_document` is the result for reachable registries. -/

namespace RubyIndex

open Markup

/-- **An entry projects an object** of a registry. It describes the object and names the namespace
around it, and what is absent from the entry tells something about the object. -/
structure DocumentEntry.Projects (registry : Registry) (renderer : DocRenderer)
    (entry : DocumentEntry) (object : CodeObject) : Prop extends entry.Describes object where
  /-- The path is made of that of the owner, which is the module, and of the name. -/
  placed : ∃ owner parent, object.owner = some owner ∧ registry.get? owner = some parent ∧
    entry.module = parent.path ∧
    entry.path = joinPath entry.module object.details.separator entry.name
  /-- Names with a sigil are not exported. -/
  exported_iff : entry.exported = false ↔ entry.name.toList.head? = some '@'
  /-- Methods alone have a signature. -/
  signature_iff : entry.signature.isSome = true ↔ entry.kind = ObjectKind.method.name
  /-- An empty docstring does not appear. -/
  docstring_iff : entry.docstring = none ↔ object.docstring = ""
  /-- Any other docstring appears as it is rendered, or else as a placeholder. -/
  docstring : entry.docstring = renderDocstring? renderer object.docstring

/-! ## Single entries -/

namespace DocumentEntry

variable {files : List String} {renderer : DocRenderer} {registry : Registry} {id : ObjectId}
  {object : CodeObject} {entry : DocumentEntry}

/-- An entry with the contents of its docstring left out, if there is one. -/
def withBlankDocstring (entry : DocumentEntry) : DocumentEntry :=
  { entry with docstring := entry.docstring.map fun _ => "" }

/-- Every docstring that is not empty appears, whether it can be rendered or not. -/
theorem renderDocstring?_eq_none_iff (renderer : DocRenderer) (docstring : String) :
    renderDocstring? renderer docstring = none ↔ docstring = "" := by
  unfold renderDocstring?
  rw [← String.isEmpty_iff]
  cases docstring.isEmpty with
  | true => simp
  | false => cases renderer docstring <;> simp

/-- What the renderer decides on: nothing but the contents of a docstring. -/
theorem map_renderDocstring? (first second : DocRenderer) (docstring : String) :
    (renderDocstring? first docstring).map (fun _ => "") =
      (renderDocstring? second docstring).map fun _ => "" := by
  cases hfirst : renderDocstring? first docstring with
  | none =>
    rw [(renderDocstring?_eq_none_iff first docstring).1 hfirst]
    rfl
  | some shown =>
    cases hsecond : renderDocstring? second docstring with
    | none =>
      rw [(renderDocstring?_eq_none_iff second docstring).1 hsecond] at hfirst
      cases hfirst
    | some other => rfl

/-- Methods alone have a definition line. -/
theorem isSome_signature?_iff (object : CodeObject) :
    object.signature?.isSome = true ↔ object.kind.name = ObjectKind.method.name := by
  unfold CodeObject.signature? CodeObject.kind
  cases object.details <;> simp [Details.kind, ObjectKind.name]

theorem isExported_eq_false_iff (object : CodeObject) :
    object.isExported = false ↔ object.name.toList.head? = some '@' := by
  simp [CodeObject.isExported]

/-- What an entry that has been made says about the surroundings of its object. -/
theorem exists_enclosing_of_ofObject?
    (hmade : ofObject? files renderer registry id object = some entry) :
    ∃ enclosing, (registry.parentModule? id).bind registry.get? = some enclosing ∧
      entry.module = enclosing.path ∧
      entry.docstring = renderDocstring? renderer object.docstring := by
  unfold ofObject? at hmade
  cases henclosing : (registry.parentModule? id).bind registry.get? with
  | none =>
    rw [henclosing] at hmade
    cases hmade
  | some enclosing =>
    cases horigin : object.origin with
    | none =>
      rw [henclosing, horigin] at hmade
      cases hmade
    | some origin =>
      simp only [henclosing, horigin, Option.bind_eq_bind, Option.bind_some] at hmade
      split at hmade
      · obtain rfl := Option.some.inj hmade
        exact ⟨enclosing, rfl, rfl, rfl⟩
      · cases hmade

/-- The entry of an object is the same for all renderers, up to the contents of its docstring. -/
theorem map_withBlankDocstring_ofObject? (first second : DocRenderer) :
    (ofObject? files first registry id object).map withBlankDocstring =
      (ofObject? files second registry id object).map withBlankDocstring := by
  unfold ofObject?
  cases (registry.parentModule? id).bind registry.get? with
  | none => rfl
  | some enclosing =>
    cases object.origin with
    | none => rfl
    | some origin =>
      simp only [Option.bind_eq_bind, Option.bind_some]
      split
      · rw [Option.map_some, Option.map_some, withBlankDocstring, withBlankDocstring,
          map_renderDocstring? first second]
      · rfl

end DocumentEntry

/-! ## Whole documents -/

/-- **The renderer decides on docstrings only.** Documents of a registry with different renderers
differ in the contents of docstrings and in nothing else. -/
theorem Document.withBlankDocstrings_ofRegistry (files : List String) (first second : DocRenderer)
    (registry : Registry) :
    (Document.ofRegistry files first registry).objects.map (·.withBlankDocstring) =
      (Document.ofRegistry files second registry).objects.map (·.withBlankDocstring) := by
  rw [ofRegistry, ofRegistry, List.map_filterMap, List.map_filterMap]
  exact List.filterMap_congr fun entry _ =>
    DocumentEntry.map_withBlankDocstring_ofObject? first second

namespace Registry

variable {registry : Registry}

/-- An entry of a well-formed registry projects its object. -/
theorem WellFormed.projects_of_ofObject? (hwell : WellFormed registry) {files : List String}
    {renderer : DocRenderer} {id : ObjectId} {object : CodeObject} {entry : DocumentEntry}
    (hentry : (id, object) ∈ registry.entries)
    (hmade : DocumentEntry.ofObject? files renderer registry id object = some entry) :
    entry.Projects registry renderer object := by
  have hdescribes := hwell.describes_of_ofObject? hentry hmade
  obtain ⟨enclosing, henclosing, hmodule, hdocstring⟩ :=
    DocumentEntry.exists_enclosing_of_ofObject? hmade
  obtain ⟨hne, hget⟩ := hwell.mem_entries_iff.1 hentry
  obtain ⟨owner, parent, howner, hparent, -, -, hpath⟩ := hwell.owned hget hne
  -- the search for the namespace around the object ends with its owner
  obtain rfl : parent = enclosing := by
    rw [hwell.parentModule?_eq, hget, Option.bind_some, howner, Option.bind_some, hparent,
      Option.some.injEq] at henclosing
    exact henclosing
  refine ⟨hdescribes, ⟨owner, parent, howner, hparent, hmodule, ?_⟩, ?_, ?_, ?_, hdocstring⟩
  · rw [hdescribes.path, hdescribes.name, hmodule, hpath]
  · rw [hdescribes.exported, hdescribes.name]
    exact DocumentEntry.isExported_eq_false_iff object
  · rw [hdescribes.signature, hdescribes.kind, Option.isSome_map]
    exact DocumentEntry.isSome_signature?_iff object
  · rw [hdocstring]
    exact DocumentEntry.renderDocstring?_eq_none_iff renderer object.docstring

/-- **The document of a registry** has one entry for each object but the root that is defined in one
of the files, in order of registration, and no others. The entries project the objects, no two of
them have one path, and another renderer would change the contents of docstrings only. -/
theorem Reachable.projects_document (hreach : Reachable registry) (exporter : Build.Exporter)
    (renderer : DocRenderer) :
    List.Forall₂ (DocumentEntry.Projects registry exporter.renderer)
        (exporter.document registry).objects
        ((registry.objects.toList.drop 1).filter (·.isDefinedIn exporter.files.names)) ∧
      ((exporter.document registry).objects.map (·.path)).Nodup ∧
      (Build.Exporter.document { exporter with renderer } registry).objects.map
          (·.withBlankDocstring) =
        (exporter.document registry).objects.map (·.withBlankDocstring) := by
  have hwell := hreach.wellFormed
  refine ⟨?_, ?_, ?_⟩
  · rw [← hwell.registered_eq]
    exact hwell.forall₂_document _ _ fun _ _ _ => hwell.projects_of_ofObject?
  · exact hwell.nodup_paths_document _ _
  · exact Document.withBlankDocstrings_ofRegistry _ _ _ _

/-- A class that is opened in one file and reopened in another, and a variable of it. Only the first
file is exported, with a renderer that always fails. -/
theorem Reachable.projects_document_failing :
    let registry := ((Indexing.indexSource "b.rb" "class A\nend\n").apply
      ((Indexing.indexSource "a.rb" "class A\n  # One.\n  @@b = 1\nend\n").apply .empty).2).2
    let exporter : Build.Exporter :=
      ⟨.ofList ["a.rb"], fun _ => .error (.unterminated '+' 0)⟩
    List.Forall₂ (DocumentEntry.Projects registry exporter.renderer)
        (exporter.document registry).objects
        ((registry.objects.toList.drop 1).filter (·.isDefinedIn exporter.files.names)) ∧
      (exporter.document registry).objects.map (fun entry => (entry.path, entry.docstring)) =
        [("A::@@b", some "<!-- doc error -->")] := by
  intro registry exporter
  have hreach : Reachable registry := .indexSource "b.rb" _ (.indexSource "a.rb" _ .empty)
  exact ⟨(Reachable.projects_document hreach exporter renderHtml).1, by decide +kernel⟩

end Registry

end RubyIndex
