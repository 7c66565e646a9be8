import RubyIndex.Build.Error
import RubyIndex.Files.Collect
import RubyIndex.Indexing.Source
import RubyIndex.Registry.Merge

/-! # Source indexes

A source index is a registry together with the files that have been indexed into it. -/

namespace RubyIndex.Build

open Files

/-- A registry and the names of the files indexed into it. -/
structure SourceIndex where
  registry : Registry
  files : NameSet

/-- What loading paths came to. -/
structure LoadReport where
  syntaxErrors : Nat := 0
  /-- The files that hold no text, in order. -/
  unreadable : List String := []
  deriving DecidableEq, Repr

/-- A computation on a source index that may stop halfway; what it has changed stays. -/
abbrev Indexed (α : Type) := ExceptT BuildError (StateM SourceIndex) α

namespace SourceIndex

/-- The source index of a registry into which no files have been indexed. -/
def ofRegistry (registry : Registry) : SourceIndex := ⟨registry, .empty⟩

/-- The source index with nothing in it. -/
def empty : SourceIndex := ofRegistry .empty

end SourceIndex

namespace Indexed

/-- Runs an edit of the registry. -/
def ofEdit {α : Type} (edit : Edit α) : Indexed α := fun index =>
  let (outcome, registry) := edit.apply index.registry
  (outcome.mapError .registry, { index with registry })

/-- Adds a file to the indexed files. -/
def addFile (file : String) : Indexed Unit := fun index =>
  (.ok (), { index with files := index.files.insert file })

/-- The outcome of a computation on a source index, and the source index as it is then. -/
def apply {α : Type} (run : Indexed α) (index : SourceIndex) :
    Except BuildError α × SourceIndex :=
  run index

/-- A computation goes on with the next one unless it stops. -/
theorem apply_bind {α β : Type} (run : Indexed α) (next : α → Indexed β) (index : SourceIndex) :
    (run >>= next).apply index =
      match run.apply index with
      | (.ok value, changed) => (next value).apply changed
      | (.error error, changed) => (.error error, changed) := by
  simp only [apply, bind, ExceptT.bind, ExceptT.mk, StateT.bind, ExceptT.bindCont]
  rcases run index with ⟨_ | _, _⟩ <;> rfl

/-- Indexes a text as the file of a name. The result is the text's syntax errors. -/
def setFile (file source : String) : Indexed (List Syntax.SyntaxError) := do
  let errors ← ofEdit (Indexing.indexSource file source)
  -- a file whose definitions are refused does not count as indexed
  addFile file
  return errors

/-- Indexes the file at a path. -/
def loadFile (tree : FileTree) (path : String) : Indexed (List Syntax.SyntaxError) := do
  match tree.text? path with
  | some source => setFile path source
  | none => throw (.unreadableFile path)

/-- Indexes the files at the given paths and skips those that hold no text. -/
def loadSources (tree : FileTree) : List String → Indexed LoadReport
  | [] => return {}
  | path :: rest => do
      match tree.text? path with
      | none =>
          -- a file without text does not stop the ones after it
          let report ← loadSources tree rest
          return { report with unreadable := path :: report.unreadable }
      | some source =>
          let errors ← setFile path source
          let report ← loadSources tree rest
          return { report with syntaxErrors := errors.length + report.syntaxErrors }

/-- Indexes the source files that a list of paths stands for. -/
def loadPaths (tree : FileTree) (paths : List String) : Indexed LoadReport := do
  match tree.collectSources paths with
  | .error path => throw (.pathNotFound path)
  | .ok sources => loadSources tree sources

end Indexed

end RubyIndex.Build
