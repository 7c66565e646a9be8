import RubyIndex.Build.Error
import RubyIndex.Document.Codec
import RubyIndex.Document.Registry
import RubyIndex.Files.Collect

/-! # Exporters

An exporter writes the documents of registries for a fixed, non-empty file set. Documents are
appended to an output, each on a line of its own. -/

namespace RubyIndex.Build

open Files Markup

/-! ## Outputs -/

/-- A computation that appends to an output and may stop halfway; what it has written stays. -/
abbrev Writing (α : Type) := ExceptT BuildError (StateM String) α

namespace Writing

/-- The outcome of a computation, and the output as it is then. -/
def apply {α : Type} (run : Writing α) (output : String) : Except BuildError α × String :=
  run output

/-- Appends a text to the output. -/
def text (appended : String) : Writing Unit := fun output => (.ok (), output ++ appended)

end Writing

/-! ## Writing documents -/

/-- A file set with a way to render docstrings. -/
structure Exporter where
  files : NameSet
  renderer : DocRenderer

namespace Exporter

/-- The exporter for the files that a list of paths stands for. -/
def ofPaths (tree : FileTree) (paths : List String) : Except BuildError Exporter :=
  let files := tree.expand paths
  if files.isEmpty then .error .noFilesToExport else .ok ⟨files, renderHtml⟩

/-- Whether a file is in the file set. -/
def includes (exporter : Exporter) (file : String) : Bool := exporter.files.contains file

/-- The document of a registry. -/
def document (exporter : Exporter) (registry : Registry) : Document :=
  .ofRegistry exporter.files.names exporter.renderer registry

/-- Writes the document of a registry as a line. -/
def write (exporter : Exporter) (registry : Registry) : Writing Unit :=
  Writing.text (exporter.document registry).renderLine

end Exporter

end RubyIndex.Build
