import RubyIndex.Document.Basic
import RubyIndex.Markup.Html
import RubyIndex.Registry.Basic

/-! # Documents of registries

The document of a registry lists the objects that are defined in given files, in order of
registration, with their docstrings rendered. -/

namespace RubyIndex

open Markup

namespace DocumentEntry

/-- What stands in for a docstring that cannot be rendered. -/
def unrenderable : String := "<!-- doc error -->"

/-- A docstring as it appears in a document; an empty one does not. -/
def renderDocstring? (renderer : DocRenderer) (docstring : String) : Option String :=
  if docstring.isEmpty then none
  else
    match renderer docstring with
    | .ok rendered => some rendered
    | .error _ => some unrenderable

/-- A definition line without the keyword in front. -/
def withoutKeyword (signature : String) : String :=
  let keyword := "def ".toList
  if keyword.isPrefixOf signature.toList then
    String.ofList (signature.toList.drop keyword.length)
  else signature

/-- An object in the document for the given files, if it is defined in one of them. -/
def ofObject? (files : List String) (renderer : DocRenderer) (registry : Registry)
    (id : ObjectId) (object : CodeObject) : Option DocumentEntry := do
  let enclosing ← (registry.parentModule? id).bind registry.get?
  let origin ← object.origin
  if files.contains origin.file then
    some
      { name := object.name
        path := object.path
        module := enclosing.path
        kind := object.kind.name
        file := origin.file
        exported := object.isExported
        defStart := some origin.start
        defEnd := some origin.stop
        docstring := renderDocstring? renderer object.docstring
        signature := object.signature?.map withoutKeyword }
  else none

end DocumentEntry

/-- The document of a registry for the given files. -/
def Document.ofRegistry (files : List String) (renderer : DocRenderer) (registry : Registry) :
    Document :=
  ⟨registry.entries.filterMap fun (id, object) =>
    DocumentEntry.ofObject? files renderer registry id object⟩

end RubyIndex
