import RubyIndex.Document.Basic
import RubyIndex.Json.Decode

/-! # Documents as JSON

Documents are written as compact JSON, one line per document. Absent parts of an object are left
out; when reading, `null` counts as absent too. -/

namespace RubyIndex

namespace DocumentEntry

/-- The member names of an object in their written order. -/
def memberNames : List String :=
  ["name", "path", "module", "kind", "file", "exported", "defStart", "defEnd", "docstring",
    "signature"]

/-- An object as a JSON value. -/
def toJson (object : DocumentEntry) : JsonValue :=
  .ofMembers <|
    [("name", .ofString object.name), ("path", .ofString object.path),
      ("module", .ofString object.module), ("kind", .ofString object.kind),
      ("file", .ofString object.file), ("exported", .boolean object.exported)] ++
    (object.defStart.map fun offset => ("defStart", JsonValue.ofNat offset)).toList ++
    (object.defEnd.map fun offset => ("defEnd", JsonValue.ofNat offset)).toList ++
    (object.docstring.map fun text => ("docstring", JsonValue.ofString text)).toList ++
    (object.signature.map fun text => ("signature", JsonValue.ofString text)).toList

/-- A byte offset, which has at most 32 bits. -/
def offset? : JsonValue → Option Nat := JsonValue.natBelow? 0x100000000

/-- The object that a JSON value describes. -/
def ofJson? (value : JsonValue) : Option DocumentEntry :=
  match value.record? memberNames with
  | some [name, path, module, kind, file, exported, defStart, defEnd, docstring, signature] => do
      return {
        name := ← JsonValue.required? JsonValue.text? name
        path := ← JsonValue.required? JsonValue.text? path
        module := ← JsonValue.required? JsonValue.text? module
        kind := ← JsonValue.required? JsonValue.text? kind
        file := ← JsonValue.required? JsonValue.text? file
        exported := ← JsonValue.required? JsonValue.bool? exported
        defStart := ← JsonValue.optional? offset? defStart
        defEnd := ← JsonValue.optional? offset? defEnd
        docstring := ← JsonValue.optional? JsonValue.text? docstring
        signature := ← JsonValue.optional? JsonValue.text? signature }
  | _ => none

end DocumentEntry

namespace Document

/-- A document as a JSON value. -/
def toJson (document : Document) : JsonValue :=
  .ofMembers [("objects", .array (document.objects.map DocumentEntry.toJson))]

/-- The document that a JSON value describes. -/
def ofJson? (value : JsonValue) : Option Document :=
  match value.record? ["objects"] with
  | some [objects] =>
      (JsonValue.required? (JsonValue.list? DocumentEntry.ofJson?) objects).map Document.mk
  | _ => none

/-- The written form of a document. -/
def render (document : Document) : String := document.toJson.render

/-- The written form of a document as a line of its own. -/
def renderLine (document : Document) : String := document.render ++ "\n"

/-- The document that a text holds. -/
def read? (text : String) : Option Document := (JsonReader.read? text).bind ofJson?

end Document

end RubyIndex
