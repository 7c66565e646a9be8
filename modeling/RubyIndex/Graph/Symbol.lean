import RubyIndex.Document.Basic
import RubyIndex.Files.Name
import RubyIndex.Graph.Path

/-! # Graph symbols

The symbols of a document with their docs. Where several objects share a symbol path, the first
one is kept. -/

namespace RubyIndex.Graph

/-- The kind of a symbol, independent of the language. -/
inductive SymbolKind where
  | module
  | type
  | func
  | const
  | var
  deriving DecidableEq, Repr

namespace SymbolKind

/-- The name of a symbol kind. -/
def name : SymbolKind → String
  | .module => "module"
  | .type => "type"
  | .func => "func"
  | .const => "const"
  | .var => "var"

/-- The exported kinds with their symbol kinds. -/
def byRubyKind : List (String × SymbolKind) :=
  [("namespace", .module), ("module", .module), ("class", .type), ("method", .func),
    ("constant", .const), ("localvariable", .var), ("instancevariable", .var),
    ("classvariable", .var)]

/-- The symbol kind of an exported kind, if it has one. -/
def ofRubyKind? (kind : String) : Option SymbolKind := byRubyKind.lookup kind

end SymbolKind

/-- A symbol of the graph. -/
structure Symbol where
  path : String
  treePath : String
  kind : Option SymbolKind
  name : String
  exported : Bool
  file : String
  defStart : Nat
  defEnd : Nat
  /-- Whether the symbol is defined in a test. -/
  test : Bool
  rubyKind : String
  module : String
  rubyPath : String
  signature : Option String
  deriving DecidableEq, Repr

/-- The rendered documentation of a symbol. -/
structure SymbolDoc where
  symbolPath : String
  format : String
  data : String
  file : String
  deriving DecidableEq, Repr

/-- Symbols and their docs. -/
structure SymbolGraph where
  symbols : List Symbol
  docs : List SymbolDoc
  deriving DecidableEq, Repr

/-- The symbol of an exported object. -/
def Symbol.ofObject (object : DocumentEntry) : Symbol :=
  { path := Graph.symbolPath object.path
    treePath := Graph.treePath object.path
    kind := SymbolKind.ofRubyKind? object.kind
    name := object.name
    exported := object.exported
    file := object.file
    defStart := object.defStart.getD 0
    defEnd := object.defEnd.getD 0
    test := Files.isTestFile object.file
    rubyKind := object.kind
    module := object.module
    rubyPath := object.path
    signature := object.signature }

/-- The format of docs. -/
def docFormat : String := "text/html"

/-- The doc of an exported object, if it has a docstring. -/
def SymbolDoc.ofObject? (object : DocumentEntry) : Option SymbolDoc :=
  object.docstring.map fun docstring =>
    { symbolPath := Graph.symbolPath object.path
      format := docFormat
      data := docstring
      file := object.file }

/-- The objects whose symbol paths are not among the seen ones and not those of earlier
objects. -/
def firstOfEachPath (seen : List String) : List DocumentEntry → List DocumentEntry
  | [] => []
  | object :: rest =>
      let path := symbolPath object.path
      if seen.contains path then firstOfEachPath seen rest
      else object :: firstOfEachPath (path :: seen) rest

/-- The graph of a document. -/
def SymbolGraph.ofDocument (document : Document) : SymbolGraph :=
  let kept := firstOfEachPath [] document.objects
  { symbols := kept.map Symbol.ofObject, docs := kept.filterMap SymbolDoc.ofObject? }

end RubyIndex.Graph
