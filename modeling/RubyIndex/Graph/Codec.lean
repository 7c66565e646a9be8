import RubyIndex.Graph.Symbol
import RubyIndex.Json.Value

/-! # Graphs as JSON

The JSON form of symbols and docs. A kind or signature that is absent is left out. -/

namespace RubyIndex.Graph

/-- The data of a symbol that is particular to Ruby, as a JSON value. -/
def Symbol.dataToJson (symbol : Symbol) : JsonValue :=
  .ofMembers <|
    [("RubyKind", .ofString symbol.rubyKind), ("Module", .ofString symbol.module),
      ("RubyPath", .ofString symbol.rubyPath)] ++
    (symbol.signature.map fun text => ("Signature", JsonValue.ofString text)).toList

/-- A symbol as a JSON value. -/
def Symbol.toJson (symbol : Symbol) : JsonValue :=
  .ofMembers <|
    [("path", .ofString symbol.path), ("tree_path", .ofString symbol.treePath)] ++
    (symbol.kind.map fun kind => ("kind", JsonValue.ofString kind.name)).toList ++
    [("name", .ofString symbol.name), ("exported", .boolean symbol.exported),
      ("file", .ofString symbol.file), ("def_start", .ofNat symbol.defStart),
      ("def_end", .ofNat symbol.defEnd), ("test", .boolean symbol.test),
      ("data", symbol.dataToJson)]

/-- A doc as a JSON value. -/
def SymbolDoc.toJson (doc : SymbolDoc) : JsonValue :=
  .ofMembers [("symbol_path", .ofString doc.symbolPath), ("format", .ofString doc.format),
    ("data", .ofString doc.data), ("file", .ofString doc.file)]

/-- A graph as a JSON value. -/
def SymbolGraph.toJson (output : SymbolGraph) : JsonValue :=
  .ofMembers [("symbols", .array (output.symbols.map Symbol.toJson)),
    ("docs", .array (output.docs.map SymbolDoc.toJson))]

end RubyIndex.Graph
