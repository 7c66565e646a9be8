/-! # Documents

A document lists code objects with what readers of documentation need to know about them. -/

namespace RubyIndex

/-- A code object as it appears in a document. -/
structure DocumentEntry where
  name : String
  path : String
  /-- The path of the enclosing namespace, empty at the top level. -/
  module : String
  kind : String
  file : String
  exported : Bool
  /-- The byte offset at which the definition starts. -/
  defStart : Option Nat
  /-- The byte offset at which the definition ends. -/
  defEnd : Option Nat
  /-- The docstring, rendered. -/
  docstring : Option String
  signature : Option String
  deriving DecidableEq, Repr

/-- A list of documented code objects. -/
structure Document where
  objects : List DocumentEntry
  deriving DecidableEq, Repr

end RubyIndex
