/-! # Sets of names

Sets of names that remember the order in which the names came. -/

namespace RubyIndex.Files

/-- Distinct names in the order in which they came. -/
structure NameSet where
  names : List String := []
  deriving DecidableEq, Repr

namespace NameSet

/-- The set without names. -/
def empty : NameSet := {}

/-- Whether a name is in the set. -/
def contains (set : NameSet) (name : String) : Bool := set.names.contains name

/-- The set with a name, which comes last if it is new. -/
def insert (set : NameSet) (name : String) : NameSet :=
  if set.contains name then set else ⟨set.names ++ [name]⟩

/-- A name, if it is in the set. -/
def get? (set : NameSet) (name : String) : Option String :=
  if set.contains name then some name else none

/-- The number of names. -/
def size (set : NameSet) : Nat := set.names.length

/-- Whether there are no names. -/
def isEmpty (set : NameSet) : Bool := set.names.isEmpty

/-- The set of the given names. -/
def ofList (names : List String) : NameSet := names.foldl insert empty

end NameSet

end RubyIndex.Files
