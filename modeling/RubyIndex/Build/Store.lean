import RubyIndex.Build.Error
import RubyIndex.Registry.Basic

/-! # Stores

A store keeps registries under keys, in the order of the keys. -/

namespace RubyIndex.Build

/-- Registries with their keys, in the order of the keys. -/
structure Store where
  entries : List (String × Registry) := []

namespace Store

/-- The store that keeps nothing. -/
def empty : Store := {}

/-- The registry kept under a key. -/
def load? (store : Store) (key : String) : Option Registry := store.entries.lookup key

/-- Whether a registry is kept under a key. -/
def contains (store : Store) (key : String) : Bool := (store.load? key).isSome

/-- The keys in order. -/
def keys (store : Store) : List String := store.entries.map (·.1)

/-- The number of registries kept. -/
def size (store : Store) : Nat := store.entries.length

/-- Whether nothing is kept. -/
def isEmpty (store : Store) : Bool := store.entries.isEmpty

/-- The entries with a registry in place of the one under its key, or at its place in the
order. -/
def insertEntry (key : String) (registry : Registry) :
    List (String × Registry) → List (String × Registry)
  | [] => [(key, registry)]
  | (found, kept) :: rest =>
      if key = found then (key, registry) :: rest
      else if key < found then (key, registry) :: (found, kept) :: rest
      else (found, kept) :: insertEntry key registry rest

/-- The store with a registry under a key. -/
def save (store : Store) (key : String) (registry : Registry) : Except BuildError Store :=
  if key.isEmpty then .error .emptyStoreKey
  else .ok ⟨insertEntry key registry store.entries⟩

end Store

end RubyIndex.Build
