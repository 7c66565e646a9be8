import RubyIndex.Build.SourceIndex
import RubyIndex.Build.Store

/-! # Indexes of gems

Each gem is indexed by itself and its index is stored under the gem's full name. Gems are built
in order; what is stored before a gem that stops the build stays stored. -/

namespace RubyIndex.Build

open Files

/-- An installed gem. -/
structure Gem where
  name : String
  version : String
  /-- The directory that holds the gem's sources. -/
  path : String
  deriving DecidableEq, Repr

namespace Gem

/-- The store key of a gem's index: its name and version. -/
def key (gem : Gem) : String := gem.name ++ "-" ++ gem.version

/-- What a build came to for one gem. -/
inductive Outcome where
  | built (key : String) (objects : Nat)
  /-- The gem's index is stored already. -/
  | skipped (key : String)
  /-- No gem has the name. -/
  | unresolved (name : String)
  /-- The directory of the gem's sources is missing. -/
  | missingSources (key : String)
  deriving DecidableEq, Repr

end Gem

/-- The gems that names stand for, and all gems there are. -/
structure GemResolver where
  resolve? : String → Option Gem
  all : List Gem

namespace GemResolver

/-- The resolver of a list of gems, where a name stands for the first gem that has it. -/
def ofList (gems : List Gem) : GemResolver :=
  { resolve? := fun name => gems.find? (·.name == name), all := gems }

/-- The gems that the given names stand for, or all gems if no names are given. -/
def resolved (resolver : GemResolver) (names : List String) : List Gem :=
  if names.isEmpty then resolver.all else names.filterMap resolver.resolve?

/-- The names among the given ones that stand for no gem. -/
def unresolved (resolver : GemResolver) (names : List String) : List String :=
  names.filter fun name => (resolver.resolve? name).isNone

/-- The names and store keys of the gems that the given names stand for. -/
def keys (resolver : GemResolver) (names : List String) : List (String × String) :=
  (resolver.resolved names).map fun gem => (gem.name, gem.key)

end GemResolver

/-- A computation on a store that may stop halfway; what it has stored stays. -/
abbrev Storing (α : Type) := ExceptT BuildError (StateM Store) α

namespace Storing

/-- The outcome of a computation on a store, and the store as it is then. -/
def apply {α : Type} (run : Storing α) (store : Store) : Except BuildError α × Store := run store

/-- Reads the store as it is now. -/
def read : Storing Store := fun store => (.ok store, store)

/-- Stores a registry under a key. -/
def save (key : String) (registry : Registry) : Storing Unit := fun store =>
  match store.save key registry with
  | .ok saved => (.ok (), saved)
  | .error error => (.error error, store)

/-- The registry of the sources of a gem, indexed by themselves. -/
def indexGem (tree : FileTree) (gem : Gem) : Except BuildError Registry :=
  match (Indexed.loadPaths tree [gem.path]).apply .empty with
  | (.error error, _) => .error error
  | (.ok _, index) => .ok index.registry

/-- Indexes a gem and stores its index, unless that is stored already or the sources are
missing. -/
def buildGem (tree : FileTree) (rebuild : Bool) (gem : Gem) : Storing Gem.Outcome := do
  let store ← read
  if store.contains gem.key && !rebuild then return .skipped gem.key
  else if (tree.directory? gem.path).isNone then return .missingSources gem.key
  else
    let registry ← indexGem tree gem
    save gem.key registry
    return .built gem.key registry.size

/-- Indexes and stores gems in order. -/
def buildGems (tree : FileTree) (rebuild : Bool) : List Gem → Storing (List Gem.Outcome)
  | [] => return []
  | gem :: rest => do
      let outcome ← buildGem tree rebuild gem
      return outcome :: (← buildGems tree rebuild rest)

/-- Indexes and stores the gems that the given names stand for, or all gems if no names are
given. The names that stand for no gem are reported first. -/
def buildNamed (tree : FileTree) (rebuild : Bool) (resolver : GemResolver)
    (names : List String) : Storing (List Gem.Outcome) := do
  let outcomes ← buildGems tree rebuild (resolver.resolved names)
  return (resolver.unresolved names).map .unresolved ++ outcomes

end Storing

end RubyIndex.Build
