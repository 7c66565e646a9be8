import RubyIndex.Build.Exporter
import RubyIndex.Build.SourceIndex
import RubyIndex.Build.Store

/-! # Building documents

A document build indexes the configured sources on top of the cached registry and the stored
indexes of dependencies, and writes the document for the configured files. It writes all of it
or, if anything stops it, nothing. -/

namespace RubyIndex.Build

open Files

/-- What a document build did. -/
structure BuildReport where
  /-- Whether the build started from the cached registry. -/
  loadedCache : Bool
  /-- The keys of the stored indexes merged in before indexing. -/
  mergedIndexes : List String
  indexedFiles : Nat
  syntaxErrors : Nat
  unreadableFiles : Nat
  deriving DecidableEq, Repr

namespace DocumentBuild

/-- The cached registry, if it is to be used and there is one. -/
def cached? (configuration : Configuration) (store : Store) : Option Registry :=
  if configuration.useCache then store.load? configuration.cacheKey else none

/-- Merges the stored indexes under the given keys and lists the keys under which there are
any. -/
def mergeStored (store : Store) : List String → Edit (List String)
  | [] => return []
  | key :: rest => do
      match store.load? key with
      | none => mergeStored store rest
      | some registry =>
          let _ ← Edit.merge registry
          return key :: (← mergeStored store rest)

/-- Merges the dependencies and indexes the sources. -/
def indexAll (configuration : Configuration) (store : Store) (tree : FileTree) :
    Indexed (List String × LoadReport) := do
  let merged ← Indexed.ofEdit (mergeStored store configuration.dependencyKeys)
  let loaded ← Indexed.loadPaths tree configuration.files
  return (merged, loaded)

/-- The registry of a build with the report on it. -/
def indexed (configuration : Configuration) (store : Store) (tree : FileTree) :
    Except BuildError (BuildReport × Registry) :=
  let cached := cached? configuration store
  let start := SourceIndex.ofRegistry (cached.getD .empty)
  match (indexAll configuration store tree).apply start with
  | (.error error, _) => .error error
  | (.ok (merged, loaded), index) =>
      let report :=
        { loadedCache := cached.isSome
          mergedIndexes := merged
          indexedFiles := index.files.size
          syntaxErrors := loaded.syntaxErrors
          unreadableFiles := loaded.unreadable.length }
      .ok (report, index.registry)

/-- The exporter for the configured files, if the configuration lacks nothing. -/
def exporter (configuration : Configuration) (tree : FileTree) : Except BuildError Exporter :=
  match configuration.fault? with
  | some fault => .error (.configuration fault)
  | none => Exporter.ofPaths tree configuration.files

/-- Runs a build and writes its document. -/
def run (configuration : Configuration) (store : Store) (tree : FileTree) :
    Writing BuildReport := do
  -- all that can be refused comes before the writing
  let exporter ← exporter configuration tree
  let (report, registry) ← indexed configuration store tree
  exporter.write registry
  return report

end DocumentBuild

end RubyIndex.Build
