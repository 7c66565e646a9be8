import RubyIndex.Json.Decode
import RubyIndex.Text.Blank

/-! # Build configurations

What a build indexes and what it starts from. -/

namespace RubyIndex.Build

/-- The store key of the index of the standard library. -/
def stdlibKey : String := "ruby-stdlib"

/-- The store key of the main index unless another is configured. -/
def defaultCacheKey : String := ".rdex"

/-- The inputs of a build. -/
structure Configuration where
  /-- The files and directories to index and export. -/
  files : List String := []
  /-- Whether to start from the registry stored under the cache key. -/
  useCache : Bool := false
  cacheKey : String := defaultCacheKey
  /-- Whether to leave out the index of the standard library. -/
  omitStdlib : Bool := false
  /-- The keys of further stored indexes to merge in. -/
  loadIndexFiles : List String := []
  deriving DecidableEq, Repr

/-- What a configuration can lack. -/
inductive ConfigurationFault where
  | noFiles
  | noCacheKey
  | emptyIndexKey
  deriving DecidableEq, Repr

/-- The wording of what a configuration lacks. -/
def ConfigurationFault.message : ConfigurationFault → String
  | .noFiles => "no files to index"
  | .noCacheKey => "use_cache requires a cache_key"
  | .emptyIndexKey => "empty index key in load_index_files"

namespace Configuration

/-- Whether a store key has nothing but blanks. -/
def isBlankKey (key : String) : Bool := Text.isBlankText key.toList

/-- The first thing that a configuration lacks. -/
def fault? (configuration : Configuration) : Option ConfigurationFault :=
  if configuration.files.isEmpty then some .noFiles
  else if configuration.useCache && isBlankKey configuration.cacheKey then some .noCacheKey
  else if configuration.loadIndexFiles.any isBlankKey then some .emptyIndexKey
  else none

/-- The keys of the stored indexes to merge in, in order. -/
def dependencyKeys (configuration : Configuration) : List String :=
  (if configuration.omitStdlib then [] else [stdlibKey]) ++ configuration.loadIndexFiles

/-- The member names of a configuration in their written order. -/
def memberNames : List String :=
  ["files", "use_cache", "cache_key", "omit_stdlib", "load_index_files"]

/-- The configuration that a JSON value describes. Members that are absent keep their
defaults. -/
def ofJson? (value : JsonValue) : Option Configuration :=
  match value.record? memberNames with
  | some [files, useCache, cacheKey, omitStdlib, loadIndexFiles] => do
      let textList? := JsonValue.list? JsonValue.text?
      return {
        files := ← JsonValue.withDefault? textList? [] files
        useCache := ← JsonValue.withDefault? JsonValue.bool? false useCache
        cacheKey := ← JsonValue.withDefault? JsonValue.text? defaultCacheKey cacheKey
        omitStdlib := ← JsonValue.withDefault? JsonValue.bool? false omitStdlib
        loadIndexFiles := ← JsonValue.withDefault? textList? [] loadIndexFiles }
  | _ => none

end Configuration

end RubyIndex.Build
