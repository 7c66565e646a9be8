import RubyIndex.Build.Configuration
import RubyIndex.Registry.Error

/-! # Build errors

What can stop a build, and how it is worded. -/

namespace RubyIndex.Build

/-- The cause for which a build stops. -/
inductive BuildError where
  /-- The configuration lacks something. -/
  | configuration (fault : ConfigurationFault)
  /-- The text of a configuration is not JSON, or JSON of another shape. -/
  | malformedConfiguration
  /-- A path to index leads nowhere. -/
  | pathNotFound (path : String)
  /-- A file to index is missing or holds no UTF-8. -/
  | unreadableFile (path : String)
  /-- A registry was to be stored under the empty key. -/
  | emptyStoreKey
  /-- There are no files to export. -/
  | noFilesToExport
  /-- A registry refused a request. -/
  | registry (error : RegistryError)
  deriving DecidableEq, Repr

/-- The wording of a build error. -/
def BuildError.message : BuildError → String
  | .configuration fault => "invalid configuration: " ++ fault.message
  | .malformedConfiguration => "invalid configuration: malformed document"
  | .pathNotFound path => "IO error: path not found: " ++ path
  | .unreadableFile path => "IO error: cannot read as text: " ++ path
  | .emptyStoreKey => "store error: empty store key"
  | .noFilesToExport => "no files to serialize"
  | .registry error => error.message

/-- The configuration that a JSON text describes, if it lacks nothing. -/
def Configuration.read (text : String) : Except BuildError Configuration :=
  match (JsonReader.read? text).bind Configuration.ofJson? with
  | none => .error .malformedConfiguration
  | some configuration =>
      match configuration.fault? with
      | some fault => .error (.configuration fault)
      | none => .ok configuration

end RubyIndex.Build
