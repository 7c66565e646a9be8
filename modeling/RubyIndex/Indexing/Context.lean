import RubyIndex.Registry.Edit

/-! # Where definitions stand

The context of a body tells under which namespace its definitions are registered, whose body it
is, which local scope it has, and what `self` means in it. -/

namespace RubyIndex.Indexing

/-- The surroundings of the statements that are being indexed. -/
structure Context where
  /-- The namespace that new objects are registered under. -/
  enclosing : ObjectId
  /-- The namespace or method whose body is being indexed. -/
  owner : ObjectId
  scope : ScopeId
  /-- What `self` means. -/
  receiver : Receiver
  file : String
  deriving DecidableEq, Repr

namespace Context

/-- The context of the top level of a file, with a local scope of its own under the root. -/
def enterFile (file : String) : Edit Context := do
  let scope ← Edit.newLocalScope .root none (.namespace .root)
  return { enclosing := .root, owner := .root, scope, receiver := .theNamespace, file }

/-- The context of the body of a namespace, with a local scope of its own. -/
def enterNamespace (context : Context) (entered : ObjectId) : Edit Context := do
  let scope ← Edit.newLocalScope entered none (.namespace entered)
  return { context with enclosing := entered, owner := entered, scope, receiver := .theNamespace }

/-- The context of the body of a method, with a local scope of its own inside the present one. -/
def enterMethod (context : Context) (method : ObjectId) (name : String)
    (receiver : Receiver) : Edit Context := do
  let scope ← Edit.newLocalScope context.enclosing (some name) (.scope context.scope)
  return { context with owner := method, scope, receiver }

end Context

end RubyIndex.Indexing
