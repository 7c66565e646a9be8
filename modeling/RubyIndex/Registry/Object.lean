/-! # Code objects

The named entities of a program: namespaces, methods, instance variables and class variables.
Every object has a path made of its owner's path, a separator and its own name. -/

namespace RubyIndex

/-! ## Identities -/

/-- The position of an object in its registry. -/
structure ObjectId where
  index : Nat
  deriving DecidableEq, Repr

/-- The root namespace. -/
def ObjectId.root : ObjectId := ⟨0⟩

/-- The position of a local scope in its registry. -/
structure ScopeId where
  index : Nat
  deriving DecidableEq, Repr

/-! ## Kinds of objects -/

/-- The kind of a code object. -/
inductive ObjectKind where
  | «namespace»
  | method
  | instanceVariable
  | classVariable
  deriving DecidableEq, Repr

/-- The name of an object kind in documents and messages. -/
def ObjectKind.name : ObjectKind → String
  | .namespace => "namespace"
  | .method => "method"
  | .instanceVariable => "instancevariable"
  | .classVariable => "classvariable"

/-- The keyword a namespace was first opened with. -/
inductive Flavor where
  | moduleFlavor
  | classFlavor
  deriving DecidableEq, Repr

/-- What a method is called on, which is what `self` means in its body. -/
inductive Receiver where
  | anInstance
  | theNamespace
  deriving DecidableEq, Repr

/-! ## Paths -/

/-- The separator between a namespace and a nested namespace or variable. -/
def namespaceSeparator : String := "::"

/-- The separator between a namespace and a method, as its receiver decides. -/
def Receiver.separator : Receiver → String
  | .anInstance => "#"
  | .theNamespace => "."

/-- The path of a name under an owner; under the root it is the bare name. -/
def joinPath (owner separator name : String) : String :=
  if owner.isEmpty then name else owner ++ separator ++ name

/-- Only under the root is a path the bare name. -/
theorem joinPath_eq_ite (owner separator name : String) :
    joinPath owner separator name = if owner = "" then name else owner ++ separator ++ name := by
  simp [joinPath, String.isEmpty]

/-! ## Names of local scopes -/

/-- The local scopes that a namespace has named, oldest first, each with the name that was asked
for. -/
structure ScopeNames where
  requests : List (String × ScopeId) := []
  deriving DecidableEq, Repr

namespace ScopeNames

/-- The stored name for a requested name: it counts the earlier requests for the same name. -/
def next (names : ScopeNames) (requested : String) : String :=
  requested ++ "_local_" ++ toString (names.requests.countP (·.1 == requested))

/-- Adds a request and the scope it was answered with. -/
def record (names : ScopeNames) (requested : String) (scope : ScopeId) : ScopeNames :=
  ⟨names.requests ++ [(requested, scope)]⟩

/-- The named scopes, oldest first. -/
def scopes (names : ScopeNames) : List ScopeId := names.requests.map (·.2)

end ScopeNames

/-! ## Objects -/

/-- Where an object was defined: the file, the byte range of the definition and its text. -/
structure Origin where
  file : String
  start : Nat
  stop : Nat
  text : String
  deriving DecidableEq, Repr

/-- What an object has besides the data that all objects share. -/
inductive Details where
  | «namespace» (flavor : Flavor) (superclass : Option String) (scopes : ScopeNames)
  | method (receiver : Receiver) (signature : String)
  | instanceVariable (value : String)
  | classVariable (value : String)
  deriving DecidableEq, Repr

namespace Details

/-- The details of a namespace without a superclass that has named no scopes. -/
def newNamespace (flavor : Flavor) : Details := .namespace flavor none {}

/-- The details of a method without a signature. -/
def newMethod (receiver : Receiver) : Details := .method receiver ""

/-- The kind of an object with these details. -/
def kind : Details → ObjectKind
  | .namespace .. => .namespace
  | .method .. => .method
  | .instanceVariable _ => .instanceVariable
  | .classVariable _ => .classVariable

/-- The separator between the owner's path and the name of an object with these details. -/
def separator : Details → String
  | .method receiver _ => receiver.separator
  | _ => namespaceSeparator

/-- The details without the local scopes that a namespace has named. -/
def withoutScopes : Details → Details
  | .namespace flavor superclass _ => .namespace flavor superclass {}
  | details => details

end Details

/-- A named program entity. -/
structure CodeObject where
  name : String
  path : String
  /-- The enclosing object; the root alone has none. -/
  owner : Option ObjectId
  /-- The objects registered under this one, in order of registration. -/
  children : List ObjectId := []
  origin : Option Origin := none
  docstring : String := ""
  details : Details
  deriving DecidableEq, Repr

namespace CodeObject

/-- The root namespace of an empty registry. -/
def root : CodeObject :=
  { name := "", path := "", owner := none, details := .newNamespace .moduleFlavor }

/-- An object with one child more, after the others. -/
def addChild (child : ObjectId) (object : CodeObject) : CodeObject :=
  { object with children := object.children ++ [child] }

/-- The kind of an object. -/
def kind (object : CodeObject) : ObjectKind := object.details.kind

/-- Whether an object is the root. -/
def isRoot (object : CodeObject) : Bool := object.owner.isNone

/-- Whether an object is a namespace. -/
def isNamespace (object : CodeObject) : Bool := object.kind == .namespace

/-- Whether an object is a method. -/
def isMethod (object : CodeObject) : Bool := object.kind == .method

/-- Whether an object is visible outside its namespace, as all but variables are. -/
def isExported (object : CodeObject) : Bool := object.name.toList.head? != some '@'

/-- The keyword a namespace was first opened with. -/
def flavor? (object : CodeObject) : Option Flavor :=
  match object.details with
  | .namespace flavor _ _ => some flavor
  | _ => none

/-- The superclass of a namespace. -/
def superclass? (object : CodeObject) : Option String :=
  match object.details with
  | .namespace _ superclass _ => superclass
  | _ => none

/-- The names a namespace has given to local scopes. -/
def scopeNames? (object : CodeObject) : Option ScopeNames :=
  match object.details with
  | .namespace _ _ scopes => some scopes
  | _ => none

/-- What a method is called on. -/
def receiver? (object : CodeObject) : Option Receiver :=
  match object.details with
  | .method receiver _ => some receiver
  | _ => none

/-- The definition line of a method. -/
def signature? (object : CodeObject) : Option String :=
  match object.details with
  | .method _ signature => some signature
  | _ => none

/-- The value of a variable. -/
def value? (object : CodeObject) : Option String :=
  match object.details with
  | .instanceVariable value => some value
  | .classVariable value => some value
  | _ => none

end CodeObject

/-! ## Revisions -/

/-- What one definition says about the object it defines. Parts that are absent leave the object
as it is, and so do parts that its kind does not have. -/
structure Revision where
  origin : Option Origin := none
  docstring : Option String := none
  superclass : Option String := none
  signature : Option String := none
  value : Option String := none
  deriving DecidableEq, Repr

namespace Revision

/-- The details of an object after a revision. -/
def reviseDetails (revision : Revision) : Details → Details
  | .namespace flavor superclass scopes =>
      .namespace flavor (revision.superclass.or superclass) scopes
  | .method receiver signature => .method receiver (revision.signature.getD signature)
  | .instanceVariable value => .instanceVariable (revision.value.getD value)
  | .classVariable value => .classVariable (revision.value.getD value)

/-- An object after a revision. -/
def apply (revision : Revision) (object : CodeObject) : CodeObject :=
  { object with
    origin := revision.origin.or object.origin
    docstring := revision.docstring.getD object.docstring
    details := revision.reviseDetails object.details }

end Revision

end RubyIndex
