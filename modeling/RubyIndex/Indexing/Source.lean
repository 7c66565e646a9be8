import RubyIndex.Indexing.Rules
import RubyIndex.Syntax.Grammar

/-! # Indexing source text

Indexing a text registers everything its syntax tree defines, in the order of the text. Syntax
errors do not stop it; a refused registration does, and what was registered before it stays. -/

namespace RubyIndex.Indexing

open Syntax

/-! ## Single definitions -/

/-- Where a definition is. -/
def origin (context : Context) (site : Site) : Origin :=
  { file := context.file, start := site.start, stop := site.stop, text := site.text }

/-- What every definition says: where it is, and its doc comment if there is one. -/
def baseRevision (context : Context) (site : Site) : Revision :=
  { origin := some (origin context site), docstring := site.docComment? }

/-- Registers the namespaces that qualify a name, each inside the one before it. -/
def registerQualifiers (parent : ObjectId) : List String → Edit ObjectId
  | [] => pure parent
  | segment :: rest => do
      let entered ← Edit.register parent segment (.newNamespace .moduleFlavor) {}
      registerQualifiers entered rest

/-- Registers a module or class and enters its body. -/
def defineNamespace (flavor : Flavor) (context : Context) (site : Site) :
    Edit (Option Context) := do
  match site.constName? with
  | none => return none
  | some name =>
      match name.segments.getLast? with
      | none => return none
      | some last =>
          -- qualifiers are reopened or registered, and only the last segment is defined here
          let outermost := if name.absolute then ObjectId.root else context.enclosing
          let parent ← registerQualifiers outermost name.segments.dropLast
          let entered ← Edit.register parent last (.newNamespace flavor)
            { baseRevision context site with superclass := site.superclass? }
          return some (← context.enterNamespace entered)

/-- Registers a method and enters its body. -/
def defineMethod (context : Context) (site : Site) : Edit (Option Context) := do
  match site.methodName? with
  | none => return none
  | some name =>
      let receiver : Receiver := if site.isSingleton then .theNamespace else .anInstance
      let method ← Edit.register context.enclosing name (.newMethod receiver)
        { baseRevision context site with signature := some site.signature }
      return some (← context.enterMethod method name receiver)

/-- Registers a variable with the value assigned to it. -/
def defineVariable (name : String) (details : String → Details) (context : Context)
    (site : Site) : Edit Unit := do
  let value := site.value?.getD ""
  let _ ← Edit.register context.enclosing name (details value)
    { baseRevision context site with value := some value }

/-- The class variable that a variable of the namespace itself is recorded as. -/
def classVariableName (name : String) : String :=
  "@@" ++ String.ofList (name.toList.dropWhile (· == '@'))

/-- Registers an assigned instance variable. Where `self` is the namespace it is recorded as a
class variable, and only in methods. -/
def defineInstanceVariable (context : Context) (site : Site) : Edit Unit := do
  match site.target? with
  | none => return
  | some target =>
      match context.receiver with
      | .anInstance => defineVariable target.text .instanceVariable context site
      | .theNamespace =>
          -- directly in a namespace body the variable is not recorded
          if ((← Edit.read).get? context.owner).any (·.isMethod) then
            defineVariable (classVariableName target.text) .classVariable context site

/-- Registers an assigned class variable. -/
def defineClassVariable (context : Context) (site : Site) : Edit Unit := do
  match site.target? with
  | none => return
  | some target => defineVariable target.text .classVariable context site

/-- Registers what a node defines. The result is the context of what is inside the node, if that
is to be indexed. -/
def define (context : Context) (site : Site) : Definition → Edit (Option Context)
  | .moduleDef => defineNamespace .moduleFlavor context site
  | .classDef => defineNamespace .classFlavor context site
  | .methodDef => defineMethod context site
  | .instanceVariable => do
      defineInstanceVariable context site
      return some context
  | .classVariable => do
      defineClassVariable context site
      return some context

/-! ## Whole trees -/

/-- Handles one node. The result is the context of what is inside the node, if that is to be
indexed: the value of an assignment is, whatever it assigns to. -/
def visit (context : Context) (site : Site) : Edit (Option Context) := do
  match rulesFor site.kind with
  | [] => return if walksThrough site.kind then some context else none
  | candidates =>
      match candidates.find? (·.applies (← Edit.read) context site) with
      | some rule => define context site rule.definition
      | none =>
          -- the value of an assignment may hold blocks with definitions
          return if site.kind = .assign then some context else none

mutual

/-- Indexes a tree in its place. Of a definition, only the body is indexed. -/
def indexTree (context : Context) (place : Place) : Tree → Edit Unit
  | .leaf _ => pure ()
  | .node kind children => do
      match ← visit context ⟨place, kind, children⟩ with
      | some inner =>
          if kind.isDefinition then indexBody inner (place.inside kind children) children
          else indexTrees inner (place.inside kind children) children
      | none => pure ()

/-- Indexes the first body among neighbouring trees, of which the first stands at the place. -/
def indexBody (context : Context) (place : Place) : List Tree → Edit Unit
  | [] => pure ()
  | tree :: rest =>
      if tree.nodeKind? = some .body then indexTree context place tree
      else indexBody context (place.after tree) rest

/-- Indexes neighbouring trees, of which the first stands at the place. -/
def indexTrees (context : Context) (place : Place) : List Tree → Edit Unit
  | [] => pure ()
  | tree :: rest => do
      indexTree context place tree
      indexTrees context (place.after tree) rest

end

/-- Indexes the statements of a parsed text in a given context. -/
def indexStatements (context : Context) (tree : Tree) : Edit Unit :=
  indexTrees context .root tree.children

/-- Registers everything a text defines. The result is the text's syntax errors. -/
def indexSource (file source : String) : Edit (List SyntaxError) := do
  let parsed := parse source
  let context ← Context.enterFile file
  indexStatements context parsed.tree
  return parsed.errors

end RubyIndex.Indexing
