import RubyIndex.Indexing.Source
import RubyIndex.Proofs.Registry.Outcome

/-! # What indexing preserves

Indexing changes a registry through two requests only: it registers objects and it creates local
scopes. A property of registries that survives both survives every text, whether it is indexed
to its end or refused halfway.

* `StableUnderRequests` is the assumption about the two requests.
* `keeps_indexTrees` is the induction over trees, and `keeps_indexSource` its result for texts. -/

namespace RubyIndex.Indexing

open Syntax Edit

/-- **A stable property.** Registering an object and creating a local scope keep it. -/
structure StableUnderRequests (property : Registry → Prop) : Prop where
  register : ∀ owner name details revision,
    Keeps property (Edit.register owner name details revision)
  newLocalScope : ∀ owner name anchor, Keeps property (Edit.newLocalScope owner name anchor)

variable {property : Registry → Prop}

/-! ## Contexts and definitions -/

section

variable (hstable : StableUnderRequests property)

include hstable

theorem keeps_enterFile (file : String) : Keeps property (Context.enterFile file) :=
  (hstable.newLocalScope .root none (.namespace .root)).bind fun _ => .pure _

theorem keeps_enterNamespace (context : Context) (entered : ObjectId) :
    Keeps property (context.enterNamespace entered) :=
  (hstable.newLocalScope entered none (.namespace entered)).bind fun _ => .pure _

theorem keeps_enterMethod (context : Context) (method : ObjectId) (name : String)
    (receiver : Receiver) : Keeps property (context.enterMethod method name receiver) :=
  (hstable.newLocalScope context.enclosing (some name) (.scope context.scope)).bind
    fun _ => .pure _

theorem keeps_registerQualifiers (parent : ObjectId) (segments : List String) :
    Keeps property (registerQualifiers parent segments) := by
  induction segments generalizing parent with
  | nil => exact .pure parent
  | cons segment rest ih =>
    exact (hstable.register parent segment (.newNamespace .moduleFlavor) {}).bind ih

theorem keeps_defineNamespace (flavor : Flavor) (context : Context) (site : Site) :
    Keeps property (defineNamespace flavor context site) := by
  unfold defineNamespace
  split
  · exact .pure none
  · split
    · exact .pure none
    · refine (keeps_registerQualifiers hstable _ _).bind fun parent => ?_
      refine (hstable.register parent _ _ _).bind fun entered => ?_
      exact (keeps_enterNamespace hstable context entered).bind fun inner => .pure (some inner)

theorem keeps_defineMethod (context : Context) (site : Site) :
    Keeps property (defineMethod context site) := by
  unfold defineMethod
  split
  · exact .pure none
  · refine (hstable.register context.enclosing _ _ _).bind fun method => ?_
    exact (keeps_enterMethod hstable context method _ _).bind fun inner => .pure (some inner)

theorem keeps_defineVariable (name : String) (details : String → Details) (context : Context)
    (site : Site) : Keeps property (defineVariable name details context site) :=
  (hstable.register context.enclosing name _ _).bind fun _ => .pure ()

theorem keeps_defineInstanceVariable (context : Context) (site : Site) :
    Keeps property (defineInstanceVariable context site) := by
  unfold defineInstanceVariable
  split
  · exact .pure ()
  · -- where `self` is the namespace, the registry tells whether a method is around
    split
    · exact keeps_defineVariable hstable _ _ context site
    · refine Keeps.read.bind fun registry => ?_
      split
      · exact keeps_defineVariable hstable _ _ context site
      · exact .pure ()

theorem keeps_defineClassVariable (context : Context) (site : Site) :
    Keeps property (defineClassVariable context site) := by
  unfold defineClassVariable
  split
  · exact .pure ()
  · exact keeps_defineVariable hstable _ _ context site

theorem keeps_define (context : Context) (site : Site) (definition : Definition) :
    Keeps property (define context site definition) := by
  cases definition with
  | moduleDef => exact keeps_defineNamespace hstable .moduleFlavor context site
  | classDef => exact keeps_defineNamespace hstable .classFlavor context site
  | methodDef => exact keeps_defineMethod hstable context site
  | instanceVariable =>
    exact (keeps_defineInstanceVariable hstable context site).bind fun _ => .pure (some context)
  | classVariable =>
    exact (keeps_defineClassVariable hstable context site).bind fun _ => .pure (some context)

theorem keeps_visit (context : Context) (site : Site) :
    Keeps property (visit context site) := by
  unfold visit
  split
  · exact .pure _
  · refine Keeps.read.bind fun registry => ?_
    split
    · exact keeps_define hstable context site _
    · exact .pure _

end

/-! ## Trees and texts -/

mutual

/-- A tree is indexed by visits of its nodes. -/
theorem keeps_indexTree (hstable : StableUnderRequests property) (context : Context)
    (place : Place) (tree : Tree) : Keeps property (indexTree context place tree) := by
  cases tree with
  | leaf token => exact .pure ()
  | node kind children =>
    rw [indexTree]
    refine (keeps_visit hstable context ⟨place, kind, children⟩).bind fun entered => ?_
    cases entered with
    | none => exact .pure ()
    | some inner =>
      show Keeps property (if kind.isDefinition then _ else _)
      split
      · exact keeps_indexBody hstable inner (place.inside kind children) children
      · exact keeps_indexTrees hstable inner (place.inside kind children) children

/-- The body of a definition is a tree among others. -/
theorem keeps_indexBody (hstable : StableUnderRequests property) (context : Context)
    (place : Place) (trees : List Tree) : Keeps property (indexBody context place trees) := by
  cases trees with
  | nil => exact .pure ()
  | cons tree rest =>
    rw [indexBody]
    split
    · exact keeps_indexTree hstable context place tree
    · exact keeps_indexBody hstable context (place.after tree) rest

/-- Neighbouring trees are indexed one after the other. -/
theorem keeps_indexTrees (hstable : StableUnderRequests property) (context : Context)
    (place : Place) (trees : List Tree) : Keeps property (indexTrees context place trees) := by
  cases trees with
  | nil => exact .pure ()
  | cons tree rest =>
    rw [indexTrees]
    exact (keeps_indexTree hstable context place tree).bind fun _ =>
      keeps_indexTrees hstable context (place.after tree) rest

end

/-- **Indexing a text keeps every stable property.** -/
theorem keeps_indexSource (hstable : StableUnderRequests property) (file source : String) :
    Keeps property (indexSource file source) :=
  (keeps_enterFile hstable file).bind fun context =>
    (keeps_indexTrees hstable context .root (parse source).tree.children).bind fun _ => .pure _

end RubyIndex.Indexing
