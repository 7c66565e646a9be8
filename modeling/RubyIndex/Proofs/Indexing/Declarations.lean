import RubyIndex.Indexing.Source
import RubyIndex.Proofs.Registry.Declarations

/-! # What a syntax tree declares

The objects that a text defines can be read off its syntax tree. Every node is judged by the
nodes above it: they tell under which namespace it stands, whether it is inside a method, and what
that method is called on. Nothing else is needed, neither a registry nor a context.

* `contribution` is what one node declares.
* `declarationsFrom` walks a tree in preorder through the nodes that can hold definitions.
* `declarations` is the list for a whole text, before paths that come up again are left out. -/

namespace RubyIndex.Indexing

open Syntax

/-! ## The nodes above -/

/-- A node of a tree, wherever it stands. -/
structure Node where
  kind : NodeKind
  children : List Tree

/-- A node as a site. What its header says does not depend on the place. -/
def Node.site (node : Node) : Site := ⟨.root, node.kind, node.children⟩

/-- Whether some nodes, nearest first, hold a `class <<` block before the first definition. -/
def inSingletonBlock (above : List Node) : Bool :=
  (above.takeWhile (!·.kind.isDefinition)).any fun node =>
    node.kind == .block && Place.opensWith .classKw node.children

/-- What a method under some nodes is called on: the namespace if it names a receiver or stands
in a `class <<` block. -/
def methodReceiver (above : List Node) (method : Node) : Receiver :=
  if Tree.hasNode .singleton method.children || inSingletonBlock above then .theNamespace
  else .anInstance

/-- What the method is called on that is the nearest definition among some nodes, if that is a
method. -/
def enclosingReceiver? : List Node → Option Receiver
  | [] => none
  | node :: above =>
      match node.kind with
      | .moduleDef | .classDef => none
      | .methodDef => some (methodReceiver above node)
      | _ => enclosingReceiver? above

/-- The path at which a name starts, when it stands under an enclosing path. -/
def outermostPath (enclosing : String) (name : ConstName) : String :=
  if name.absolute then "" else enclosing

/-- The path of the namespace that some nodes, nearest first, lie in. -/
def enclosingPath : List Node → String
  | [] => ""
  | node :: above =>
      match node.kind with
      | .moduleDef | .classDef =>
          match node.site.constName? with
          | none => enclosingPath above
          | some name =>
              name.segments.foldl (joinPath · namespaceSeparator ·)
                (outermostPath (enclosingPath above) name)
      | _ => enclosingPath above

/-! ## Contributions -/

/-- The namespaces that a qualified name declares, one for every prefix of its segments. -/
def declareNamespaces (outer : String) : List String → List Declaration
  | [] => []
  | segment :: rest =>
      declare outer namespaceSeparator .namespace segment ::
        declareNamespaces (joinPath outer namespaceSeparator segment) rest

/-- The variable that an assignment to a target declares, if there is one. An instance variable
is declared in methods only, and as a class variable where `self` is the namespace. -/
def declareVariable (above : List Node) (target : Token) : List Declaration :=
  match target.kind with
  | .classVariable =>
      [declare (enclosingPath above) namespaceSeparator .classVariable target.text]
  | .instanceVariable =>
      match enclosingReceiver? above with
      | none => []
      | some .anInstance =>
          [declare (enclosingPath above) namespaceSeparator .instanceVariable target.text]
      | some .theNamespace =>
          [declare (enclosingPath above) namespaceSeparator .classVariable
            (classVariableName target.text)]
  | _ => []

/-- **What a node declares** under some nodes. A module or class declares nothing inside a
method. -/
def contribution (above : List Node) (node : Node) : List Declaration :=
  match node.kind with
  | .moduleDef | .classDef =>
      match enclosingReceiver? above, node.site.constName? with
      | none, some name =>
          declareNamespaces (outermostPath (enclosingPath above) name) name.segments
      | _, _ => []
  | .methodDef =>
      match node.site.methodName? with
      | none => []
      | some name =>
          [declare (enclosingPath above) (methodReceiver above node).separator .method name]
  | .assign =>
      match node.site.target? with
      | none => []
      | some target => declareVariable above target
  | _ => []

/-- Whether the body of a definition under some nodes is looked into: a module or class has to
have a name and to stand outside methods, a method has to have a name. -/
def opensBody (above : List Node) (node : Node) : Bool :=
  match node.kind with
  | .moduleDef | .classDef =>
      (enclosingReceiver? above).isNone && node.site.constName?.any (!·.segments.isEmpty)
  | .methodDef => node.site.methodName?.isSome
  | _ => false

/-- The nodes that are looked into besides the bodies of definitions. -/
def isTransparent : NodeKind → Bool
  | .body | .statement | .expr | .block | .assign => true
  | _ => false

/-! ## The walk -/

mutual

/-- What a tree under some nodes declares, in preorder. -/
def declarationsFrom (above : List Node) : Tree → List Declaration
  | .leaf _ => []
  | .node kind children =>
      contribution above ⟨kind, children⟩ ++
        if opensBody above ⟨kind, children⟩ then
          declarationsInBody (⟨kind, children⟩ :: above) children
        else if isTransparent kind then declarationsOf (⟨kind, children⟩ :: above) children
        else []

/-- What the first body among several trees declares. -/
def declarationsInBody (above : List Node) : List Tree → List Declaration
  | [] => []
  | tree :: rest =>
      if tree.nodeKind? = some .body then declarationsFrom above tree
      else declarationsInBody above rest

/-- What several trees under some nodes declare, one after the other. -/
def declarationsOf (above : List Node) : List Tree → List Declaration
  | [] => []
  | tree :: rest => declarationsFrom above tree ++ declarationsOf above rest

end

/-- **What a text declares**, read off its syntax tree. -/
def declarations (tree : Tree) : List Declaration :=
  declarationsOf [⟨.sourceFile, tree.children⟩] tree.children

/-! ## Modules and classes

What the definitions above say about a node that is a module or a class. -/

section

variable (above : List Node) (node : Node)
  (hkind : node.kind = .moduleDef ∨ node.kind = .classDef)

include hkind

theorem isDefinition_of_namespace : node.kind.isDefinition = true := by
  rcases hkind with hkind | hkind <;> rw [hkind] <;> rfl

theorem enclosingReceiver?_cons_of_namespace : enclosingReceiver? (node :: above) = none := by
  rcases hkind with hkind | hkind <;> simp [enclosingReceiver?, hkind]

theorem enclosingPath_cons_of_namespace {name : ConstName}
    (hname : node.site.constName? = some name) :
    enclosingPath (node :: above) =
      name.segments.foldl (joinPath · namespaceSeparator ·)
        (outermostPath (enclosingPath above) name) := by
  rcases hkind with hkind | hkind <;> simp [enclosingPath, hkind, hname]

theorem contribution_of_namespace :
    contribution above node =
      match enclosingReceiver? above, node.site.constName? with
      | none, some name =>
          declareNamespaces (outermostPath (enclosingPath above) name) name.segments
      | _, _ => [] := by
  rcases hkind with hkind | hkind <;> simp [contribution, hkind]

theorem opensBody_of_namespace :
    opensBody above node =
      ((enclosingReceiver? above).isNone && node.site.constName?.any (!·.segments.isEmpty)) := by
  rcases hkind with hkind | hkind <;> simp [opensBody, hkind]

end

/-- Only definitions have a body that is opened. -/
theorem opensBody_of_not_isDefinition (above : List Node) {node : Node}
    (hkind : node.kind.isDefinition = false) : opensBody above node = false := by
  obtain ⟨kind, children⟩ := node
  cases kind <;> first | rfl | cases hkind

/-- The namespaces of a name that is longer by one segment. -/
theorem declareNamespaces_append (outer : String) (segments : List String) (last : String) :
    declareNamespaces outer (segments ++ [last]) =
      declareNamespaces outer segments ++
        [declare (segments.foldl (joinPath · namespaceSeparator ·) outer) namespaceSeparator
          .namespace last] := by
  induction segments generalizing outer with
  | nil => rfl
  | cons segment rest ih =>
    rw [List.cons_append, declareNamespaces, ih, declareNamespaces, List.cons_append]
    rfl

end RubyIndex.Indexing
