import RubyIndex.Syntax.Tree

/-! # Nodes in their places

A syntax tree knows nothing of its surroundings. A site is a node together with its place: the
byte offset where it starts, the trees before it under the same parent, and whether it lies in
the body of a `class <<` block. -/

namespace RubyIndex.Syntax

/-- Where a tree stands in a larger tree. -/
structure Place where
  /-- The byte offset where the tree starts. -/
  start : Nat
  /-- The trees before it under the same parent, nearest first. -/
  preceding : List Tree
  /-- Whether a `class <<` block encloses it with no definition in between. -/
  inSingletonClass : Bool

namespace Place

/-- The place of the root of a tree. -/
def root : Place := ⟨0, [], false⟩

/-- The place directly after a tree. -/
def after (place : Place) (tree : Tree) : Place :=
  { place with start := place.start + tree.width, preceding := tree :: place.preceding }

/-- Whether the first token of some trees is of the given kind. -/
def opensWith (kind : TokenKind) (trees : List Tree) : Bool :=
  (Tree.leavesOf trees).head?.any (·.kind == kind)

/-- The place of the first child of a node. -/
def inside (place : Place) (kind : NodeKind) (children : List Tree) : Place :=
  { start := place.start
    preceding := []
    inSingletonClass :=
      if kind.isDefinition then false
      else place.inSingletonClass || (kind == .block && opensWith .classKw children) }

end Place

/-- A node of a tree in its place. -/
structure Site where
  place : Place
  kind : NodeKind
  children : List Tree

namespace Site

/-- The byte offset where a node starts. -/
def start (site : Site) : Nat := site.place.start

/-- The byte offset where a node ends. -/
def stop (site : Site) : Nat := site.place.start + Tree.widthOf site.children

/-- The text a node covers. -/
def text (site : Site) : String := Tree.textOf site.children

/-- The children of the first child node of the given kind. -/
def child? (site : Site) (kind : NodeKind) : Option (List Tree) :=
  Tree.firstNode? kind site.children

/-- The kinds of the child nodes of the body, if there is one. -/
def bodyKinds? (site : Site) : Option (List NodeKind) := (site.child? .body).map Tree.nodeKindsOf

end Site

namespace Tree

mutual

/-- The sites of all nodes of a tree in its place, every node before those below it. -/
def sitesFrom (place : Place) : Tree → List Site
  | .leaf _ => []
  | .node kind children =>
      ⟨place, kind, children⟩ :: sitesOfFrom (place.inside kind children) children

/-- The sites of all nodes of neighbouring trees, of which the first stands at the place. -/
def sitesOfFrom (place : Place) : List Tree → List Site
  | [] => []
  | tree :: rest => sitesFrom place tree ++ sitesOfFrom (place.after tree) rest

end

/-- The sites of all nodes of a whole tree. -/
def sites (tree : Tree) : List Site := sitesFrom .root tree

end Tree

end RubyIndex.Syntax
