import RubyIndex.Syntax.Token

/-! # Syntax trees

Lossless syntax trees: the tokens at the leaves, read from left to right, are the tokens of the
text. A tree holds no positions; an outline pairs every node and token with its depth and its
byte range, counted from where the tree starts. -/

namespace RubyIndex.Syntax

/-- A syntax tree: a token, or a node over the trees below it. -/
inductive Tree where
  /-- A token. -/
  | leaf (token : Token)
  /-- A node over its children in text order. -/
  | node (kind : NodeKind) (children : List Tree)

/-- What a tree has at its top: a kind of token or a kind of node. -/
inductive Label where
  | token (kind : TokenKind)
  | node (kind : NodeKind)
  deriving DecidableEq, Repr

/-- The display name of the kind at the top of a tree. -/
def Label.name : Label → String
  | .token kind => kind.name
  | .node kind => kind.name

namespace Tree

/-- What a tree has at its top. -/
def label : Tree → Label
  | .leaf token => .token token.kind
  | .node kind _ => .node kind

/-- The node kind of a tree, if it is a node. -/
def nodeKind? : Tree → Option NodeKind
  | .leaf _ => none
  | .node kind _ => some kind

/-- The token of a tree, if it is a leaf. -/
def token? : Tree → Option Token
  | .leaf token => some token
  | .node _ _ => none

/-- The trees directly below a tree. -/
def children : Tree → List Tree
  | .leaf _ => []
  | .node _ children => children

mutual

/-- The tokens of a tree from left to right. -/
def leaves : Tree → List Token
  | .leaf token => [token]
  | .node _ children => leavesOf children

/-- The tokens of several trees from left to right. -/
def leavesOf : List Tree → List Token
  | [] => []
  | tree :: rest => tree.leaves ++ leavesOf rest

end

@[simp] theorem leavesOf_append (front back : List Tree) :
    leavesOf (front ++ back) = leavesOf front ++ leavesOf back := by
  induction front with
  | nil => simp [leavesOf]
  | cons tree rest ih => simp [leavesOf, ih]

/-- The text of several trees from left to right. -/
def textOf (trees : List Tree) : String := String.join ((leavesOf trees).map (·.text))

/-- The text a tree covers. -/
def text (tree : Tree) : String := String.join (tree.leaves.map (·.text))

mutual

/-- The length of a tree in bytes. -/
def width : Tree → Nat
  | .leaf token => token.width
  | .node _ children => widthOf children

/-- The length of several trees in bytes. -/
def widthOf : List Tree → Nat
  | [] => 0
  | tree :: rest => tree.width + widthOf rest

end

@[simp] theorem widthOf_append (front back : List Tree) :
    widthOf (front ++ back) = widthOf front + widthOf back := by
  induction front with
  | nil => simp [widthOf]
  | cons tree rest ih => simp [widthOf, ih, Nat.add_assoc]

mutual

/-- The length of a tree is that of its tokens. -/
theorem width_eq_totalWidth (tree : Tree) : tree.width = Token.totalWidth tree.leaves := by
  cases tree with
  | leaf token => simp [width, leaves, Token.totalWidth]
  | node kind children => simpa [width, leaves] using widthOf_eq_totalWidth children

/-- The length of several trees is that of their tokens. -/
theorem widthOf_eq_totalWidth (trees : List Tree) :
    widthOf trees = Token.totalWidth (leavesOf trees) := by
  cases trees with
  | nil => rfl
  | cons tree rest =>
    simp [widthOf, leavesOf, width_eq_totalWidth tree, widthOf_eq_totalWidth rest]

end

/-- The first of several trees that is a node of the given kind, by its children. -/
def firstNode? (kind : NodeKind) : List Tree → Option (List Tree)
  | [] => none
  | .node found children :: rest => if found = kind then some children else firstNode? kind rest
  | .leaf _ :: rest => firstNode? kind rest

/-- Whether one of several trees is a node of the given kind. -/
def hasNode (kind : NodeKind) (trees : List Tree) : Bool := (firstNode? kind trees).isSome

/-- The kinds of those of several trees that are nodes. -/
def nodeKindsOf (trees : List Tree) : List NodeKind := trees.filterMap nodeKind?

/-- The tokens among several trees. -/
def tokensOf (trees : List Tree) : List Token := trees.filterMap token?

end Tree

/-! ## Outlines -/

/-- A node or token of a tree with its depth and byte range, and its text if it is a token. -/
structure OutlineEntry where
  depth : Nat
  label : Label
  start : Nat
  stop : Nat
  text : Option String
  deriving DecidableEq, Repr

namespace Tree

mutual

/-- The entries of a tree that starts at a byte offset, every node before its children. -/
def outlineFrom (depth start : Nat) : Tree → List OutlineEntry
  | .leaf token =>
      [⟨depth, .token token.kind, start, start + token.width, some token.text⟩]
  | .node kind children =>
      ⟨depth, .node kind, start, start + widthOf children, none⟩ ::
        outlineOfFrom (depth + 1) start children

/-- The entries of neighbouring trees, the first of which starts at a byte offset. -/
def outlineOfFrom (depth start : Nat) : List Tree → List OutlineEntry
  | [] => []
  | tree :: rest =>
      outlineFrom depth start tree ++ outlineOfFrom depth (start + tree.width) rest

end

/-- The entries of a tree that starts at the beginning of the text. -/
def outline (tree : Tree) : List OutlineEntry := outlineFrom 0 0 tree

end Tree

end RubyIndex.Syntax
