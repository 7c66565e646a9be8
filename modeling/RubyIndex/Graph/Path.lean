import RubyIndex.Text.Search

/-! # Graph paths

Graph consumers address symbols by paths with slashes. A symbol path tells methods and local
variables apart by marks of their own; a tree path is for display and leaves out the components
that only make local scopes unique. -/

namespace RubyIndex.Graph

/-- A text without the slashes at its front. -/
def trimSlashes (text : List Char) : List Char := text.dropWhile (· == '/')

/-- A text with each pattern in turn replaced throughout. -/
def replaceInTurn (text : List Char) (rules : List (String × String)) : List Char :=
  rules.foldl (fun text (pattern, replacement) =>
    Text.replaceAll pattern.toList replacement.toList text) text

/-- The replacements that make a symbol path of a Ruby path, in their order. -/
def symbolPathRules : List (String × String) :=
  [(".rb", "_rb"), ("::", "/"), ("#", "/$methods/"), (".", "/$classmethods/"), (">", "@")]

/-- The path of a symbol in the graph. -/
def symbolPath (rubyPath : String) : String :=
  String.ofList (trimSlashes (replaceInTurn rubyPath.toList symbolPathRules))

/-- The replacements that cut a Ruby path into the components of its display path, in their
order. -/
def treePathRules : List (String × String) :=
  [(".rb", "_rb"), ("::", "/"), ("#", "/"), (".", "/"), (">", "/")]

/-- The mark of components that only make a local scope unique. -/
def localMark : List Char := "_local_".toList

/-- Whether a component is shown in display paths. -/
def isDisplayed (component : List Char) : Bool :=
  !component.isEmpty && !Text.occursIn localMark component

/-- The path at which a symbol is displayed. -/
def treePath (rubyPath : String) : String :=
  let components := Text.pieces '/' (replaceInTurn rubyPath.toList treePathRules)
  String.ofList (['/'].intercalate (components.filter isDisplayed))

/-- Whether a Ruby path is that of a variable in a local scope. -/
def isLocalVariable (rubyPath : String) : Bool :=
  ((Text.pieces '>' rubyPath.toList).drop 1).any (Text.occursIn localMark)

end RubyIndex.Graph
