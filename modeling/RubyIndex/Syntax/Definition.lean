import RubyIndex.Syntax.DocComment

/-! # What definitions say

The names, superclasses, signatures, parameters, targets and values that definition nodes
carry. -/

namespace RubyIndex.Syntax

/-- A possibly qualified constant name. -/
structure ConstName where
  /-- Whether the name starts at the root with `::`. -/
  absolute : Bool
  segments : List String
  deriving DecidableEq, Repr

namespace Site

/-! ## Modules and classes -/

/-- The constant name in the header of a module or class. -/
def constName? (site : Site) : Option ConstName :=
  (site.child? .constPath).map fun children =>
    { absolute := Place.opensWith .colonColon children
      segments := ((Tree.tokensOf children).filter (·.kind == .const)).map (·.text) }

/-- The superclass in the header of a class. -/
def superclass? (site : Site) : Option String :=
  if site.kind = .classDef then
    ((site.child? .superclass).map fun children => Text.trimString (Tree.textOf children)).filter
      (!·.isEmpty)
  else none

/-! ## Methods -/

/-- The name of a method. -/
def methodName? (site : Site) : Option String :=
  ((site.child? .methodName).map Tree.textOf).filter (!·.isEmpty)

/-- Whether a method is called on the module or class itself. -/
def isSingleton (site : Site) : Bool :=
  Tree.hasNode .singleton site.children || site.place.inSingletonClass

/-- The trees up to and including the first node of the given kind. -/
def throughNode? (kind : NodeKind) : List Tree → Option (List Tree)
  | [] => none
  | tree :: rest =>
      if tree.nodeKind? = some kind then some [tree]
      else (throughNode? kind rest).map (tree :: ·)

/-- The definition line of a method: its text up to the end of its parameters, or of its name if
it has none. -/
def signature (site : Site) : String :=
  match (throughNode? .paramList site.children).or (throughNode? .methodName site.children) with
  | some header => Text.trimStringEnd (Tree.textOf header)
  | none => Text.trimStringEnd (String.ofList (site.text.toList.takeWhile (· != '\n')))

/-- The parameters of a method without the parentheses around them. -/
def parameters? (site : Site) : Option String :=
  (site.child? .paramList).map fun children =>
    let trimmed := Text.trim (Tree.textOf children).toList
    match trimmed with
    | '(' :: inner => String.ofList (if inner.getLast? = some ')' then inner.dropLast else trimmed)
    | _ => String.ofList trimmed

/-! ## Assignments -/

/-- The variable on the left of an assignment. -/
def target? (site : Site) : Option Token :=
  (site.child? .varField).bind fun children =>
    (Tree.tokensOf children).find? (·.kind.isVariable)

/-- The text of the value on the right of an assignment. -/
def value? (site : Site) : Option String := (site.child? .expr).map Tree.textOf

end Site

end RubyIndex.Syntax
