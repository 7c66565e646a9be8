import RubyIndex.Indexing.Context
import RubyIndex.Syntax.Definition

/-! # Which nodes define what

The table of the nodes that define objects. A node is handled by the first rule for its kind
whose guard holds. -/

namespace RubyIndex.Indexing

open Syntax

/-- A condition a rule puts on a node and its context. -/
inductive Guard where
  /-- The body being indexed is that of a namespace. -/
  | inNamespace
  /-- The node assigns to a variable of the given kind. -/
  | assignsTo (target : TokenKind)
  deriving DecidableEq, Repr

/-- The display name of a guard. -/
def Guard.name : Guard → String
  | .inNamespace => "NamespaceOnly"
  | .assignsTo target => "AssignsTo(" ++ target.name ++ ")"

/-- What a node defines. -/
inductive Definition where
  | moduleDef
  | classDef
  | methodDef
  | instanceVariable
  | classVariable
  deriving DecidableEq, Repr

/-- The display name of a form of definition. -/
def Definition.name : Definition → String
  | .moduleDef => "Module"
  | .classDef => "Class"
  | .methodDef => "Method"
  | .instanceVariable => "InstanceVariable"
  | .classVariable => "ClassVariable"

/-- Nodes of a kind define something, if the guard holds. -/
structure Rule where
  kind : NodeKind
  guard : Option Guard
  definition : Definition
  deriving DecidableEq, Repr

/-- The rules in the order in which they are tried. -/
def rules : List Rule :=
  [⟨.moduleDef, some .inNamespace, .moduleDef⟩,
    ⟨.classDef, some .inNamespace, .classDef⟩,
    ⟨.methodDef, none, .methodDef⟩,
    ⟨.assign, some (.assignsTo .instanceVariable), .instanceVariable⟩,
    ⟨.assign, some (.assignsTo .classVariable), .classVariable⟩]

/-- The rules for nodes of a kind, in the order in which they are tried. -/
def rulesFor (kind : NodeKind) : List Rule := rules.filter (·.kind == kind)

/-- Whether a guard holds for a node in its context. -/
def Guard.holds (registry : Registry) (context : Context) (site : Site) : Guard → Bool
  | .inNamespace => (registry.get? context.owner).any (·.isNamespace)
  | .assignsTo target => (site.target?.map (·.kind)) == some target

/-- Whether a rule applies to a node in its context. -/
def Rule.applies (registry : Registry) (context : Context) (site : Site) (rule : Rule) : Bool :=
  rule.guard.all (·.holds registry context site)

/-- The nodes without rules whose children are indexed in the same context. -/
def walksThrough : NodeKind → Bool
  | .statement | .expr | .block | .body => true
  | _ => false

end RubyIndex.Indexing
