import RubyIndex.Proofs.Indexing.Declarations
import RubyIndex.Proofs.Registry.Records

/-! # The visits of a syntax tree

Indexing visits the nodes of a tree that can hold definitions, in preorder. A visit is a node in its
place under the nodes above it. What indexing requests at the node can be read off the visit: the
namespaces that qualify the name are reopened as they are, and the object that the node defines is
registered with what the node says about it.

* `visits` are the visits of a whole tree, and `declarations_eq_flatMap_visits` ties them to its
  declarations.
* `Visit.registrations` are the requests of a visit.
* `site_mem_of_mem_visits`: what is visited is a node of the tree. -/

namespace RubyIndex

open Syntax

/-- The request for a namespace that qualifies a name. It says nothing about the namespace, which is
a module if it is new. -/
def Registration.qualifier (declaration : Declaration) : Registration :=
  ⟨declaration, .newNamespace .moduleFlavor, {}⟩

namespace Indexing

/-! ## Visits -/

/-- A node that is visited, in its place and under the nodes above it. -/
structure Visit where
  above : List Node
  site : Site

namespace Visit

/-- The node of a visit without its place. -/
def node (visit : Visit) : Node := ⟨visit.site.kind, visit.site.children⟩

/-- What is declared at a visit. -/
def declared (visit : Visit) : List Declaration := contribution visit.above visit.node

/-- The object that a node defines: the last one that it declares. The others qualify its name. -/
def defined? (visit : Visit) : Option Declaration := visit.declared.getLast?

/-- Whether a node defines the object at a path. -/
def defines (path : String) (visit : Visit) : Bool := visit.defined?.any (·.path == path)

/-- A node defines the object at the path of the one that it declares last. -/
theorem defines_of_defined? {visit : Visit} {defined : Declaration} {path : String}
    (hdefined : visit.defined? = some defined) (hpath : defined.path = path) :
    visit.defines path = true := by
  rw [defines, hdefined, Option.any_some]
  exact beq_iff_eq.2 hpath

/-- Where a definition is. -/
def origin (file : String) (visit : Visit) : Origin :=
  { file, start := visit.site.start, stop := visit.site.stop, text := visit.site.text }

/-- The details with which a node defines an object. -/
def details (visit : Visit) (defined : Declaration) : Details :=
  match visit.site.kind with
  | .moduleDef => .newNamespace .moduleFlavor
  | .classDef => .newNamespace .classFlavor
  | .methodDef => .newMethod (methodReceiver visit.above visit.node)
  | _ =>
      let value := visit.site.value?.getD ""
      if defined.kind = .instanceVariable then .instanceVariable value else .classVariable value

/-- What a node says about the object that it defines. -/
def revision (file : String) (visit : Visit) : Revision :=
  let base : Revision := { origin := some (visit.origin file), docstring := visit.site.docComment? }
  match visit.site.kind with
  | .moduleDef | .classDef => { base with superclass := visit.site.superclass? }
  | .methodDef => { base with signature := some visit.site.signature }
  | _ => { base with value := some (visit.site.value?.getD "") }

/-- **The requests of a visit**: the qualifying namespaces, and then the object that is defined. -/
def registrations (file : String) (visit : Visit) : List Registration :=
  visit.declared.dropLast.map Registration.qualifier ++
    (visit.defined?.map fun defined =>
      ⟨defined, visit.details defined, visit.revision file⟩).toList

/-- The requests are for what is declared. -/
theorem map_declaration_registrations (file : String) (visit : Visit) :
    (visit.registrations file).map (·.declaration) = visit.declared := by
  have hqualifier : (fun declaration =>
      (Registration.qualifier declaration).declaration) = id := rfl
  rw [registrations, List.map_append, List.map_map]
  rcases List.eq_nil_or_concat visit.declared with hnil | ⟨qualifiers, last, hlast⟩
  · rw [defined?, hnil]
    rfl
  · rw [defined?, hlast, List.concat_eq_append, List.dropLast_concat, List.getLast?_concat]
    simp [Function.comp_def, hqualifier]

end Visit

/-! ## The walk -/

mutual

/-- The visits of a tree in its place under some nodes, in preorder. -/
def visitsFrom (place : Place) (above : List Node) : Tree → List Visit
  | .leaf _ => []
  | .node kind children =>
      ⟨above, ⟨place, kind, children⟩⟩ ::
        if opensBody above ⟨kind, children⟩ then
          visitsInBody (place.inside kind children) (⟨kind, children⟩ :: above) children
        else if isTransparent kind then
          visitsOf (place.inside kind children) (⟨kind, children⟩ :: above) children
        else []

/-- The visits of the first body among several trees. -/
def visitsInBody (place : Place) (above : List Node) : List Tree → List Visit
  | [] => []
  | tree :: rest =>
      if tree.nodeKind? = some .body then visitsFrom place above tree
      else visitsInBody (place.after tree) above rest

/-- The visits of several trees, of which the first stands at the place. -/
def visitsOf (place : Place) (above : List Node) : List Tree → List Visit
  | [] => []
  | tree :: rest => visitsFrom place above tree ++ visitsOf (place.after tree) above rest

end

/-- **The visits of a text**, by its syntax tree. -/
def visits (tree : Tree) : List Visit :=
  visitsOf .root [⟨.sourceFile, tree.children⟩] tree.children

mutual

/-- What is declared at the visits of a tree, the tree declares. -/
theorem flatMap_declared_visitsFrom (place : Place) (above : List Node) (tree : Tree) :
    (visitsFrom place above tree).flatMap Visit.declared = declarationsFrom above tree := by
  cases tree with
  | leaf token => rfl
  | node kind children =>
    rw [visitsFrom, List.flatMap_cons, declarationsFrom]
    refine congrArg (contribution above ⟨kind, children⟩ ++ ·) ?_
    split
    · exact flatMap_declared_visitsInBody _ _ children
    · split
      · exact flatMap_declared_visitsOf _ _ children
      · rfl

theorem flatMap_declared_visitsInBody (place : Place) (above : List Node) (trees : List Tree) :
    (visitsInBody place above trees).flatMap Visit.declared = declarationsInBody above trees := by
  cases trees with
  | nil => rfl
  | cons tree rest =>
    rw [visitsInBody, declarationsInBody]
    split
    · exact flatMap_declared_visitsFrom _ _ tree
    · exact flatMap_declared_visitsInBody _ _ rest

theorem flatMap_declared_visitsOf (place : Place) (above : List Node) (trees : List Tree) :
    (visitsOf place above trees).flatMap Visit.declared = declarationsOf above trees := by
  cases trees with
  | nil => rfl
  | cons tree rest =>
    rw [visitsOf, List.flatMap_append, declarationsOf, flatMap_declared_visitsFrom _ _ tree,
      flatMap_declared_visitsOf _ _ rest]

end

/-- **What a text declares** is what is declared at its visits. -/
theorem declarations_eq_flatMap_visits (tree : Tree) :
    declarations tree = (visits tree).flatMap Visit.declared :=
  (flatMap_declared_visitsOf _ _ tree.children).symm

mutual

/-- What is visited is a node of the tree. -/
theorem site_mem_of_mem_visitsFrom {place : Place} {above : List Node} {tree : Tree}
    {visit : Visit} (hmem : visit ∈ visitsFrom place above tree) :
    visit.site ∈ tree.sitesFrom place := by
  cases tree with
  | leaf token => cases hmem
  | node kind children =>
    rw [visitsFrom, List.mem_cons] at hmem
    rw [Tree.sitesFrom, List.mem_cons]
    rcases hmem with rfl | hinside
    · exact .inl rfl
    · right
      split at hinside
      · exact site_mem_of_mem_visitsInBody hinside
      · split at hinside
        · exact site_mem_of_mem_visitsOf hinside
        · cases hinside

theorem site_mem_of_mem_visitsInBody {place : Place} {above : List Node} {trees : List Tree}
    {visit : Visit} (hmem : visit ∈ visitsInBody place above trees) :
    visit.site ∈ Tree.sitesOfFrom place trees := by
  cases trees with
  | nil => cases hmem
  | cons tree rest =>
    rw [visitsInBody] at hmem
    rw [Tree.sitesOfFrom, List.mem_append]
    split at hmem
    · exact .inl (site_mem_of_mem_visitsFrom hmem)
    · exact .inr (site_mem_of_mem_visitsInBody hmem)

theorem site_mem_of_mem_visitsOf {place : Place} {above : List Node} {trees : List Tree}
    {visit : Visit} (hmem : visit ∈ visitsOf place above trees) :
    visit.site ∈ Tree.sitesOfFrom place trees := by
  cases trees with
  | nil => cases hmem
  | cons tree rest =>
    rw [visitsOf, List.mem_append] at hmem
    rw [Tree.sitesOfFrom, List.mem_append]
    rcases hmem with hfirst | hlater
    · exact .inl (site_mem_of_mem_visitsFrom hfirst)
    · exact .inr (site_mem_of_mem_visitsOf hlater)

end

/-- What is visited in a text is a node of its tree. -/
theorem site_mem_of_mem_visits {source : String} {visit : Visit}
    (hmem : visit ∈ visits (parse source).tree) : visit.site ∈ (parse source).tree.sites := by
  obtain ⟨children, htree⟩ : ∃ children, (parse source).tree = .node .sourceFile children :=
    ⟨_, rfl⟩
  rw [htree] at hmem ⊢
  exact List.mem_cons_of_mem _ (site_mem_of_mem_visitsOf hmem)

end Indexing

end RubyIndex
