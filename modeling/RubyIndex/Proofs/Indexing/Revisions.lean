import RubyIndex.Proofs.Indexing.Built
import RubyIndex.Proofs.Syntax.Sites

/-! # What a text leaves of an object

An object keeps what the last definition of it said, part by part. The definitions of an object in a
text are the visits that define its path; the namespaces that only qualify names say nothing. Every
definition has an origin, a method has a signature and a variable has a value, so these come from
the last definition. A docstring and a superclass come from the last definition that has one, or
else from before the text.

* `revisedBy_registrations` reduces the requests of a text to the revisions by definitions.
* `Visit.signature_eq` and `Visit.exists_value` are what definitions say of methods and variables.
* `Registry.Built.object_of_indexSource` puts them together. -/

namespace RubyIndex

open Syntax Indexing

/-! ## Doc comments -/

/-- A block of comments without empty lines at its end is not empty. -/
theorem Syntax.commentBlock?_ne_empty {lines : List String} {text : String}
    (hblock : commentBlock? lines = some text) : text ≠ "" := by
  unfold commentBlock? at hblock
  set trimmed := ((lines.dropWhile (·.isEmpty)).reverse.dropWhile (·.isEmpty)).reverse with htrimmed
  dsimp only at hblock
  split at hblock
  · cases hblock
  · rename_i hlines
    obtain rfl := Option.some.inj hblock
    rcases List.eq_nil_or_concat trimmed with hnil | ⟨front, last, hconcat⟩
    · rw [hnil] at hlines
      exact absurd rfl hlines
    · -- the last line that is left is not empty
      have hlast : last.isEmpty = false := by
        have hhead := List.head?_dropWhile_not (·.isEmpty) (lines.dropWhile (·.isEmpty)).reverse
        rw [← List.getLast?_reverse, ← htrimmed, hconcat, List.concat_eq_append,
          List.getLast?_concat] at hhead
        exact hhead
      have hne : last ≠ "" := by
        rintro rfl
        cases hlast
      rw [hconcat, List.concat_eq_append]
      intro hempty
      cases front with
      | nil =>
        rw [List.nil_append, String.intercalate_singleton] at hempty
        exact hne hempty
      | cons first rest =>
        rw [String.intercalate_append_of_ne_nil (List.cons_ne_nil _ _) (List.cons_ne_nil _ _),
          String.intercalate_singleton, String.append_eq_empty_iff] at hempty
        exact hne hempty.2

/-- No doc comment is empty. -/
theorem Syntax.Site.filter_docComment? (site : Site) :
    site.docComment?.filter (!·.isEmpty) = site.docComment? := by
  cases hcomment : site.docComment? with
  | none => rfl
  | some comment =>
    have hne : comment ≠ "" := commentBlock?_ne_empty hcomment
    rw [Option.filter_some, if_pos]
    simpa [String.isEmpty_iff] using hne

/-! ## Headers -/

/-- The trees up to a node of a kind are found if there is such a node. -/
theorem Syntax.Site.isSome_throughNode? {kind : NodeKind} {trees inner : List Tree}
    (hfirst : Tree.firstNode? kind trees = some inner) :
    ∃ header, Site.throughNode? kind trees = some header := by
  fun_induction Tree.firstNode? kind trees with
  | case1 => cases hfirst
  | case2 children rest => exact ⟨_, by rw [Site.throughNode?]; exact if_pos rfl⟩
  | case3 found children rest hother ih =>
    obtain ⟨header, hheader⟩ := ih hfirst
    refine ⟨.node found children :: header, ?_⟩
    rw [Site.throughNode?, if_neg (by simpa [Tree.nodeKind?] using hother), hheader]
    rfl
  | case4 token rest ih =>
    obtain ⟨header, hheader⟩ := ih hfirst
    refine ⟨.leaf token :: header, ?_⟩
    rw [Site.throughNode?, if_neg (by simp [Tree.nodeKind?]), hheader]
    rfl

namespace Indexing

namespace Visit

variable {visit : Visit} {file path : String} {defined : Declaration}

/-! ## Definitions -/

/-- What a definition says of the object's origin. -/
theorem origin_revision (file : String) (visit : Visit) :
    (visit.revision file).origin = some (visit.origin file) := by
  unfold revision
  split <;> rfl

theorem docstring_revision (file : String) (visit : Visit) :
    (visit.revision file).docstring = visit.site.docComment? := by
  unfold revision
  split <;> rfl

/-- Only the definition of a class gives a superclass. -/
theorem superclass_revision (file : String) (visit : Visit) :
    (visit.revision file).superclass = visit.site.superclass? := by
  unfold revision Site.superclass?
  cases visit.site.kind <;> rfl

/-- The nodes that define something. -/
theorem kind_of_defined? (hdefined : visit.defined? = some defined) :
    visit.site.kind = .moduleDef ∨ visit.site.kind = .classDef ∨ visit.site.kind = .methodDef ∨
      visit.site.kind = .assign := by
  obtain ⟨above, place, kind, children⟩ := visit
  cases kind <;> first | cases hdefined | simp

/-- A method is defined by a method definition. -/
theorem kind_of_method (hdefined : visit.defined? = some defined)
    (hkind : (visit.details defined).kind = .method) : visit.site.kind = .methodDef := by
  unfold details at hkind
  rcases kind_of_defined? hdefined with hsite | hsite | hsite | hsite
  · rw [hsite] at hkind
    cases hkind
  · rw [hsite] at hkind
    cases hkind
  · exact hsite
  · rw [hsite] at hkind
    dsimp only at hkind
    split at hkind <;> cases hkind

/-- A variable is defined by an assignment. -/
theorem kind_of_variable (hdefined : visit.defined? = some defined)
    (hkind : (visit.details defined).kind = .instanceVariable ∨
      (visit.details defined).kind = .classVariable) : visit.site.kind = .assign := by
  unfold details at hkind
  rcases kind_of_defined? hdefined with hsite | hsite | hsite | hsite
  case inr.inr.inr => exact hsite
  all_goals
    rw [hsite] at hkind
    rcases hkind with hkind | hkind <;> cases hkind

/-- Definitions of other objects than namespaces give no superclass. -/
theorem superclass?_of_kind_ne (hdefined : visit.defined? = some defined)
    (hkind : (visit.details defined).kind ≠ .namespace) : visit.site.superclass? = none := by
  unfold details at hkind
  unfold Site.superclass?
  rcases kind_of_defined? hdefined with hsite | hsite | hsite | hsite
  · rw [hsite]
    rfl
  · rw [hsite] at hkind
    exact absurd rfl hkind
  · rw [hsite]
    rfl
  · rw [hsite]
    rfl

/-- The details of a definition hold no superclass. -/
theorem superclass?_details (visit : Visit) (defined : Declaration) (object : CodeObject)
    (hdetails : object.details = visit.details defined) : object.superclass? = none := by
  unfold CodeObject.superclass?
  rw [hdetails]
  unfold details
  cases visit.site.kind with
  | moduleDef => rfl
  | classDef => rfl
  | methodDef => rfl
  | _ => by_cases hinstance : defined.kind = .instanceVariable <;> simp [hinstance]

/-- **The signature** of a method that is defined ends with its parameters, or else with its name:
there is always one of the two. -/
theorem signature_eq (hdefined : visit.defined? = some defined)
    (hkind : visit.site.kind = .methodDef) :
    ∃ header, (Site.throughNode? .paramList visit.site.children).or
        (Site.throughNode? .methodName visit.site.children) = some header ∧
      visit.site.signature = Text.trimStringEnd (Tree.textOf header) := by
  -- without a name nothing would be defined
  obtain ⟨inner, hinner⟩ : ∃ inner,
      Tree.firstNode? .methodName visit.site.children = some inner := by
    cases hname : Tree.firstNode? .methodName visit.site.children with
    | some inner => exact ⟨inner, rfl⟩
    | none =>
      have hnone : visit.node.site.methodName? = none := by
        simp [Site.methodName?, Site.child?, Node.site, node, hname]
      have hnode : visit.node.kind = .methodDef := hkind
      simp [defined?, declared, contribution, hnode, hnone] at hdefined
  obtain ⟨header, hheader⟩ := Site.isSome_throughNode? hinner
  unfold Site.signature
  rw [hheader]
  cases Site.throughNode? .paramList visit.site.children with
  | none => exact ⟨header, rfl, rfl⟩
  | some parameters => exact ⟨parameters, rfl, rfl⟩

/-- **The value** of a variable that is defined is the text of an expression. -/
theorem exists_value (hkind : visit.site.kind = .assign)
    (hformed : Formed visit.site.kind visit.site.children) :
    ∃ expression, visit.site.child? .expr = some expression ∧
      visit.site.value? = some (Tree.textOf expression) := by
  rw [hkind] at hformed
  obtain ⟨expression, hexpression⟩ := Option.isSome_iff_exists.1 hformed
  exact ⟨expression, hexpression, by rw [Site.value?, Site.child?, hexpression]; rfl⟩

/-! ## Requests at a path -/

/-- A request of a visit is for a qualifying namespace or for the object that is defined. -/
theorem mem_registrations_iff {registration : Registration} :
    registration ∈ visit.registrations file ↔
      (∃ declaration ∈ visit.declared.dropLast, registration = .qualifier declaration) ∨
      ∃ defined, visit.defined? = some defined ∧
        registration = ⟨defined, visit.details defined, visit.revision file⟩ := by
  rw [registrations, List.mem_append]
  refine or_congr ?_ ?_
  · rw [List.mem_map]
    exact exists_congr fun _ => and_congr_right fun _ => eq_comm
  · rw [Option.mem_toList, Option.map_eq_some_iff]
    exact exists_congr fun _ => and_congr_right fun _ => eq_comm

/-- A request adds an object without a superclass. -/
theorem superclass?_added {registration : Registration}
    (hmem : registration ∈ visit.registrations file) : registration.added.superclass? = none := by
  rw [Registration.added, CodeObject.superclass?_portrait]
  rcases mem_registrations_iff.1 hmem with ⟨_, -, rfl⟩ | ⟨defined, -, rfl⟩
  · rfl
  · exact visit.superclass?_details defined _ rfl

/-- The requests of a visit revise the object at a path if the visit defines it. -/
theorem revisedBy_registrations (object : CodeObject) (visit : Visit) (file path : String) :
    object.revisedBy (((visit.registrations file).filter (·.declaration.path == path)).map
      (·.revision)) =
      object.revisedBy (if visit.defines path then [visit.revision file] else []) := by
  have hqualifiers : ∀ revision ∈ ((visit.declared.dropLast.map Registration.qualifier).filter
      (·.declaration.path == path)).map (·.revision), revision = {} := by
    intro revision hmem
    obtain ⟨registration, hregistration, rfl⟩ := List.mem_map.1 hmem
    obtain ⟨declaration, -, rfl⟩ := List.mem_map.1 (List.mem_of_mem_filter hregistration)
    rfl
  rw [registrations, List.filter_append, List.map_append, CodeObject.revisedBy_append,
    object.revisedBy_of_forall_eq_empty hqualifiers, defines]
  cases hdefined : visit.defined? with
  | none => rfl
  | some defined =>
    by_cases hpath : (defined.path == path) = true
    · simp [hpath]
    · simp [hpath]

end Visit

/-- A definition in a text is requested by the text. -/
theorem mem_registrations_of_defined? {file source : String} {visit : Visit} {defined : Declaration}
    (hvisit : visit ∈ visits (parse source).tree) (hdefined : visit.defined? = some defined) :
    ⟨defined, visit.details defined, visit.revision file⟩ ∈ registrations file source :=
  List.mem_flatMap.2
    ⟨visit, hvisit, Visit.mem_registrations_iff.2 (.inr ⟨defined, hdefined, rfl⟩)⟩

/-- **The requests of visits** revise the object at a path by the definitions among them. -/
theorem revisedBy_registrations (object : CodeObject) (visits : List Visit) (file path : String) :
    object.revisedBy (((visits.flatMap (Visit.registrations file)).filter
      (·.declaration.path == path)).map (·.revision)) =
      object.revisedBy ((visits.filter (·.defines path)).map (Visit.revision file)) := by
  induction visits generalizing object with
  | nil => rfl
  | cons visit rest ih =>
    rw [List.flatMap_cons, List.filter_append, List.map_append, CodeObject.revisedBy_append,
      visit.revisedBy_registrations, ih]
    by_cases hdefines : visit.defines path = true
    · rw [if_pos hdefines, List.filter_cons_of_pos hdefines]
      rfl
    · rw [if_neg hdefines, List.filter_cons_of_neg hdefines]
      rfl

/-! ## Objects after a text -/

section

variable {registry changed : Registry} {file source : String} {id : ObjectId} {object : CodeObject}
  (hrecords : registry.Records changed (registrations file source))
  (hget : changed.get? id = some object)

include hrecords hget

/-- **An object after a text** is the one before, or one that a request of the text added, revised
by the definitions of its path in the text. -/
theorem exists_revisedBy (hsound : registry.Sound) :
    ∃ base, ((registry.get? id).map (·.portrait) = some base ∨
        registry.get? id = none ∧ ∃ first ∈ registrations file source,
          first.declaration.path = object.path ∧ base = first.added) ∧
      object.portrait = base.revisedBy
        (((visits (parse source).tree).filter (·.defines object.path)).map
          (Visit.revision file)) := by
  obtain ⟨base, hbase, hobject⟩ :=
    Registration.exists_of_foldl_record (hrecords.foldl_record_get? hsound hget)
  refine ⟨base, hbase.imp_right fun hnew => ⟨Option.map_eq_none_iff.1 hnew.1, hnew.2⟩, ?_⟩
  rw [hobject, registrations, revisedBy_registrations]

/-- The definitions of a path are of the kind of the object there. -/
theorem exists_defined_of_defines {visit : Visit} (hvisit : visit ∈ visits (parse source).tree)
    (hdefines : visit.defines object.path = true) :
    ∃ defined, visit.defined? = some defined ∧
      object.kind = (visit.details defined).kind := by
  obtain ⟨defined, hdefined, hpath⟩ := (Option.any_eq_true _ _).1 hdefines
  refine ⟨defined, hdefined, ?_⟩
  exact hrecords.kind_eq (mem_registrations_of_defined? hvisit hdefined) hget (eq_of_beq hpath)

/-- **Objects without definitions** in a text stay as they are, but for their place. If they are new
they are namespaces about which nothing is said. -/
theorem portrait_of_forall_not_defines (hsound : registry.Sound)
    (hnone : (visits (parse source).tree).filter (·.defines object.path) = []) :
    (registry.get? id).map (·.portrait) = some object.portrait ∨
      registry.get? id = none ∧ ∃ declaration : Declaration,
        object.portrait = (Registration.qualifier declaration).added := by
  obtain ⟨base, hbase, hobject⟩ := exists_revisedBy hrecords hget hsound
  rw [hnone] at hobject
  obtain rfl : object.portrait = base := hobject
  refine hbase.imp_right ?_
  rintro ⟨hnew, first, hfirst, hpath, hadded⟩
  refine ⟨hnew, ?_⟩
  obtain ⟨visit, hvisit, hmade⟩ := List.mem_flatMap.1 hfirst
  rcases Visit.mem_registrations_iff.1 hmade with ⟨declaration, -, rfl⟩ | ⟨defined, hdefined, rfl⟩
  · exact ⟨declaration, hadded⟩
  · -- the request for a definition would be one of the definitions that there are none of
    have hdefines := Visit.defines_of_defined? hdefined hpath
    exact absurd (List.mem_filter.2 ⟨hvisit, hdefines⟩) (by rw [hnone]; exact List.not_mem_nil)

/-- **The origin** of an object is the last definition in the text, or the origin it had. -/
theorem origin_eq (hsound : registry.Sound) :
    object.origin = ((((visits (parse source).tree).filter
      (·.defines object.path)).getLast?.map (Visit.origin file)).or
        ((registry.get? id).bind (·.origin))) := by
  obtain ⟨base, hbase, hobject⟩ := exists_revisedBy hrecords hget hsound
  have hbefore : base.origin = (registry.get? id).bind (·.origin) := by
    rcases hbase with hsome | ⟨hnew, first, -, -, rfl⟩
    · obtain ⟨before, hbefore, rfl⟩ := Option.map_eq_some_iff.1 hsome
      rw [hbefore]
      rfl
    · rw [hnew]
      rfl
  rw [← object.origin_portrait, hobject, CodeObject.origin_revisedBy, hbefore, ← List.map_reverse,
    List.findSome?_map, List.getLast?_eq_head?_reverse]
  -- every definition has an origin, so the last one decides
  cases ((visits (parse source).tree).filter (·.defines object.path)).reverse with
  | nil => rfl
  | cons last rest =>
    rw [List.findSome?_cons, Function.comp_apply, Visit.origin_revision]
    rfl

/-- **The docstring** of an object is the last doc comment of a definition in the text, or the
docstring it had. -/
theorem docstring_eq (hsound : registry.Sound) :
    object.docstring = (((visits (parse source).tree).filter
      (·.defines object.path)).reverse.findSome? (·.site.docComment?)).getD
        (((registry.get? id).map (·.docstring)).getD "") := by
  obtain ⟨base, hbase, hobject⟩ := exists_revisedBy hrecords hget hsound
  have hbefore : base.docstring = ((registry.get? id).map (·.docstring)).getD "" := by
    rcases hbase with hsome | ⟨hnew, first, -, -, rfl⟩
    · obtain ⟨before, hbefore, rfl⟩ := Option.map_eq_some_iff.1 hsome
      rw [hbefore]
      rfl
    · rw [hnew]
      rfl
  have hparts : ((·.docstring) ∘ Visit.revision file) = fun visit => visit.site.docComment? :=
    funext (Visit.docstring_revision file)
  rw [← object.docstring_portrait, hobject, CodeObject.docstring_revisedBy, hbefore,
    ← List.map_reverse, List.findSome?_map, hparts]

/-- **The superclass** of an object is the last one that a definition in the text gives, or the one
it had. -/
theorem superclass?_eq (hsound : registry.Sound) :
    object.superclass? = (((visits (parse source).tree).filter
      (·.defines object.path)).reverse.findSome? (·.site.superclass?)).or
        ((registry.get? id).bind (·.superclass?)) := by
  obtain ⟨base, hbase, hobject⟩ := exists_revisedBy hrecords hget hsound
  have hkind : base.kind = object.kind := by
    rw [← object.kind_portrait, hobject, CodeObject.kind_revisedBy]
  have hbefore : base.superclass? = (registry.get? id).bind (·.superclass?) := by
    rcases hbase with hsome | ⟨hnew, first, hfirst, -, rfl⟩
    · obtain ⟨before, hbefore, rfl⟩ := Option.map_eq_some_iff.1 hsome
      rw [hbefore, CodeObject.superclass?_portrait]
      rfl
    · obtain ⟨visit, -, hmade⟩ := List.mem_flatMap.1 hfirst
      rw [hnew, Visit.superclass?_added hmade]
      rfl
  by_cases hnamespace : object.kind = .namespace
  · have hparts : ((·.superclass) ∘ Visit.revision file) = fun visit => visit.site.superclass? :=
      funext (Visit.superclass_revision file)
    rw [← object.superclass?_portrait, hobject,
      base.superclass?_revisedBy (hkind.trans hnamespace), hbefore, ← List.map_reverse,
      List.findSome?_map, hparts]
  · -- neither the object nor the definitions of its path have a superclass
    have hvisits : (((visits (parse source).tree).filter
        (·.defines object.path)).reverse.findSome? (·.site.superclass?)) = none := by
      rw [List.findSome?_eq_none_iff]
      intro visit hmem
      obtain ⟨hvisit, hdefines⟩ := List.mem_filter.1 (List.mem_reverse.1 hmem)
      obtain ⟨defined, hdefined, hsame⟩ := exists_defined_of_defines hrecords hget hvisit hdefines
      exact Visit.superclass?_of_kind_ne hdefined (hsame ▸ hnamespace)
    rw [hvisits, Option.none_or, ← hbefore, CodeObject.superclass?_of_kind_ne hnamespace,
      CodeObject.superclass?_of_kind_ne (hkind ▸ hnamespace)]

/-- **The signature** of a method is that of the last definition in the text. -/
theorem exists_signature (hsound : registry.Sound) {last : Visit}
    (hlast : ((visits (parse source).tree).filter (·.defines object.path)).getLast? = some last)
    (hmethod : object.kind = .method) :
    ∃ header, (Site.throughNode? .paramList last.site.children).or
        (Site.throughNode? .methodName last.site.children) = some header ∧
      object.signature? = some (Text.trimStringEnd (Tree.textOf header)) := by
  obtain ⟨base, -, hobject⟩ := exists_revisedBy hrecords hget hsound
  obtain ⟨hvisit, hdefines⟩ := List.mem_filter.1 (List.mem_of_getLast? hlast)
  obtain ⟨defined, hdefined, hsame⟩ := exists_defined_of_defines hrecords hget hvisit hdefines
  have hsite := Visit.kind_of_method hdefined (hsame.symm.trans hmethod)
  have hkind : base.kind = .method := by
    rw [← hmethod, ← object.kind_portrait, hobject, CodeObject.kind_revisedBy]
  have hrevision : (last.revision file).signature = some last.site.signature := by
    rw [Visit.revision, hsite]
  obtain ⟨header, hheader, hsignature⟩ := Visit.signature_eq hdefined hsite
  refine ⟨header, hheader, ?_⟩
  -- revisions are applied in order, so the newest one that has a signature decides
  obtain ⟨earlier, hdefinitions⟩ := List.getLast?_eq_some_iff.1 hlast
  rw [← object.signature?_portrait, hobject, base.signature?_revisedBy hkind, hdefinitions,
    List.map_append, List.reverse_append, List.findSome?_append, ← hsignature]
  simp [hrevision]

/-- **The value** of a variable is that of the last definition in the text. -/
theorem exists_value (hsound : registry.Sound) {last : Visit}
    (hlast : ((visits (parse source).tree).filter (·.defines object.path)).getLast? = some last)
    (hvariable : object.kind = .instanceVariable ∨ object.kind = .classVariable) :
    ∃ expression, last.site.child? .expr = some expression ∧
      object.value? = some (Tree.textOf expression) := by
  obtain ⟨base, -, hobject⟩ := exists_revisedBy hrecords hget hsound
  obtain ⟨hvisit, hdefines⟩ := List.mem_filter.1 (List.mem_of_getLast? hlast)
  obtain ⟨defined, hdefined, hsame⟩ := exists_defined_of_defines hrecords hget hvisit hdefines
  have hsite := Visit.kind_of_variable hdefined (hsame ▸ hvariable)
  have hkind : base.kind = object.kind := by
    rw [← object.kind_portrait, hobject, CodeObject.kind_revisedBy]
  have hrevision : (last.revision file).value = some (last.site.value?.getD "") := by
    rw [Visit.revision, hsite]
  obtain ⟨expression, hexpression, hvalue⟩ := Visit.exists_value hsite
    (Site.legible_of_mem_sites (site_mem_of_mem_visits hvisit)).1.2
  refine ⟨expression, hexpression, ?_⟩
  obtain ⟨earlier, hdefinitions⟩ := List.getLast?_eq_some_iff.1 hlast
  rw [← object.value?_portrait, hobject, base.value?_revisedBy (hkind ▸ hvariable), hdefinitions,
    List.map_append, List.reverse_append, List.findSome?_append]
  simp [hrevision, hvalue]

end

end Indexing

/-! ## What a text leaves -/

namespace CodeObject

/-- **An object that nothing in a text defines** is as it was before. If it is new it is a namespace
about which nothing is said. -/
structure Unrevised (before : Option CodeObject) (object : CodeObject) : Prop where
  origin : object.origin = before.bind (·.origin)
  docstring : object.docstring = (before.map (·.docstring)).getD ""
  superclass : object.superclass? = before.bind (·.superclass?)
  signature : object.signature? = before.bind (·.signature?)
  value : object.value? = before.bind (·.value?)
  isNamespace : before = none → object.isNamespace = true

/-- An object that did not change but for its place. -/
theorem Unrevised.of_portrait_eq {before object : CodeObject}
    (hportrait : before.portrait = object.portrait) : object.Unrevised (some before) where
  origin := (congrArg (·.origin) hportrait).symm
  docstring := (congrArg (·.docstring) hportrait).symm
  superclass := by simpa using (congrArg superclass? hportrait).symm
  signature := by simpa using (congrArg signature? hportrait).symm
  value := by simpa using (congrArg value? hportrait).symm
  isNamespace := fun hnone => by cases hnone

/-- A new namespace that only qualifies names. -/
theorem Unrevised.of_qualifier {declaration : Declaration} {object : CodeObject}
    (hportrait : object.portrait = (Registration.qualifier declaration).added) :
    object.Unrevised none where
  origin := congrArg (·.origin) hportrait
  docstring := congrArg (·.docstring) hportrait
  superclass := object.superclass?_portrait.symm.trans (congrArg superclass? hportrait)
  signature := object.signature?_portrait.symm.trans (congrArg signature? hportrait)
  value := object.value?_portrait.symm.trans (congrArg value? hportrait)
  isNamespace := fun _ => by
    rw [CodeObject.isNamespace, ← object.kind_portrait, hportrait]
    rfl

/-- **An object that a text defines.** The last definition decides about its origin, its signature
and its value. Its docstring and its superclass are the last that are given. -/
structure DefinedBy (file source : String) (before : Option CodeObject) (definitions : List Visit)
    (last : Visit) (object : CodeObject) : Prop where
  origin : object.origin =
    some { file, start := last.site.start, stop := last.site.stop, text := last.site.text }
  /-- The text of the origin is what stands in the file at its range. -/
  standsAt : Text.StandsAt source last.site.text last.site.start last.site.stop
  docstring : object.docstring =
    (definitions.reverse.findSome? fun visit =>
      visit.site.docComment?.filter (!·.isEmpty)).getD ((before.map (·.docstring)).getD "")
  superclass : object.superclass? =
    (definitions.reverse.findSome? (·.site.superclass?)).or (before.bind (·.superclass?))
  /-- The signature ends with the parameters, or with the name where there are none. -/
  signature : ∀ signature, object.signature? = some signature →
    ∃ header, (Site.throughNode? .paramList last.site.children).or
        (Site.throughNode? .methodName last.site.children) = some header ∧
      signature = Text.trimStringEnd (Tree.textOf header)
  /-- The value is the text of the expression that is assigned. -/
  value : ∀ value, object.value? = some value →
    ∃ expression, last.site.child? .expr = some expression ∧ value = Tree.textOf expression

end CodeObject

namespace Registry

variable {registry : Registry} {file source : String} {id : ObjectId} {object : CodeObject}

/-- **What indexing a text leaves of an object.** Without definitions in the text the object is as
it was. Else it is as its definitions in the text say. -/
theorem Built.object_of_indexSource (hbuilt : Built registry)
    (hok : ((Indexing.indexSource file source).apply registry).1.isOk = true)
    (hget : ((Indexing.indexSource file source).apply registry).2.get? id = some object) :
    let definitions := (visits (parse source).tree).filter (·.defines object.path)
    (definitions = [] → object.Unrevised (registry.get? id)) ∧
      ∀ last, definitions.getLast? = some last →
        object.DefinedBy file source (registry.get? id) definitions last := by
  have hrecords := (indexSource_makes hbuilt.sound file source).records hok
  intro definitions
  constructor
  · intro hnone
    rcases portrait_of_forall_not_defines hrecords hget hbuilt.sound hnone with hsame | hnew
    · obtain ⟨before, hbefore, hportrait⟩ := Option.map_eq_some_iff.1 hsame
      rw [hbefore]
      exact .of_portrait_eq hportrait
    · obtain ⟨hnone, declaration, hportrait⟩ := hnew
      rw [hnone]
      exact .of_qualifier hportrait
  · intro last hlast
    have horigin := origin_eq hrecords hget hbuilt.sound
    rw [hlast] at horigin
    refine ⟨horigin, ?_, ?_, superclass?_eq hrecords hget hbuilt.sound, ?_, ?_⟩
    · have hvisit := (List.mem_filter.1 (List.mem_of_getLast? hlast)).1
      exact Site.standsAt_of_mem_sites (site_mem_of_mem_visits hvisit)
    · simp only [Site.filter_docComment?]
      exact docstring_eq hrecords hget hbuilt.sound
    · intro signature hsignature
      obtain ⟨header, hheader, hsame⟩ := exists_signature hrecords hget hbuilt.sound hlast
        (CodeObject.kind_of_signature? hsignature)
      exact ⟨header, hheader, Option.some.inj (hsignature.symm.trans hsame)⟩
    · intro value hvalue
      obtain ⟨expression, hexpression, hsame⟩ := exists_value hrecords hget hbuilt.sound hlast
        (CodeObject.kind_of_value? hvalue)
      exact ⟨expression, hexpression, Option.some.inj (hvalue.symm.trans hsame)⟩

/-- A class that is reopened: its origin is the second definition, its superclass and its docstring
are from the first. -/
theorem Built.object_of_indexSource_reopened :
    let source := "# Ä\nclass A < B\nend\nclass A\nend\n"
    ∃ object last,
      ((Indexing.indexSource "a.rb" source).apply .empty).2.get? ⟨1⟩ = some object ∧
      object.origin = some ⟨"a.rb", 21, 32, "class A\nend"⟩ ∧ object.docstring = "Ä" ∧
      object.superclass? = some "B" ∧
      object.DefinedBy "a.rb" source none
        ((visits (parse source).tree).filter (·.defines object.path)) last := by
  intro source
  have hread : (((Indexing.indexSource "a.rb" source).apply .empty).2.get? ⟨1⟩).map
      (fun object => (object.path, object.origin, object.docstring, object.superclass?)) =
        some ("A", some ⟨"a.rb", 21, 32, "class A\nend"⟩, "Ä", some "B") := by decide +kernel
  obtain ⟨object, hget, hparts⟩ := Option.map_eq_some_iff.1 hread
  simp only [Prod.mk.injEq] at hparts
  obtain ⟨hpath, horigin, hdocstring, hsuperclass⟩ := hparts
  obtain ⟨last, hlast⟩ : ∃ last,
      ((visits (parse source).tree).filter (·.defines "A")).getLast? = some last :=
    Option.isSome_iff_exists.1 (by decide +kernel)
  refine ⟨object, last, hget, horigin, hdocstring, hsuperclass, ?_⟩
  exact (Built.object_of_indexSource .empty (by decide +kernel) hget).2 last (hpath ▸ hlast)

end Registry

end RubyIndex
