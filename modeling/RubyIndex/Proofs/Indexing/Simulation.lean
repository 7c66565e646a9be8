import RubyIndex.Proofs.Indexing.Agreement

/-! # Indexing follows the tree

Every visit of a node makes the requests that can be read off the node and the nodes above it, and
goes on inside the node where the walk does. Where a visit is refused, a method and a namespace of
one name meet at the top level.

* `defineNamespace_makes`, `defineMethod_makes` and `defineVariable_makes` are the definitions.
* `visit_makes` is the step at one node, by cases on what the node defines.
* `indexTree_makes` is the induction over trees, `indexSource_makes` its result for texts. -/

namespace RubyIndex.Indexing

open Syntax Edit Registry

variable {registry : Registry} {context : Context} {place : Place} {above : List Node}

/-! ## Definitions -/

/-- The namespaces that qualify a name are registered one inside the other. -/
theorem registerQualifiers_makes (hsound : registry.Sound) {parent : ObjectId}
    {object : CodeObject} (hparent : registry.get? parent = some object)
    (hnamespace : object.isNamespace = true) {segments : List String}
    (hsegments : ∀ segment ∈ segments, IsConstant segment) :
    (registerQualifiers parent segments).Makes registry
      ((declareNamespaces object.path segments).map Registration.qualifier)
      fun id changed => ∃ inner, changed.get? id = some inner ∧ inner.isNamespace = true ∧
        inner.path = segments.foldl (joinPath · namespaceSeparator ·) object.path := by
  induction segments generalizing registry parent object with
  | nil => exact Makes.pure hsound ⟨object, hparent, hnamespace, rfl⟩
  | cons segment rest ih =>
    have hname : ObjectKind.Names (Details.newNamespace .moduleFlavor).kind segment :=
      hsegments segment List.mem_cons_self
    rw [registerQualifiers]
    refine (hsound.register_makes {} hparent hnamespace hname).bind ?_
    rintro entered changed hrecords ⟨found, hfound, hkind, hpath⟩
    -- what was registered is a namespace, so the rest goes on from there
    have hlater := ih hrecords.sound hfound (by rw [CodeObject.isNamespace, hkind]; rfl)
      fun later hlater => hsegments later (List.mem_cons_of_mem _ hlater)
    rw [hpath] at hlater
    exact hlater

/-- What a visit of a node guarantees besides its requests: what is inside the node is looked into
in a context that agrees, if the walk goes on there. -/
def Entered (file : String) (visit : Visit) (entered : Option Context) (changed : Registry) :
    Prop :=
  match entered with
  | none => opensBody visit.above visit.node = false ∧ isTransparent visit.site.kind = false
  | some inner =>
      (if visit.site.kind.isDefinition then opensBody visit.above visit.node = true
        else isTransparent visit.site.kind = true) ∧
      inner.file = file ∧
      Agrees changed inner (visit.site.place.inside visit.site.kind visit.site.children)
        (visit.node :: visit.above)

/-- A node of a kind without rules. -/
theorem visit_of_rulesFor_eq_nil (context : Context) (site : Site)
    (hrules : rulesFor site.kind = []) :
    visit context site = pure (if walksThrough site.kind then some context else none) := by
  unfold visit
  rw [hrules]

/-- A visit without declarations makes no requests. -/
theorem Visit.registrations_of_declared_eq_nil {visit : Visit} (hdeclared : visit.declared = [])
    (file : String) : visit.registrations file = [] := by
  rw [registrations, defined?, hdeclared]
  rfl

/-- Of several declarations, the last is the one that is defined. The others qualify its name. -/
theorem Visit.registrations_of_declared_append {visit : Visit} {qualifiers : List Declaration}
    {last : Declaration} (hdeclared : visit.declared = qualifiers ++ [last]) (file : String) :
    visit.registrations file = qualifiers.map Registration.qualifier ++
      [⟨last, visit.details last, visit.revision file⟩] := by
  rw [registrations, defined?, hdeclared, List.dropLast_concat, List.getLast?_concat,
    Option.map_some]
  rfl

section

variable (hsound : registry.Sound) (hagrees : Agrees registry context place above)
  {kind : NodeKind} {children : List Tree} (hlegible : Tree.EveryNodeOf Legible children)

include hsound

/-- A definition without a name declares nothing and is not looked into. -/
theorem makes_of_unnamed (file : String) (hdefinition : kind.isDefinition = true)
    (hcontribution : contribution above ⟨kind, children⟩ = [])
    (hclosed : opensBody above ⟨kind, children⟩ = false) :
    (pure none : Edit (Option Context)).Makes registry
      ((Visit.mk above ⟨place, kind, children⟩).registrations file)
      (Entered file ⟨above, ⟨place, kind, children⟩⟩) := by
  have hdeclared : (Visit.mk above ⟨place, kind, children⟩).declared = [] := hcontribution
  rw [Visit.registrations_of_declared_eq_nil hdeclared]
  refine Makes.pure hsound ⟨hclosed, ?_⟩
  dsimp only
  cases kind <;> first | rfl | cases hdefinition

include hagrees hlegible

/-- A module or class whose name has segments, outside methods: the namespaces that qualify the name
are registered, each inside the one before it, and then the module or class itself. -/
theorem defineNamespace_makes_of_segments (flavor : Flavor)
    (hkind : kind = .moduleDef ∨ kind = .classDef)
    (hflavor : ∀ defined, (Visit.mk above ⟨place, kind, children⟩).details defined =
      .newNamespace flavor)
    (houtside : enclosingReceiver? above = none) {name : ConstName}
    (hname : (Site.mk place kind children).constName? = some name) {qualifiers : List String}
    {last : String} (hsegments : name.segments = qualifiers ++ [last]) :
    (defineNamespace flavor context ⟨place, kind, children⟩).Makes registry
      ((Visit.mk above ⟨place, kind, children⟩).registrations context.file)
      (Entered context.file ⟨above, ⟨place, kind, children⟩⟩) := by
  set node : Node := ⟨kind, children⟩
  have hnamed : node.site.constName? = some name := hname
  have hconstants : ∀ segment ∈ qualifiers ++ [last], IsConstant segment := fun segment hmem =>
    isConstant_of_mem_segments ⟨place, kind, children⟩ hlegible hname
      (by rw [hsegments]; exact hmem)
  obtain ⟨outer, houter, houterKind, houterPath⟩ := hagrees.outermost hsound name
  have hpath : enclosingPath (node :: above) =
      joinPath (qualifiers.foldl (joinPath · namespaceSeparator ·) outer.path)
        namespaceSeparator last := by
    rw [enclosingPath_cons_of_namespace above node hkind hnamed, hsegments, ← houterPath,
      List.foldl_append]
    rfl
  have hdeclared : (Visit.mk above ⟨place, kind, children⟩).declared =
      declareNamespaces outer.path qualifiers ++
        [declare (qualifiers.foldl (joinPath · namespaceSeparator ·) outer.path)
          namespaceSeparator .namespace last] := by
    show contribution above node = _
    rw [contribution_of_namespace above node hkind, houtside, hnamed, houterPath,
      ← declareNamespaces_append, ← hsegments]
  have hrevision : (Visit.mk above ⟨place, kind, children⟩).revision context.file =
      { baseRevision context ⟨place, kind, children⟩ with
        superclass := (Site.mk place kind children).superclass? } := by
    rcases hkind with rfl | rfl <;> rfl
  rw [Visit.registrations_of_declared_append hdeclared, hflavor, hrevision]
  unfold defineNamespace
  rw [hname]
  dsimp only
  rw [hsegments, List.getLast?_concat, List.dropLast_concat]
  -- first come the namespaces that qualify the name
  refine (registerQualifiers_makes hsound houter houterKind fun segment hmem =>
    hconstants segment (List.mem_append_left _ hmem)).bind ?_
  rintro parent qualified hqualified ⟨inner, hinner, hinnerKind, hinnerPath⟩
  -- then comes the module or class itself, inside the last of them
  have hlastName : ObjectKind.Names (Details.newNamespace flavor).kind last :=
    hconstants last (List.mem_append_right _ List.mem_cons_self)
  rw [← hinnerPath, ← List.append_nil [_]]
  refine (hqualified.sound.register_makes _ hinner hinnerKind hlastName).bind ?_
  rintro entered defined hdefined ⟨object, hobject, hobjectKind, hobjectPath⟩
  -- its body has a local scope of its own, which declares nothing
  have hobjectNamespace : object.isNamespace = true := by
    rw [CodeObject.isNamespace, hobjectKind]
    rfl
  refine (enterNamespace_makes hdefined.sound context place above node hobject
    hobjectNamespace hkind (by rw [hobjectPath, hinnerPath, hpath]; rfl)).bind_pure ?_
  rintro bodyContext final - hbody
  refine ⟨?_, hbody⟩
  have hopened : opensBody above node = true := by
    rw [opensBody_of_namespace above node hkind, houtside, hnamed, Option.any_some, hsegments]
    simp
  rw [if_pos (isDefinition_of_namespace node hkind)]
  exact hopened

/-- **Modules and classes** outside methods. One without a name, or with a name that has no segments,
is passed over. -/
theorem defineNamespace_makes (flavor : Flavor) (hkind : kind = .moduleDef ∨ kind = .classDef)
    (hflavor : ∀ defined, (Visit.mk above ⟨place, kind, children⟩).details defined =
      .newNamespace flavor)
    (houtside : enclosingReceiver? above = none) :
    (defineNamespace flavor context ⟨place, kind, children⟩).Makes registry
      ((Visit.mk above ⟨place, kind, children⟩).registrations context.file)
      (Entered context.file ⟨above, ⟨place, kind, children⟩⟩) := by
  have hdefinition := isDefinition_of_namespace ⟨kind, children⟩ hkind
  have hcontribution := contribution_of_namespace above ⟨kind, children⟩ hkind
  have hopens := opensBody_of_namespace above ⟨kind, children⟩ hkind
  rw [houtside] at hcontribution hopens
  cases hname : (Site.mk place kind children).constName? with
  | none =>
    have hunnamed : (Node.mk kind children).site.constName? = none := hname
    rw [hunnamed] at hcontribution hopens
    unfold defineNamespace
    rw [hname]
    exact makes_of_unnamed hsound context.file hdefinition hcontribution hopens
  | some name =>
    rcases List.eq_nil_or_concat name.segments with hempty | ⟨qualifiers, last, hsegments⟩
    · have hnamed : (Node.mk kind children).site.constName? = some name := hname
      rw [hnamed] at hcontribution hopens
      dsimp only at hcontribution
      rw [Option.any_some] at hopens
      rw [hempty] at hcontribution hopens
      unfold defineNamespace
      rw [hname]
      dsimp only
      rw [hempty]
      exact makes_of_unnamed hsound context.file hdefinition hcontribution hopens
    · exact defineNamespace_makes_of_segments hsound hagrees hlegible flavor hkind hflavor houtside
        hname (hsegments.trans List.concat_eq_append)

/-- **Methods.** -/
theorem defineMethod_makes :
    (defineMethod context ⟨place, .methodDef, children⟩).Makes registry
      ((Visit.mk above ⟨place, .methodDef, children⟩).registrations context.file)
      (Entered context.file ⟨above, ⟨place, .methodDef, children⟩⟩) := by
  unfold defineMethod
  split
  · rename_i hunnamed
    have hunnamed : (Node.mk .methodDef children).site.methodName? = none := hunnamed
    refine makes_of_unnamed hsound context.file rfl ?_ ?_
    · simp [contribution, hunnamed]
    · simp [opensBody, hunnamed]
  · rename_i name hname
    have hnamed : (Node.mk .methodDef children).site.methodName? = some name := hname
    obtain ⟨enclosing, henclosing, hnamespace, hpath⟩ := hagrees.enclosing
    rw [hagrees.receiver_eq]
    set receiver := methodReceiver above ⟨.methodDef, children⟩ with hreceiver
    have hmethodName : (Details.newMethod receiver).kind.Names name :=
      names_of_methodName? ⟨place, .methodDef, children⟩ hlegible hname
    have hregistrations :
        (Visit.mk above ⟨place, .methodDef, children⟩).registrations context.file =
          [⟨declare enclosing.path receiver.separator .method name, .newMethod receiver,
            { baseRevision context ⟨place, .methodDef, children⟩ with
              signature := some (Site.mk place .methodDef children).signature }⟩] := by
      have hdeclared : (Visit.mk above ⟨place, .methodDef, children⟩).declared =
          [declare enclosing.path receiver.separator .method name] := by
        simp [Visit.declared, Visit.node, contribution, hnamed, hpath, hreceiver]
      rw [Visit.registrations, Visit.defined?, hdeclared]
      rfl
    rw [hregistrations, ← List.append_nil [_]]
    refine (hsound.register_makes _ henclosing hnamespace hmethodName).bind ?_
    rintro method defined hdefined ⟨object, hobject, hobjectKind, -⟩
    refine (enterMethod_makes hdefined.sound (hagrees.mono hdefined.extending) hobject hobjectKind
      name children).bind_pure ?_
    rintro inner final - hbody
    refine ⟨?_, hbody⟩
    have hopened : opensBody above ⟨.methodDef, children⟩ = true := by simp [opensBody, hnamed]
    exact hopened

omit hlegible in
/-- A variable is registered under the enclosing namespace. -/
theorem defineVariable_makes {name : String} {details : String → Details} (site : Site)
    {variableKind : ObjectKind} (hkind : ∀ value, (details value).kind = variableKind)
    (hvariable : variableKind ≠ .method) (hname : variableKind.Names name) :
    (defineVariable name details context site).Makes registry
      [⟨declare (enclosingPath above) namespaceSeparator variableKind name,
        details (site.value?.getD ""),
        { baseRevision context site with value := some (site.value?.getD "") }⟩]
      fun _ _ => True := by
  obtain ⟨enclosing, henclosing, hnamespace, hpath⟩ := hagrees.enclosing
  have hdetails := hkind (site.value?.getD "")
  have hseparator : (details (site.value?.getD "")).separator = namespaceSeparator :=
    Details.separator_of_ne_method (by rw [hdetails]; exact hvariable)
  rw [← hpath, ← hseparator, ← hdetails]
  exact (hsound.register_makes _ henclosing hnamespace (by rw [hdetails]; exact hname)).bind_pure
    fun _ _ _ _ => trivial

/-- **Assignments** to instance variables, whether they declare one or not. -/
theorem defineInstanceVariable_makes {target : Token}
    (htarget : (Site.mk place .assign children).target? = some target)
    (hkind : target.kind = .instanceVariable) :
    (defineInstanceVariable context ⟨place, .assign, children⟩).Makes registry
      ((Visit.mk above ⟨place, .assign, children⟩).registrations context.file)
      fun _ _ => True := by
  obtain ⟨word, htext, hword⟩ :=
    (lexed_of_target? ⟨place, .assign, children⟩ hlegible htarget).instanceVariable hkind
  have hcontribution : (Visit.mk above ⟨place, .assign, children⟩).declared =
      declareVariable above target := by
    have hnode : (Node.mk .assign children).site.target? = some target := htarget
    simp [Visit.declared, Visit.node, contribution, hnode]
  unfold defineInstanceVariable
  rw [htarget]
  dsimp only
  cases henclosing : enclosingReceiver? above with
  | none =>
    -- directly in a namespace body the variable is not recorded
    have hreceiver : context.receiver = .theNamespace := by rw [hagrees.receiver, henclosing]; rfl
    have hdeclared : declareVariable above target = [] := by
      simp [declareVariable, hkind, henclosing]
    rw [hdeclared] at hcontribution
    rw [hreceiver, Visit.registrations_of_declared_eq_nil hcontribution]
    refine Makes.bind_read ?_
    rw [hagrees.isMethod_owner, henclosing]
    exact Makes.pure hsound trivial
  | some receiver =>
    have hreceiver : context.receiver = receiver := by rw [hagrees.receiver, henclosing]; rfl
    rw [hreceiver, Visit.registrations, Visit.defined?, hcontribution]
    cases receiver with
    | anInstance =>
      have hdeclared : declareVariable above target =
          [declare (enclosingPath above) namespaceSeparator .instanceVariable target.text] := by
        simp [declareVariable, hkind, henclosing]
      rw [hdeclared]
      exact defineVariable_makes hsound hagrees _ (fun _ => rfl) (by decide) ⟨word, htext, hword⟩
    | theNamespace =>
      have hdeclared : declareVariable above target =
          [declare (enclosingPath above) namespaceSeparator .classVariable
            (classVariableName target.text)] := by
        simp [declareVariable, hkind, henclosing]
      rw [hdeclared]
      refine Makes.bind_read ?_
      rw [hagrees.isMethod_owner, henclosing]
      -- the variable belongs to the namespace, so it is recorded as one of the class
      refine defineVariable_makes hsound hagrees _ (fun _ => rfl) (by decide)
        ⟨word, ?_, hword⟩
      rw [htext, classVariableName_sigil hword]

/-- Class variables are declared everywhere. -/
theorem defineClassVariable_makes {target : Token}
    (htarget : (Site.mk place .assign children).target? = some target)
    (hkind : target.kind = .classVariable) :
    (defineClassVariable context ⟨place, .assign, children⟩).Makes registry
      ((Visit.mk above ⟨place, .assign, children⟩).registrations context.file)
      fun _ _ => True := by
  have hname :=
    (lexed_of_target? ⟨place, .assign, children⟩ hlegible htarget).classVariable hkind
  have hdeclared : (Visit.mk above ⟨place, .assign, children⟩).declared =
      [declare (enclosingPath above) namespaceSeparator .classVariable target.text] := by
    have hnode : (Node.mk .assign children).site.target? = some target := htarget
    simp [Visit.declared, Visit.node, contribution, hnode, declareVariable, hkind]
  unfold defineClassVariable
  rw [htarget, Visit.registrations, Visit.defined?, hdeclared]
  exact defineVariable_makes hsound hagrees _ (fun _ => rfl) (by decide) hname

/-! ## Visits -/

omit hlegible in
/-- A node of a kind without rules, which is looked into or passed over. -/
theorem visit_makes_of_rulesFor_eq_nil (hrules : rulesFor kind = [])
    (hcontribution : contribution above ⟨kind, children⟩ = [])
    (hdefinition : kind.isDefinition = false) (hwalks : walksThrough kind = isTransparent kind)
    (hclosed : opensBody above ⟨kind, children⟩ = false) :
    (visit context ⟨place, kind, children⟩).Makes registry
      ((Visit.mk above ⟨place, kind, children⟩).registrations context.file)
      (Entered context.file ⟨above, ⟨place, kind, children⟩⟩) := by
  have hdeclared : (Visit.mk above ⟨place, kind, children⟩).declared = [] := hcontribution
  rw [Visit.registrations_of_declared_eq_nil hdeclared,
    visit_of_rulesFor_eq_nil context ⟨place, kind, children⟩ hrules]
  cases htransparent : isTransparent kind with
  | true =>
    have hwalked : walksThrough kind = true := hwalks.trans htransparent
    rw [if_pos hwalked]
    refine Makes.pure hsound ⟨?_, rfl, hagrees.inside hdefinition children⟩
    rw [hdefinition, if_neg Bool.false_ne_true]
    exact htransparent
  | false =>
    have hpassed : walksThrough kind = false := hwalks.trans htransparent
    rw [hpassed, if_neg Bool.false_ne_true]
    exact Makes.pure hsound ⟨hclosed, htransparent⟩

/-- A module or class, which is passed over inside methods. -/
theorem visit_makes_namespace (flavor : Flavor) (definition : Definition)
    (hkind : kind = .moduleDef ∨ kind = .classDef)
    (hrules : rulesFor kind = [⟨kind, some .inNamespace, definition⟩])
    (hdefine : define context ⟨place, kind, children⟩ definition =
      defineNamespace flavor context ⟨place, kind, children⟩)
    (hflavor : ∀ defined, (Visit.mk above ⟨place, kind, children⟩).details defined =
      .newNamespace flavor) :
    (visit context ⟨place, kind, children⟩).Makes registry
      ((Visit.mk above ⟨place, kind, children⟩).registrations context.file)
      (Entered context.file ⟨above, ⟨place, kind, children⟩⟩) := by
  unfold visit
  dsimp only
  rw [hrules]
  refine Makes.bind_read ?_
  have happlies : Rule.applies registry context ⟨place, kind, children⟩
      ⟨kind, some .inNamespace, definition⟩ = (enclosingReceiver? above).isNone :=
    hagrees.isNamespace_owner
  rw [List.find?_cons, happlies]
  cases hreceiver : enclosingReceiver? above with
  | none =>
    dsimp only [Option.isNone]
    rw [hdefine]
    exact defineNamespace_makes hsound hagrees hlegible flavor hkind hflavor hreceiver
  | some receiver =>
    -- inside a method the rule does not apply, and no other rule is there
    dsimp only [Option.isNone, List.find?_nil]
    rw [if_neg (by rcases hkind with rfl | rfl <;> decide)]
    refine makes_of_unnamed hsound context.file
      (isDefinition_of_namespace ⟨kind, children⟩ hkind) ?_ ?_
    · rw [contribution_of_namespace above ⟨kind, children⟩ hkind, hreceiver]
    · rw [opensBody_of_namespace above ⟨kind, children⟩ hkind, hreceiver]
      rfl

/-- An assignment, whose value is looked into in any case. -/
theorem visit_makes_assign :
    (visit context ⟨place, .assign, children⟩).Makes registry
      ((Visit.mk above ⟨place, .assign, children⟩).registrations context.file)
      (Entered context.file ⟨above, ⟨place, .assign, children⟩⟩) := by
  have hentered : ∀ changed, registry.Extends changed →
      Entered context.file ⟨above, ⟨place, .assign, children⟩⟩ (some context) changed :=
    fun changed hextends => ⟨rfl, rfl, (hagrees.mono hextends).inside rfl children⟩
  unfold visit
  have hrules : rulesFor .assign =
      [⟨.assign, some (.assignsTo .instanceVariable), .instanceVariable⟩,
        ⟨.assign, some (.assignsTo .classVariable), .classVariable⟩] := rfl
  dsimp only
  rw [hrules]
  refine Makes.bind_read ?_
  simp only [List.find?_cons, List.find?_nil, Rule.applies, Option.all_some, Guard.holds]
  cases htarget : (Site.mk place .assign children).target? with
  | none =>
    have hdeclared : (Visit.mk above ⟨place, .assign, children⟩).declared = [] := by
      have hnode : (Node.mk .assign children).site.target? = none := htarget
      simp [Visit.declared, Visit.node, contribution, hnode]
    rw [Visit.registrations_of_declared_eq_nil hdeclared]
    exact Makes.pure hsound (hentered registry (.refl registry))
  | some target =>
    by_cases hinstance : target.kind = .instanceVariable
    · simp only [Option.map_some, hinstance, beq_self_eq_true]
      exact (defineInstanceVariable_makes hsound hagrees hlegible htarget hinstance).bind_pure
        fun _ changed hrecords _ => hentered changed hrecords.extending
    · by_cases hclass : target.kind = .classVariable
      · simp only [Option.map_some, hclass, beq_self_eq_true]
        exact (defineClassVariable_makes hsound hagrees hlegible htarget hclass).bind_pure
          fun _ changed hrecords _ => hentered changed hrecords.extending
      · -- variables of other kinds are not recorded
        have hdeclared : (Visit.mk above ⟨place, .assign, children⟩).declared = [] := by
          have hnode : (Node.mk .assign children).site.target? = some target := htarget
          have hnone : declareVariable above target = [] := by
            cases hkind : target.kind <;> simp_all [declareVariable]
          simp [Visit.declared, Visit.node, contribution, hnode, hnone]
        have hfirst : (some target.kind == some TokenKind.instanceVariable) = false := by
          simpa using hinstance
        have hsecond : (some target.kind == some TokenKind.classVariable) = false := by
          simpa using hclass
        simp only [Option.map_some, hfirst, hsecond]
        rw [Visit.registrations_of_declared_eq_nil hdeclared]
        exact Makes.pure hsound (hentered registry (.refl registry))

/-- **The step at one node.** -/
theorem visit_makes :
    (visit context ⟨place, kind, children⟩).Makes registry
      ((Visit.mk above ⟨place, kind, children⟩).registrations context.file)
      (Entered context.file ⟨above, ⟨place, kind, children⟩⟩) := by
  cases kind with
  | moduleDef =>
    exact visit_makes_namespace hsound hagrees hlegible .moduleFlavor .moduleDef (.inl rfl) rfl rfl
      fun _ => rfl
  | classDef =>
    exact visit_makes_namespace hsound hagrees hlegible .classFlavor .classDef (.inr rfl) rfl rfl
      fun _ => rfl
  | methodDef => exact Makes.bind_read (defineMethod_makes hsound hagrees hlegible)
  | assign => exact visit_makes_assign hsound hagrees hlegible
  | _ => exact visit_makes_of_rulesFor_eq_nil hsound hagrees rfl rfl rfl rfl rfl

end

/-! ## Trees -/

mutual

/-- **A tree is indexed as it is walked**: in a context that agrees with the nodes above it, the
requests are those of its visits. -/
theorem indexTree_makes {registry : Registry} {context : Context} {place : Place}
    {above : List Node} (hsound : registry.Sound) (hagrees : Agrees registry context place above)
    (tree : Tree) (hlegible : tree.EveryNode Legible) :
    (indexTree context place tree).Makes registry
      ((visitsFrom place above tree).flatMap (Visit.registrations context.file))
      fun _ _ => True := by
  cases tree with
  | leaf token => exact Makes.pure hsound trivial
  | node kind children =>
    rw [indexTree, visitsFrom, List.flatMap_cons]
    refine (visit_makes hsound hagrees hlegible.2).bind ?_
    intro entered changed hrecords hentered
    cases entered with
    | none =>
      obtain ⟨hclosed, hopaque⟩ := hentered
      have hclosed : opensBody above ⟨kind, children⟩ = false := hclosed
      have hopaque : isTransparent kind = false := hopaque
      rw [hclosed, hopaque, if_neg Bool.false_ne_true, if_neg Bool.false_ne_true]
      exact Makes.pure hrecords.sound trivial
    | some inner =>
      obtain ⟨hinto, hfile, hinner⟩ := hentered
      rw [← hfile]
      dsimp only at hinto ⊢
      cases hkind : kind.isDefinition with
      | true =>
        -- of the children of a definition only its body is looked into
        have hinto : opensBody above ⟨kind, children⟩ = true := by
          rw [hkind, if_pos rfl] at hinto
          exact hinto
        rw [if_pos rfl, if_pos hinto]
        exact indexBody_makes hrecords.sound hinner children hlegible.2
      | false =>
        rw [hkind, if_neg Bool.false_ne_true] at hinto
        rw [if_neg Bool.false_ne_true, opensBody_of_not_isDefinition above hkind,
          if_neg Bool.false_ne_true, if_pos hinto]
        exact indexTrees_makes hrecords.sound hinner children hlegible.2

/-- The body of a definition. -/
theorem indexBody_makes {registry : Registry} {context : Context} {place : Place}
    {above : List Node} (hsound : registry.Sound) (hagrees : Agrees registry context place above)
    (trees : List Tree) (hlegible : Tree.EveryNodeOf Legible trees) :
    (indexBody context place trees).Makes registry
      ((visitsInBody place above trees).flatMap (Visit.registrations context.file))
      fun _ _ => True := by
  cases trees with
  | nil => exact Makes.pure hsound trivial
  | cons tree rest =>
    rw [indexBody, visitsInBody]
    split
    · exact indexTree_makes hsound hagrees tree hlegible.1
    · -- the header before the body is passed over
      exact indexBody_makes hsound (hagrees.after tree) rest hlegible.2

/-- Neighbouring trees. -/
theorem indexTrees_makes {registry : Registry} {context : Context} {place : Place}
    {above : List Node} (hsound : registry.Sound) (hagrees : Agrees registry context place above)
    (trees : List Tree) (hlegible : Tree.EveryNodeOf Legible trees) :
    (indexTrees context place trees).Makes registry
      ((visitsOf place above trees).flatMap (Visit.registrations context.file))
      fun _ _ => True := by
  cases trees with
  | nil => exact Makes.pure hsound trivial
  | cons tree rest =>
    rw [indexTrees, visitsOf, List.flatMap_append]
    exact (indexTree_makes hsound hagrees tree hlegible.1).bind fun _ changed hrecords _ =>
      indexTrees_makes hrecords.sound ((hagrees.mono hrecords.extending).after tree) rest
        hlegible.2

end

/-! ## Texts -/

/-- **What a text requests**: the requests of its visits, in their order. -/
def registrations (file source : String) : List Registration :=
  (visits (parse source).tree).flatMap (Visit.registrations file)

/-- The requests of a text are for what its tree declares. -/
theorem map_declaration_registrations (file source : String) :
    (registrations file source).map (·.declaration) = declarations (parse source).tree := by
  rw [registrations, List.map_flatMap, declarations_eq_flatMap_visits]
  exact List.flatMap_congr fun visit _ => visit.map_declaration_registrations file

/-- **A text is indexed as its tree is walked**, or meets a clash at the top level. -/
theorem indexSource_makes {registry : Registry} (hsound : registry.Sound) (file source : String) :
    (indexSource file source).Makes registry (registrations file source) fun _ _ => True := by
  have hlegible : Tree.EveryNodeOf Legible (parse source).tree.children :=
    (everyNode_parse source).2
  refine (enterFile_makes hsound file (parse source).tree.children).bind ?_
  rintro context entered hrecords ⟨rfl, hagrees⟩
  exact (indexTrees_makes hrecords.sound hagrees _ hlegible).bind_pure fun _ _ _ _ => trivial

/-- What is said where a text is refused: the registry stays sound, and names meet at the top
level. -/
def Refused (error : RegistryError) (changed : Registry) : Prop :=
  changed.Sound ∧ TopLevelClash changed error

/-- **A text is indexed as its tree declares**, or meets a clash at the top level. -/
theorem indexSource_yields {registry : Registry} (hsound : registry.Sound) (file source : String) :
    (indexSource file source).Yields registry
      (fun _ changed => registry.Grows changed (declarations (parse source).tree)) Refused := by
  rw [← map_declaration_registrations file source]
  refine Yields.mono (indexSource_makes hsound file source) ?_ ?_
  · exact fun _ changed hdone => hdone.1.toGrows
  · rintro error changed ⟨hclash, part, -, -, hrecords, -⟩
    exact ⟨hrecords.sound, hclash⟩

end RubyIndex.Indexing
