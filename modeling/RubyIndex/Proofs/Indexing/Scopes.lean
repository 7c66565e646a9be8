import RubyIndex.Proofs.Indexing.Built
import RubyIndex.Proofs.Registry.ScopePaths

/-! # Local scopes of texts

Indexing creates a local scope for every body that it enters. That of a file hangs off the root,
that of a module or class off the module or class, and that of a method off the scope of the body
around, which the same namespace has named.

* `Edit.TendsScopes` is the guarantee of an edit that keeps scopes in agreement.
* `Situated` contexts have a scope that the enclosing namespace has named.
* `visit_tendsScopes` is the step at one node, `indexTree_tendsScopes` the induction over trees.
* `Registry.Built.scopeTree` is the result for registries that are built from texts. -/

namespace RubyIndex

open Syntax Indexing Registry

/-! ## Edits -/

namespace Edit

variable {α β : Type} {registry : Registry} {after : α → Registry → Prop}

/-- **The guarantee about local scopes.** An edit leaves scopes that agree, even where it is
refused, and takes none away. -/
def TendsScopes (edit : Edit α) (registry : Registry) (after : α → Registry → Prop) : Prop :=
  edit.Yields registry
    (fun value changed => changed.Scoped ∧ registry.KeepsScopes changed ∧ after value changed)
    fun _ changed => changed.Scoped

namespace TendsScopes

theorem pure {value : α} (hscoped : registry.Scoped) (hafter : after value registry) :
    (Pure.pure value : Edit α).TendsScopes registry after :=
  Yields.pure ⟨hscoped, .refl registry, hafter⟩

/-- **Sequences.** -/
theorem bind {edit : Edit α} {next : α → Edit β} {middle : α → Registry → Prop}
    {after : β → Registry → Prop} (hedit : edit.TendsScopes registry middle)
    (hnext : ∀ value changed, changed.Scoped → registry.KeepsScopes changed →
      middle value changed → (next value).TendsScopes changed after) :
    (edit >>= next).TendsScopes registry after := by
  refine Yields.bind hedit ?_
  rintro value changed ⟨hscoped, hkeeps, hmiddle⟩
  refine (hnext value changed hscoped hkeeps hmiddle).mono ?_ fun _ _ hrefused => hrefused
  rintro result final ⟨hfinal, hlater, hresult⟩
  exact ⟨hfinal, hkeeps.trans hlater, hresult⟩

/-- A sequence that ends with a value. -/
theorem bind_pure {edit : Edit α} {next : α → β} {middle : α → Registry → Prop}
    {after : β → Registry → Prop} (hedit : edit.TendsScopes registry middle)
    (hnext : ∀ value changed, registry.KeepsScopes changed → middle value changed →
      after (next value) changed) :
    (edit >>= fun value => Pure.pure (next value)).TendsScopes registry after :=
  hedit.bind fun value changed hscoped hkeeps hmiddle =>
    pure hscoped (hnext value changed hkeeps hmiddle)

/-- What follows a reading. -/
theorem bind_read {next : Registry → Edit α} (hnext : (next registry).TendsScopes registry after) :
    (Edit.read >>= next).TendsScopes registry after := Yields.bind_read hnext

end TendsScopes

variable (hscoped : registry.Scoped)

include hscoped

/-- A registration of an object that has named no scopes. -/
theorem register_tendsScopes (owner : ObjectId) (name : String) {details : Details}
    (hdetails : details.withoutScopes = details) (revision : Revision) :
    (register owner name details revision).TendsScopes registry fun _ _ => True :=
  Yields.attempt
    (fun _ _ hok => ⟨hscoped.registerWith revision.revisesOnly_apply hdetails hok,
      .registerWith revision.revisesOnly_apply hok, trivial⟩)
    fun _ _ => hscoped

/-- A new local scope that hangs where it has to. -/
theorem newLocalScope_tendsScopes {owner : ObjectId} {name : Option String} {anchor : ScopeAnchor}
    (hhangs : registry.Hangs owner (name.getD "") anchor) :
    (newLocalScope owner name anchor).TendsScopes registry
      fun scope changed => changed.HasNamed owner scope := by
  refine Yields.attempt (fun scope changed hok => ?_) fun _ _ => hscoped
  obtain ⟨rfl, hgains⟩ := gainsScope_of_newLocalScope hok
  exact ⟨hscoped.gainsScope hhangs hgains, hgains.keeps, hgains.hasNamed⟩

end Edit

namespace Indexing

open Edit

variable {registry changed : Registry} {context : Context}

/-! ## Contexts -/

/-- **A situated context.** Its local scope is one that the enclosing namespace has named. -/
def Situated (registry : Registry) (context : Context) : Prop :=
  registry.HasNamed context.enclosing context.scope

/-- Contexts stay situated. -/
theorem Situated.mono (hsituated : Situated registry context)
    (hkeeps : registry.KeepsScopes changed) : Situated changed context :=
  hkeeps.hasNamed hsituated

/-- What is entered, if anything is, is situated. -/
def Opens (entered : Option Context) (changed : Registry) : Prop :=
  ∀ inner, entered = some inner → Situated changed inner

theorem opens_none (changed : Registry) : Opens none changed := fun _ hnone => nomatch hnone

theorem Situated.opens (hsituated : Situated changed context) : Opens (some context) changed := by
  rintro inner ⟨⟩
  exact hsituated

/-! ## Definitions -/

section

variable (hscoped : registry.Scoped)

include hscoped

/-- The top level of a file. -/
theorem enterFile_tendsScopes (file : String) :
    (Context.enterFile file).TendsScopes registry
      fun context changed => Situated changed context :=
  (newLocalScope_tendsScopes hscoped .offNamespace).bind_pure fun _ _ _ hnamed => hnamed

/-- The body of a namespace. -/
theorem enterNamespace_tendsScopes (context : Context) (entered : ObjectId) :
    (context.enterNamespace entered).TendsScopes registry
      fun inner changed => Situated changed inner :=
  (newLocalScope_tendsScopes hscoped .offNamespace).bind_pure fun _ _ _ hnamed => hnamed

/-- The body of a method. Its scope hangs off the scope of the context. -/
theorem enterMethod_tendsScopes (hsituated : Situated registry context) {name : String}
    (hname : IsMethodName name) (method : ObjectId) (receiver : Receiver) :
    (context.enterMethod method name receiver).TendsScopes registry
      fun inner changed => Situated changed inner := by
  have hhangs : registry.Hangs context.enclosing ((some name).getD "") (.scope context.scope) :=
    .offScope hname hsituated
  exact (newLocalScope_tendsScopes hscoped hhangs).bind_pure fun _ _ _ hnamed => hnamed

theorem registerQualifiers_tendsScopes (parent : ObjectId) (segments : List String) :
    (registerQualifiers parent segments).TendsScopes registry fun _ _ => True := by
  induction segments generalizing registry parent with
  | nil => exact .pure hscoped trivial
  | cons segment rest ih =>
    exact (register_tendsScopes hscoped parent segment rfl {}).bind
      fun entered _ hchanged _ _ => ih hchanged entered

theorem defineNamespace_tendsScopes (flavor : Flavor) (context : Context) (site : Site) :
    (defineNamespace flavor context site).TendsScopes registry Opens := by
  unfold defineNamespace
  split
  · exact .pure hscoped (opens_none registry)
  · split
    · exact .pure hscoped (opens_none registry)
    · refine (registerQualifiers_tendsScopes hscoped _ _).bind fun parent _ hqualified _ _ => ?_
      refine (register_tendsScopes hqualified parent _ rfl _).bind fun entered _ hdefined _ _ => ?_
      exact (enterNamespace_tendsScopes hdefined context entered).bind_pure
        fun inner _ _ hinner => hinner.opens

theorem defineVariable_tendsScopes (name : String) {details : String → Details}
    (hdetails : ∀ value, (details value).withoutScopes = details value) (context : Context)
    (site : Site) : (defineVariable name details context site).TendsScopes registry
      fun _ _ => True :=
  (register_tendsScopes hscoped context.enclosing name (hdetails _) _).bind_pure
    fun _ _ _ _ => trivial

theorem defineInstanceVariable_tendsScopes (context : Context) (site : Site) :
    (defineInstanceVariable context site).TendsScopes registry fun _ _ => True := by
  unfold defineInstanceVariable
  split
  · exact .pure hscoped trivial
  · split
    · exact defineVariable_tendsScopes hscoped _ (fun _ => rfl) context site
    · refine TendsScopes.bind_read ?_
      split
      · exact defineVariable_tendsScopes hscoped _ (fun _ => rfl) context site
      · exact .pure hscoped trivial

theorem defineClassVariable_tendsScopes (context : Context) (site : Site) :
    (defineClassVariable context site).TendsScopes registry fun _ _ => True := by
  unfold defineClassVariable
  split
  · exact .pure hscoped trivial
  · exact defineVariable_tendsScopes hscoped _ (fun _ => rfl) context site

/-! ## Visits -/

variable (hsituated : Situated registry context) {site : Site}
  (hlegible : Tree.EveryNodeOf Legible site.children)

include hsituated hlegible

theorem defineMethod_tendsScopes :
    (defineMethod context site).TendsScopes registry Opens := by
  unfold defineMethod
  split
  · exact .pure hscoped (opens_none registry)
  · rename_i name hname
    refine (register_tendsScopes hscoped context.enclosing name rfl _).bind
      fun method changed hdefined hkeeps _ => ?_
    exact (enterMethod_tendsScopes hdefined (hsituated.mono hkeeps)
      (names_of_methodName? site hlegible hname) method _).bind_pure
        fun inner _ _ hinner => hinner.opens

theorem define_tendsScopes (definition : Definition) :
    (define context site definition).TendsScopes registry Opens := by
  cases definition with
  | moduleDef => exact defineNamespace_tendsScopes hscoped .moduleFlavor context site
  | classDef => exact defineNamespace_tendsScopes hscoped .classFlavor context site
  | methodDef => exact defineMethod_tendsScopes hscoped hsituated hlegible
  | instanceVariable =>
    exact (defineInstanceVariable_tendsScopes hscoped context site).bind_pure
      fun _ _ hkeeps _ => (hsituated.mono hkeeps).opens
  | classVariable =>
    exact (defineClassVariable_tendsScopes hscoped context site).bind_pure
      fun _ _ hkeeps _ => (hsituated.mono hkeeps).opens

/-- **The step at one node.** -/
theorem visit_tendsScopes : (visit context site).TendsScopes registry Opens := by
  unfold visit
  split
  · refine .pure hscoped ?_
    split
    · exact hsituated.opens
    · exact opens_none registry
  · refine TendsScopes.bind_read ?_
    split
    · exact define_tendsScopes hscoped hsituated hlegible _
    · refine .pure hscoped ?_
      split
      · exact hsituated.opens
      · exact opens_none registry

end

/-! ## Trees and texts -/

mutual

/-- A tree is indexed by visits of its nodes. -/
theorem indexTree_tendsScopes {registry : Registry} {context : Context}
    (hscoped : registry.Scoped) (hsituated : Situated registry context) (place : Place)
    (tree : Tree) (hlegible : tree.EveryNode Legible) :
    (indexTree context place tree).TendsScopes registry fun _ _ => True := by
  cases tree with
  | leaf token => exact .pure hscoped trivial
  | node kind children =>
    rw [indexTree]
    refine (visit_tendsScopes hscoped hsituated hlegible.2).bind
      fun entered changed hvisited _ hopens => ?_
    cases entered with
    | none => exact .pure hvisited trivial
    | some inner =>
      have hinner := hopens inner rfl
      show (if kind.isDefinition then _ else _ : Edit Unit).TendsScopes changed _
      split
      · exact indexBody_tendsScopes hvisited hinner _ children hlegible.2
      · exact indexTrees_tendsScopes hvisited hinner _ children hlegible.2

/-- The body of a definition. -/
theorem indexBody_tendsScopes {registry : Registry} {context : Context}
    (hscoped : registry.Scoped) (hsituated : Situated registry context) (place : Place)
    (trees : List Tree) (hlegible : Tree.EveryNodeOf Legible trees) :
    (indexBody context place trees).TendsScopes registry fun _ _ => True := by
  cases trees with
  | nil => exact .pure hscoped trivial
  | cons tree rest =>
    rw [indexBody]
    split
    · exact indexTree_tendsScopes hscoped hsituated place tree hlegible.1
    · exact indexBody_tendsScopes hscoped hsituated _ rest hlegible.2

/-- Neighbouring trees. -/
theorem indexTrees_tendsScopes {registry : Registry} {context : Context}
    (hscoped : registry.Scoped) (hsituated : Situated registry context) (place : Place)
    (trees : List Tree) (hlegible : Tree.EveryNodeOf Legible trees) :
    (indexTrees context place trees).TendsScopes registry fun _ _ => True := by
  cases trees with
  | nil => exact .pure hscoped trivial
  | cons tree rest =>
    rw [indexTrees]
    exact (indexTree_tendsScopes hscoped hsituated place tree hlegible.1).bind
      fun _ _ hindexed hkeeps _ =>
        indexTrees_tendsScopes hindexed (hsituated.mono hkeeps) _ rest hlegible.2

end

/-- **Indexing a text** keeps scopes in agreement. -/
theorem indexSource_tendsScopes {registry : Registry} (hscoped : registry.Scoped)
    (file source : String) :
    (indexSource file source).TendsScopes registry fun _ _ => True :=
  (enterFile_tendsScopes hscoped file).bind fun _ _ hentered _ hsituated =>
    (indexTrees_tendsScopes hentered hsituated .root _ (everyNode_parse source).2).bind_pure
      fun _ _ _ _ => trivial

end Indexing

/-! ## Built registries -/

namespace Registry

/-- In a built registry scopes agree with requests and children. -/
theorem Built.scoped {registry : Registry} (hbuilt : Built registry) : Scoped registry := by
  induction hbuilt with
  | empty => exact scoped_empty
  | indexSource file source _ ih =>
    refine ((indexSource_tendsScopes ih file source).mono ?_ ?_).leaves
    · exact fun _ _ hindexed => hindexed.1
    · exact fun _ _ hrefused => hrefused
  | merge _ _ ih _ =>
    exact (Edit.keeps_merge (fun _ _ _ _ _ hscoped _ hok => hscoped.copyObject hok) _ ih).leaves

/-- **Local scopes form a tree** in every registry that is built from texts: namespaces, scopes and
lists of children tell the same tree, and no two scopes have one path, whatever marks the names of
methods have in them. -/
theorem Built.scopeTree {registry : Registry} (hbuilt : Built registry) : ScopeTree registry :=
  hbuilt.scoped.toScopeTree hbuilt.sound

/-- A method with a `>` for its name. -/
theorem Built.scopeTree_operator :
    let registry := ((Indexing.indexSource "a.rb" "def >\nend").apply .empty).2
    ScopeTree registry ∧ registry.scopes.toList.map (·.name) = ["_local_0", ">_local_0"] := by
  intro registry
  exact ⟨Built.scopeTree (.indexSource "a.rb" "def >\nend" .empty), by decide +kernel⟩

end Registry

end RubyIndex
