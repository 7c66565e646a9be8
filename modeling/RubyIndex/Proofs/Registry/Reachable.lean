import RubyIndex.Proofs.Indexing.Preservation
import RubyIndex.Proofs.Registry.WellFormed

/-! # Reachable registries

A registry is reachable if requests lead to it from the empty one. Refused requests count: what
a merge or an indexed text changed before the refusal stays.

* `Registry.Reachable` lists the requests.
* `Registry.Consistent` says how the objects, the path index and the lists of children of a
  registry fit together, and `Registry.Reachable.consistent` that they always do. -/

namespace RubyIndex

open Edit

/-! ## Well-formedness under requests -/

namespace Registry

/-- A registration keeps a registry well-formed if its initialisation revises. -/
theorem keeps_registerWith (owner : ObjectId) (name : String) (details : Details)
    {init : CodeObject → CodeObject} (hinit : RevisesOnly init) :
    Keeps WellFormed
      (Edit.attempt fun registry => registry.registerWith owner name details init) :=
  Keeps.attempt fun _ _ _ hwell hok => hwell.registerWith hinit hok

/-- The two requests that indexing makes keep a registry well-formed. -/
theorem stableUnderRequests_wellFormed : Indexing.StableUnderRequests WellFormed where
  register owner name details revision :=
    keeps_registerWith owner name details revision.revisesOnly_apply
  newLocalScope _ _ _ := Keeps.attempt fun _ _ _ hwell hok => hwell.newLocalScope hok

/-- A merge keeps a registry well-formed, whatever the other registry is like. -/
theorem keeps_wellFormed_merge (other : Registry) : Keeps WellFormed (Edit.merge other) :=
  keeps_merge fun _ _ _ _ _ hwell _ hok => hwell.copyObject hok

/-! ## Sequences of requests -/

/-- **Reachable registries.** The registries that requests leave, made or refused, in any
sequence that starts with the empty registry. -/
inductive Reachable : Registry → Prop where
  | empty : Reachable .empty
  /-- A registration whose initialisation revises. -/
  | registerWith {registry : Registry} (owner : ObjectId) (name : String) (details : Details)
      {init : CodeObject → CodeObject} (hinit : RevisesOnly init) (hreach : Reachable registry) :
      Reachable ((Edit.attempt fun registry =>
        registry.registerWith owner name details init).apply registry).2
  | newLocalScope {registry : Registry} (owner : ObjectId) (name : Option String)
      (anchor : ScopeAnchor) (hreach : Reachable registry) :
      Reachable ((Edit.newLocalScope owner name anchor).apply registry).2
  | merge {registry other : Registry} (hreach : Reachable registry) (hother : Reachable other) :
      Reachable ((Edit.merge other).apply registry).2
  | indexSource {registry : Registry} (file source : String) (hreach : Reachable registry) :
      Reachable ((Indexing.indexSource file source).apply registry).2
  | clear {registry : Registry} (hreach : Reachable registry) : Reachable registry.clear

/-- Reachable registries are well-formed. -/
theorem Reachable.wellFormed {registry : Registry} (hreach : Reachable registry) :
    WellFormed registry := by
  induction hreach with
  | empty => exact wellFormed_empty
  | registerWith owner name details hinit _ ih =>
    exact (keeps_registerWith owner name details hinit _ ih).leaves
  | newLocalScope owner name anchor _ ih =>
    exact (stableUnderRequests_wellFormed.newLocalScope owner name anchor _ ih).leaves
  | merge _ _ ih _ => exact (keeps_wellFormed_merge _ _ ih).leaves
  | indexSource file source _ ih =>
    exact (Indexing.keeps_indexSource stableUnderRequests_wellFormed file source _ ih).leaves
  | clear _ _ => exact wellFormed_empty

/-! ## Consistency -/

/-- **A consistent registry.** The objects form one tree under the root; the path index and the
lists of children describe the same tree. -/
structure Consistent (registry : Registry) : Prop where
  /-- Object 0 is a namespace with the empty path. -/
  root : ∃ object, registry.get? .root = some object ∧ object.isNamespace = true ∧
    object.path = ""
  /-- Object 0 alone has no owner. -/
  isRoot_iff : ∀ id object, registry.get? id = some object → (object.isRoot = true ↔ id = .root)
  /-- A path leads to the one object with this path, among all objects but the root. -/
  lookup?_iff : ∀ path id, registry.lookup? path = some id ↔
    id ≠ .root ∧ ∃ object, registry.get? id = some object ∧ object.path = path
  /-- The path index lists all objects but the root, in order of registration. -/
  ids : registry.index.ids = (List.range' 1 (registry.objects.size - 1)).map ObjectId.mk
  /-- Every object but the root has an owner: an earlier namespace, from which it has its path,
  which lists it among its children once, and which alone does so. -/
  owned : ∀ id object, registry.get? id = some object → id ≠ .root →
    ∃ owner parent, object.owner = some owner ∧ registry.get? owner = some parent ∧
      owner.index < id.index ∧ parent.isNamespace = true ∧
      object.path = joinPath parent.path object.details.separator object.name ∧
      parent.children.count id = 1 ∧
      ∀ other holder, registry.get? other = some holder → id ∈ holder.children → other = owner
  /-- Children are listed in increasing order. -/
  increasing : ∀ id object, registry.get? id = some object →
    object.children.Pairwise fun first second => first.index < second.index
  /-- The search for the nearest namespace around an object ends, and ends with its owner, which
  the root does not have. -/
  parentModule_iff : ∀ id object, registry.get? id = some object →
    ∀ result, registry.ParentModule id result ↔ result = object.owner
  /-- `parentModule?` finds what the search ends with. -/
  parentModule?_eq : ∀ id object, registry.get? id = some object →
    registry.parentModule? id = object.owner

/-- A well-formed registry is consistent. -/
theorem WellFormed.toConsistent {registry : Registry} (hwell : WellFormed registry) :
    Consistent registry := by
  refine ⟨?_, ?_, ?_, hwell.ids, ?_, fun id object => hwell.increasing, ?_, ?_⟩
  · obtain ⟨object, hget, -, hpath, hnamespace⟩ := hwell.root
    exact ⟨object, hget, hnamespace, hpath⟩
  · intro id object hget
    constructor
    · -- any object but the root has an owner
      intro hroot
      by_cases hne : id = .root
      · exact hne
      · obtain ⟨owner, parent, howner, -⟩ := hwell.owned hget hne
        simp [CodeObject.isRoot, howner] at hroot
    · rintro rfl
      obtain ⟨root, hroot, hnone, -⟩ := hwell.root
      obtain rfl := Option.some.inj (hroot.symm.trans hget)
      simp [CodeObject.isRoot, hnone]
  · intro path id
    rw [hwell.lookup?_eq_some_iff, Option.map_eq_some_iff]
  · intro id object hget hne
    obtain ⟨owner, parent, howner, hparent, hlt, hnamespace, hpath⟩ := hwell.owned hget hne
    have hchild : ∀ other, (registry.get? id).bind (·.owner) = some other ↔ other = owner := by
      intro other
      rw [hget, Option.bind_some, howner, Option.some.injEq, eq_comm]
    refine ⟨owner, parent, howner, hparent, hlt, hnamespace, hpath, ?_, ?_⟩
    · -- increasing lists have no repetitions
      have hnodup : parent.children.Nodup := by
        refine (hwell.increasing hparent).imp ?_
        rintro first _ hless rfl
        exact Nat.lt_irrefl _ hless
      rw [hnodup.count, if_pos ((hwell.children hparent id).2 ((hchild owner).2 rfl))]
    · intro other holder hholder hmem
      exact (hchild other).1 ((hwell.children hholder id).1 hmem)
  · intro id object hget result
    rw [hwell.parentModule_iff, hget, Option.bind_some]
  · intro id object hget
    rw [hwell.parentModule?_eq, hget, Option.bind_some]

/-- **Consistency.** No sequence of requests, made or refused, brings the objects of a registry,
its path index and its lists of children out of step. -/
theorem Reachable.consistent {registry : Registry} (hreach : Reachable registry) :
    Consistent registry := hreach.wellFormed.toConsistent

/-- A text whose class meets a method of its name, merged into a registry that has the class. -/
theorem consistent_after_refusals :
    Consistent ((Edit.merge ((Indexing.indexSource "a.rb" "def A\nend\nclass A\nend\n").apply
        .empty).2).apply ((Edit.attempt fun registry =>
          registry.registerWith .root "A" (.newNamespace .classFlavor) id).apply .empty).2).2 :=
  Reachable.consistent
    (.merge (.registerWith .root "A" (.newNamespace .classFlavor) (fun _ => rfl) .empty)
      (.indexSource "a.rb" "def A\nend\nclass A\nend\n" .empty))

end Registry

end RubyIndex
