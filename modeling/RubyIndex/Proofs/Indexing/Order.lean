import RubyIndex.Proofs.Indexing.Built
import RubyIndex.Proofs.Registry.Admission

/-! # The order in which texts are indexed

Two texts may be indexed one after the other or the other way round. Whether they are accepted
does not depend on the order, and neither does which paths are registered and with what kinds. The
order shows only in what is said at paths that both texts register, and in the numbers of objects.

* `Indexing.Registers` tells the paths that a text registers.
* `Registry.AgreeExcept` relates two registries that say the same except at some paths.
* `Registry.Records.agreeExcept` compares two lists of registrations with the same members.
* `Registry.Built.indexInTurn_comm` is the result for two texts. -/

namespace RubyIndex

open Syntax Indexing

/-! ## Registries that say the same -/

/-- Under an owner, the owner's path is read off the path of what it owns. -/
theorem joinPath_left_cancel {first second separator name : String} (hseparator : separator ≠ "")
    (hsame : joinPath first separator name = joinPath second separator name) : first = second := by
  -- the bare name is shorter than any name under a path
  have hlonger : ∀ owner : String, owner ++ separator ++ name ≠ name := by
    intro owner hbare
    have hlength := congrArg (fun path : String => path.toList.length) hbare
    simp only [String.toList_append, List.length_append] at hlength
    have hpositive : 0 < separator.toList.length :=
      List.length_pos_iff.2 fun hnil => hseparator (String.toList_eq_nil_iff.1 hnil)
    omega
  rw [joinPath_eq_ite, joinPath_eq_ite] at hsame
  split at hsame <;> split at hsame
  · rename_i hfirst hsecond
    rw [hfirst, hsecond]
  · exact absurd hsame.symm (hlonger second)
  · exact absurd hsame (hlonger first)
  · have hlists := congrArg String.toList hsame
    simp only [String.toList_append, List.append_assoc] at hlists
    exact String.toList_injective (List.append_cancel_right hlists)

theorem Details.separator_ne_empty (details : Details) : details.separator ≠ "" := by
  cases details with
  | method receiver _ => cases receiver <;> simp [separator, Receiver.separator]
  | «namespace» _ _ _ | instanceVariable _ | classVariable _ =>
    simp [separator, namespaceSeparator]

namespace Registry

/-- The path of the owner of an object, which the root does not have. -/
def ownerPath? (registry : Registry) (object : CodeObject) : Option String :=
  (object.owner.bind registry.get?).map (·.path)

/-- **Objects of two registries that say the same.** Only the numbers of their owners and children
may differ, and the local scopes that they have named. -/
structure SaysTheSame (first : Registry) (object : CodeObject) (second : Registry)
    (found : CodeObject) : Prop where
  name : found.name = object.name
  path : found.path = object.path
  owner : second.ownerPath? found = first.ownerPath? object
  origin : found.origin = object.origin
  docstring : found.docstring = object.docstring
  flavor : found.flavor? = object.flavor?
  superclass : found.superclass? = object.superclass?
  value : found.value? = object.value?
  signature : found.signature? = object.signature?
  receiver : found.receiver? = object.receiver?

/-- **Registries that agree except at some paths.** They have registered the same paths with the
same kinds, and their objects say the same where the paths are not disputed. -/
structure AgreeExcept (disputed : String → Prop) (first second : Registry) : Prop where
  kinds : ∀ path, first.kindAt? path = second.kindAt? path
  objects : ∀ {id object}, first.get? id = some object → ¬disputed object.path →
    ∃ other found, second.get? other = some found ∧ first.SaysTheSame object second found

variable {registry first second : Registry}

/-- Objects that are not the root have the path of an owner. -/
theorem Sound.exists_ownerPath? (hsound : Sound registry) {id : ObjectId} {object : CodeObject}
    (hget : registry.get? id = some object) (hne : id ≠ .root) :
    ∃ path, registry.ownerPath? object = some path ∧
      object.path = joinPath path object.details.separator object.name := by
  obtain ⟨owner, parent, howner, hparent, -, -, hpath⟩ := hsound.owned hget hne
  refine ⟨parent.path, ?_, hpath⟩
  rw [ownerPath?, howner, Option.bind_some, hparent, Option.map_some]

/-- Objects with one portrait say the same, if they have owners with the same path. -/
theorem SaysTheSame.of_portrait {object found : CodeObject}
    (hportrait : found.portrait = object.portrait)
    (howner : second.ownerPath? found = first.ownerPath? object) :
    first.SaysTheSame object second found where
  name := (congrArg CodeObject.name hportrait :)
  path := (congrArg CodeObject.path hportrait :)
  owner := howner
  origin := (congrArg CodeObject.origin hportrait :)
  docstring := (congrArg CodeObject.docstring hportrait :)
  flavor := by simpa using congrArg CodeObject.flavor? hportrait
  superclass := by simpa using congrArg CodeObject.superclass? hportrait
  value := by simpa using congrArg CodeObject.value? hportrait
  signature := by simpa using congrArg CodeObject.signature? hportrait
  receiver := by simpa using congrArg CodeObject.receiver? hportrait

/-- In sound registries, registered objects with one portrait say the same. -/
theorem Sound.saysTheSame (hfirst : Sound first) (hsecond : Sound second) {id other : ObjectId}
    {object found : CodeObject} (hget : first.get? id = some object) (hne : id ≠ .root)
    (hfound : second.get? other = some found) (hotherNe : other ≠ .root)
    (hportrait : found.portrait = object.portrait) : first.SaysTheSame object second found := by
  refine .of_portrait hportrait ?_
  obtain ⟨owner, howner, hpath⟩ := hfirst.exists_ownerPath? hget hne
  obtain ⟨otherOwner, hotherOwner, hotherPath⟩ := hsecond.exists_ownerPath? hfound hotherNe
  have hname : found.name = object.name := (congrArg CodeObject.name hportrait :)
  have hsamePath : found.path = object.path := (congrArg CodeObject.path hportrait :)
  have hseparator : found.details.separator = object.details.separator := by
    simpa using congrArg (·.details.separator) hportrait
  -- the paths, separators and names are the same, so the owners' paths are
  rw [hotherPath, hpath, hname, hseparator] at hsamePath
  rw [howner, hotherOwner, joinPath_left_cancel object.details.separator_ne_empty hsamePath]

/-! ## Two orders of the same registrations -/

/-- **Two orders.** Two lists with the same registrations lead to registries that agree, except at
paths where the registrations come in another order. -/
theorem Records.agreeExcept {made other : List Registration} {disputed : String → Prop}
    (hfirst : registry.Records first made) (hsecond : registry.Records second other)
    (hsame : ∀ registration, registration ∈ made ↔ registration ∈ other)
    (horder : ∀ path, ¬disputed path →
      made.filter (·.declaration.path == path) = other.filter (·.declaration.path == path)) :
    AgreeExcept disputed first second := by
  constructor
  · intro path
    refine Option.ext fun kind => ?_
    simp only [hfirst.kindAt?_eq_some_iff, hsecond.kindAt?_eq_some_iff, hsame]
  · intro id object hget hundisputed
    by_cases hroot : id = .root
    · -- the root stays what it is, whatever is registered
      subst hroot
      obtain ⟨root, hgetRoot, hnone, -⟩ := hfirst.sound.root
      obtain rfl := Option.some.inj (hgetRoot.symm.trans hget)
      obtain ⟨found, hfound, hfoundNone, -⟩ := hsecond.sound.root
      have hportrait := hsecond.root.trans hfirst.root.symm
      rw [hget, hfound, Option.map_some, Option.map_some, Option.some.injEq] at hportrait
      refine ⟨.root, found, hfound, .of_portrait hportrait ?_⟩
      rw [ownerPath?, ownerPath?, hnone, hfoundNone, Option.bind_none, Option.bind_none]
    · have hportrait : second.portrait? object.path = some object.portrait := by
        rw [hsecond.portraits, ← Registration.foldl_record_filter, ← horder _ hundisputed,
          Registration.foldl_record_filter, ← hfirst.portraits]
        exact hfirst.sound.portrait?_of_get? hget hroot
      obtain ⟨found, hat, hfoundPortrait⟩ := Option.map_eq_some_iff.1 hportrait
      obtain ⟨otherId, hlookup, hfound⟩ := Option.bind_eq_some_iff.1 hat
      have hotherNe := (hsecond.sound.lookup?_eq_some_iff.1 hlookup).1
      exact ⟨otherId, found, hfound,
        hfirst.sound.saysTheSame hsecond.sound hget hroot hfound hotherNe hfoundPortrait⟩

end Registry

/-! ## Two texts -/

namespace Indexing

/-- Whether a text registers a path: one of its definitions is for it, or a namespace that
qualifies the name of one. -/
def Registers (source path : String) : Prop :=
  path ∈ (declarations (parse source).tree).map (·.path)

/-- Indexes two files, given with their texts, one after the other. -/
def indexInTurn (earlier later : String × String) : Edit Unit := do
  let _ ← indexSource earlier.1 earlier.2
  let _ ← indexSource later.1 later.2

/-- Both texts make their registrations. -/
theorem indexInTurn_makes {registry : Registry} (hsound : registry.Sound)
    (earlier later : String × String) :
    (indexInTurn earlier later).Makes registry
      (registrations earlier.1 earlier.2 ++ registrations later.1 later.2) fun _ _ => True := by
  refine (indexSource_makes hsound earlier.1 earlier.2).bind fun _ changed hrecords _ => ?_
  exact (indexSource_makes hrecords.sound later.1 later.2).bind_pure fun _ _ _ _ => trivial

/-- A text makes no registrations at the paths that it does not register. -/
theorem filter_registrations_of_not_registers {file source path : String}
    (hnot : ¬Registers source path) :
    (registrations file source).filter (·.declaration.path == path) = [] := by
  rw [List.filter_eq_nil_iff]
  intro registration hmem hpath
  refine hnot (List.mem_map.2 ⟨registration.declaration, ?_, eq_of_beq hpath⟩)
  rw [← map_declaration_registrations file source]
  exact List.mem_map_of_mem hmem

end Indexing

namespace Registry

/-- **The order of two texts.** Two files are accepted in one order if they are in the other. Then
the same paths are registered with the same kinds, and the objects at paths that only one of the
texts registers say the same. -/
theorem Built.indexInTurn_comm {registry : Registry} (hbuilt : Built registry)
    (earlier later : String × String) :
    (((indexInTurn earlier later).apply registry).1.isOk = true ↔
        ((indexInTurn later earlier).apply registry).1.isOk = true) ∧
      (((indexInTurn earlier later).apply registry).1.isOk = true →
        AgreeExcept (fun path => Registers earlier.2 path ∧ Registers later.2 path)
          ((indexInTurn earlier later).apply registry).2
          ((indexInTurn later earlier).apply registry).2) := by
  have hforwards := indexInTurn_makes hbuilt.sound earlier later
  have hbackwards := indexInTurn_makes hbuilt.sound later earlier
  have hmem : ∀ registration : Registration,
      registration ∈ registrations earlier.1 earlier.2 ++ registrations later.1 later.2 ↔
        registration ∈ registrations later.1 later.2 ++ registrations earlier.1 earlier.2 := by
    intro registration
    rw [List.mem_append, List.mem_append, or_comm]
  have hiff : ((indexInTurn earlier later).apply registry).1.isOk = true ↔
      ((indexInTurn later earlier).apply registry).1.isOk = true := by
    rw [hforwards.isOk_iff, hbackwards.isOk_iff]
    exact ⟨fun hadmits => hadmits.of_subset fun registration => (hmem registration).2,
      fun hadmits => hadmits.of_subset fun registration => (hmem registration).1⟩
  refine ⟨hiff, fun hok => ?_⟩
  refine (hforwards.records hok).agreeExcept (hbackwards.records (hiff.1 hok)) hmem ?_
  intro path hundisputed
  -- at most one of the texts has registrations at the path, so they come in their own order
  rw [List.filter_append, List.filter_append]
  rcases not_and_or.1 hundisputed with hnot | hnot
  · rw [filter_registrations_of_not_registers hnot, List.nil_append, List.append_nil]
  · rw [filter_registrations_of_not_registers hnot, List.nil_append, List.append_nil]

/-- Two files that open one class, with a module in between that only the first has. -/
theorem Built.indexInTurn_comm_reopened :
    let earlier := ("a.rb", "class A < B\n  def x\n  end\nend\nmodule C\nend\n")
    let later := ("b.rb", "# one\nclass A\n  def y\n    @z = 1\n  end\nend\n")
    AgreeExcept (· = "A") ((indexInTurn earlier later).apply .empty).2
      ((indexInTurn later earlier).apply .empty).2 := by
  intro earlier later
  have hagree := (Built.empty.indexInTurn_comm earlier later).2 (by decide +kernel)
  refine ⟨hagree.kinds, fun hget hpath => hagree.objects hget ?_⟩
  rintro ⟨hearlier, hlater⟩
  have hpaths : ∀ path, Registers earlier.2 path → Registers later.2 path → path = "A" := by
    have hearlier : (Indexing.declarations (parse earlier.2).tree).map (·.path) =
        ["A", "A#x", "C"] := by decide +kernel
    have hlater : (Indexing.declarations (parse later.2).tree).map (·.path) =
        ["A", "A#y", "A::@z"] := by decide +kernel
    intro path
    rw [Registers, Registers, hearlier, hlater]
    simp only [List.mem_cons, List.not_mem_nil, or_false]
    rintro (rfl | rfl | rfl) <;> decide
  exact hpath (hpaths _ hearlier hlater)

end Registry

end RubyIndex
