import Mathlib.Data.Nat.Init
import RubyIndex.Proofs.Registry.Declarations
import RubyIndex.Proofs.Syntax.TokenText

/-! # Names and paths

In a registry built from texts the kind of an object shows in its name: namespaces are constants,
variables carry one or two `@`, and names of methods have no mark that occurs in paths. Paths then
tell the kinds of objects apart, with one exception: a method and a namespace of the same name,
both directly under the root.

* `ObjectKind.Names` says which names an object of a kind has.
* `Registry.Sound` is the invariant of registries built from texts.
* `Registry.Sound.clash` is the unambiguity of paths. -/

namespace RubyIndex

open Syntax

/-! ## Names -/

/-- **The names of a kind** of object. -/
def ObjectKind.Names (kind : ObjectKind) (name : String) : Prop :=
  match kind with
  | .namespace => IsConstant name
  | .method => IsMethodName name
  | .instanceVariable => ∃ word, name = "@" ++ word ∧ IsWord word
  | .classVariable => ∃ word, name = "@@" ++ word ∧ IsWord word

/-- The number of `@` in the names of a kind of object. -/
def ObjectKind.sigils : ObjectKind → Nat
  | .namespace => 0
  | .method => 0
  | .instanceVariable => 1
  | .classVariable => 2

namespace ObjectKind

variable {kind : ObjectKind} {name : String}

/-- A name that is not that of a method is a word after the sigils of its kind. -/
theorem Names.exists_word (hnames : kind.Names name) (hkind : kind ≠ .method) :
    ∃ word, name.toList = List.replicate kind.sigils '@' ++ word.toList ∧ IsWord word := by
  cases kind with
  | «namespace» => exact ⟨name, rfl, hnames.isWord⟩
  | method => exact absurd rfl hkind
  | instanceVariable =>
    obtain ⟨word, rfl, hword⟩ := hnames
    exact ⟨word, by rw [String.toList_append]; rfl, hword⟩
  | classVariable =>
    obtain ⟨word, rfl, hword⟩ := hnames
    exact ⟨word, by rw [String.toList_append]; rfl, hword⟩

/-- A name is a plain part after the sigils of its kind. -/
theorem Names.exists_plain (hnames : kind.Names name) :
    ∃ plain, name.toList = List.replicate kind.sigils '@' ++ plain.toList ∧ plain ≠ "" ∧
      IsPlain plain := by
  by_cases hkind : kind = .method
  · subst hkind
    exact ⟨name, rfl, hnames.1, hnames.isPlain⟩
  · obtain ⟨word, hname, hword⟩ := hnames.exists_word hkind
    exact ⟨word, hname, hword.1, hword.isPlain⟩

theorem Names.ne_empty (hnames : kind.Names name) : name ≠ "" := by
  obtain ⟨plain, htext, hplain, -⟩ := hnames.exists_plain
  rintro rfl
  have hnil := (List.append_eq_nil_iff.1 htext.symm).2
  exact hplain (String.toList_eq_nil_iff.1 hnil)

/-- The sigils are the only `@` in a name. -/
theorem Names.count_sigil (hnames : kind.Names name) : name.toList.count '@' = kind.sigils := by
  obtain ⟨plain, htext, -, hplain⟩ := hnames.exists_plain
  rw [htext, List.count_append, List.count_replicate_self,
    List.count_eq_zero.2 (hplain.not_mem rfl), Nat.add_zero]

/-- Of the path marks, only `@` occurs in names. -/
theorem Names.not_mem (hnames : kind.Names name) {mark : Char} (hmark : isPathMark mark = true)
    (hsigil : mark ≠ '@') : mark ∉ name.toList := by
  obtain ⟨plain, htext, -, hplain⟩ := hnames.exists_plain
  rw [htext, List.mem_append]
  rintro (hmem | hmem)
  · exact hsigil (List.eq_of_mem_replicate hmem)
  · exact hplain.not_mem hmark hmem

end ObjectKind

/-! ## Paths -/

/-- The characters of a path. -/
theorem toList_joinPath (owner separator name : String) :
    (joinPath owner separator name).toList =
      if owner = "" then name.toList
      else owner.toList ++ separator.toList ++ name.toList := by
  rw [joinPath_eq_ite]
  split
  · rfl
  · rw [String.toList_append, String.toList_append]

/-- A path with a name in it is not empty. -/
theorem joinPath_ne_empty {owner separator name : String} (hname : name ≠ "") :
    joinPath owner separator name ≠ "" := by
  intro hempty
  have htext := congrArg String.toList hempty
  rw [toList_joinPath] at htext
  have hnil : name.toList = [] := by
    split at htext
    · exact htext
    · exact (List.append_eq_nil_iff.1 htext).2
  exact hname (String.toList_eq_nil_iff.1 hnil)

/-- Methods have separators of their own. -/
theorem Details.separator_of_method {details : Details} (hkind : details.kind = .method) :
    details.separator = "#" ∨ details.separator = "." := by
  cases details with
  | method receiver _ =>
    cases receiver with
    | anInstance => exact .inl rfl
    | theNamespace => exact .inr rfl
  | _ => cases hkind

theorem Details.separator_of_ne_method {details : Details} (hkind : details.kind ≠ .method) :
    details.separator = "::" := by
  cases details with
  | method _ _ => exact absurd rfl hkind
  | _ => rfl

/-- A character of a path comes from one of its parts. -/
theorem mem_of_mem_joinPath {owner separator name : String} {character : Char}
    (hmem : character ∈ (joinPath owner separator name).toList) :
    character ∈ owner.toList ∨ character ∈ separator.toList ∨ character ∈ name.toList := by
  rw [toList_joinPath] at hmem
  split at hmem
  · exact .inr (.inr hmem)
  · rw [List.mem_append, List.mem_append] at hmem
    rcases hmem with (howner | hseparator) | hname
    · exact .inl howner
    · exact .inr (.inl hseparator)
    · exact .inr (.inr hname)

/-- Where the owner has a path, the separator is part of the path. -/
theorem mem_joinPath_of_ne_empty {owner separator name : String} (howner : owner ≠ "")
    {character : Char} (hmem : character ∈ separator.toList) :
    character ∈ (joinPath owner separator name).toList := by
  rw [toList_joinPath, if_neg howner]
  exact List.mem_append_left _ (List.mem_append_right _ hmem)

/-- **The path of a namespace** consists of words and colons, and begins with none of the colons. -/
structure IsNamespacePath (path : String) : Prop where
  within : path.toList.all (fun character => continuesName character || character == ':') = true
  head : path.toList.head? ≠ some ':'

theorem isNamespacePath_empty : IsNamespacePath "" := ⟨rfl, by decide⟩

/-- The path of a namespace has no mark of methods or variables. -/
theorem IsNamespacePath.not_mem {path : String} (hpath : IsNamespacePath path) (mark : Char)
    (hmark : continuesName mark = false) (hcolon : mark ≠ ':') : mark ∉ path.toList := by
  intro hmem
  have hwithin := List.all_eq_true.1 hpath.within mark hmem
  rw [hmark, Bool.false_or, beq_iff_eq] at hwithin
  exact hcolon hwithin

/-- A path begins with its owner's path, or with the name if there is none. -/
theorem head?_joinPath (owner separator name : String) :
    (joinPath owner separator name).toList.head? =
      if owner = "" then name.toList.head? else owner.toList.head? := by
  rw [toList_joinPath]
  split
  · rfl
  · rename_i hne
    have hfront : owner.toList ≠ [] := fun hnil => hne (String.toList_eq_nil_iff.1 hnil)
    rw [List.append_assoc, List.head?_append_of_ne_nil _ hfront]

/-- Words do not begin with a colon. -/
theorem Syntax.IsWord.head?_ne {name : String} (hword : IsWord name) :
    name.toList.head? ≠ some ':' := by
  intro hhead
  exact hword.isPlain.not_mem rfl (List.mem_of_head? hhead)

/-- A constant under the path of a namespace is at the path of a namespace. -/
theorem IsNamespacePath.join {owner name : String} (howner : IsNamespacePath owner)
    (hname : IsConstant name) : IsNamespacePath (joinPath owner "::" name) := by
  refine ⟨List.all_eq_true.2 fun character hmem => ?_, ?_⟩
  · rcases mem_of_mem_joinPath hmem with hmem | hmem | hmem
    · exact List.all_eq_true.1 howner.within character hmem
    · have hsame : character = ':' := by simpa using hmem
      rw [hsame]
      rfl
    · rw [List.all_eq_true.1 hname.isWord.2 character hmem, Bool.true_or]
  · rw [head?_joinPath]
    split
    · exact hname.isWord.head?_ne
    · exact howner.head

/-- The sigils in the path of an object are those in its name. -/
theorem IsNamespacePath.count_sigil {owner name : String} (howner : IsNamespacePath owner)
    (details : Details) (hname : details.kind.Names name) :
    (joinPath owner details.separator name).toList.count '@' = details.kind.sigils := by
  have hseparator : details.separator.toList.count '@' = 0 := by
    by_cases hkind : details.kind = .method
    · rcases Details.separator_of_method hkind with hsame | hsame <;> rw [hsame] <;> rfl
    · rw [Details.separator_of_ne_method hkind]
      rfl
  have hnone : owner.toList.count '@' = 0 :=
    List.count_eq_zero.2 (howner.not_mem '@' rfl (by decide))
  rw [toList_joinPath]
  split
  · exact hname.count_sigil
  · rw [List.count_append, List.count_append, hnone, hseparator, hname.count_sigil, Nat.zero_add]

/-- **A method and a namespace at one path** are both directly under the root, and the path is the
constant. -/
theorem isConstant_of_joinPath_eq {methodOwner owner method constant : String}
    {methodDetails details : Details} (hmethodKind : methodDetails.kind = .method)
    (hkind : details.kind = .namespace) (hmethod : methodDetails.kind.Names method)
    (hconstant : details.kind.Names constant) (howner : IsNamespacePath owner)
    (hsame : joinPath methodOwner methodDetails.separator method =
      joinPath owner details.separator constant) :
    methodOwner = "" ∧ owner = "" ∧ IsConstant (joinPath owner details.separator constant) := by
  rw [hmethodKind] at hmethod
  rw [hkind] at hconstant
  have hnotMethod : details.kind ≠ .method := by
    rw [hkind]
    decide
  have hseparator := Details.separator_of_ne_method hnotMethod
  rw [hseparator] at hsame ⊢
  have hpath := howner.join hconstant
  -- with an owner, the path of the method has a mark that no path of a namespace has
  have hmethodOwner : methodOwner = "" := by
    by_contra hne
    rw [← hsame] at hpath
    rcases Details.separator_of_method hmethodKind with hmark | hmark
    · rw [hmark] at hpath
      exact hpath.not_mem '#' rfl (by decide) (mem_joinPath_of_ne_empty hne (by decide))
    · rw [hmark] at hpath
      exact hpath.not_mem '.' rfl (by decide) (mem_joinPath_of_ne_empty hne (by decide))
  -- then the path is the name of the method, in which there is no colon
  have hempty : owner = "" := by
    by_contra hne
    have hcolon : ':' ∈ (joinPath owner "::" constant).toList :=
      mem_joinPath_of_ne_empty hne (by decide)
    rw [← hsame, toList_joinPath, if_pos hmethodOwner] at hcolon
    exact hmethod.isPlain.not_mem rfl hcolon
  refine ⟨hmethodOwner, hempty, ?_⟩
  rw [hempty]
  exact hconstant

/-! ## Sound registries -/

namespace Registry

/-- **A sound registry** is well-formed, and all its objects but the root have names of their
kinds. -/
structure Sound (registry : Registry) : Prop extends WellFormed registry where
  names : ∀ {id object}, registry.get? id = some object → id ≠ .root →
    object.kind.Names object.name

theorem sound_empty : Sound empty where
  toWellFormed := wellFormed_empty
  names := by
    intro id object hget hne
    have hlt : id.index < 1 := index_lt_of_get? hget
    obtain ⟨index⟩ := id
    obtain rfl : index = 0 := by simpa using hlt
    exact absurd rfl hne

namespace Sound

variable {registry : Registry}

/-- Only the root has the empty path. -/
theorem path_ne_empty (hsound : Sound registry) {id : ObjectId} {object : CodeObject}
    (hget : registry.get? id = some object) (hne : id ≠ .root) : object.path ≠ "" := by
  obtain ⟨owner, parent, -, -, -, -, hpath⟩ := hsound.owned hget hne
  rw [hpath]
  exact joinPath_ne_empty (hsound.names hget hne).ne_empty

/-- **Induction on namespaces**, from the root inwards: a namespace is a constant under its owner,
which is a namespace that comes before it. -/
theorem namespace_induction (hsound : Sound registry) {motive : String → Prop} (root : motive "")
    (inside : ∀ owner name, IsConstant name → motive owner → motive (joinPath owner "::" name))
    {id : ObjectId} {object : CodeObject} (hget : registry.get? id = some object)
    (hnamespace : object.isNamespace = true) : motive object.path := by
  induction hindex : id.index using Nat.strong_induction_on generalizing id object with
  | _ index ih =>
    subst hindex
    by_cases hroot : id = .root
    · subst hroot
      rw [hsound.path_root hget]
      exact root
    · obtain ⟨owner, parent, -, hparent, hlt, hkind, hpath⟩ := hsound.owned hget hroot
      have hname := hsound.names hget hroot
      have hnamespaceKind : object.kind = .namespace := eq_of_beq hnamespace
      rw [hnamespaceKind] at hname
      have hnotMethod : object.details.kind ≠ .method := fun hmethod => by
        cases hnamespaceKind.symm.trans hmethod
      rw [hpath, Details.separator_of_ne_method hnotMethod]
      exact inside parent.path object.name hname (ih owner.index hlt hparent hkind rfl)

/-- The paths of namespaces. -/
theorem isNamespacePath (hsound : Sound registry) {id : ObjectId} {object : CodeObject}
    (hget : registry.get? id = some object) (hnamespace : object.isNamespace = true) :
    IsNamespacePath object.path :=
  hsound.namespace_induction isNamespacePath_empty
    (fun _ _ hname howner => howner.join hname) hget hnamespace

/-- **Paths are unambiguous** but for top-level names: where a request is at the path of an object
of another kind, one of the two is a namespace and the other a method, the path is a constant, and
the object is directly under the root. -/
theorem clash (hsound : Sound registry) {owner id : ObjectId} {parent existing : CodeObject}
    {name : String} {details : Details} (hparent : registry.get? owner = some parent)
    (hnamespace : parent.isNamespace = true) (hname : details.kind.Names name)
    (hget : registry.get? id = some existing) (hne : id ≠ .root)
    (hpath : existing.path = joinPath parent.path details.separator name)
    (hkind : existing.kind ≠ details.kind) :
    IsConstant existing.path ∧ existing.owner = some .root ∧
      ((existing.kind = .namespace ∧ details.kind = .method) ∨
        (existing.kind = .method ∧ details.kind = .namespace)) := by
  obtain ⟨holderId, holder, hholderId, hholder, -, hholderKind, hholderPath⟩ :=
    hsound.owned hget hne
  have hparentPath := hsound.isNamespacePath hparent hnamespace
  have hholderPlain := hsound.isNamespacePath hholder hholderKind
  have hexisting := hsound.names hget hne
  have hsame : joinPath holder.path existing.details.separator existing.name =
      joinPath parent.path details.separator name := hholderPath.symm.trans hpath
  -- both kinds have as many sigils as the path, so neither is a kind of variable
  have hsigils : existing.kind.sigils = details.kind.sigils := by
    rw [← hparentPath.count_sigil details hname, ← hsame]
    exact (hholderPlain.count_sigil existing.details hexisting).symm
  have hroot : holder.path = "" → existing.owner = some .root := by
    intro hempty
    rw [hholderId]
    by_contra hother
    exact hsound.path_ne_empty hholder (fun hsame => hother (congrArg some hsame)) hempty
  have hkinds : (existing.kind = .namespace ∧ details.kind = .method) ∨
      (existing.kind = .method ∧ details.kind = .namespace) := by
    revert hsigils hkind
    cases existing.kind <;> cases details.kind <;> decide
  rcases hkinds with ⟨hexistingKind, hrequested⟩ | ⟨hexistingKind, hrequested⟩
  · obtain ⟨-, hempty, hconstant⟩ := isConstant_of_joinPath_eq hrequested hexistingKind hname
      hexisting hholderPlain hsame.symm
    rw [hholderPath]
    exact ⟨hconstant, hroot hempty, .inl ⟨hexistingKind, hrequested⟩⟩
  · obtain ⟨hempty, -, hconstant⟩ := isConstant_of_joinPath_eq hexistingKind hrequested hexisting
      hname hparentPath hsame
    rw [hpath]
    exact ⟨hconstant, hroot hempty, .inr ⟨hexistingKind, hrequested⟩⟩

end Sound

end Registry

end RubyIndex
