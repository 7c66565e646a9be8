import RubyIndex.Proofs.Registry.Declarations
import RubyIndex.Proofs.Registry.Names
import RubyIndex.Proofs.Registry.Outcome
import RubyIndex.Proofs.Registry.Reachable

/-! # What a merge copies

A merge goes through the objects of another registry in their order and copies those whose paths
are free. Owners come before what they own, so when the turn of an object comes, its owner's path is
taken: by what was registered there before, or by the copy of the owner. Only in the first case can
it be something else than a namespace, and that is the only way in which a merge is refused.

* `Registry.ObstructedAt` is the condition on one object.
* `Registry.IsCopy` relates an object to its copy; `Registry.Copied` is what holds when a front of
  the objects has been gone through, and `Copied.step` goes on with one object.
* `Registry.Merged` is what a merge that is made leaves, and `Registry.Reachable.merge_iff` says
  when it is made. -/

namespace RubyIndex

namespace Registry

/-! ## Objects that stay -/

/-- **Objects stay** at their numbers, and nothing about them changes but that children are added
behind those that are there. -/
def KeepsObjects (before after : Registry) : Prop :=
  ∀ id object, before.get? id = some object →
    ∃ more, after.get? id = some { object with children := object.children ++ more }

namespace KeepsObjects

variable {registry first second third : Registry}

@[refl] theorem refl (registry : Registry) : registry.KeepsObjects registry :=
  fun _ object hget => ⟨[], by rw [hget, List.append_nil]⟩

theorem trans (hfirst : first.KeepsObjects second) (hsecond : second.KeepsObjects third) :
    first.KeepsObjects third := by
  intro id object hget
  obtain ⟨more, hmore⟩ := hfirst id object hget
  obtain ⟨further, hfurther⟩ := hsecond id _ hmore
  exact ⟨more ++ further, by rw [hfurther, List.append_assoc]⟩

/-- A new object is a child more for its owner. -/
theorem addObject (registry : Registry) (owner : ObjectId) (path : String) (object : CodeObject) :
    registry.KeepsObjects (registry.addObject owner path object) := by
  intro id found hget
  rw [get?_addObject_of_lt registry owner path object (index_lt_of_get? hget), hget,
    Option.map_some]
  by_cases hid : id = owner
  · exact ⟨[⟨registry.objects.size⟩], by rw [if_pos hid]; rfl⟩
  · exact ⟨[], by rw [if_neg hid, List.append_nil]⟩

/-- What is at a path stays there, if the path is not empty. -/
theorem at? (hkeeps : first.KeepsObjects second) (hfirst : WellFormed first)
    (hsecond : WellFormed second) {path : String} (hne : path ≠ "") {object : CodeObject}
    (hat : first.at? path = some object) :
    ∃ more, second.at? path = some { object with children := object.children ++ more } := by
  obtain ⟨id, hlookup, hget⟩ := Option.bind_eq_some_iff.1 hat
  obtain ⟨more, hmore⟩ := hkeeps id object hget
  have hpath := (hfirst.lookup?_eq_some_iff.1 hlookup).2
  rw [hget, Option.map_some, Option.some.injEq] at hpath
  subst hpath
  exact ⟨more, hsecond.at?_path hmore hne⟩

end KeepsObjects

/-! ## The order of registered objects -/

/-- Looking up a row of positions gives a row of a list. -/
theorem filterMap_getElem?_range' {α : Type} (values : List α) (start count : Nat) :
    (List.range' start count).filterMap (values[·]?) = (values.drop start).take count := by
  induction count generalizing start with
  | zero => rw [List.take_zero]; rfl
  | succ count ih =>
    rw [List.range'_succ]
    cases hvalue : values[start]? with
    | some value =>
      obtain ⟨hlt, rfl⟩ := List.getElem?_eq_some_iff.1 hvalue
      rw [List.filterMap_cons_some hvalue, ih, List.drop_eq_getElem_cons hlt, List.take_succ_cons]
    | none =>
      have hle := List.getElem?_eq_none_iff.1 hvalue
      rw [List.filterMap_cons_none hvalue, ih, List.drop_eq_nil_of_le hle,
        List.drop_eq_nil_of_le (Nat.le_succ_of_le hle)]
      simp

namespace WellFormed

variable {registry : Registry}

/-- The registered objects are all objects but the first, in their order. -/
theorem registered_eq (hwell : WellFormed registry) :
    registry.registered = registry.objects.toList.drop 1 := by
  have hids : registry.registered = registry.index.ids.filterMap registry.get? := by
    rw [registered, entries, List.map_filterMap]
    refine List.filterMap_congr fun id _ => ?_
    cases registry.get? id <;> rfl
  have hget : ∀ index, registry.get? ⟨index⟩ = registry.objects.toList[index]? := fun index => by
    rw [get?, Array.getElem?_toList]
  rw [hids, hwell.ids, List.filterMap_map]
  simp only [Function.comp_def, hget]
  rw [filterMap_getElem?_range']
  exact List.take_of_length_le (by simp)

/-- The object at a place among the registered ones has the number after this place. -/
theorem getElem?_registered (hwell : WellFormed registry) (place : Nat) :
    registry.registered[place]? = registry.get? ⟨place + 1⟩ := by
  rw [hwell.registered_eq, List.getElem?_drop, get?, Array.getElem?_toList, Nat.add_comm]

/-- A path is taken if a registered object has it. -/
theorem contains_iff (hwell : WellFormed registry) (path : String) :
    registry.contains path = true ↔ path ∈ registry.registered.map (·.path) := by
  rw [hwell.map_path_registered, contains, Option.isSome_iff_ne_none, lookup?, Ne,
    PathIndex.find?_eq_none_iff, Classical.not_not]

theorem length_registered (hwell : WellFormed registry) :
    registry.registered.length = registry.size := by
  have hpaths := congrArg List.length hwell.map_path_registered
  rwa [List.length_map, List.length_map] at hpaths

/-- Where a path is taken, an object with this path is there. -/
theorem exists_at?_of_contains (hwell : WellFormed registry) {path : String}
    (htaken : registry.contains path = true) :
    ∃ id object, registry.lookup? path = some id ∧ registry.get? id = some object ∧
      object.path = path ∧ registry.at? path = some object := by
  obtain ⟨id, hlookup⟩ := Option.isSome_iff_exists.1 htaken
  obtain ⟨object, hget, hpath⟩ :=
    Option.map_eq_some_iff.1 (hwell.lookup?_eq_some_iff.1 hlookup).2
  exact ⟨id, object, hlookup, hget, hpath, Option.bind_eq_some_iff.2 ⟨id, hlookup, hget⟩⟩

/-- **Owners come first.** The owner of a registered object is the root or is registered before. -/
theorem owner_of_registered (hwell : WellFormed registry) {front back : List CodeObject}
    {object : CodeObject} (hregistered : registry.registered = front ++ object :: back) :
    ∃ owner parent, object.owner = some owner ∧ registry.get? owner = some parent ∧
      parent.isNamespace = true ∧
      object.path = joinPath parent.path object.details.separator object.name ∧
      (owner = .root ∨ parent ∈ front) := by
  have hget : registry.get? ⟨front.length + 1⟩ = some object := by
    rw [← hwell.getElem?_registered, hregistered, List.getElem?_append_right (Nat.le_refl _),
      Nat.sub_self]
    rfl
  have hne : (⟨front.length + 1⟩ : ObjectId) ≠ .root := fun hroot => by cases hroot
  obtain ⟨owner, parent, howner, hparent, hlt, hnamespace, hpath⟩ := hwell.owned hget hne
  refine ⟨owner, parent, howner, hparent, hnamespace, hpath, ?_⟩
  -- owners are registered before what they own, so the owner is among the objects in front
  obtain ⟨index⟩ := owner
  cases index with
  | zero => exact .inl rfl
  | succ place =>
    have hplace : place < front.length := Nat.lt_of_succ_lt_succ hlt
    rw [← hwell.getElem?_registered, hregistered, List.getElem?_append_left hplace] at hparent
    exact .inr (List.mem_of_getElem? hparent)

end WellFormed

/-! ## Names -/

/-- **A named registry** has no registered object with the empty name. -/
def IsNamed (registry : Registry) : Prop := ∀ object ∈ registry.registered, object.name ≠ ""

instance (registry : Registry) : Decidable registry.IsNamed :=
  inferInstanceAs (Decidable (∀ object ∈ registry.registered, object.name ≠ ""))

/-- With a name, an object has a path. -/
theorem IsNamed.path_ne_empty {registry : Registry} (hnamed : registry.IsNamed)
    (hwell : WellFormed registry) {object : CodeObject} (hmem : object ∈ registry.registered) :
    object.path ≠ "" := by
  obtain ⟨id, hne, hget⟩ := hwell.exists_of_mem_registered hmem
  obtain ⟨owner, parent, -, -, -, -, hpath⟩ := hwell.owned hget hne
  rw [hpath]
  exact joinPath_ne_empty (hnamed object hmem)

/-- Nothing is registered at the empty path. -/
theorem IsNamed.ne_empty_of_at? {registry : Registry} (hnamed : registry.IsNamed)
    (hwell : WellFormed registry) {path : String} {object : CodeObject}
    (hat : registry.at? path = some object) : path ≠ "" := by
  obtain ⟨id, hlookup, hget⟩ := Option.bind_eq_some_iff.1 hat
  obtain ⟨hne, hpath⟩ := hwell.lookup?_eq_some_iff.1 hlookup
  rw [hget, Option.map_some, Option.some.injEq] at hpath
  rw [← hpath]
  exact hnamed.path_ne_empty hwell
    (List.mem_map.2 ⟨_, hwell.mem_entries_iff.2 ⟨hne, hget⟩, rfl⟩)

/-! ## Copies -/

/-- **An object is obstructed** in a registry if its own path is free there, and its owner's path is
taken by something else than a namespace. -/
def ObstructedAt (registry other : Registry) (object : CodeObject) (path : String) : Prop :=
  registry.contains object.path = false ∧
    (∃ owner parent, object.owner = some owner ∧ other.get? owner = some parent ∧
      parent.path = path) ∧
    ∃ holder, registry.at? path = some holder ∧ holder.isNamespace = false

/-- **An obstruction** among objects of another registry, reported by an error. -/
def Reports (error : RegistryError) (registry other : Registry) (objects : List CodeObject) :
    Prop :=
  ∃ object ∈ objects, ∃ path, ObstructedAt registry other object path ∧
    error = .notANamespace path

theorem Reports.cons {error : RegistryError} {registry other : Registry}
    {objects : List CodeObject} (hreports : Reports error registry other objects)
    (object : CodeObject) : Reports error registry other (object :: objects) :=
  let ⟨found, hfound, hcause⟩ := hreports
  ⟨found, List.mem_cons_of_mem _ hfound, hcause⟩

/-- **A copy** of an object of another registry says the same, has named no scopes, and is under
the namespace with the owner's path. -/
structure IsCopy (registry other : Registry) (object copy : CodeObject) : Prop where
  name : copy.name = object.name
  path : copy.path = object.path
  origin : copy.origin = object.origin
  docstring : copy.docstring = object.docstring
  details : copy.details = object.details.withoutScopes
  owner : ∃ source parent target holder, object.owner = some source ∧
    other.get? source = some parent ∧ copy.owner = some target ∧
    registry.get? target = some holder ∧ holder.isNamespace = true ∧ holder.path = parent.path

/-- A copy stays a copy when it gets children. -/
theorem IsCopy.mono {first second other : Registry} {object copy : CodeObject}
    (hcopy : first.IsCopy other object copy) (hkeeps : first.KeepsObjects second)
    (more : List ObjectId) :
    second.IsCopy other object { copy with children := copy.children ++ more } := by
  obtain ⟨source, parent, target, holder, hsource, hparent, htarget, hholder, hkind, hpath⟩ :=
    hcopy.owner
  obtain ⟨later, hlater⟩ := hkeeps target holder hholder
  exact ⟨hcopy.name, hcopy.path, hcopy.origin, hcopy.docstring, hcopy.details,
    source, parent, target, _, hsource, hparent, htarget, hlater, hkind, hpath⟩

/-- **A front of the objects is copied.** What was registered stays, and behind it are copies of
those objects whose paths were free, in their order. -/
structure Copied (before other : Registry) (done : List CodeObject) (after : Registry) : Prop where
  kept : before.KeepsObjects after
  paths : after.registered.map (·.path) = before.registered.map (·.path) ++
    (done.filter fun object => !before.contains object.path).map (·.path)
  copies : ∀ object ∈ done, before.contains object.path = false →
    ∃ copy, after.at? object.path = some copy ∧ after.IsCopy other object copy
  scopes : after.scopes = before.scopes

namespace Copied

variable {before other after : Registry} {done rest : List CodeObject} {object : CodeObject}

theorem nil (before other : Registry) : Copied before other [] before where
  kept := .refl before
  paths := by rw [List.filter_nil, List.map_nil, List.append_nil]
  copies := fun _ hmem => absurd hmem List.not_mem_nil
  scopes := rfl

/-- A path is taken if it was taken or is that of an object that was gone through. -/
theorem contains_iff (hcopied : Copied before other done after) (hbefore : WellFormed before)
    (hafter : WellFormed after) (path : String) :
    after.contains path = true ↔
      before.contains path = true ∨ path ∈ done.map (·.path) := by
  rw [hafter.contains_iff, hcopied.paths, List.mem_append, ← hbefore.contains_iff, List.mem_map,
    List.mem_map]
  constructor
  · rintro (htaken | ⟨object, hmem, hpath⟩)
    · exact .inl htaken
    · exact .inr ⟨object, (List.mem_filter.1 hmem).1, hpath⟩
  · rintro (htaken | ⟨object, hmem, rfl⟩)
    · exact .inl htaken
    · cases hfree : before.contains object.path with
      | true => exact .inl rfl
      | false => exact .inr ⟨object, List.mem_filter.2 ⟨hmem, by rw [hfree]; rfl⟩, rfl⟩

/-- A path that is free was free before. -/
theorem free_of_free (hcopied : Copied before other done after) (hbefore : WellFormed before)
    (hafter : WellFormed after) {path : String} (hfree : after.contains path = false) :
    before.contains path = false := by
  refine Bool.eq_false_iff.2 fun htaken => ?_
  rw [(hcopied.contains_iff hbefore hafter path).2 (.inl htaken)] at hfree
  cases hfree

/-- **An object whose path is taken** is passed over; its path was taken before the merge. -/
theorem skip (hcopied : Copied before other done after)
    (htaken : before.contains object.path = true) :
    Copied before other (done ++ [object]) after where
  kept := hcopied.kept
  paths := by
    rw [hcopied.paths, List.filter_append, List.filter_singleton, htaken]
    simp
  copies := by
    intro found hmem hfree
    rcases List.mem_append.1 hmem with hdone | hsame
    · exact hcopied.copies found hdone hfree
    · rw [List.mem_singleton.1 hsame, htaken] at hfree
      cases hfree
  scopes := hcopied.scopes

/-- **A new object** at a path that is free is a copy, if it says what the object says. -/
theorem add (hcopied : Copied before other done after) (hafter : WellFormed after)
    {target : ObjectId} {copy : CodeObject} (htarget : target.index < after.objects.size)
    (hfree : after.contains object.path = false) (hbefore : before.contains object.path = false)
    (hadded : WellFormed (after.addObject target object.path copy))
    (hcopy : (after.addObject target object.path copy).IsCopy other object copy)
    (hpaths : ∀ found ∈ done ++ [object], found.path ≠ "") :
    Copied before other (done ++ [object]) (after.addObject target object.path copy) where
  kept := hcopied.kept.trans (.addObject after target object.path copy)
  paths := by
    have hlookup : after.lookup? object.path = none := by
      simpa [Registry.contains] using hfree
    rw [hadded.map_path_registered, index_addObject,
      PathIndex.entries_insert_of_find?_eq_none _ hlookup, List.map_append,
      ← hafter.map_path_registered, hcopied.paths, List.filter_append, List.filter_singleton,
      hbefore, List.map_append, List.append_assoc]
    rfl
  copies := by
    intro found hmem hmissing
    have hne := hpaths found hmem
    rcases List.mem_append.1 hmem with hdone | hsame
    · obtain ⟨earlier, hat, hearlier⟩ := hcopied.copies found hdone hmissing
      have hkeeps := KeepsObjects.addObject after target object.path copy
      obtain ⟨more, hmore⟩ := hkeeps.at? hafter hadded hne hat
      exact ⟨_, hmore, hearlier.mono hkeeps more⟩
    · obtain rfl := List.mem_singleton.1 hsame
      have hat := hadded.at?_path (get?_addObject_added after found.path copy htarget)
        (hcopy.path ▸ hne)
      rw [hcopy.path] at hat
      exact ⟨copy, hat, hcopy⟩
  scopes := by rw [scopes_addObject, hcopied.scopes]

end Copied

/-! ## One object -/

/-- The owner of a copy is the root, or what is at a path that is taken. -/
theorem WellFormed.exists_mergeOwner {registry : Registry} (hwell : WellFormed registry)
    {path : String} (htaken : path = "" ∨ registry.contains path = true) :
    ∃ target holder, registry.mergeOwner path = .ok target ∧ registry.get? target = some holder ∧
      holder.path = path ∧ (path = "" → holder.isNamespace = true) ∧
      (path ≠ "" → registry.at? path = some holder) := by
  by_cases hempty : path = ""
  · subst hempty
    obtain ⟨root, hroot, -, hpath, hnamespace⟩ := hwell.root
    exact ⟨.root, root, rfl, hroot, hpath, fun _ => hnamespace, fun hne => absurd rfl hne⟩
  · obtain ⟨id, object, hlookup, hget, hpath, hat⟩ :=
      hwell.exists_at?_of_contains (htaken.resolve_left hempty)
    refine ⟨id, object, ?_, hget, hpath, fun hroot => absurd hroot hempty, fun _ => hat⟩
    rw [mergeOwner, if_neg (by simpa [String.isEmpty_iff] using hempty), hlookup]

/-- The copy of an object under another owner. -/
def copyUnder (target : ObjectId) (object : CodeObject) : CodeObject :=
  { name := object.name, path := object.path, owner := some target, origin := object.origin
    docstring := object.docstring, details := object.details.withoutScopes }

section Requests

variable {registry other : Registry} {object holder : CodeObject} {target : ObjectId}
  (htarget : registry.mergeOwner (other.ownerPath object) = .ok target)
  (hholder : registry.get? target = some holder)

include htarget hholder

/-- Under a namespace, a copy is added at a path that is free. -/
theorem copyObject_eq_ok (hkind : holder.isNamespace = true)
    (hpath : object.path = joinPath holder.path object.details.separator object.name)
    (hfree : registry.contains object.path = false) :
    registry.copyObject other object =
      .ok (⟨registry.objects.size⟩,
        registry.addObject target object.path (copyUnder target object)) := by
  have hjoin : joinPath holder.path object.details.withoutScopes.separator object.name =
      object.path := by
    rw [Details.separator_withoutScopes, hpath]
  rw [copyObject, htarget]
  refine registerWith_eq_ok_iff.2 ⟨holder, hholder, hkind, .inr ⟨?_, rfl, ?_⟩⟩
  · rw [hjoin]
    simpa [contains] using hfree
  · rw [hjoin]
    rfl

/-- Under anything else, a copy is refused. -/
theorem copyObject_eq_error (hkind : holder.isNamespace = false) :
    registry.copyObject other object = .error (.notANamespace holder.path) := by
  have hrefused : registry.namespaceAt target = .error (.notANamespace holder.path) := by
    simp [namespaceAt, hholder, hkind]
  rw [copyObject, htarget]
  simp [registerWith, hrefused]

end Requests

section Merge

variable {before other current : Registry} (hbefore : WellFormed before)
  (hother : WellFormed other) (hnames : before.IsNamed) (hotherNames : other.IsNamed)

include hbefore

/-- What was at a path is still there. -/
theorem Copied.at?_eq {done : List CodeObject} (hcurrent : WellFormed current)
    (hcopied : Copied before other done current) {path : String} (hne : path ≠ "")
    {holder found : CodeObject} (hholder : current.at? path = some holder)
    (hfound : before.at? path = some found) :
    holder.isNamespace = found.isNamespace := by
  obtain ⟨more, hmore⟩ := hcopied.kept.at? hbefore hcurrent hne hfound
  obtain rfl := Option.some.inj (hholder.symm.trans hmore)
  rfl

/-- **A blocker** was there before the merge: if what is at the owner's path were a copy of the
owner, it would be a namespace as the owner is. -/
theorem Copied.exists_blocker {done : List CodeObject} {parent holder : CodeObject}
    (hcurrent : WellFormed current) (hcopied : Copied before other done current)
    (hdone : parent ∈ done) (hne : parent.path ≠ "") (hparentKind : parent.isNamespace = true)
    (hat : current.at? parent.path = some holder) (hkind : holder.isNamespace = false) :
    ∃ blocker, before.at? parent.path = some blocker ∧ blocker.isNamespace = false := by
  cases hblocked : before.contains parent.path with
  | true =>
    obtain ⟨id, blocker, -, -, -, hblocker⟩ := hbefore.exists_at?_of_contains hblocked
    refine ⟨blocker, hblocker, ?_⟩
    rw [← hcopied.at?_eq hbefore hcurrent hne hat hblocker, hkind]
  | false =>
    obtain ⟨copy, hcopyAt, hcopy⟩ := hcopied.copies parent hdone hblocked
    obtain rfl := Option.some.inj (hat.symm.trans hcopyAt)
    rw [CodeObject.isNamespace, CodeObject.kind, hcopy.details, Details.kind_withoutScopes] at hkind
    cases hparentKind.symm.trans hkind

include hother

/-- An object that is to be gone through has a path that was taken before the merge, if it is taken
at all, since no two objects have one path. -/
theorem Copied.contains_before {done rest : List CodeObject} {object : CodeObject}
    (hregistered : other.registered = done ++ object :: rest) (hcurrent : WellFormed current)
    (hcopied : Copied before other done current) (htaken : current.contains object.path = true) :
    before.contains object.path = true := by
  refine ((hcopied.contains_iff hbefore hcurrent _).1 htaken).resolve_right fun hmem => ?_
  have hdistinct := hother.nodup_paths
  rw [hregistered, List.map_append, List.map_cons, List.nodup_append] at hdistinct
  exact hdistinct.2.2 _ hmem _ List.mem_cons_self rfl

include hnames

omit hother in
/-- Where a namespace is at the owner's path, an object is not obstructed. -/
theorem Copied.not_obstructedAt {done : List CodeObject} {object parent holder : CodeObject}
    {owner : ObjectId} (hcurrent : WellFormed current) (hcopied : Copied before other done current)
    (howner : object.owner = some owner) (hparent : other.get? owner = some parent)
    (hat : parent.path ≠ "" → current.at? parent.path = some holder)
    (hkind : holder.isNamespace = true) (path : String) :
    ¬ ObstructedAt before other object path := by
  rintro ⟨-, ⟨source, found, hsource, hfound, rfl⟩, blocker, hblocker, hblockerKind⟩
  obtain rfl : owner = source := Option.some.inj (howner.symm.trans hsource)
  obtain rfl : parent = found := Option.some.inj (hparent.symm.trans hfound)
  have hne := hnames.ne_empty_of_at? hbefore hblocker
  rw [hcopied.at?_eq hbefore hcurrent hne (hat hne) hblocker, hblockerKind] at hkind
  cases hkind

include hotherNames

/-- **One step of a merge.** An object whose path is free is copied, unless it is obstructed. -/
theorem Copied.step {done rest : List CodeObject} {object : CodeObject}
    (hregistered : other.registered = done ++ object :: rest) (hcurrent : WellFormed current)
    (hcopied : Copied before other done current)
    (hfree : current.contains object.path = false) :
    (∃ id changed, current.copyObject other object = .ok (id, changed) ∧ WellFormed changed ∧
        Copied before other (done ++ [object]) changed ∧
        ∀ path, ¬ ObstructedAt before other object path) ∨
      ∃ path, ObstructedAt before other object path ∧
        current.copyObject other object = .error (.notANamespace path) := by
  have hbeforeFree : before.contains object.path = false :=
    hcopied.free_of_free hbefore hcurrent hfree
  obtain ⟨owner, parent, howner, hparent, hparentKind, hpath, hfirst⟩ :=
    hother.owner_of_registered hregistered
  have hownerPath : other.ownerPath object = parent.path := by
    rw [ownerPath, howner, Option.bind_some, hparent]
    rfl
  -- the owner of the object was gone through before it
  have htaken : parent.path = "" ∨ current.contains parent.path = true := by
    rcases hfirst with rfl | hdone
    · exact .inl (hother.path_root hparent)
    · exact .inr ((hcopied.contains_iff hbefore hcurrent _).2
        (.inr (List.mem_map_of_mem hdone)))
  obtain ⟨target, holder, htarget, hholder, hholderPath, hroot, hat⟩ :=
    hcurrent.exists_mergeOwner htaken
  rw [← hownerPath] at htarget
  cases hkind : holder.isNamespace with
  | true =>
    left
    have hok := copyObject_eq_ok htarget hholder hkind (hholderPath.symm ▸ hpath) hfree
    have hchanged := hcurrent.copyObject hok
    have hpaths : ∀ found ∈ done ++ [object], found.path ≠ "" := fun found hmem =>
      hotherNames.path_ne_empty hother (by
        rw [hregistered, List.append_cons]
        exact List.mem_append_left _ hmem)
    obtain ⟨more, hmore⟩ :=
      KeepsObjects.addObject current target object.path (copyUnder target object) target holder
        hholder
    exact ⟨_, _, hok, hchanged, hcopied.add hcurrent (index_lt_of_get? hholder) hfree hbeforeFree
      hchanged ⟨rfl, rfl, rfl, rfl, rfl, owner, parent, target, _, howner, hparent, rfl, hmore,
        hkind, hholderPath⟩ hpaths,
      hcopied.not_obstructedAt hbefore hnames hcurrent howner hparent hat hkind⟩
  | false =>
    right
    have hne : parent.path ≠ "" := fun hempty => by
      rw [hroot hempty] at hkind
      cases hkind
    have hdone : parent ∈ done := hfirst.resolve_left fun hroot => by
      rw [hroot] at hparent
      exact hne (hother.path_root hparent)
    have herror := copyObject_eq_error htarget hholder hkind
    rw [hholderPath] at herror
    exact ⟨parent.path, ⟨hbeforeFree, ⟨owner, parent, howner, hparent, rfl⟩,
      hcopied.exists_blocker hbefore hcurrent hdone hne hparentKind (hat hne) hkind⟩, herror⟩

/-- **A merge, object by object.** It ends when all objects are gone through and none of them is
obstructed, and it counts those whose paths were free; or an obstructed object stops it. -/
theorem Copied.yields {rest : List CodeObject} {done : List CodeObject}
    (hregistered : other.registered = done ++ rest) (hcurrent : WellFormed current)
    (hcopied : Copied before other done current) :
    (Edit.copyMissing other rest).Yields current
      (fun count after => WellFormed after ∧ Copied before other other.registered after ∧
        count = (rest.filter fun object => !before.contains object.path).length ∧
        ∀ object ∈ rest, ∀ path, ¬ ObstructedAt before other object path)
      fun error _ => Reports error before other rest := by
  induction rest generalizing done current with
  | nil =>
    rw [List.append_nil] at hregistered
    refine Edit.Yields.pure ⟨hcurrent, hregistered ▸ hcopied, rfl, ?_⟩
    exact fun object hmem => absurd hmem List.not_mem_nil
  | cons object rest ih =>
    have hnext : other.registered = (done ++ [object]) ++ rest := by
      rw [hregistered, List.append_assoc, List.singleton_append]
    rw [Edit.copyMissing]
    refine Edit.Yields.bind_read ?_
    split
    · rename_i htaken
      have hbeforeTaken := hcopied.contains_before hbefore hother hregistered hcurrent htaken
      refine (ih hnext hcurrent (hcopied.skip hbeforeTaken)).mono ?_
        fun error after hreports => hreports.cons object
      rintro count after ⟨hafter, hall, hcount, hclear⟩
      refine ⟨hafter, hall, ?_, fun found hfound path hobstructed => ?_⟩
      · rw [List.filter_cons_of_neg (by simp [hbeforeTaken]), hcount]
      · rcases List.mem_cons.1 hfound with rfl | hrest
        · rw [hobstructed.1] at hbeforeTaken
          cases hbeforeTaken
        · exact hclear found hrest path hobstructed
    · rename_i hfree
      replace hfree : current.contains object.path = false := Bool.eq_false_iff.2 hfree
      have hbeforeFree : before.contains object.path = false :=
        hcopied.free_of_free hbefore hcurrent hfree
      rcases hcopied.step hbefore hother hnames hotherNames hregistered hcurrent hfree with
        ⟨added, changed, hok, hchanged, hmade, hclear⟩ | ⟨path, hobstructed, herror⟩
      · refine Edit.Yields.bind_of_ok hok ?_
        refine ((ih hnext hchanged hmade).mono (fun _ _ => id)
          fun error after hreports => hreports.cons object).bind ?_
        rintro count last ⟨hlast, hall, rfl, hothers⟩
        refine Edit.Yields.pure ⟨hlast, hall, ?_, fun found hfound => ?_⟩
        · rw [List.filter_cons_of_pos (by simp [hbeforeFree]), List.length_cons]
        · rcases List.mem_cons.1 hfound with rfl | hrest
          · exact hclear
          · exact hothers found hrest
      · -- an obstructed object stops the merge
        exact Edit.Yields.bind_of_error herror
          ⟨object, List.mem_cons_self, path, hobstructed, rfl⟩

end Merge

/-! ## The whole merge -/

/-- Where all paths are taken, nothing is copied. -/
theorem copyMissing_of_contains {registry other : Registry} {objects : List CodeObject}
    (htaken : ∀ object ∈ objects, registry.contains object.path = true) :
    (Edit.copyMissing other objects).apply registry = (.ok 0, registry) := by
  induction objects with
  | nil => rfl
  | cons object rest ih =>
    rw [Edit.copyMissing, Edit.apply_bind, Edit.apply_read]
    dsimp only
    rw [if_pos (htaken object List.mem_cons_self)]
    exact ih fun later hlater => htaken later (List.mem_cons_of_mem _ hlater)

/-- **A merge that is made.** All objects whose paths were free are copied and nothing else
happens; the copies are counted, and to merge again adds none. -/
structure Merged (before other after : Registry) (count : Nat) : Prop
    extends Copied before other other.registered after where
  count : after.size = before.size + count
  again : (Edit.merge other).apply after = (.ok 0, after)

/-- When all objects are gone through, the merge is made. -/
theorem Copied.merged {before other after : Registry} (hbefore : WellFormed before)
    (hafter : WellFormed after) (hcopied : Copied before other other.registered after) :
    Merged before other after
      (other.registered.filter fun object => !before.contains object.path).length where
  toCopied := hcopied
  count := by
    have hpaths := congrArg List.length hcopied.paths
    rwa [List.length_append, List.length_map, List.length_map, List.length_map,
      hafter.length_registered, hbefore.length_registered] at hpaths
  again := copyMissing_of_contains fun _ hmem =>
    (hcopied.contains_iff hbefore hafter _).2 (.inr (List.mem_map_of_mem hmem))

/-- **Merging.** A merge of registries without nameless objects is made if and only if no object
whose path is free is under a path that is taken by something else than a namespace. Such a path is
all that a refusal reports, and if the merge is made, it copies what is missing and nothing else. -/
theorem Reachable.merge_iff {before other : Registry} (hbefore : Reachable before)
    (hother : Reachable other) (hnames : before.IsNamed) (hotherNames : other.IsNamed) :
    ((∃ count, ((Edit.merge other).apply before).1 = .ok count) ↔
        ∀ object ∈ other.registered, ∀ path, ¬ ObstructedAt before other object path) ∧
      (∀ error, ((Edit.merge other).apply before).1 = .error error →
        ∃ object ∈ other.registered, ∃ path, ObstructedAt before other object path ∧
          error = .notANamespace path) ∧
      ∀ count, ((Edit.merge other).apply before).1 = .ok count →
        Merged before other ((Edit.merge other).apply before).2 count := by
  have hyields := Copied.yields hbefore.wellFormed hother.wellFormed hnames hotherNames
    (List.nil_append _).symm hbefore.wellFormed (.nil before other)
  rw [Edit.Yields] at hyields
  rw [Edit.merge]
  rcases hresult : (Edit.copyMissing other other.registered).apply before with
    ⟨error | count, after⟩
  · rw [hresult] at hyields
    obtain ⟨object, hmem, path, hobstructed, hcause⟩ := hyields
    refine ⟨⟨?_, fun hclear => absurd hobstructed (hclear object hmem path)⟩, ?_, ?_⟩
    · rintro ⟨_, ⟨⟩⟩
    · intro found hfound
      obtain rfl := Except.error.inj hfound
      exact ⟨object, hmem, path, hobstructed, hcause⟩
    · rintro _ ⟨⟩
  · rw [hresult] at hyields
    obtain ⟨hafter, hcopied, rfl, hclear⟩ := hyields
    refine ⟨⟨fun _ => hclear, fun _ => ⟨_, rfl⟩⟩, ?_, ?_⟩
    · rintro _ ⟨⟩
    · intro found hfound
      obtain rfl := Except.ok.inj hfound
      exact hcopied.merged hbefore.wellFormed hafter

/-- A class with a method in it, merged into a registry that has the class as a module. -/
theorem Reachable.merge_iff_reopened :
    let add := fun owner name details (registry : Registry) =>
      ((Edit.attempt fun registry => registry.registerWith owner name details id).apply registry).2
    let before := add .root "A" (.newNamespace .moduleFlavor) .empty
    let other := add ⟨1⟩ "b" (.newMethod .anInstance)
      (add .root "A" (.newNamespace .classFlavor) .empty)
    Merged before other ((Edit.merge other).apply before).2 1 := by
  intro add before other
  have hadd : ∀ owner name details {registry : Registry}, Reachable registry →
      Reachable (add owner name details registry) :=
    fun owner name details _ hreach => .registerWith owner name details (fun _ => rfl) hreach
  exact (Reachable.merge_iff (hadd _ _ _ .empty) (hadd _ _ _ (hadd _ _ _ .empty))
    (by decide +kernel) (by decide +kernel)).2.2 1 (by decide +kernel)

end Registry

end RubyIndex
