import RubyIndex.Proofs.Registry.Records

/-! # Which registrations are accepted

An edit that makes registrations is refused only where the kind of an object is at stake. So
whether it ends well can be told beforehand: what is requested at a path has to be of the kind
of the object there, and of the kind of all else that is requested there.

* `Registry.Admits` is this condition on a list of registrations.
* `Registry.Records.kindAt?_eq_some_iff` tells what kinds of objects registrations leave.
* `Edit.Makes.isOk_iff`: an edit is accepted if and only if its registrations are admitted.
* `Registry.Records.admits_append_iff` splits the condition where the edit is a sequence. -/

namespace RubyIndex

namespace Registry

/-- The kind of the object at a path. -/
def kindAt? (registry : Registry) (path : String) : Option ObjectKind :=
  (registry.at? path).map (·.kind)

/-- **Admitted registrations.** What is requested at a path is of the kind of what is there, and of
one kind. -/
structure Admits (registry : Registry) (made : List Registration) : Prop where
  settled : ∀ registration ∈ made, ∀ kind,
    registry.kindAt? registration.declaration.path = some kind → kind = registration.details.kind
  agreeing : ∀ earlier ∈ made, ∀ later ∈ made, earlier.declaration.path = later.declaration.path →
    earlier.details.kind = later.details.kind

variable {registry first second : Registry} {made further : List Registration}

/-- Only which registrations there are matters, not their order. -/
theorem Admits.of_subset (hadmits : registry.Admits made) (hsubset : further ⊆ made) :
    registry.Admits further :=
  ⟨fun registration hmem => hadmits.settled registration (hsubset hmem),
    fun earlier hearlier later hlater =>
      hadmits.agreeing earlier (hsubset hearlier) later (hsubset hlater)⟩

/-- The kind at a path shows in the portrait there. -/
theorem kindAt?_eq_map_portrait? (registry : Registry) (path : String) :
    registry.kindAt? path = (registry.portrait? path).map (·.kind) := by
  rw [kindAt?, portrait?, Option.map_map]
  exact congrArg (Option.map · _) (funext fun object => object.kind_portrait.symm)

/-- Objects keep their kinds while the registry grows. -/
theorem Extends.kindAt? (hextends : first.Extends second) {path : String} {kind : ObjectKind}
    (hkind : first.kindAt? path = some kind) : second.kindAt? path = some kind := by
  obtain ⟨object, hat, rfl⟩ := Option.map_eq_some_iff.1 hkind
  obtain ⟨found, hfound, halike⟩ := hextends.at? hat
  rw [Registry.kindAt?, hfound, Option.map_some, halike.kind]

namespace Records

/-- **The kinds that registrations leave**: those that were there and those that were requested. -/
theorem kindAt?_eq_some_iff (hrecords : first.Records second made) {path : String}
    {kind : ObjectKind} :
    second.kindAt? path = some kind ↔ first.kindAt? path = some kind ∨
      ∃ registration ∈ made, registration.declaration.path = path ∧
        registration.details.kind = kind := by
  constructor
  · intro hkind
    rw [kindAt?_eq_map_portrait?, hrecords.portraits] at hkind
    obtain ⟨portrait, hrecorded, rfl⟩ := Option.map_eq_some_iff.1 hkind
    obtain ⟨base, hbase, rfl⟩ := Registration.exists_of_foldl_record hrecorded
    rw [CodeObject.kind_revisedBy]
    rcases hbase with hbefore | ⟨-, founder, hmem, hpath, rfl⟩
    · left
      rw [kindAt?_eq_map_portrait?, hbefore, Option.map_some]
    · -- the first registration at the path adds an object of the kind that it requests
      exact .inr ⟨founder, hmem, hpath, founder.kind_added.symm⟩
  · rintro (hbefore | ⟨registration, hmem, rfl, rfl⟩)
    · exact hrecords.extending.kindAt? hbefore
    · obtain ⟨object, hat, hkind⟩ := hrecords.kinds registration hmem
      rw [Registry.kindAt?, hat, Option.map_some, hkind]

/-- What has been registered is of the kind that was requested. -/
theorem kindAt?_of_mem (hrecords : first.Records second made) {registration : Registration}
    (hmem : registration ∈ made) :
    second.kindAt? registration.declaration.path = some registration.details.kind :=
  hrecords.kindAt?_eq_some_iff.2 (.inr ⟨registration, hmem, rfl, rfl⟩)

/-- Registrations that have been made were admitted. -/
theorem admits (hrecords : first.Records second made) : first.Admits made := by
  refine ⟨?_, ?_⟩
  · intro registration hmem kind hkind
    have hlater := hrecords.extending.kindAt? hkind
    rw [hrecords.kindAt?_of_mem hmem, Option.some.injEq] at hlater
    exact hlater.symm
  · intro earlier hearlier later hlater hpath
    have hkind := hrecords.kindAt?_of_mem hearlier
    rw [hpath, hrecords.kindAt?_of_mem hlater, Option.some.injEq] at hkind
    exact hkind.symm

/-- **Sequences** are admitted if what comes later is admitted when the rest has been made. -/
theorem admits_append_iff (hrecords : first.Records second made) :
    first.Admits (made ++ further) ↔ second.Admits further := by
  constructor
  · intro hadmits
    refine ⟨?_, (hadmits.of_subset (List.subset_append_right made further)).agreeing⟩
    intro registration hmem kind hkind
    have hmem := List.mem_append_right made hmem
    rcases hrecords.kindAt?_eq_some_iff.1 hkind with hbefore | ⟨earlier, hearlier, hpath, rfl⟩
    · exact hadmits.settled registration hmem kind hbefore
    · exact hadmits.agreeing earlier (List.mem_append_left further hearlier) registration hmem hpath
  · intro hadmits
    have hmade := hrecords.admits
    -- what was requested first has left an object of its kind
    have hacross : ∀ earlier ∈ made, ∀ later ∈ further,
        earlier.declaration.path = later.declaration.path →
          earlier.details.kind = later.details.kind := by
      intro earlier hearlier later hlater hpath
      refine hadmits.settled later hlater _ ?_
      rw [← hpath]
      exact hrecords.kindAt?_of_mem hearlier
    refine ⟨?_, ?_⟩
    · intro registration hmem kind hkind
      rcases List.mem_append.1 hmem with hmem | hmem
      · exact hmade.settled registration hmem kind hkind
      · exact hadmits.settled registration hmem kind (hrecords.extending.kindAt? hkind)
    · intro earlier hearlier later hlater hpath
      rcases List.mem_append.1 hearlier with hearlier | hearlier <;>
        rcases List.mem_append.1 hlater with hlater | hlater
      · exact hmade.agreeing earlier hearlier later hlater hpath
      · exact hacross earlier hearlier later hlater hpath
      · exact (hacross later hlater earlier hearlier hpath.symm).symm
      · exact hadmits.agreeing earlier hearlier later hlater hpath

end Records

/-- A refused registration is not admitted. -/
theorem Refuses.not_admits {refused : Registration} (hrefuses : registry.Refuses refused) :
    ¬registry.Admits [refused] := by
  obtain ⟨object, hat, hkind⟩ := hrefuses
  intro hadmits
  refine hkind (hadmits.settled refused List.mem_cons_self object.kind ?_)
  rw [kindAt?, hat, Option.map_some]

end Registry

/-- **Acceptance.** An edit ends well if and only if its registrations are admitted. -/
theorem Edit.Makes.isOk_iff {α : Type} {edit : Edit α} {registry : Registry}
    {made : List Registration} {after : α → Registry → Prop}
    (hedit : edit.Makes registry made after) :
    (edit.apply registry).1.isOk = true ↔ registry.Admits made := by
  constructor
  · exact fun hok => (hedit.records hok).admits
  · intro hadmits
    by_contra hrefused
    rw [Bool.not_eq_true] at hrefused
    obtain ⟨part, refused, hprefix, hrecords, hrefuses⟩ := hedit.exists_refused hrefused
    -- the first part and the refused registration are among those that are admitted
    have hpart := hadmits.of_subset hprefix.subset
    exact hrefuses.not_admits (hrecords.admits_append_iff.1 hpart)

end RubyIndex
