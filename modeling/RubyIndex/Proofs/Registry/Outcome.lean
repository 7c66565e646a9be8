import RubyIndex.Registry.Merge

/-! # What edits guarantee

An edit ends with a value or is refused, and leaves a registry either way. `Edit.Yields` says
what holds then, and follows the edit step by step; `Edit.Keeps` is the case of a property of
registries that no step breaks.

* `Edit.Yields.bind` is the rule of sequences, `Edit.Yields.attempt` that of single requests.
* `Edit.keeps_merge` reduces a merge to the copies it makes. -/

namespace RubyIndex.Edit

variable {α β : Type}

/-! ## One registry -/

/-- **The guarantee of an edit on a registry.** Either it ends with a value and a registry as
`after` says, or it is refused with an error and a registry as `refused` says. -/
def Yields (edit : Edit α) (registry : Registry) (after : α → Registry → Prop)
    (refused : RegistryError → Registry → Prop) : Prop :=
  match edit.apply registry with
  | (.ok value, changed) => after value changed
  | (.error error, changed) => refused error changed

namespace Yields

variable {registry : Registry} {after : α → Registry → Prop}
  {refused : RegistryError → Registry → Prop}

theorem pure {value : α} (hafter : after value registry) :
    (Pure.pure value : Edit α).Yields registry after refused := hafter

/-- A request that is made or refused as a whole. -/
theorem attempt {change : Registry → Except RegistryError (α × Registry)}
    (hafter : ∀ value changed, change registry = .ok (value, changed) → after value changed)
    (hrefused : ∀ error, change registry = .error error → refused error registry) :
    (Edit.attempt change).Yields registry after refused := by
  rw [Yields, apply_attempt]
  cases hchange : change registry with
  | error error => exact hrefused error hchange
  | ok made => exact hafter made.1 made.2 hchange

/-- **Sequences.** What the first edit guarantees is what the second may rely on. -/
theorem bind {edit : Edit α} {next : α → Edit β} {middle : α → Registry → Prop}
    {after : β → Registry → Prop} (hedit : edit.Yields registry middle refused)
    (hnext : ∀ value changed, middle value changed → (next value).Yields changed after refused) :
    (edit >>= next).Yields registry after refused := by
  rw [Yields, apply_bind]
  rw [Yields] at hedit
  rcases hresult : edit.apply registry with ⟨error | value, changed⟩
  · -- a refused edit refuses the sequence
    rw [hresult] at hedit
    exact hedit
  · rw [hresult] at hedit
    exact hnext value changed hedit

/-- A request that is made is followed by what comes after it. -/
theorem bind_of_ok {change : Registry → Except RegistryError (α × Registry)} {next : α → Edit β}
    {after : β → Registry → Prop} {value : α} {changed : Registry}
    (hok : change registry = .ok (value, changed))
    (hnext : (next value).Yields changed after refused) :
    (Edit.attempt change >>= next).Yields registry after refused := by
  rw [Yields, apply_bind, apply_attempt, hok]
  exact hnext

/-- A request that is refused is followed by nothing. -/
theorem bind_of_error {change : Registry → Except RegistryError (α × Registry)}
    {next : α → Edit β} {after : β → Registry → Prop} {error : RegistryError}
    (herror : change registry = .error error) (hrefused : refused error registry) :
    (Edit.attempt change >>= next).Yields registry after refused := by
  rw [Yields, apply_bind, apply_attempt, herror]
  exact hrefused

/-- What follows a reading relies on the registry as it is. -/
theorem bind_read {next : Registry → Edit α}
    (hnext : (next registry).Yields registry after refused) :
    (Edit.read >>= next).Yields registry after refused := hnext

/-- A guarantee may be weakened. -/
theorem mono {edit : Edit α} {later : α → Registry → Prop}
    {dropped : RegistryError → Registry → Prop} (hedit : edit.Yields registry after refused)
    (hafter : ∀ value changed, after value changed → later value changed)
    (hrefused : ∀ error changed, refused error changed → dropped error changed) :
    edit.Yields registry later dropped := by
  rw [Yields] at hedit ⊢
  rcases hresult : edit.apply registry with ⟨error | value, changed⟩
  · rw [hresult] at hedit
    exact hrefused error changed hedit
  · rw [hresult] at hedit
    exact hafter value changed hedit

/-- The registry that an edit leaves, whether it is refused or not. -/
theorem leaves {edit : Edit α} {property : Registry → Prop}
    (hedit : edit.Yields registry (fun _ => property) fun _ => property) :
    property (edit.apply registry).2 := by
  rw [Yields] at hedit
  rcases hresult : edit.apply registry with ⟨error | value, changed⟩
  · rw [hresult] at hedit
    exact hedit
  · rw [hresult] at hedit
    exact hedit

end Yields

/-! ## Properties that are kept -/

/-- **A kept property.** An edit of a registry with the property leaves one, even where the edit
is refused. -/
def Keeps (property : Registry → Prop) (edit : Edit α) : Prop :=
  ∀ registry, property registry → edit.Yields registry (fun _ => property) fun _ => property

variable {property : Registry → Prop}

theorem Keeps.pure (value : α) : Keeps property (Pure.pure value : Edit α) :=
  fun _ hproperty => Yields.pure hproperty

theorem Keeps.read : Keeps property Edit.read := fun _ hproperty => hproperty

/-- A sequence keeps what its parts keep. -/
theorem Keeps.bind {edit : Edit α} {next : α → Edit β} (hedit : Keeps property edit)
    (hnext : ∀ value, Keeps property (next value)) : Keeps property (edit >>= next) :=
  fun registry hproperty =>
    (hedit registry hproperty).bind fun value changed hchanged => hnext value changed hchanged

/-- A request has to keep a property only where it is not refused. -/
theorem Keeps.attempt {change : Registry → Except RegistryError (α × Registry)}
    (hchange : ∀ registry value changed, property registry →
      change registry = .ok (value, changed) → property changed) :
    Keeps property (Edit.attempt change) :=
  fun registry hproperty => Yields.attempt
    (fun value changed hok => hchange registry value changed hproperty hok)
    fun _ _ => hproperty

/-- What no copy to a free path breaks is kept by the copies of a list of objects. -/
theorem keeps_copyMissing {other : Registry} {objects : List CodeObject}
    (hcopy : ∀ object ∈ objects, ∀ registry id changed, property registry →
      registry.contains object.path = false →
      registry.copyObject other object = .ok (id, changed) → property changed) :
    Keeps property (copyMissing other objects) := by
  induction objects with
  | nil => exact .pure 0
  | cons object rest ih =>
    have hrest := ih fun later hlater => hcopy later (List.mem_cons_of_mem _ hlater)
    intro registry hproperty
    rw [copyMissing]
    refine Yields.bind_read ?_
    split
    · -- an object whose path is taken is not copied
      exact hrest registry hproperty
    · rename_i hfree
      refine (Yields.attempt (fun id changed hok => ?_) fun _ _ => hproperty).bind
        fun id changed hchanged => (hrest.bind fun count => .pure (count + 1)) changed hchanged
      exact hcopy object List.mem_cons_self registry id changed hproperty
        (Bool.eq_false_iff.2 hfree) hok

/-- **Merging.** What no copy of a registered object of the other registry to a free path breaks is
kept by the merge. -/
theorem keeps_merge {other : Registry} (hcopy : ∀ object ∈ other.registered,
      ∀ registry id changed, property registry → registry.contains object.path = false →
      registry.copyObject other object = .ok (id, changed) → property changed) :
    Keeps property (merge other) := keeps_copyMissing hcopy

end RubyIndex.Edit
