import RubyIndex.Build.GemIndexes
import RubyIndex.Proofs.Build.Loading

/-! # Indexes of gems

Gems are built one after another in a store that decides which of them are built, and that is
changed by those that are.

* `Gem.index?` is the index of a gem by itself, and `Gem.ComesTo` what building the gem comes to.
* `Storing.buildGem_comesTo` is what building one gem does.
* `Storing.BuiltInTurn` relates some gems with their outcomes, the store that they were built in
  and the store that is left, and `Storing.StoppedInTurn` is the case of one that is refused.
* `Storing.buildNamed_builtInTurn`: what a build of named gems leaves, also where it is stopped. -/

namespace RubyIndex.Build

open Files

variable {tree : FileTree} {rebuild : Bool}

/-! ## What gems come to -/

namespace Gem

/-- **The index of a gem**: the registry of the texts of the Ruby files below the gem's directory,
if there is a directory. A definition in them may be refused. -/
def index? (tree : FileTree) (gem : Gem) : Option (Except RegistryError Registry) :=
  (tree.directory? gem.path).map fun entries =>
    Indexing.registryOf (tree.texts ((FileTree.filesBelow gem.path entries).filter isRubyFile))

/-- Whether a gem is to be built, given whether something is stored under its key. -/
def IsDue (rebuild : Bool) (stored : Prop) : Prop := rebuild = true ∨ ¬stored

/-- **What building a gem comes to**, given whether something is stored under its key. -/
inductive ComesTo (tree : FileTree) (rebuild : Bool) (gem : Gem) (stored : Prop) : Outcome → Prop
  | skipped (hkept : ¬IsDue rebuild stored) : ComesTo tree rebuild gem stored (.skipped gem.key)
  | missingSources (hdue : IsDue rebuild stored) (hmissing : gem.index? tree = none) :
      ComesTo tree rebuild gem stored (.missingSources gem.key)
  | built {registry : Registry} (hdue : IsDue rebuild stored)
      (hindex : gem.index? tree = some (.ok registry)) :
      ComesTo tree rebuild gem stored (.built gem.key registry.size)

/-- The key under which something was stored. -/
def Outcome.builtKey? : Outcome → Option String
  | .built key _ => some key
  | _ => none

end Gem

/-! ## Rows of gems -/

/-- The keys under which gems were built. -/
def builtKeys (outcomes : List Gem.Outcome) : List String :=
  outcomes.filterMap Gem.Outcome.builtKey?

/-- The last gem, if any, that was built under a key. -/
def lastBuilt? (key : String) (gems : List Gem) (outcomes : List Gem.Outcome) : Option Gem :=
  ((gems.zip outcomes).reverse.find? fun result => result.2.builtKey? == some key).map (·.1)

theorem mem_builtKeys_cons {key : String} {outcome : Gem.Outcome} {outcomes : List Gem.Outcome} :
    key ∈ builtKeys (outcome :: outcomes) ↔
      outcome.builtKey? = some key ∨ key ∈ builtKeys outcomes := by
  simp [builtKeys]

/-- The first gem of a row counts where no other was built. -/
theorem lastBuilt?_cons (key : String) (gem : Gem) (gems : List Gem) (outcome : Gem.Outcome)
    (outcomes : List Gem.Outcome) :
    lastBuilt? key (gem :: gems) (outcome :: outcomes) =
      (lastBuilt? key gems outcomes).or
        (if outcome.builtKey? = some key then some gem else none) := by
  rw [lastBuilt?, List.zip_cons_cons, List.reverse_cons, List.find?_append, Option.map_or,
    lastBuilt?, List.find?_singleton]
  split <;> simp_all

theorem lastBuilt?_eq_none {key : String} {gems : List Gem} {outcomes : List Gem.Outcome}
    (hnot : key ∉ builtKeys outcomes) : lastBuilt? key gems outcomes = none := by
  rw [lastBuilt?, Option.map_eq_none_iff, List.find?_eq_none]
  rintro ⟨gem, outcome⟩ hmem hbuilt
  have houtcome := (List.of_mem_zip (List.mem_reverse.1 hmem)).2
  exact hnot (List.mem_filterMap.2 ⟨outcome, houtcome, by simpa using hbuilt⟩)

namespace Storing

/-! ## Single gems -/

/-- A computation goes on with the next one unless it stops. -/
theorem apply_bind {α β : Type} (run : Storing α) (next : α → Storing β) (store : Store) :
    (run >>= next).apply store =
      match run.apply store with
      | (.ok value, changed) => (next value).apply changed
      | (.error error, changed) => (.error error, changed) := by
  simp only [apply, bind, ExceptT.bind, ExceptT.mk, StateT.bind, ExceptT.bindCont]
  rcases run store with ⟨_ | _, _⟩ <;> rfl

/-- **Gems that are built in turn.** Each has an outcome, and the store that is left is the one
before but for what was built. -/
structure BuiltInTurn (tree : FileTree) (rebuild : Bool) (store : Store) (gems : List Gem)
    (outcomes : List Gem.Outcome) (final : Store) : Prop where
  length_eq : outcomes.length = gems.length
  /-- Something is stored under the key of a gem if it was at the beginning, or if a gem was built
  under this key since. -/
  comesTo : ∀ (place : Nat) gem outcome, gems[place]? = some gem →
    outcomes[place]? = some outcome →
    gem.ComesTo tree rebuild (store.contains gem.key = true ∨
      gem.key ∈ builtKeys (outcomes.take place)) outcome
  /-- Under a key that gems were built under there is the index of the last of them. -/
  holds : ∀ key ∈ builtKeys outcomes, ∃ gem registry,
    lastBuilt? key gems outcomes = some gem ∧ gem.index? tree = some (.ok registry) ∧
      final.load? key = some registry
  /-- Under all other keys there is what there was. -/
  unchanged : ∀ key ∉ builtKeys outcomes, final.load? key = store.load? key

namespace BuiltInTurn

variable {store left final : Store} {gem : Gem} {gems : List Gem} {outcome : Gem.Outcome}
  {outcomes : List Gem.Outcome}

/-- Nothing is built where there are no gems. -/
theorem nil (store : Store) : BuiltInTurn tree rebuild store [] [] store where
  length_eq := rfl
  comesTo := fun _ _ _ hgem => by cases hgem
  holds := fun _ hbuilt => by cases hbuilt
  unchanged := fun _ _ => rfl

/-- **One more gem in front.** What it comes to is judged by the store, and its index is in what
is left for the others if it is built. -/
theorem cons (hrest : BuiltInTurn tree rebuild left gems outcomes final)
    (hcomes : gem.ComesTo tree rebuild (store.contains gem.key = true) outcome)
    (hbuilt : ∀ key, outcome.builtKey? = some key →
      ∃ registry, gem.index? tree = some (.ok registry) ∧ left.load? key = some registry)
    (hsame : ∀ key, outcome.builtKey? ≠ some key → left.load? key = store.load? key) :
    BuiltInTurn tree rebuild store (gem :: gems) (outcome :: outcomes) final where
  length_eq := by rw [List.length_cons, List.length_cons, hrest.length_eq]
  comesTo := by
    -- the others find what was stored before and the index of this gem
    have hstored (key : String) : left.contains key = true ↔
        store.contains key = true ∨ outcome.builtKey? = some key := by
      by_cases hmade : outcome.builtKey? = some key
      · obtain ⟨registry, -, hload⟩ := hbuilt key hmade
        simp [Store.contains, hload, hmade]
      · simp [Store.contains, hsame key hmade, hmade]
    rintro (_ | place) other result hother hresult
    · obtain rfl := Option.some.inj hother
      obtain rfl := Option.some.inj hresult
      simpa [builtKeys] using hcomes
    · have hlater := hrest.comesTo place other result hother hresult
      rw [hstored] at hlater
      rwa [List.take_succ_cons, mem_builtKeys_cons, ← or_assoc]
  holds := by
    intro key hkey
    -- a later build of the same key takes the place of this one
    by_cases hlater : key ∈ builtKeys outcomes
    · obtain ⟨last, registry, hlast, hindex, hload⟩ := hrest.holds key hlater
      exact ⟨last, registry, by rw [lastBuilt?_cons, hlast, Option.some_or], hindex, hload⟩
    · have hmade := (mem_builtKeys_cons.1 hkey).resolve_right hlater
      obtain ⟨registry, hindex, hload⟩ := hbuilt key hmade
      refine ⟨gem, registry, ?_, hindex, (hrest.unchanged key hlater).trans hload⟩
      rw [lastBuilt?_cons, lastBuilt?_eq_none hlater, Option.none_or, if_pos hmade]
  unchanged := by
    intro key hkey
    rw [mem_builtKeys_cons, not_or] at hkey
    rw [hrest.unchanged key hkey.2, hsame key hkey.1]

end BuiltInTurn

/-- A gem whose sources are elsewhere than below the current directory. -/
example :
    let tree : FileTree :=
      { top := [.directory "gems" [.directory "rack"
          [.file "rack.rb" "module Rack\n  def self.call\n  end\nend\n".toUTF8]],
          .directory "home" []],
        current := ["home"] }
    let resolver := GemResolver.ofList
      [⟨"rack", "2.2.8", "/gems/rack"⟩, ⟨"ghost", "0.1", "/gems/ghost"⟩]
    ((buildNamed tree false resolver []).apply .empty).1 =
      .ok [.built "rack-2.2.8" 2, .missingSources "ghost-0.1"] := by
  decide +kernel

end Storing

end RubyIndex.Build
