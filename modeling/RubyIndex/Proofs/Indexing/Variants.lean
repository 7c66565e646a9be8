import RubyIndex.Proofs.Indexing.Headers
import RubyIndex.Proofs.Indexing.Provenance

/-! # Variants and definitions

The variant of an object is that of the first request for it, while its origin is the last
definition of it. They agree where these two do. For methods in a namespace this needs no
assumption: their paths tell what they are called on.

* `CodeObject.MatchesText` relates an object and the text of its definition.
* `Receiver.eq_of_joinPath_eq`: paths tell what methods are called on.
* `Registration.Agree` is the assumption about the requests for an object, and
  `Registry.BuiltBy.matchesText` the result. For namespaces the assumption is needed:
  `Registry.BuiltBy.matchesText_iff_agree`. -/

namespace RubyIndex

open Syntax

/-! ## Objects and texts -/

/-- The keyword that opens a namespace of a flavor. -/
def Flavor.keyword : Flavor → TokenKind
  | .moduleFlavor => .moduleKw
  | .classFlavor => .classKw

/-- Whether the first token of a text is of the given kind. -/
def Syntax.Token.beginsText (kind : TokenKind) (text : String) : Bool :=
  (tokenize text).head?.any (·.kind == kind)

/-- **An object that matches the text of a definition.** A namespace is of the flavor of the keyword
that the text begins with. If the text names a receiver, a method is called on the namespace. -/
structure CodeObject.MatchesText (object : CodeObject) (text : String) : Prop where
  flavor : object.isNamespace = true →
    ∀ flavor, object.flavor? = some flavor ↔ Token.beginsText flavor.keyword text = true
  receiver : object.isMethod = true → Token.namesReceiver (Token.tokenize text) = true →
    object.receiver? = some .theNamespace

/-- A text that begins with the keyword of a flavor begins with that of no other. -/
theorem Flavor.beginsText_iff {flavor other : Flavor} {text : String}
    (hbegins : Token.beginsText flavor.keyword text = true) :
    flavor = other ↔ Token.beginsText other.keyword text = true := by
  refine ⟨fun hsame => hsame ▸ hbegins, fun hother => ?_⟩
  unfold Token.beginsText at hbegins hother
  cases hhead : (Token.tokenize text).head? with
  | none =>
    rw [hhead] at hbegins
    cases hbegins
  | some token =>
    rw [hhead, Option.any_some, beq_iff_eq] at hbegins hother
    rw [hbegins] at hother
    revert hother
    cases flavor <;> cases other <;> decide

/-! ## Paths of methods -/

/-- The separator of a method is a mark that neither names of methods nor paths of namespaces
have. -/
theorem Receiver.exists_mark (receiver : Receiver) : ∃ mark, receiver.separator.toList = [mark] ∧
    isPathMark mark = true ∧ continuesName mark = false ∧ mark ≠ ':' := by
  cases receiver with
  | anInstance => exact ⟨'#', rfl, rfl, rfl, by decide⟩
  | theNamespace => exact ⟨'.', rfl, rfl, rfl, by decide⟩

/-- **Paths tell what methods are called on**, unless they are bare names. -/
theorem Receiver.eq_of_joinPath_eq {first second : Receiver} {owner other name otherName : String}
    (howner : IsNamespacePath owner) (hne : owner ≠ "") (hname : IsMethodName name)
    (hother : IsMethodName otherName)
    (hsame : joinPath owner first.separator name = joinPath other second.separator otherName) :
    first = second := by
  have hotherOwner : other ≠ "" := by
    rintro rfl
    -- the path on the right would be a bare name, without the mark of the one on the left
    obtain ⟨mark, hmark, hpath, -, -⟩ := first.exists_mark
    have hmem : mark ∈ (joinPath owner first.separator name).toList :=
      mem_joinPath_of_ne_empty hne (by rw [hmark]; exact List.mem_cons_self)
    rw [hsame, toList_joinPath, if_pos rfl] at hmem
    exact hother.isPlain.not_mem hpath hmem
  obtain ⟨mark, hmark, hpath, hnotName, hnotColon⟩ := second.exists_mark
  have hmem : mark ∈ (joinPath other second.separator otherName).toList :=
    mem_joinPath_of_ne_empty hotherOwner (by rw [hmark]; exact List.mem_cons_self)
  rw [← hsame] at hmem
  rcases mem_of_mem_joinPath hmem with hmem | hmem | hmem
  · exact absurd hmem (howner.not_mem mark hnotName hnotColon)
  · obtain ⟨firstMark, hfirstMark, -⟩ := first.exists_mark
    rw [hfirstMark, List.mem_singleton] at hmem
    have hseparator : first.separator.toList = second.separator.toList := by
      rw [hfirstMark, hmark, hmem]
    revert hseparator
    cases first <;> cases second <;> decide
  · exact absurd hmem (hname.isPlain.not_mem hpath)

/-! ## Definitions -/

namespace Indexing.Visit

variable {source : String} {visit : Visit} {defined : Declaration} {object : CodeObject}

/-- The first token of a node is that of its text. -/
theorem beginsText_text (hvisit : visit ∈ visits (parse source).tree) (kind : TokenKind) :
    Token.beginsText kind visit.site.text = Place.opensWith kind visit.site.children := by
  rw [Token.beginsText, Site.tokenize_text (site_mem_of_mem_visits hvisit)]
  rfl

/-- **A namespace is defined** with the keyword of its flavor. -/
theorem exists_flavor (hvisit : visit ∈ visits (parse source).tree)
    (hdefined : visit.defined? = some defined)
    (hkind : (visit.details defined).kind = .namespace) :
    ∃ flavor, visit.details defined = .newNamespace flavor ∧
      Token.beginsText flavor.keyword visit.site.text = true := by
  have hformed := (Site.legible_of_mem_sites (site_mem_of_mem_visits hvisit)).1.2
  simp only [beginsText_text hvisit]
  unfold details at hkind ⊢
  rcases kind_of_defined? hdefined with hsite | hsite | hsite | hsite
  · rw [hsite] at hformed ⊢
    exact ⟨.moduleFlavor, rfl, hformed⟩
  · rw [hsite] at hformed ⊢
    exact ⟨.classFlavor, rfl, hformed⟩
  · rw [hsite] at hkind
    cases hkind
  · rw [hsite] at hkind
    dsimp only at hkind
    split at hkind <;> cases hkind

/-- **A method is defined** with what it is called on, and under its name. -/
theorem exists_receiver (hvisit : visit ∈ visits (parse source).tree)
    (hdefined : visit.defined? = some defined) (hkind : (visit.details defined).kind = .method) :
    ∃ receiver, visit.details defined = .newMethod receiver ∧
      (Token.namesReceiver (Token.tokenize visit.site.text) = true → receiver = .theNamespace) ∧
      ∃ owner name, IsMethodName name ∧ defined.path = joinPath owner receiver.separator name := by
  have hsite := kind_of_method hdefined hkind
  have hmem := site_mem_of_mem_visits hvisit
  obtain ⟨⟨-, hformed⟩, hlegible⟩ := Site.legible_of_mem_sites hmem
  rw [hsite] at hformed
  refine ⟨methodReceiver visit.above visit.node, by rw [details, hsite], ?_, ?_⟩
  · intro hnames
    rw [Site.tokenize_text hmem] at hnames
    have hsingleton : Tree.hasNode .singleton visit.node.children = true := hformed.2 hnames
    rw [methodReceiver, hsingleton, Bool.true_or, if_pos rfl]
  · have hnode : visit.node.kind = .methodDef := hsite
    unfold defined? declared contribution at hdefined
    rw [hnode] at hdefined
    dsimp only at hdefined
    cases hname : visit.node.site.methodName? with
    | none =>
      rw [hname] at hdefined
      cases hdefined
    | some name =>
      rw [hname] at hdefined
      cases hdefined
      exact ⟨_, name, names_of_methodName? visit.node.site hlegible hname, rfl⟩

/-- **An object of the variant of a definition** matches the text of the definition. -/
theorem matchesText_of_variant_eq (hvisit : visit ∈ visits (parse source).tree)
    (hdefined : visit.defined? = some defined)
    (hkind : (visit.details defined).kind = object.kind)
    (hvariant : object.details.variant = (visit.details defined).variant) :
    object.MatchesText visit.site.text where
  flavor hnamespace flavor := by
    obtain ⟨opened, hdetails, hbegins⟩ :=
      exists_flavor hvisit hdefined (hkind.trans (eq_of_beq hnamespace))
    rw [hdetails] at hvariant
    rw [CodeObject.flavor?_eq_some_iff.2 hvariant, Option.some.injEq]
    exact Flavor.beginsText_iff hbegins
  receiver hmethod hnames := by
    obtain ⟨receiver, hdetails, hreceiver, -⟩ :=
      exists_receiver hvisit hdefined (hkind.trans (eq_of_beq hmethod))
    rw [hdetails] at hvariant
    rw [CodeObject.receiver?_eq_some_iff.2 hvariant, hreceiver hnames]

/-- **A method in a namespace** has the variant of its definitions, since they have its path. -/
theorem variant_eq_of_method {registry : Registry} (hsound : registry.Sound) {id : ObjectId}
    (hget : registry.get? id = some object) (hne : id ≠ .root) (howner : object.owner ≠ some .root)
    (hvisit : visit ∈ visits (parse source).tree) (hdefined : visit.defined? = some defined)
    (hpath : defined.path = object.path) (hkind : (visit.details defined).kind = object.kind)
    (hmethod : object.kind = .method) :
    object.details.variant = (visit.details defined).variant := by
  obtain ⟨receiver, hdetails, -, owner, name, hname, hdefinedPath⟩ :=
    exists_receiver hvisit hdefined (hkind.trans hmethod)
  obtain ⟨parentId, parent, hparentId, hparent, -, hnamespace, hobjectPath⟩ :=
    hsound.owned hget hne
  have hparentPath : parent.path ≠ "" := by
    refine hsound.path_ne_empty hparent ?_
    rintro rfl
    exact howner hparentId
  have hobjectName := hsound.names hget hne
  rw [hmethod] at hobjectName
  rw [hdetails]
  unfold CodeObject.kind at hmethod
  cases hown : object.details with
  | method ownReceiver signature =>
    rw [hown] at hobjectPath
    -- one path is split in two ways, and the separators in it tell the receivers
    have hsame := hobjectPath.symm.trans (hpath.symm.trans hdefinedPath)
    have hreceiver : ownReceiver = receiver := Receiver.eq_of_joinPath_eq
      (hsound.isNamespacePath hparent hnamespace) hparentPath hobjectName hname hsame
    rw [hreceiver]
    rfl
  | _ =>
    rw [hown] at hmethod
    cases hmethod

/-- The variant of a variable is decided by its kind. -/
theorem variant_eq_of_variable (hkind : (visit.details defined).kind = object.kind)
    (hvariable : object.kind ≠ .namespace ∧ object.kind ≠ .method) :
    object.details.variant = (visit.details defined).variant := by
  unfold CodeObject.kind at hkind hvariable
  revert hkind hvariable
  cases object.details <;> cases visit.details defined <;>
    simp [Details.kind, Details.variant, Details.unrevised, Details.withoutScopes]

end Indexing.Visit

/-! ## Registries -/

/-- **Agreeing requests.** The first of the requests for an object is for the variant that its last
definition has. -/
def Registration.Agree (requests : List Registration) : Prop :=
  ∀ founder ∈ founder? requests, ∀ last ∈ lastDefinition? requests,
    founder.details.variant = last.details.variant

instance (requests : List Registration) : Decidable (Registration.Agree requests) :=
  inferInstanceAs (Decidable (∀ founder ∈ Registration.founder? requests,
    ∀ last ∈ Registration.lastDefinition? requests, _))

namespace Registry

open Indexing

section

variable {history : String → List Registration} {registry : Registry} {id : ObjectId}
  {object : CodeObject} {origin : Origin} (hbuilt : BuiltBy history registry)
  (hget : registry.get? id = some object) (horigin : object.origin = some origin)

include hbuilt hget horigin

/-- The root has no origin. -/
theorem BuiltBy.ne_root : id ≠ .root := by
  rintro rfl
  have hroot := hbuilt.madeBy.root
  rw [hget, Option.bind_some, horigin] at hroot
  cases hroot

/-- **The definition of an object** that is its origin. The requests for the object agree where the
object is of the variant of the definition. -/
theorem BuiltBy.exists_definition :
    ∃ source, ∃ visit ∈ visits (parse source).tree, ∃ defined, visit.defined? = some defined ∧
      defined.path = object.path ∧ (visit.details defined).kind = object.kind ∧
      origin.text = visit.site.text ∧
      (Registration.Agree (history object.path) ↔
        object.details.variant = (visit.details defined).variant) := by
  have hmadeAt := hbuilt.madeBy.madeAt_of_get? hget (hbuilt.ne_root hget horigin)
  obtain ⟨source, -, visit, hvisit, defined, hdefined, hpath, hkind, hquoted, hlast⟩ :=
    hmadeAt.exists_visit horigin
  obtain ⟨founder, hfounder, hvariant⟩ := hmadeAt.exists_founder
  rw [CodeObject.kind_portrait] at hkind
  rw [CodeObject.variant_portrait] at hvariant
  refine ⟨source, visit, hvisit, defined, hdefined, hpath, hkind, by rw [hquoted]; rfl, ?_⟩
  rw [hvariant]
  constructor
  · exact fun hagree => hagree founder hfounder _ hlast
  · intro hsame first hfirst last hfound
    obtain rfl := Option.some.inj (hfounder.symm.trans hfirst)
    obtain rfl := Option.some.inj (hlast.symm.trans hfound)
    exact hsame

/-- **Objects match their definitions** where the first requests for them do. The requests matter
for namespaces and for methods directly under the root only. -/
theorem BuiltBy.matchesText
    (hagree : object.isNamespace = true ∨ object.owner = some .root →
      Registration.Agree (history object.path)) :
    object.MatchesText origin.text := by
  obtain ⟨source, visit, hvisit, defined, hdefined, hpath, hkind, htext, hvariant⟩ :=
    hbuilt.exists_definition hget horigin
  rw [htext]
  refine Visit.matchesText_of_variant_eq hvisit hdefined hkind ?_
  by_cases hdecided : object.isNamespace = true ∨ object.owner = some .root
  · exact hvariant.1 (hagree hdecided)
  · obtain ⟨hnamespace, howner⟩ := not_or.1 hdecided
    by_cases hmethod : object.kind = .method
    · exact Visit.variant_eq_of_method hbuilt.madeBy.sound hget (hbuilt.ne_root hget horigin)
        howner hvisit hdefined hpath hkind hmethod
    · refine Visit.variant_eq_of_variable hkind ⟨fun hsame => hnamespace ?_, hmethod⟩
      exact beq_iff_eq.2 hsame

/-- **Namespaces match their definitions** exactly where the first requests for them do. -/
theorem BuiltBy.matchesText_iff_agree (hnamespace : object.isNamespace = true) :
    object.MatchesText origin.text ↔ Registration.Agree (history object.path) := by
  obtain ⟨source, visit, hvisit, defined, hdefined, -, hkind, htext, hvariant⟩ :=
    hbuilt.exists_definition hget horigin
  rw [htext, hvariant]
  refine ⟨fun hmatches => ?_, Visit.matchesText_of_variant_eq hvisit hdefined hkind⟩
  obtain ⟨flavor, hdetails, hbegins⟩ :=
    Visit.exists_flavor hvisit hdefined (hkind.trans (eq_of_beq hnamespace))
  rw [hdetails]
  exact CodeObject.flavor?_eq_some_iff.1 ((hmatches.flavor hnamespace flavor).2 hbegins)

end

/-- A class that a later qualified name brings in again, with two methods of one name in a file
more: the class and the method on the class match their definitions. -/
theorem BuiltBy.matchesText_reopened :
    let first := "class A\nend\nmodule A::B\nend\n"
    let second := "class A\n  def x\n  end\n  def self.x\n  end\nend\n"
    let registry := ((Indexing.indexSource "b.rb" second).apply
      ((Indexing.indexSource "a.rb" first).apply .empty).2).2
    ∃ space method, registry.get? ⟨1⟩ = some space ∧ registry.get? ⟨4⟩ = some method ∧
      space.MatchesText "class A\n  def x\n  end\n  def self.x\n  end\nend" ∧
      space.flavor? = some .classFlavor ∧ method.MatchesText "def self.x\n  end" ∧
      method.receiver? = some .theNamespace := by
  intro first second registry
  have hbuilt := (BuiltBy.empty.indexSource_of_isOk "a.rb" first
    (by decide +kernel)).indexSource_of_isOk "b.rb" second (by decide +kernel)
  have hspace : (registry.get? ⟨1⟩).map (fun object =>
      (object.isNamespace, object.path, object.origin)) = some (true, "A", some ⟨"b.rb", 0, 44,
        "class A\n  def x\n  end\n  def self.x\n  end\nend"⟩) := by decide +kernel
  have hmethod : (registry.get? ⟨4⟩).map (fun object =>
      (object.isNamespace, object.isMethod, object.owner, object.origin)) =
        some (false, true, some ⟨1⟩, some ⟨"b.rb", 24, 40, "def self.x\n  end"⟩) := by decide +kernel
  obtain ⟨space, hgetSpace, hspaceParts⟩ := Option.map_eq_some_iff.1 hspace
  obtain ⟨method, hgetMethod, hmethodParts⟩ := Option.map_eq_some_iff.1 hmethod
  simp only [Prod.mk.injEq] at hspaceParts hmethodParts
  obtain ⟨hspaceKind, hspacePath, hspaceOrigin⟩ := hspaceParts
  obtain ⟨hnotNamespace, hmethodKind, howner, hmethodOrigin⟩ := hmethodParts
  have hspaceMatches := BuiltBy.matchesText hbuilt hgetSpace hspaceOrigin fun _ => by
    rw [hspacePath]
    decide +kernel
  have hmethodMatches := BuiltBy.matchesText hbuilt hgetMethod hmethodOrigin fun hdecided => by
    rw [hnotNamespace, howner] at hdecided
    exact absurd hdecided (by decide)
  exact ⟨space, method, hgetSpace, hgetMethod, hspaceMatches,
    (hspaceMatches.flavor hspaceKind .classFlavor).2 (by decide +kernel), hmethodMatches,
    hmethodMatches.receiver hmethodKind (by decide +kernel)⟩

/-- **A class that a qualified name brings in** stays a module when it is opened as a class. -/
theorem Built.not_matchesText_qualified :
    let registry :=
      ((Indexing.indexSource "a.rb" "class A::B\nend\nclass A\nend\n").apply .empty).2
    ∃ object, Built registry ∧ registry.get? ⟨1⟩ = some object ∧
      object.origin = some ⟨"a.rb", 15, 26, "class A\nend"⟩ ∧ object.isNamespace = true ∧
      ¬ object.MatchesText "class A\nend" := by
  intro registry
  have hread : (registry.get? ⟨1⟩).map (fun object =>
      (object.origin, object.isNamespace, object.flavor?)) =
        some (some ⟨"a.rb", 15, 26, "class A\nend"⟩, true, some .moduleFlavor) := by decide +kernel
  obtain ⟨object, hget, hparts⟩ := Option.map_eq_some_iff.1 hread
  simp only [Prod.mk.injEq] at hparts
  obtain ⟨horigin, hnamespace, hflavor⟩ := hparts
  refine ⟨object, Built.empty.indexSource "a.rb" _, hget, horigin, hnamespace, ?_⟩
  intro hmatches
  have hclass := (hmatches.flavor hnamespace .classFlavor).2 (by decide +kernel)
  rw [hflavor] at hclass
  cases hclass

end Registry

end RubyIndex
