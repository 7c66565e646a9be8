import RubyIndex.Proofs.Indexing.CodeVisits
import RubyIndex.Proofs.Indexing.Revisions
import RubyIndex.Proofs.Registry.Admission
import RubyIndex.Proofs.Syntax.OverlookedProductions

/-! # Comments at the ends of lines

A comment that is put at the end of a line leaves what a text defines as it is, and of the values of
variables the tokens that are code, if no expression carries on over the line break. Where one does,
the comment ends it.

* `Gist.requests`: whether a text is indexed depends on the gists of its visits.
* `exists_value_of_registered`: and so does the code of the values that are recorded.
* `indexSource_withComment` is the result for texts. -/

namespace RubyIndex

open Syntax

/-! ## What is requested -/

/-- What a registration asks for: an object of a kind at a path. -/
def Registration.request (registration : Registration) : String × ObjectKind :=
  (registration.declaration.path, registration.details.kind)

/-- Whether registrations are admitted depends on what they ask for. -/
theorem Registry.Admits.of_requests {registry : Registry} {made made' : List Registration}
    (hadmits : registry.Admits made)
    (hrequests : made'.map Registration.request = made.map Registration.request) :
    registry.Admits made' := by
  have hsame : ∀ registration' ∈ made', ∃ registration ∈ made,
      registration.declaration.path = registration'.declaration.path ∧
        registration.details.kind = registration'.details.kind := by
    intro registration' hmem
    have hlisted : registration'.request ∈ made.map Registration.request :=
      hrequests ▸ List.mem_map_of_mem hmem
    obtain ⟨registration, hmade, hrequest⟩ := List.mem_map.1 hlisted
    exact ⟨registration, hmade, congrArg Prod.fst hrequest, congrArg Prod.snd hrequest⟩
  refine ⟨fun registration' hmem kind hkind => ?_, fun earlier' hearlier later' hlater hpath => ?_⟩
  · obtain ⟨registration, hmade, hpath, hdetails⟩ := hsame registration' hmem
    rw [← hdetails]
    exact hadmits.settled registration hmade kind (by rwa [hpath])
  · obtain ⟨earlier, hearlierMade, hearlierPath, hearlierKind⟩ := hsame earlier' hearlier
    obtain ⟨later, hlaterMade, hlaterPath, hlaterKind⟩ := hsame later' hlater
    rw [← hearlierKind, ← hlaterKind]
    exact hadmits.agreeing earlier hearlierMade later hlaterMade
      (hearlierPath.trans (hpath.trans hlaterPath.symm))

namespace Indexing

/-- The kind of the object that a node defines. -/
def Node.definedKind (node : Node) (defined : Declaration) : ObjectKind :=
  match node.kind with
  | .moduleDef | .classDef => .namespace
  | .methodDef => .method
  | _ => if defined.kind = .instanceVariable then .instanceVariable else .classVariable

/-- The details of a definition are of its kind. -/
theorem Visit.kind_details (visit : Visit) (defined : Declaration) :
    (visit.details defined).kind = visit.node.definedKind defined := by
  obtain ⟨above, place, kind, children⟩ := visit
  unfold details Node.definedKind
  cases kind with
  | moduleDef => rfl
  | classDef => rfl
  | methodDef => rfl
  | _ =>
    dsimp only [node]
    split <;> rfl

namespace Gist

/-- What a visit asks for, as its gist tells. -/
def requests (gist : Gist) : List (String × ObjectKind) :=
  gist.declared.dropLast.map (fun qualifier => (qualifier.path, .namespace)) ++
    (gist.declared.getLast?.map fun defined =>
      (defined.path, gist.node.definedKind defined)).toList

/-- Whether a visit defines the object at a path, as its gist tells. -/
def defines (path : String) (gist : Gist) : Bool := gist.declared.getLast?.any (·.path == path)

end Gist

/-- A visit asks for what its gist tells. -/
theorem Visit.map_request_registrations (file : String) (visit : Visit) :
    (visit.registrations file).map Registration.request = visit.gist.requests := by
  rw [registrations, List.map_append, List.map_map, Gist.requests]
  refine congrArg (_ ++ ·) ?_
  show ((visit.declared.getLast?.map _).toList).map _ = (visit.declared.getLast?.map _).toList
  cases visit.declared.getLast? with
  | none => rfl
  | some defined =>
    exact congrArg (fun kind => [(defined.path, kind)]) (visit.kind_details defined)

/-- **What a text asks for**, as the gists of its visits tell. -/
theorem map_request_registrations (file source : String) :
    (registrations file source).map Registration.request =
      ((visits (parse source).tree).map Visit.gist).flatMap Gist.requests := by
  rw [registrations, List.map_flatMap, List.flatMap_map]
  exact List.flatMap_congr fun visit _ => visit.map_request_registrations file

/-! ## What is recorded -/

/-- The definitions of an object, as the gists of the visits tell. -/
theorem map_gist_filter_defines (path : String) (visits : List Visit) :
    (visits.filter (·.defines path)).map Visit.gist =
      (visits.map Visit.gist).filter (Gist.defines path) := by
  rw [List.filter_map]
  rfl

/-- **The value** that is recorded for a variable has the code of the value in the last definition
of the variable. -/
theorem exists_value_of_registered {file source : String} {id : ObjectId} {object : CodeObject}
    (hok : ((indexSource file source).apply .empty).1.isOk = true)
    (hget : ((indexSource file source).apply .empty).2.get? id = some object) (hne : id ≠ .root)
    (hvariable : object.kind = .instanceVariable ∨ object.kind = .classVariable) :
    ∃ gist code value, (((visits (parse source).tree).map Visit.gist).filter
        (Gist.defines object.path)).getLast? = some gist ∧
      Tree.firstNode? .expr gist.node.children = some code ∧ object.value? = some value ∧
      Token.codeOf (Token.tokenize value) = Tree.leavesOf code := by
  have hrecords := (indexSource_makes Registry.sound_empty file source).records hok
  cases hlast : ((visits (parse source).tree).filter (·.defines object.path)).getLast? with
  | none =>
    -- an object that nothing defines is a namespace
    have hnone := List.getLast?_eq_none_iff.1 hlast
    have hnew : Registry.empty.get? id = none := by
      refine Registry.get?_eq_none_iff.2 (Nat.one_le_iff_ne_zero.2 fun hzero => hne ?_)
      exact congrArg ObjectId.mk hzero
    exfalso
    rcases portrait_of_forall_not_defines hrecords hget Registry.sound_empty hnone with
      hsame | ⟨-, declaration, hportrait⟩
    · rw [hnew] at hsame
      cases hsame
    · rw [← object.kind_portrait, hportrait] at hvariable
      rcases hvariable with hkind | hkind <;> cases hkind
  | some last =>
    obtain ⟨expression, hexpression, hvalue⟩ := exists_value hrecords hget Registry.sound_empty
      hlast hvariable
    refine ⟨last.gist, Tree.codeOf expression, Tree.textOf expression, ?_, ?_, hvalue, ?_⟩
    · rw [← map_gist_filter_defines, List.getLast?_map, hlast]
      rfl
    · show Tree.firstNode? .expr (Tree.codeOf last.site.children) = _
      rw [Tree.firstNode?_codeOf]
      exact congrArg (Option.map Tree.codeOf) hexpression
    · have hvisit := (List.mem_filter.1 (List.mem_of_getLast? hlast)).1
      obtain ⟨front, back, htokens, -⟩ := Site.exists_tokens (site_mem_of_mem_visits hvisit)
      obtain ⟨before, behind, hleaves⟩ := Tree.exists_leavesOf_of_firstNode? hexpression
      have hrow : Token.tokenize source =
          (front ++ before) ++ Tree.leavesOf expression ++ (behind ++ back) := by
        rw [htokens, hleaves]
        simp only [List.append_assoc]
      rw [Tree.leavesOf_codeOf, Tree.textOf, Token.tokenize_join hrow]

end Indexing

/-- **What is recorded of an object**: its path, kind and name, and of its value, if it has one, the
tokens that are code. -/
def CodeObject.recorded (object : CodeObject) : Declaration × Option (List Token) :=
  (object.declaration, object.value?.map fun value => Token.codeOf (Token.tokenize value))

namespace Indexing

/-- Objects of one declaration are recorded alike where the gists of the visits are the same. -/
theorem recorded_eq {file source source' : String} {id id' : ObjectId} {object object' : CodeObject}
    (hgists : (visits (parse source').tree).map Visit.gist =
      (visits (parse source).tree).map Visit.gist)
    (hok : ((indexSource file source).apply .empty).1.isOk = true)
    (hok' : ((indexSource file source').apply .empty).1.isOk = true)
    (hget : ((indexSource file source).apply .empty).2.get? id = some object) (hne : id ≠ .root)
    (hget' : ((indexSource file source').apply .empty).2.get? id' = some object')
    (hne' : id' ≠ .root) (hdeclaration : object'.declaration = object.declaration) :
    object'.recorded = object.recorded := by
  have hpath : object'.path = object.path := congrArg Declaration.path hdeclaration
  have hkind : object'.kind = object.kind := congrArg Declaration.kind hdeclaration
  rw [CodeObject.recorded, CodeObject.recorded, hdeclaration]
  refine congrArg (Prod.mk _) ?_
  -- a value is that of the last visit that defines the path, and both texts have one gist there
  by_cases hvariable : object.kind = .instanceVariable ∨ object.kind = .classVariable
  · obtain ⟨gist, code, value, hlast, hcode, hvalue, htokens⟩ :=
      exists_value_of_registered hok hget hne hvariable
    obtain ⟨gist', code', value', hlast', hcode', hvalue', htokens'⟩ :=
      exists_value_of_registered hok' hget' hne' (hkind ▸ hvariable)
    rw [hgists, hpath, hlast, Option.some.injEq] at hlast'
    subst hlast'
    rw [hcode, Option.some.injEq] at hcode'
    subst hcode'
    rw [hvalue, hvalue', Option.map_some, Option.map_some, htokens, htokens']
  · have hnone : ∀ found : CodeObject, found.kind = object.kind → found.value? = none := by
      intro found hfound
      rw [Option.eq_none_iff_forall_ne_some]
      exact fun value hvalue => hvariable (hfound ▸ CodeObject.kind_of_value? hvalue)
    rw [hnone object rfl, hnone object' hkind]

/-- Rows that are the same by one reading are the same by another one that depends on it. -/
theorem map_eq_of_map_eq {α β γ : Type} {first : α → β} {second : α → γ} {row row' : List α}
    (hfirst : row'.map first = row.map first)
    (hsecond : ∀ entry ∈ row, ∀ entry' ∈ row', first entry' = first entry →
      second entry' = second entry) :
    row'.map second = row.map second := by
  induction row generalizing row' with
  | nil => rw [List.map_eq_nil_iff.1 hfirst]
  | cons entry rest ih =>
    obtain ⟨entry', rest', rfl, hentry, hrest⟩ := List.map_eq_cons_iff.1 hfirst
    have hlater := ih hrest fun found hmem found' hmem' =>
      hsecond found (List.mem_cons_of_mem _ hmem) found' (List.mem_cons_of_mem _ hmem')
    rw [List.map_cons, List.map_cons, hlater,
      hsecond entry List.mem_cons_self entry' List.mem_cons_self hentry]

/-- **A comment at the end of a line** changes nothing that is recorded of what the text defines,
but for the blanks, line breaks and comments in values. The line break must be a token, there must
be no comment on its line yet, and no expression may carry on over it. -/
theorem indexSource_withComment {file source comment : String} {newline : Token}
    {front back : List Token} (htokens : Token.tokenize source = front ++ newline :: back)
    (hnewline : newline.kind = .newline)
    (hcomment : ∀ last, front.getLast? = some last → last.kind ≠ .comment)
    (hline : '\n' ∉ comment.toList)
    (hcompletes : ¬ Tree.CarriesOn ((parse source).tree.siblingsBefore front.length))
    (hok : ((indexSource file source).apply .empty).1.isOk = true) :
    let commented := Token.withComment front comment (newline :: back)
    ((indexSource file commented).apply .empty).1.isOk = true ∧
      ((indexSource file commented).apply .empty).2.registered.map (·.recorded) =
        ((indexSource file source).apply .empty).2.registered.map (·.recorded) := by
  intro commented
  have hgists : (visits (parse commented).tree).map Visit.gist =
      (visits (parse source).tree).map Visit.gist :=
    map_gist_visits_eq (codeOf_parse_withComment htokens hnewline hcomment hline hcompletes)
  have hrequests : (registrations file commented).map Registration.request =
      (registrations file source).map Registration.request := by
    rw [map_request_registrations, map_request_registrations, hgists]
  have hadmits := (indexSource_makes Registry.sound_empty file source).isOk_iff.1 hok
  have hok' := (indexSource_makes Registry.sound_empty file commented).isOk_iff.2
    (hadmits.of_requests hrequests)
  refine ⟨hok', ?_⟩
  have hrecords := (indexSource_makes Registry.sound_empty file source).records hok
  have hrecords' := (indexSource_makes Registry.sound_empty file commented).records hok'
  have hflat : ∀ source, declarations (parse source).tree =
      ((visits (parse source).tree).map Visit.gist).flatMap Gist.declared := fun source => by
    rw [declarations_eq_flatMap_visits, List.flatMap_map]
    rfl
  have hdeclarations : ((indexSource file commented).apply .empty).2.declarations =
      ((indexSource file source).apply .empty).2.declarations := by
    rw [hrecords.declarations, hrecords'.declarations, map_declaration_registrations,
      map_declaration_registrations, hflat, hflat, hgists]
  refine map_eq_of_map_eq hdeclarations fun object hmem object' hmem' hdeclaration => ?_
  obtain ⟨id, hne, hget⟩ := hrecords.sound.exists_of_mem_registered hmem
  obtain ⟨id', hne', hget'⟩ := hrecords'.sound.exists_of_mem_registered hmem'
  exact recorded_eq hgists hok hok' hget hne hget' hne' hdeclaration

/-- A comment inside the brackets of a value that goes on in the next line. -/
theorem indexSource_withComment_brackets :
    let source := "class A\n  @@list = [1,\n    2]\nend\n"
    let commented := "class A\n  @@list = [1, # first\n    2]\nend\n"
    ((indexSource "a.rb" commented).apply .empty).1.isOk = true ∧
      ((indexSource "a.rb" commented).apply .empty).2.registered.map (·.recorded) =
        ((indexSource "a.rb" source).apply .empty).2.registered.map (·.recorded) ∧
      ((indexSource "a.rb" source).apply .empty).2.registered.map (·.recorded) =
        [(⟨"A", .namespace, "A"⟩, none),
          (⟨"A::@@list", .classVariable, "@@list"⟩,
            some [⟨.leftBracket, "["⟩, ⟨.integer, "1"⟩, ⟨.comma, ","⟩, ⟨.integer, "2"⟩,
              ⟨.rightBracket, "]"⟩])] := by
  intro source commented
  set tokens := Token.tokenize source with htokens
  have hsplit : Token.tokenize source = tokens.take 12 ++ ⟨.newline, "\n"⟩ :: tokens.drop 13 := by
    decide +kernel
  have hresult := @indexSource_withComment "a.rb" source "first" ⟨.newline, "\n"⟩ (tokens.take 12)
    (tokens.drop 13) hsplit rfl (by decide +kernel) (by decide)
    (fun hcarries => absurd hcarries.1 (by decide +kernel)) (by decide +kernel)
  have htext : Token.withComment (tokens.take 12) "first" (⟨.newline, "\n"⟩ :: tokens.drop 13) =
      commented := by decide +kernel
  rw [htext] at hresult
  exact ⟨hresult.1, hresult.2, by decide +kernel⟩

/-- A comment where a value carries on: it ends the value, so the second line is lost. -/
theorem not_forall_recorded_withComment :
    ¬ ∀ (file source comment : String) (newline : Token) (front back : List Token),
      Token.tokenize source = front ++ newline :: back → newline.kind = .newline →
      (∀ last, front.getLast? = some last → last.kind ≠ .comment) → '\n' ∉ comment.toList →
      ((indexSource file source).apply .empty).1.isOk = true →
      let commented := Token.withComment front comment (newline :: back)
      ((indexSource file commented).apply .empty).1.isOk = true ∧
        ((indexSource file commented).apply .empty).2.registered.map (·.recorded) =
          ((indexSource file source).apply .empty).2.registered.map (·.recorded) := by
  intro hall
  set tokens := Token.tokenize "@@x = 1 +\n  2\n" with htokens
  have hresult := hall "a.rb" "@@x = 1 +\n  2\n" "c" ⟨.newline, "\n"⟩ (tokens.take 7)
    (tokens.drop 8) (by decide +kernel) rfl (by decide +kernel) (by decide) (by decide +kernel)
  have htext : Token.withComment (tokens.take 7) "c" (⟨.newline, "\n"⟩ :: tokens.drop 8) =
      "@@x = 1 + # c\n  2\n" := by decide +kernel
  dsimp only at hresult
  rw [htext] at hresult
  exact absurd hresult.2 (by decide +kernel)

end Indexing

end RubyIndex
