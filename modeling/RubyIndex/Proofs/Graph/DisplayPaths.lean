import RubyIndex.Proofs.Graph.SymbolPaths
import RubyIndex.Text.Alphanumeric

/-! # Display paths

The display path of an object is made of the components of its path, without those that have the
mark of local scopes in them. It is the display path of the owner with one component more, unless
the name happens to have that mark in it, or reads like the extension of a file and is glued to the
component in front of it, or no component of the owner is displayed.

* `Graph.shown` are the displayed components, `Graph.shown_concat_iff` and
  `Graph.shown_extended_ne` what one component more and a longer last component make of them.
* `Graph.toList_treePath_namespace` and `Graph.toList_treePath_member` cut paths into components.
* `Registry.Built.treePath_eq_iff` is the result for registries that are built from texts. -/

namespace RubyIndex

open Syntax Text

namespace Graph

/-! ## Displayed components -/

/-- The displayed components with slashes between them. -/
def shown (components : List (List Char)) : List Char :=
  ['/'].intercalate (components.filter isDisplayed)

theorem toList_treePath (path : String) : (treePath path).toList =
    shown (pieces '/' (replaceInTurn path.toList treePathRules)) := String.toList_ofList

/-- Displayed components are not empty, so nothing is shown only where none is displayed. -/
theorem shown_eq_nil_iff {components : List (List Char)} :
    shown components = [] ↔ components.filter isDisplayed = [] := by
  constructor
  · intro hnil
    cases hdisplayed : components.filter isDisplayed with
    | nil => rfl
    | cons first others =>
      have hfirst : isDisplayed first = true :=
        (List.mem_filter.1 (hdisplayed ▸ List.mem_cons_self : first ∈ components.filter _)).2
      rw [shown, hdisplayed] at hnil
      -- the first displayed component stands in front, whatever is joined to it
      have hempty : first = [] := by
        cases others with
        | nil => rwa [List.intercalate_singleton] at hnil
        | cons second later =>
          rw [List.intercalate_cons_cons, List.append_assoc, List.append_eq_nil_iff] at hnil
          exact hnil.1
      rw [hempty] at hfirst
      cases hfirst
  · intro hnone
    rw [shown, hnone]
    rfl

/-- A component that is not displayed changes nothing. -/
theorem shown_concat_of_not {piece : List Char} (hhidden : isDisplayed piece = false)
    (front : List (List Char)) : shown (front ++ [piece]) = shown front := by
  rw [shown, shown, List.filter_append, List.filter_singleton, hhidden, cond_false,
    List.append_nil]

/-- A displayed component, with a slash before it if there is something in front. -/
theorem shown_concat {piece : List Char} (hdisplayed : isDisplayed piece = true)
    (front : List (List Char)) :
    shown (front ++ [piece]) =
      if shown front = [] then piece else shown front ++ '/' :: piece := by
  rw [shown, List.filter_append, List.filter_singleton, hdisplayed, cond_true]
  split
  · rename_i hnone
    rw [shown_eq_nil_iff.1 hnone, List.nil_append, List.intercalate_singleton]
  · rename_i hsome
    rw [intercalate_concat (fun hnil => hsome (shown_eq_nil_iff.2 hnil))]
    rfl

/-- **One component more** is there with a slash in front of it if it is displayed, and if it is not
the first one. -/
theorem shown_concat_iff (front : List (List Char)) (piece : List Char) :
    shown (front ++ [piece]) = shown front ++ '/' :: piece ↔
      isDisplayed piece = true ∧ shown front ≠ [] := by
  cases hdisplayed : isDisplayed piece with
  | false =>
    -- both sides fail: what is shown does not get longer
    rw [shown_concat_of_not hdisplayed]
    refine iff_of_false (fun hsame => ?_) fun hboth => Bool.false_ne_true hboth.1
    have hlength := congrArg List.length hsame
    rw [List.length_append, List.length_cons] at hlength
    omega
  | true =>
    rw [shown_concat hdisplayed]
    split
    · rename_i hnone
      refine iff_of_false (fun hsame => ?_) fun hboth => hboth.2 hnone
      have hlength := congrArg List.length hsame
      rw [List.length_append, List.length_cons] at hlength
      omega
    · rename_i hsome
      exact iff_of_true rfl ⟨rfl, hsome⟩

/-- **A longer last component** is not the same as one component more. -/
theorem shown_extended_ne (front : List (List Char)) {last : List Char} (hlast : last ≠ [])
    {mark : Char} (hmark : mark ≠ '/') (name : List Char) :
    shown (front ++ [last ++ mark :: name]) ≠ shown (front ++ [last]) ++ '/' :: name := by
  intro hsame
  cases hlonger : isDisplayed (last ++ mark :: name) with
  | false =>
    -- nothing is added, but the other text is longer than what was there
    have hlength := congrArg List.length hsame
    rw [shown_concat_of_not hlonger, List.length_append, List.length_cons] at hlength
    have hle : (shown front).length ≤ (shown (front ++ [last])).length := by
      cases hdisplayed : isDisplayed last with
      | false => rw [shown_concat_of_not hdisplayed]
      | true =>
        rw [shown_concat hdisplayed]
        split
        · rename_i hnone
          rw [hnone]
          exact Nat.zero_le _
        · rw [List.length_append]
          exact Nat.le_add_right _ _
    omega
  | true =>
    -- what is displayed goes on with the mark
    have hdisplayed : isDisplayed last = true := by
      rw [isDisplayed, Bool.and_eq_true, Bool.not_eq_true', Bool.not_eq_true',
        List.isEmpty_eq_false_iff] at hlonger ⊢
      refine ⟨hlast, Bool.eq_false_iff.2 fun hoccurs => ?_⟩
      have hinside : localMark <:+: last ++ mark :: name :=
        (occursIn_iff.1 hoccurs).trans (List.prefix_append _ _).isInfix
      rw [occursIn_iff.2 hinside] at hlonger
      cases hlonger.2
    have hcontinued : shown (front ++ [last ++ mark :: name]) =
        shown (front ++ [last]) ++ mark :: name := by
      rw [shown_concat hlonger, shown_concat hdisplayed]
      split
      · rfl
      · rw [List.append_assoc]
        rfl
    rw [hcontinued] at hsame
    exact hmark (List.cons.inj (List.append_cancel_left hsame)).1

/-! ## Components of paths -/

/-- The replacements one after the other. -/
theorem replaceInTurn_treePathRules (path : List Char) :
    replaceInTurn path treePathRules =
      replaceAll ['>'] ['/'] (replaceAll ['.'] ['/'] (replaceAll ['#'] ['/']
        (slashed (replaceAll ".rb".toList "_rb".toList path)))) := rfl

/-- A mark between texts in which the pattern does not occur. -/
theorem replaceAll_singleton_mark {pattern : Char} {front name : List Char}
    (hfront : pattern ∉ front) (hname : pattern ∉ name) (mark : Char) :
    replaceAll [pattern] ['/'] (front ++ mark :: name) =
      front ++ (if mark = pattern then '/' else mark) :: name := by
  split
  · rename_i hsame
    rw [hsame, replaceAll_singleton_once hfront hname, List.append_assoc, List.singleton_append]
  · rename_i hother
    refine replaceAll_singleton_of_not_mem ?_
    rw [List.mem_append, List.mem_cons, not_or, not_or]
    exact ⟨hfront, Ne.symm hother, hname⟩

/-- Where there are no marks of members, double colons are replaced. -/
theorem replaceInTurn_of_not_mem {path : List Char} (hdot : '.' ∉ path) (hhash : '#' ∉ path)
    (hscope : '>' ∉ path) : replaceInTurn path treePathRules = slashed path := by
  rw [replaceInTurn_treePathRules,
    replaceAll_eq_self_of_not_mem (show '.' ∈ ".rb".toList by decide) hdot,
    replaceAll_singleton_of_not_mem (not_mem_slashed (by decide) hhash),
    replaceAll_singleton_of_not_mem (not_mem_slashed (by decide) hdot),
    replaceAll_singleton_of_not_mem (not_mem_slashed (by decide) hscope)]

/-- **The path of a namespace** is cut at the double colons. -/
theorem toList_treePath_namespace {path : String} (hpath : IsNamespacePath path) :
    (treePath path).toList = shown (pieces '/' (slashed path.toList)) := by
  rw [toList_treePath, replaceInTurn_of_not_mem (hpath.not_mem '.' rfl (by decide))
    (hpath.not_mem '#' rfl (by decide)) (hpath.not_mem '>' rfl (by decide))]

/-- Behind the path of a namespace, which does not end with a colon, double colons are cut. -/
theorem slashed_nested {owner name : List Char} {front : List Char} {last : Char}
    (hends : owner = front ++ [last]) (hlast : last ≠ ':') (hname : ':' ∉ name) :
    slashed (owner ++ ':' :: ':' :: name) = slashed owner ++ '/' :: name := by
  have hcolons : slashed (':' :: ':' :: name) = '/' :: slashed name :=
    replaceAll_append_of_ne_nil ['/'] name (List.cons_ne_nil ':' [':'])
  rw [hends, List.append_assoc, List.singleton_append, slashed_append_cons hlast,
    slashed_member hlast List.not_mem_nil, hcolons, slashed_of_not_mem hname, List.append_assoc]
  rfl

/-- Behind a path without dots, a dot with `rb` after it reads like the extension of a file. -/
theorem replaceAll_extension {owner name : List Char} (howner : '.' ∉ owner) (hname : '.' ∉ name) :
    replaceAll ".rb".toList "_rb".toList (owner ++ '.' :: name) =
      owner ++ (if occursIn ".rb".toList (owner ++ '.' :: name) then '_' else '.') :: name := by
  have hrest : ∀ rest : List Char, '.' ∉ rest →
      replaceAll ".rb".toList "_rb".toList rest = rest := fun rest hnot =>
    replaceAll_eq_self_of_not_mem List.mem_cons_self hnot
  have hnot : occursIn ".rb".toList name = false :=
    occursIn_eq_false_of_not_mem List.mem_cons_self hname
  refine (replaceAll_cons_append_of_not_mem howner _).trans ?_
  have hoccurs : occursIn ".rb".toList (owner ++ '.' :: name) =
      ".rb".toList.isPrefixOf ('.' :: name) := by
    refine (occursIn_append_of_not_mem howner _).trans ?_
    rw [occursIn]
    exact (congrArg _ hnot).trans (Bool.or_false _)
  -- the extension can stand in the one place only where the dot is
  rw [hoccurs]
  congr 1
  split
  · rename_i hahead
    obtain ⟨later, hlater⟩ := List.isPrefixOf_iff_prefix.1 hahead
    obtain rfl : 'r' :: 'b' :: later = name := (List.cons.inj hlater).2
    have hdot : '.' ∉ later := fun hmem =>
      hname (List.mem_cons_of_mem _ (List.mem_cons_of_mem _ hmem))
    refine (replaceAll_append_of_ne_nil "_rb".toList later (List.cons_ne_nil _ _)).trans ?_
    exact congrArg ("_rb".toList ++ ·) (hrest later hdot)
  · rename_i hother
    refine (replaceAll_cons_of_not (Bool.eq_false_iff.2 hother)).trans ?_
    exact congrArg ('.' :: ·) (hrest name hname)

/-- **The path of what a namespace owns** is that of the namespace with a slash and the name, or
with the name glued to it if this reads like the extension of a file. -/
theorem replaceInTurn_joinPath {owner name : String} (howner : IsNamespacePath owner)
    {front : List Char} {last : Char} (hends : owner.toList = front ++ [last]) (hlast : last ≠ ':')
    {details : Details} (hnames : details.kind.Names name) (hscope : '>' ∉ name.toList) :
    replaceInTurn (joinPath owner details.separator name).toList treePathRules =
      slashed owner.toList ++
        (if looksLikeFile (joinPath owner details.separator name) then '_' else '/') ::
          name.toList := by
  have hne : owner ≠ "" := by
    rintro rfl
    simp at hends
  have hcolon : ':' ∉ name.toList := hnames.not_mem rfl (by decide)
  have hdot : '.' ∉ name.toList := hnames.not_mem rfl (by decide)
  have hhash : '#' ∉ name.toList := hnames.not_mem rfl (by decide)
  have hownerDot := howner.not_mem '.' rfl (by decide)
  have hownerHash := howner.not_mem '#' rfl (by decide)
  have hownerScope := howner.not_mem '>' rfl (by decide)
  have hscopes : '>' ∉ slashed owner.toList := not_mem_slashed (by decide) hownerScope
  have hdots : '.' ∉ slashed owner.toList := not_mem_slashed (by decide) hownerDot
  have hhashes : '#' ∉ slashed owner.toList := not_mem_slashed (by decide) hownerHash
  have htext : (joinPath owner details.separator name).toList =
      owner.toList ++ details.separator.toList ++ name.toList := by
    rw [toList_joinPath, if_neg hne]
  -- without a dot nothing reads like an extension
  have hplain : ∀ {text : List Char}, '.' ∉ text → occursIn ".rb".toList text = false ∧
      replaceAll ".rb".toList "_rb".toList text = text := fun hnot =>
    ⟨occursIn_eq_false_of_not_mem List.mem_cons_self hnot,
      replaceAll_eq_self_of_not_mem List.mem_cons_self hnot⟩
  rw [looksLikeFile, htext, replaceInTurn_treePathRules]
  by_cases hmethod : details.kind = .method
  · rcases Details.separator_of_method hmethod with hmark | hmark
    · obtain ⟨hfile, hkept⟩ := hplain
        (show '.' ∉ owner.toList ++ '#' :: name.toList by simp [hownerDot, hdot])
      rw [hmark, show "#".toList = ['#'] from rfl, List.append_assoc, List.singleton_append, hfile,
        hkept, slashed_member (by decide) hcolon, replaceAll_singleton_mark hhashes hhash,
        replaceAll_singleton_mark hdots hdot, replaceAll_singleton_mark hscopes hscope]
      rfl
    · rw [hmark, show ".".toList = ['.'] from rfl, List.append_assoc, List.singleton_append,
        replaceAll_extension hownerDot hdot,
        slashed_member (by split <;> decide) hcolon, replaceAll_singleton_mark hhashes hhash,
        replaceAll_singleton_mark hdots hdot, replaceAll_singleton_mark hscopes hscope]
      cases occursIn ".rb".toList (owner.toList ++ '.' :: name.toList) <;> rfl
  · obtain ⟨hfile, hkept⟩ := hplain
      (show '.' ∉ owner.toList ++ ':' :: ':' :: name.toList by simp [hownerDot, hdot])
    rw [Details.separator_of_ne_method hmethod, show "::".toList = [':', ':'] from rfl,
      List.append_assoc, show [':', ':'] ++ name.toList = ':' :: ':' :: name.toList from rfl,
      hfile, hkept, slashed_nested hends hlast hcolon, replaceAll_singleton_mark hhashes hhash,
      replaceAll_singleton_mark hdots hdot, replaceAll_singleton_mark hscopes hscope]
    rfl

/-- **What a namespace owns** is displayed under it exactly if its name is displayed and does not
read like the extension of a file, and if something of the namespace is displayed. -/
theorem treePath_joinPath_iff {owner name : String} (howner : IsNamespacePath owner)
    {front : List Char} {last : Char} (hends : owner.toList = front ++ [last])
    (hword : continuesName last = true) {details : Details} (hnames : details.kind.Names name)
    (hscope : '>' ∉ name.toList) (hslash : '/' ∉ name.toList) :
    treePath (joinPath owner details.separator name) = treePath owner ++ "/" ++ name ↔
      looksLikeFile (joinPath owner details.separator name) = false ∧
        occursIn localMark name.toList = false ∧ treePath owner ≠ "" := by
  have hlast : last ≠ ':' := by
    rintro rfl
    cases hword
  have hcut := replaceInTurn_joinPath howner hends hlast hnames hscope
  have hempty : treePath owner ≠ "" ↔ shown (pieces '/' (slashed owner.toList)) ≠ [] := by
    rw [← toList_treePath_namespace howner, Ne, Ne, String.toList_eq_nil_iff]
  rw [← String.toList_inj, String.toList_append, String.toList_append, toList_treePath, hcut,
    toList_treePath_namespace howner, hempty, List.append_assoc,
    show "/".toList ++ name.toList = '/' :: name.toList from rfl]
  cases looksLikeFile (joinPath owner details.separator name) with
  | false =>
    have hdisplayed : isDisplayed name.toList = true ↔ occursIn localMark name.toList = false := by
      have hname : name.toList.isEmpty = false :=
        List.isEmpty_eq_false_iff.2 fun hnil => hnames.ne_empty (String.toList_eq_nil_iff.1 hnil)
      rw [isDisplayed, hname, Bool.not_false, Bool.true_and, Bool.not_eq_true']
    rw [if_neg Bool.false_ne_true, pieces_append_cons, pieces_of_not_mem hslash, shown_concat_iff,
      hdisplayed]
    exact ⟨fun hboth => ⟨rfl, hboth⟩, fun hall => hall.2⟩
  | true =>
    refine iff_of_false ?_ fun hall => Bool.false_ne_true hall.1.symm
    -- the name is glued to the last component of the namespace
    have hnotSlash : '/' ∉ [last] := by
      rw [List.mem_singleton]
      rintro rfl
      cases hword
    have hglued : '/' ∉ last :: '_' :: name.toList := by
      rw [List.mem_singleton] at hnotSlash
      simp [hnotSlash, hslash]
    have hend : slashed owner.toList = slashed front ++ [last] := by
      rw [hends]
      exact slashed_member hlast List.not_mem_nil
    obtain ⟨others, final, -, hpieces⟩ := exists_pieces_append '/' (slashed front)
    rw [if_pos rfl, hend, List.append_assoc, hpieces [last] hnotSlash, List.singleton_append,
      hpieces _ hglued, List.append_cons final last]
    exact shown_extended_ne others (by simp) (by decide) name.toList

end Graph

namespace Registry

open RubyIndex.Graph

/-- The path of a namespace other than the root ends with a character of a name. -/
theorem Sound.exists_last {registry : Registry} (hsound : Sound registry) {id : ObjectId}
    {object : CodeObject} (hget : registry.get? id = some object) (hne : id ≠ .root)
    (hnamespace : object.isNamespace = true) :
    ∃ front last, object.path.toList = front ++ [last] ∧ continuesName last = true := by
  obtain ⟨owner, parent, -, -, -, -, hpath⟩ := hsound.owned hget hne
  have hname : IsConstant object.name := by
    have hnames := hsound.names hget hne
    rwa [eq_of_beq hnamespace] at hnames
  obtain ⟨hempty, hall⟩ := hname.isWord
  have hnil : object.name.toList ≠ [] := fun hnil => hempty (String.toList_eq_nil_iff.1 hnil)
  obtain ⟨front, last, hends⟩ := (List.eq_nil_or_concat object.name.toList).resolve_left hnil
  rw [List.concat_eq_append] at hends
  have hword : continuesName last = true :=
    List.all_eq_true.1 hall last (hends ▸ List.mem_append_right front List.mem_cons_self)
  rw [hpath, toList_joinPath]
  split
  · exact ⟨front, last, hends, hword⟩
  · exact ⟨parent.path.toList ++ object.details.separator.toList ++ front, last,
      by rw [hends, List.append_assoc _ front], hword⟩

/-- **Display paths grow with names.** In a built registry take an object that a namespace other
than the root owns, whose name consists of letters, digits and the marks of names. Its display path
is that of the namespace with a slash and the name behind it exactly if it does not read like a file
name, if the mark of local scopes is not in the name, and if something of the namespace is
displayed. -/
theorem Built.treePath_eq_iff {registry : Registry} (hbuilt : Built registry) {id owner : ObjectId}
    {object parent : CodeObject} (hget : registry.get? id = some object)
    (howner : object.owner = some owner) (hroot : owner ≠ .root)
    (hparent : registry.get? owner = some parent)
    (hname : ∀ character ∈ object.name.toList,
      isAlphanumeric character = true ∨ character ∈ ['_', '@', '?', '!', '=']) :
    treePath object.path = treePath parent.path ++ "/" ++ object.name ↔
      looksLikeFile object.path = false ∧ occursIn localMark object.name.toList = false ∧
        treePath parent.path ≠ "" := by
  have hsound := hbuilt.sound
  have hlt : owner.index < id.index := (hsound.owner_lt (by rw [hget]; exact howner)).1
  have hne : id ≠ .root := by
    rintro rfl
    exact Nat.not_lt_zero _ hlt
  obtain ⟨found, holder, hfound, hholder, -, hnamespace, hpath⟩ := hsound.owned hget hne
  obtain rfl : found = owner := Option.some.inj (hfound.symm.trans howner)
  obtain rfl : holder = parent := Option.some.inj (hholder.symm.trans hparent)
  -- the path of the owner ends with a character of a word, so no slash is at its end
  obtain ⟨front, last, hends, hword⟩ := hsound.exists_last hparent hroot hnamespace
  have hnot : ∀ mark, isAlphanumeric mark = false → mark ∉ ['_', '@', '?', '!', '='] →
      mark ∉ object.name.toList := by
    intro mark hletter hmark hmem
    rcases hname mark hmem with hother | hother
    · rw [hletter] at hother
      cases hother
    · exact hmark hother
  rw [hpath]
  exact treePath_joinPath_iff (hsound.isNamespacePath hparent hnamespace) hends hword
    (hsound.names hget hne) (hnot '>' (by decide) (by decide)) (hnot '/' (by decide) (by decide))

/-- A method in a module. -/
theorem Built.treePath_eq_iff_member :
    let registry := ((Indexing.indexSource "a.rb" "module A\n  def b?\n  end\nend\n").apply
      .empty).2
    (registry.get? ⟨2⟩).map (·.path) = some "A#b?" ∧
      treePath "A#b?" = treePath "A" ++ "/" ++ "b?" := by
  intro registry
  obtain ⟨object, hget, hobject⟩ := Option.map_eq_some_iff.1
    (show (registry.get? ⟨2⟩).map (fun object => (object.path, object.name, object.owner)) =
      some ("A#b?", "b?", some ⟨1⟩) by decide +kernel)
  obtain ⟨parent, hparent, hpath⟩ := Option.map_eq_some_iff.1
    (show (registry.get? ⟨1⟩).map (·.path) = some "A" by decide +kernel)
  simp only [Prod.mk.injEq] at hobject
  obtain ⟨hobject, hname, howner⟩ := hobject
  refine ⟨by rw [hget, Option.map_some, hobject], ?_⟩
  have hmarks : ∀ character ∈ "b?".toList,
      isAlphanumeric character = true ∨ character ∈ ['_', '@', '?', '!', '='] :=
    List.forall_mem_cons.2 ⟨.inl rfl, List.forall_mem_singleton.2 (.inr (by decide))⟩
  have hiff := Built.treePath_eq_iff
    (.indexSource "a.rb" "module A\n  def b?\n  end\nend\n" .empty) hget howner (by decide) hparent
    (by rw [hname]; exact hmarks)
  rw [hobject, hname, hpath] at hiff
  exact hiff.2 (by decide +kernel)

/-- A method with the mark of local scopes in its name is not displayed, and one of the namespace
that is called `rb` is glued to the name of the namespace. -/
theorem Built.treePath_hidden :
    let registry := ((Indexing.indexSource "a.rb"
      "module A\n  def a_local_b\n  end\n  def self.rb\n  end\nend\n").apply .empty).2
    Built registry ∧ (registry.get? ⟨1⟩).map (·.path) = some "A" ∧
      (registry.get? ⟨2⟩).map (fun object => (object.name, object.path, object.owner)) =
        some ("a_local_b", "A#a_local_b", some ⟨1⟩) ∧
      (registry.get? ⟨3⟩).map (fun object => (object.name, object.path, object.owner)) =
        some ("rb", "A.rb", some ⟨1⟩) ∧
      treePath "A" = "A" ∧ treePath "A#a_local_b" = "A" ∧ treePath "A.rb" = "A_rb" :=
  ⟨.indexSource "a.rb" "module A\n  def a_local_b\n  end\n  def self.rb\n  end\nend\n" .empty,
    by decide +kernel⟩

end Registry

end RubyIndex
