import Mathlib.Data.List.TakeWhile
import RubyIndex.Graph.Symbol
import RubyIndex.Proofs.Document.Entries
import RubyIndex.Proofs.Indexing.Built

/-! # Symbol paths

The symbol path of an object is its Ruby path with the separators replaced. From a symbol path the
Ruby path can be read back, so objects at different paths have different symbols. The exception are
methods of a namespace whose name begins with `rb`: with the dot in front, this reads like the
extension of a file, and is replaced as such.

* `PathShape` lists the shapes of paths in registries.
* `Graph.rubyPath` reads a symbol path back, and `Graph.rubyPath_symbolPath` says so. -/

namespace RubyIndex

open Syntax Text

/-! ## Shapes of paths -/

/-- **The shapes of paths**: those of namespaces and variables, those of methods at the top level,
and those of methods in a namespace. -/
inductive PathShape : List Char → Prop where
  | plain {path : List Char}
      (hwithin : ∀ character ∈ path,
        continuesName character = true ∨ character = ':' ∨ character = '@')
      (hhead : path.head? ≠ some ':') (hword : ∃ character ∈ path, continuesName character = true) :
      PathShape path
  | method {name : String} (hname : IsMethodName name) : PathShape name.toList
  | member {owner name : String} {mark : Char} (howner : IsNamespacePath owner) (hne : owner ≠ "")
      (hmark : mark = '#' ∨ mark = '.') (hname : IsMethodName name) :
      PathShape (owner.toList ++ mark :: name.toList)

/-- A path that is not that of a method. -/
theorem IsNamespacePath.pathShape_join {owner name : String} (howner : IsNamespacePath owner)
    {kind : ObjectKind} (hnames : kind.Names name) (hkind : kind ≠ .method) :
    PathShape (joinPath owner "::" name).toList := by
  obtain ⟨word, hname, hword⟩ := hnames.exists_word hkind
  have hcharacters : ∀ character ∈ name.toList,
      continuesName character = true ∨ character = ':' ∨ character = '@' := by
    intro character hmem
    rw [hname, List.mem_append] at hmem
    rcases hmem with hsigil | hinside
    · exact .inr (.inr (List.eq_of_mem_replicate hsigil))
    · exact .inl (List.all_eq_true.1 hword.2 character hinside)
  refine .plain (fun character hmem => ?_) ?_ ?_
  · rcases mem_of_mem_joinPath hmem with hmem | hmem | hmem
    · have hwithin := List.all_eq_true.1 howner.within character hmem
      rw [Bool.or_eq_true, beq_iff_eq] at hwithin
      exact hwithin.imp_right .inl
    · exact .inr (.inl (by simpa using hmem))
    · exact hcharacters character hmem
  · rw [head?_joinPath]
    split
    · rw [hname]
      cases kind.sigils with
      | zero => exact hword.head?_ne
      | succ count => exact fun hcolon => absurd (Option.some.inj hcolon) (by decide)
    · exact howner.head
  · -- the first letter of the word stands in the path
    obtain ⟨first, rest, htext⟩ := List.exists_cons_of_ne_nil
      (fun hnil => hword.1 (String.toList_eq_nil_iff.1 hnil) : word.toList ≠ [])
    have hfirst : first ∈ word.toList := by
      rw [htext]
      exact List.mem_cons_self
    refine ⟨first, ?_, List.all_eq_true.1 hword.2 first hfirst⟩
    have hinside : first ∈ name.toList := by
      rw [hname]
      exact List.mem_append_right _ hfirst
    rw [toList_joinPath]
    split
    · exact hinside
    · exact List.mem_append_right _ hinside

/-- **The path of a registered object** has one of the shapes. -/
theorem Registry.Sound.pathShape {registry : Registry} (hsound : registry.Sound) {id : ObjectId}
    {object : CodeObject} (hget : registry.get? id = some object) (hne : id ≠ .root) :
    PathShape object.path.toList := by
  obtain ⟨owner, parent, -, hparent, -, hnamespace, hpath⟩ := hsound.owned hget hne
  have howner := hsound.isNamespacePath hparent hnamespace
  have hname := hsound.names hget hne
  rw [hpath]
  -- methods have marks of their own between the owner and the name
  by_cases hmethod : object.details.kind = .method
  · have hmethodName : IsMethodName object.name := by
      rw [CodeObject.kind, hmethod] at hname
      exact hname
    obtain ⟨mark, hmark, hseparator⟩ : ∃ mark, (mark = '#' ∨ mark = '.') ∧
        object.details.separator.toList = [mark] := by
      rcases Details.separator_of_method hmethod with hsame | hsame
      · exact ⟨'#', .inl rfl, by rw [hsame]; rfl⟩
      · exact ⟨'.', .inr rfl, by rw [hsame]; rfl⟩
    rw [toList_joinPath, hseparator]
    split
    · exact .method hmethodName
    · rename_i howned
      rw [List.append_assoc]
      exact .member howner howned hmark hmethodName
  · rw [Details.separator_of_ne_method hmethod]
    exact howner.pathShape_join hname hmethod

namespace Graph

/-! ## Reading symbol paths -/

/-- **The Ruby path of a symbol path**. The mark `$` is there for methods in namespaces only, and
words are in the paths of namespaces and variables. Without them it is the path of an operator at
the top level; of `/` nothing is left. -/
def rubyPath (symbol : List Char) : List Char :=
  match symbol.dropWhile (· != '$') with
  | [] =>
      if symbol.isEmpty then ['/']
      else if symbol.any continuesName then replaceAll ['/'] "::".toList symbol
      else replaceAll ['@'] ['>'] symbol
  | _ :: marked =>
      replaceAll ['/'] "::".toList (symbol.takeWhile (· != '$')).dropLast ++
        (if marked.head? = some 'm' then '#' else '.') ::
          replaceAll ['@'] ['>'] ((marked.dropWhile (· != '/')).drop 1)

/-- The replacements one after the other. -/
theorem replaceInTurn_symbolPathRules (path : List Char) :
    replaceInTurn path symbolPathRules =
      replaceAll ['>'] ['@'] (replaceAll ['.'] "/$classmethods/".toList
        (replaceAll ['#'] "/$methods/".toList (replaceAll [':', ':'] ['/']
          (replaceAll ".rb".toList "_rb".toList path)))) := rfl

/-- A path with slashes for the double colons. -/
def slashed (path : List Char) : List Char := replaceAll [':', ':'] ['/'] path

/-- Slashes are the only marks that a path gets for its colons. -/
theorem not_mem_slashed {path : List Char} {mark : Char} (hslash : mark ≠ '/')
    (hmark : mark ∉ path) : mark ∉ slashed path := by
  intro hmem
  rcases mem_of_mem_replaceAll hmem with hput | hkept
  · exact hslash (List.mem_singleton.1 hput)
  · exact hmark hkept

/-- A character that is no colon keeps the colons in front of it and behind it apart. -/
theorem slashed_append_cons {mark : Char} (hmark : mark ≠ ':') (front back : List Char) :
    slashed (front ++ mark :: back) = slashed front ++ mark :: slashed back := by
  have hkept : [':', ':'].isPrefixOf (mark :: back) = false := by
    simp [List.isPrefixOf, hmark.symm]
  rw [slashed, replaceAll_append_cons (by simpa using hmark), replaceAll_cons_of_not hkept]
  rfl

/-- A text without colons stays as it is. -/
theorem slashed_of_not_mem {text : List Char} (hnot : ':' ∉ text) : slashed text = text :=
  replaceAll_eq_self_of_not_mem List.mem_cons_self hnot

/-- Slashes that were put in for colons are at the front only if colons were. -/
theorem trimSlashes_slashed {path : List Char} (hne : path ≠ []) (hhead : path.head? ≠ some ':')
    (hslash : '/' ∉ path) (rest : List Char) :
    trimSlashes (slashed path ++ rest) = slashed path ++ rest := by
  obtain ⟨first, others, rfl⟩ := List.exists_cons_of_ne_nil hne
  rw [List.mem_cons, not_or] at hslash
  have hcolon : first ≠ ':' := fun hsame => hhead (by rw [hsame, List.head?_cons])
  have hkept : [':', ':'].isPrefixOf (first :: others) = false := by
    simp [List.isPrefixOf, hcolon.symm]
  rw [slashed, replaceAll_cons_of_not hkept, List.cons_append, trimSlashes,
    List.dropWhile_cons_of_neg (by simpa using Ne.symm hslash.1)]

/-- Up to a mark that is not there is everything. -/
theorem dropWhile_of_not_mem {text : List Char} {mark : Char} (hmark : mark ∉ text) :
    text.dropWhile (· != mark) = [] := by
  rw [List.dropWhile_eq_nil_iff]
  intro character hmem
  rw [bne_iff_ne]
  rintro rfl
  exact hmark hmem

/-! ## Namespaces and variables -/

section

variable {path : List Char} (hwithin : ∀ character ∈ path,
  continuesName character = true ∨ character = ':' ∨ character = '@')

include hwithin

/-- Other marks than colons and sigils are not in the path of a namespace or variable. -/
theorem not_mem_of_within (mark : Char) (hmark : continuesName mark = false) (hcolon : mark ≠ ':')
    (hsigil : mark ≠ '@') : mark ∉ path := by
  intro hmem
  rcases hwithin mark hmem with hname | hsame | hsame
  · rw [hmark] at hname
    cases hname
  · exact hcolon hsame
  · exact hsigil hsame

/-- Of the replacements, the one for double colons is left. -/
theorem replaceInTurn_of_within : replaceInTurn path symbolPathRules = slashed path := by
  have hnot := not_mem_of_within hwithin
  have hdot := hnot '.' rfl (by decide) (by decide)
  have hhash := hnot '#' rfl (by decide) (by decide)
  have hscope := hnot '>' rfl (by decide) (by decide)
  rw [replaceInTurn_symbolPathRules,
    replaceAll_eq_self_of_not_mem (show '.' ∈ ".rb".toList by decide) hdot, ← slashed,
    replaceAll_singleton_of_not_mem (not_mem_slashed (by decide) hhash),
    replaceAll_singleton_of_not_mem (not_mem_slashed (by decide) hdot),
    replaceAll_singleton_of_not_mem (not_mem_slashed (by decide) hscope)]

/-- The path of a namespace or variable can be read back. -/
theorem rubyPath_of_within (hhead : path.head? ≠ some ':')
    (hword : ∃ character ∈ path, continuesName character = true) :
    rubyPath (trimSlashes (replaceInTurn path symbolPathRules)) = path := by
  obtain ⟨letter, hletter, hname⟩ := hword
  have hnot := not_mem_of_within hwithin
  have hslash := hnot '/' rfl (by decide) (by decide)
  have hne : path ≠ [] := List.ne_nil_of_mem hletter
  have hdollar := not_mem_slashed (by decide) (hnot '$' rfl (by decide) (by decide))
  -- some letter is left, so what is read back is not empty
  have hkept : letter ∈ slashed path := by
    refine mem_replaceAll_of_mem (List.cons_ne_nil _ _) hletter ?_
    intro hcolon
    obtain rfl : letter = ':' := by simpa using hcolon
    cases hname
  have htrim := trimSlashes_slashed hne hhead hslash []
  rw [List.append_nil] at htrim
  have hempty : (slashed path).isEmpty = false := by
    rw [List.isEmpty_eq_false_iff]
    exact List.ne_nil_of_mem hkept
  have hany : (slashed path).any continuesName = true := List.any_eq_true.2 ⟨letter, hkept, hname⟩
  rw [replaceInTurn_of_within hwithin, htrim, rubyPath, dropWhile_of_not_mem hdollar]
  simp only [hempty, hany, Bool.false_eq_true, if_false, if_true]
  exact replaceAll_replaceAll (List.cons_ne_nil _ _) hslash

end

/-! ## Methods in namespaces -/

/-- The colons in the path of a member are all in the path of the namespace. -/
theorem slashed_member {owner name : List Char} {mark : Char} (hmark : mark ≠ ':')
    (hname : ':' ∉ name) : slashed (owner ++ mark :: name) = slashed owner ++ mark :: name := by
  rw [slashed_append_cons hmark, slashed_of_not_mem hname]

section

variable {owner name : String} (howner : IsNamespacePath owner) (hname : IsMethodName name)

include howner hname

/-- **The replacements in the path of a method of instances.** -/
theorem replaceInTurn_instanceMethod :
    replaceInTurn (owner.toList ++ '#' :: name.toList) symbolPathRules =
      slashed owner.toList ++ "/$methods/".toList ++ replaceAll ['>'] ['@'] name.toList := by
  have hdotOwner := howner.not_mem '.' rfl (by decide)
  have hdotName : '.' ∉ name.toList := hname.isPlain.not_mem rfl
  have hdot : '.' ∉ owner.toList ++ '#' :: name.toList := by simp [hdotOwner, hdotName]
  have hdotLater : '.' ∉ slashed owner.toList ++ "/$methods/".toList ++ name.toList := by
    simp [hdotName, not_mem_slashed (show '.' ≠ '/' by decide) hdotOwner]
  have hscope : '>' ∉ slashed owner.toList ++ "/$methods/".toList := by
    simp [not_mem_slashed (show '>' ≠ '/' by decide) (howner.not_mem '>' rfl (by decide))]
  rw [replaceInTurn_symbolPathRules,
    replaceAll_eq_self_of_not_mem (show '.' ∈ ".rb".toList by decide) hdot, ← slashed,
    slashed_member (by decide) (hname.isPlain.not_mem rfl),
    replaceAll_singleton_once (not_mem_slashed (by decide) (howner.not_mem '#' rfl (by decide)))
      (hname.isPlain.not_mem rfl),
    replaceAll_singleton_of_not_mem hdotLater, replaceAll_singleton_append,
    replaceAll_singleton_of_not_mem hscope]

/-- **The replacements in the path of a method of the namespace**, if nothing in it looks like the
extension of a file. -/
theorem replaceInTurn_namespaceMethod
    (hextension : occursIn ".rb".toList (owner.toList ++ '.' :: name.toList) = false) :
    replaceInTurn (owner.toList ++ '.' :: name.toList) symbolPathRules =
      slashed owner.toList ++ "/$classmethods/".toList ++ replaceAll ['>'] ['@'] name.toList := by
  have hhash : '#' ∉ slashed owner.toList ++ '.' :: name.toList := by
    simp [not_mem_slashed (show '#' ≠ '/' by decide) (howner.not_mem '#' rfl (by decide)),
      hname.isPlain.not_mem (show isPathMark '#' = true from rfl)]
  have hscope : '>' ∉ slashed owner.toList ++ "/$classmethods/".toList := by
    simp [not_mem_slashed (show '>' ≠ '/' by decide) (howner.not_mem '>' rfl (by decide))]
  rw [replaceInTurn_symbolPathRules, replaceAll_eq_self_of_occursIn hextension, ← slashed,
    slashed_member (by decide) (hname.isPlain.not_mem rfl), replaceAll_singleton_of_not_mem hhash,
    replaceAll_singleton_once (not_mem_slashed (by decide) (howner.not_mem '.' rfl (by decide)))
      (hname.isPlain.not_mem rfl),
    replaceAll_singleton_append, replaceAll_singleton_of_not_mem hscope]

end

/-- A symbol path with a mark is read as that of a member. -/
theorem rubyPath_of_mark {front : List Char} (hfront : '$' ∉ front) (word name : List Char)
    (hword : '/' ∉ word) (hne : word ≠ []) :
    rubyPath (front ++ '/' :: '$' :: (word ++ '/' :: name)) =
      replaceAll ['/'] "::".toList front ++
        (if word.head? = some 'm' then '#' else '.') :: replaceAll ['@'] ['>'] name := by
  have hbefore : ∀ character ∈ front ++ ['/'], (character != '$') = true := by
    intro character hmem
    rw [bne_iff_ne]
    rintro rfl
    rcases List.mem_append.1 hmem with hmem | hmem
    · exact hfront hmem
    · exact absurd (List.mem_singleton.1 hmem) (by decide)
  have hinside : ∀ character ∈ word, (character != '/') = true := by
    intro character hmem
    rw [bne_iff_ne]
    rintro rfl
    exact hword hmem
  have hsplit : front ++ '/' :: '$' :: (word ++ '/' :: name) =
      (front ++ ['/']) ++ '$' :: (word ++ '/' :: name) := by
    rw [List.append_assoc]
    rfl
  -- the path is cut at the mark, and the word behind the mark at its slash
  rw [hsplit, rubyPath, List.dropWhile_append_of_pos hbefore, List.takeWhile_append_of_pos hbefore,
    List.dropWhile_cons_of_neg (by decide), List.takeWhile_cons_of_neg (by decide)]
  dsimp only
  rw [List.append_nil, List.dropLast_concat, List.head?_append_of_ne_nil _ hne,
    List.dropWhile_append_of_pos hinside, List.dropWhile_cons_of_neg (by decide), List.drop_one,
    List.tail_cons]

section

variable {owner name : String} (howner : IsNamespacePath owner) (hne : owner ≠ "")
  (hname : IsMethodName name)

include howner hne hname

/-- The path of a method in a namespace can be read back. -/
theorem rubyPath_member {mark : Char} (hmark : mark = '#' ∨ mark = '.')
    (hextension : occursIn ".rb".toList (owner.toList ++ mark :: name.toList) = false) :
    rubyPath (trimSlashes (replaceInTurn (owner.toList ++ mark :: name.toList) symbolPathRules)) =
      owner.toList ++ mark :: name.toList := by
  have hslash := howner.not_mem '/' rfl (by decide)
  have htext : owner.toList ≠ [] := fun hnil => hne (String.toList_eq_nil_iff.1 hnil)
  have hdollar := not_mem_slashed (show '$' ≠ '/' by decide) (howner.not_mem '$' rfl (by decide))
  have howned : replaceAll ['/'] "::".toList (slashed owner.toList) = owner.toList :=
    replaceAll_replaceAll (List.cons_ne_nil _ _) hslash
  have hnamed : replaceAll ['@'] ['>'] (replaceAll ['>'] ['@'] name.toList) = name.toList :=
    replaceAll_replaceAll (List.cons_ne_nil _ _) (hname.isPlain.not_mem rfl)
  -- each mark is written as a word of its own
  rcases hmark with rfl | rfl
  · rw [replaceInTurn_instanceMethod howner hname, List.append_assoc,
      trimSlashes_slashed htext howner.head hslash]
    have hread := rubyPath_of_mark hdollar "methods".toList (replaceAll ['>'] ['@'] name.toList)
      (by decide) (by decide)
    rw [howned, hnamed] at hread
    exact hread
  · rw [replaceInTurn_namespaceMethod howner hname hextension, List.append_assoc,
      trimSlashes_slashed htext howner.head hslash]
    have hread := rubyPath_of_mark hdollar "classmethods".toList
      (replaceAll ['>'] ['@'] name.toList) (by decide) (by decide)
    rw [howned, hnamed] at hread
    exact hread

end

/-! ## Methods at the top level -/

/-- The path of a method at the top level can be read back. -/
theorem rubyPath_method {name : String} (hname : IsMethodName name) :
    rubyPath (trimSlashes (replaceInTurn name.toList symbolPathRules)) = name.toList := by
  rcases hname.2 with hoperator | hall
  · have hoperators : ∀ operator ∈ operatorNames,
        rubyPath (trimSlashes (replaceInTurn operator.toList symbolPathRules)) =
          operator.toList := by decide +kernel
    exact hoperators name hoperator
  · -- nothing is replaced
    have hnot : ∀ mark, continuesMethodName mark = false → mark ∉ name.toList := by
      intro mark hmark hmem
      rw [List.all_eq_true.1 hall mark hmem] at hmark
      cases hmark
    have hslash := hnot '/' rfl
    have htrim : trimSlashes name.toList = name.toList := by
      cases htext : name.toList with
      | nil => rfl
      | cons first rest =>
        have hfirst : first ≠ '/' := by
          rintro rfl
          exact hslash (by rw [htext]; exact List.mem_cons_self)
        rw [trimSlashes, List.dropWhile_cons_of_neg (by simpa using hfirst)]
    have hempty : name.toList.isEmpty = false := by
      rw [List.isEmpty_eq_false_iff]
      exact fun hnil => hname.1 (String.toList_eq_nil_iff.1 hnil)
    rw [replaceInTurn_symbolPathRules,
      replaceAll_eq_self_of_not_mem (show '.' ∈ ".rb".toList by decide) (hnot '.' rfl),
      replaceAll_eq_self_of_not_mem (show ':' ∈ [':', ':'] by decide) (hnot ':' rfl),
      replaceAll_singleton_of_not_mem (hnot '#' rfl),
      replaceAll_singleton_of_not_mem (hnot '.' rfl),
      replaceAll_singleton_of_not_mem (hnot '>' rfl), htrim, rubyPath,
      dropWhile_of_not_mem (hnot '$' rfl)]
    simp only [hempty, Bool.false_eq_true, if_false]
    split
    · exact replaceAll_singleton_of_not_mem hslash
    · exact replaceAll_singleton_of_not_mem (hnot '@' rfl)

/-! ## All paths -/

/-- Whether something in a path looks like the extension of a Ruby file. A method of a namespace
does if its name begins with `rb`. -/
def looksLikeFile (path : String) : Bool := occursIn ".rb".toList path.toList

/-- **Symbol paths can be read back**, unless something in the path looks like the extension of a
file. -/
theorem rubyPath_symbolPath {path : String} (hshape : PathShape path.toList)
    (hextension : looksLikeFile path = false) :
    rubyPath (symbolPath path).toList = path.toList := by
  unfold looksLikeFile at hextension
  rw [symbolPath, String.toList_ofList]
  generalize path.toList = text at hshape hextension ⊢
  cases hshape with
  | plain hwithin hhead hword => exact rubyPath_of_within hwithin hhead hword
  | method hname => exact rubyPath_method hname
  | member howner hne hmark hname => exact rubyPath_member howner hne hname hmark hextension

end Graph

end RubyIndex
