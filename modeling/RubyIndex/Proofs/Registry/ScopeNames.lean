import Mathlib.Data.List.TakeWhile
import RubyIndex.Proofs.Registry.Names
import RubyIndex.Registry.Scope

/-! # Names and paths of local scopes

The name under which a local scope is stored is the name that was asked for, a mark and a number.
The path of a scope is made of such names with `>` between them. Operators can have a `>` of their
own, but as each stored name has the mark in it, one can still see where it ends.

* `ScopeNames.stored_inj`: a stored name tells the request and its number.
* `ScopeNames.firstName` reads the first of several names back.
* `SpellsScope` relates the names around a scope to its path, and `SpellsScope.unique` reads the
  names off the path. -/

namespace RubyIndex

open Syntax

/-- What is read up to a stop. -/
theorem takeWhile_append_of_stops {α : Type} {accepts : α → Bool} {text rest : List α}
    (hall : ∀ character ∈ text, accepts character = true)
    (hstop : ∀ character ∈ rest.head?, accepts character = false) :
    (text ++ rest).takeWhile accepts = text := by
  rw [List.takeWhile_append_of_pos hall]
  cases rest with
  | nil => rw [List.takeWhile_nil, List.append_nil]
  | cons character rest =>
    rw [List.takeWhile_cons, if_neg (by simp [hstop character rfl]), List.append_nil]

namespace ScopeNames

/-! ## Stored names -/

/-- The stored name for a request after so many requests for the same name. -/
def stored (requested : String) (count : Nat) : String :=
  requested ++ "_local_" ++ toString count

theorem next_eq_stored (names : ScopeNames) (requested : String) :
    names.next requested = stored requested (names.requests.countP (·.1 == requested)) := rfl

theorem toList_stored (requested : String) (count : Nat) :
    (stored requested count).toList =
      requested.toList ++ "_local_".toList ++ Nat.toDigits 10 count := by
  rw [stored, String.toList_append, String.toList_append, Nat.toString_eq_ofList_toDigits]
  exact congrArg (requested.toList ++ "_local_".toList ++ ·) String.toList_ofList

/-- The number at the end of a stored name. -/
theorem takeWhile_isDigit_reverse_stored (requested : String) (count : Nat) :
    (stored requested count).toList.reverse.takeWhile Char.isDigit =
      (Nat.toDigits 10 count).reverse := by
  rw [toList_stored, List.reverse_append, List.reverse_append]
  refine takeWhile_append_of_stops (fun digit hmem => ?_) fun character hhead => ?_
  · exact Nat.isDigit_of_mem_toDigits (by decide) (by decide) (List.mem_reverse.1 hmem)
  · -- the mark ends with an underscore
    obtain rfl : '_' = character := Option.some.inj hhead
    rfl

/-- **A stored name tells the request** and the number of requests before it. -/
theorem stored_inj {requested other : String} {count number : Nat}
    (hsame : stored requested count = stored other number) :
    requested = other ∧ count = number := by
  have hdigits : Nat.toDigits 10 count = Nat.toDigits 10 number := by
    rw [← List.reverse_inj, ← takeWhile_isDigit_reverse_stored requested,
      ← takeWhile_isDigit_reverse_stored other, hsame]
  have hcount : count = number := by
    rw [← Nat.ofDigitChars_ten_toDigits (n := count), hdigits, Nat.ofDigitChars_ten_toDigits]
  subst hcount
  have htext := congrArg String.toList hsame
  rw [toList_stored, toList_stored] at htext
  exact ⟨String.toList_injective
    (List.append_cancel_right (List.append_cancel_right htext)), rfl⟩

/-- **The name of a scope** is stored for the body of a namespace, which asks for no name, or for
the body of a method. -/
def IsStored (name : String) : Prop :=
  ∃ requested count, (requested = "" ∨ IsMethodName requested) ∧ name = stored requested count

/-! ## Reading names back -/

/-- The operators with a `>` in their names. -/
theorem operator_cases : ∀ operator ∈ operatorNames,
    operator.toList.contains '>' = false ∨ operator ∈ [">", ">=", ">>", "<=>"] := by
  decide

/-- **The parts of a stored name**: an operator or the front of one, which is where a `>` may be,
and at least three further characters. -/
theorem IsStored.exists_parts {name : String} (hstored : IsStored name) :
    ∃ front plain, name.toList = front ++ plain ∧
      front ∈ [[], ['>'], ['>', '>'], ['<', '=', '>']] ∧ '>' ∉ plain ∧ 3 ≤ plain.length := by
  obtain ⟨requested, count, hrequested, rfl⟩ := hstored
  have hdigits : '>' ∉ Nat.toDigits 10 count := fun hmem => by
    cases Nat.isDigit_of_mem_toDigits (by decide) (by decide) hmem
  have hmark : '>' ∉ "_local_".toList := by decide
  -- what is behind the request has no such character and is long enough
  have hplain : ∀ back : List Char, '>' ∉ back →
      '>' ∉ back ++ "_local_".toList ++ Nat.toDigits 10 count ∧
        3 ≤ (back ++ "_local_".toList ++ Nat.toDigits 10 count).length := by
    intro back hback
    refine ⟨by simp [hback, hdigits], ?_⟩
    have hlength : "_local_".toList.length = 7 := rfl
    rw [List.length_append, List.length_append, hlength]
    omega
  rw [toList_stored]
  have hcases : '>' ∉ requested.toList ∨ requested ∈ [">", ">=", ">>", "<=>"] := by
    rcases hrequested with rfl | ⟨-, hoperator | hall⟩
    · exact .inl (by decide)
    · exact (operator_cases requested hoperator).imp_left fun hnone => by simpa using hnone
    · refine .inl fun hmem => ?_
      cases List.all_eq_true.1 hall '>' hmem
  rcases hcases with hnone | hoperator
  · exact ⟨[], _, rfl, by decide, hplain _ hnone⟩
  · simp only [List.mem_cons, List.not_mem_nil, or_false] at hoperator
    rcases hoperator with rfl | rfl | rfl | rfl
    · exact ⟨['>'], _, rfl, by decide, hplain [] (by decide)⟩
    · exact ⟨['>'], _, rfl, by decide, hplain ['='] (by decide)⟩
    · exact ⟨['>', '>'], _, rfl, by decide, hplain [] (by decide)⟩
    · exact ⟨['<', '=', '>'], _, rfl, by decide, hplain [] (by decide)⟩

/-- **The first name** in what follows a `>` in a path. A `>` at its front belongs to the name,
since names are not empty. -/
def firstName : List Char → List Char
  | '<' :: '=' :: '>' :: rest => '<' :: '=' :: '>' :: rest.takeWhile (· != '>')
  | '>' :: '>' :: rest => '>' :: '>' :: rest.takeWhile (· != '>')
  | '>' :: rest => '>' :: rest.takeWhile (· != '>')
  | text => text.takeWhile (· != '>')

/-- Where no operator with a `>` begins, the first `>` ends the name. -/
theorem firstName_plain {first second third : Char} {more : List Char} (hfirst : first ≠ '>')
    (hthird : third ≠ '>') : firstName (first :: second :: third :: more) =
      (first :: second :: third :: more).takeWhile (· != '>') := by
  unfold firstName
  split
  · rename_i hcons
    exact absurd (List.cons.inj (List.cons.inj (List.cons.inj hcons).2).2).1 hthird
  · rename_i hcons
    exact absurd (List.cons.inj hcons).1 hfirst
  · rename_i hcons
    exact absurd (List.cons.inj hcons).1 hfirst
  · rfl

/-- A single `>` at the front belongs to the name. -/
theorem firstName_operator {first : Char} {more : List Char} (hfirst : first ≠ '>') :
    firstName ('>' :: first :: more) = '>' :: (first :: more).takeWhile (· != '>') := by
  unfold firstName
  split
  · rename_i hcons
    cases (List.cons.inj hcons).1
  · rename_i hcons
    exact absurd (List.cons.inj (List.cons.inj hcons).2).1 hfirst
  · rename_i hcons
    rw [(List.cons.inj hcons).2]
  · rename_i hother
    exact absurd rfl (hother _)

/-- **The first name is read back**, whatever names follow it. -/
theorem IsStored.firstName_append {name : String} (hstored : IsStored name) {rest : List Char}
    (hrest : ∀ character ∈ rest.head?, character = '>') :
    firstName (name.toList ++ rest) = name.toList := by
  obtain ⟨front, plain, htext, hfront, hplain, hlength⟩ := hstored.exists_parts
  have hread : (plain ++ rest).takeWhile (· != '>') = plain := by
    refine takeWhile_append_of_stops (fun character hmem => ?_) fun character hhead => ?_
    · exact bne_iff_ne.2 fun hsame => hplain (hsame ▸ hmem)
    · rw [hrest character hhead]
      rfl
  -- three characters are enough to tell an operator with a `>` in it from the end of a name
  match plain, hlength with
  | first :: second :: third :: more, _ =>
    simp only [List.mem_cons, not_or] at hplain
    obtain ⟨hfirst, -, hthird, -⟩ := hplain
    simp only [List.mem_cons, List.not_mem_nil, or_false] at hfront
    rw [htext, List.append_assoc]
    rcases hfront with rfl | rfl | rfl | rfl
    · exact (firstName_plain (Ne.symm hfirst) (Ne.symm hthird)).trans hread
    · exact (firstName_operator (Ne.symm hfirst)).trans (congrArg ('>' :: ·) hread)
    · exact congrArg ('>' :: '>' :: ·) hread
    · exact congrArg ('<' :: '=' :: '>' :: ·) hread

/-! ## Paths -/

theorem stored_ne_empty (requested : String) (count : Nat) : stored requested count ≠ "" := by
  intro hempty
  have htext := congrArg String.toList hempty
  rw [toList_stored] at htext
  simp at htext

theorem isStored_body (count : Nat) : IsStored (stored "" count) := ⟨"", count, .inl rfl, rfl⟩

theorem IsStored.ne_empty {name : String} (hstored : IsStored name) : name ≠ "" := by
  obtain ⟨requested, count, -, rfl⟩ := hstored
  exact stored_ne_empty requested count

/-- The text of names with a `>` before each of them. -/
def spelled (names : List String) : List Char := names.flatMap fun name => '>' :: name.toList

theorem spelled_cons (name : String) (names : List String) :
    spelled (name :: names) = '>' :: (name.toList ++ spelled names) := rfl

theorem spelled_append (names others : List String) :
    spelled (names ++ others) = spelled names ++ spelled others := List.flatMap_append

theorem head?_spelled (names : List String) : ∀ character ∈ (spelled names).head?,
    character = '>' := by
  cases names with
  | nil => exact fun character hhead => nomatch hhead
  | cons name names => exact fun character hhead => (Option.some.inj hhead).symm

/-- **Names are read back** from their text, one after the other. -/
theorem spelled_inj {names others : List String} (hnames : ∀ name ∈ names, IsStored name)
    (hothers : ∀ name ∈ others, IsStored name) (hsame : spelled names = spelled others) :
    names = others := by
  induction names generalizing others with
  | nil =>
    cases others with
    | nil => rfl
    | cons other others => cases hsame
  | cons name names ih =>
    cases others with
    | nil => cases hsame
    | cons other others =>
      have htext : name.toList ++ spelled names = other.toList ++ spelled others :=
        (List.cons.inj hsame).2
      have hname := (hnames name List.mem_cons_self).firstName_append (head?_spelled names)
      rw [htext, (hothers other List.mem_cons_self).firstName_append (head?_spelled others)]
        at hname
      obtain rfl : other = name := String.toList_injective hname
      rw [ih (fun later hlater => hnames later (List.mem_cons_of_mem _ hlater))
        (fun later hlater => hothers later (List.mem_cons_of_mem _ hlater))
        (List.append_cancel_left htext)]

end ScopeNames

open ScopeNames

/-- **The path of a scope** in a namespace with a given path, and the stored names of the scope and
of those around it, outermost first. -/
inductive SpellsScope (outermost : String) : List String → String → Prop where
  | body (count : Nat) : SpellsScope outermost [stored "" count]
      (joinPath outermost Registry.scopeSeparator (stored "" count))
  | inside {names : List String} {path name : String} (haround : SpellsScope outermost names path)
      (hname : IsStored name) :
      SpellsScope outermost (names ++ [name]) (joinPath path Registry.scopeSeparator name)

namespace SpellsScope

variable {outermost path : String} {names : List String}

theorem path_ne_empty (hspells : SpellsScope outermost names path) : path ≠ "" := by
  cases hspells with
  | body count => exact joinPath_ne_empty (stored_ne_empty "" count)
  | inside haround hname => exact joinPath_ne_empty hname.ne_empty

/-- All names are stored names, and the outermost scope is that of a body of the namespace. -/
theorem exists_names (hspells : SpellsScope outermost names path) :
    (∀ name ∈ names, IsStored name) ∧ ∃ count inner, names = stored "" count :: inner := by
  induction hspells with
  | body count =>
    exact ⟨fun name hmem => List.mem_singleton.1 hmem ▸ isStored_body count, count, [], rfl⟩
  | inside haround hname ih =>
    obtain ⟨hall, count, inner, rfl⟩ := ih
    refine ⟨fun found hmem => ?_, count, inner ++ [_], rfl⟩
    rcases List.mem_append.1 hmem with hbefore | hlast
    · exact hall found hbefore
    · exact List.mem_singleton.1 hlast ▸ hname

/-- The text of a path: under the root there is no `>` before the first name. -/
theorem text (hspells : SpellsScope outermost names path) :
    (outermost = "" → '>' :: path.toList = spelled names) ∧
      (outermost ≠ "" → path.toList = outermost.toList ++ spelled names) := by
  have hseparator : Registry.scopeSeparator.toList = ['>'] := rfl
  induction hspells with
  | body count =>
    rw [toList_joinPath, hseparator, spelled_cons]
    constructor
    · intro hempty
      rw [if_pos hempty]
      simp [spelled]
    · intro hne
      rw [if_neg hne]
      simp [spelled]
  | inside haround hname ih =>
    have hinside := haround.path_ne_empty
    rw [toList_joinPath, if_neg hinside, hseparator, spelled_append, spelled_cons]
    constructor
    · intro hempty
      rw [← ih.1 hempty]
      simp [spelled]
    · intro hne
      rw [ih.2 hne]
      simp [spelled]

/-- Under the root, the path of a scope begins with an underscore. -/
theorem head?_of_root (hspells : SpellsScope "" names path) :
    path.toList.head? = some '_' := by
  obtain ⟨-, count, inner, rfl⟩ := hspells.exists_names
  have htext := (List.cons.inj ((hspells.text.1 rfl).trans (spelled_cons _ _))).2
  rw [htext, toList_stored]
  rfl

/-- **A path belongs to one scope at most**: from the path, the path of the namespace and the stored
names can be read. -/
theorem unique {other : String} {others : List String} (hspells : SpellsScope outermost names path)
    (hother : SpellsScope other others path) (hpath : IsNamespacePath outermost)
    (hotherPath : IsNamespacePath other) (hhead : outermost.toList.head? ≠ some '_')
    (hotherHead : other.toList.head? ≠ some '_') : outermost = other ∧ names = others := by
  obtain ⟨hstored, -⟩ := hspells.exists_names
  obtain ⟨hotherStored, -⟩ := hother.exists_names
  -- a path that is not empty begins with the path of the namespace
  have hroot : ∀ {outermost : String} {names : List String},
      SpellsScope outermost names path → outermost ≠ "" →
      outermost.toList.head? ≠ some '_' → path.toList.head? ≠ some '_' := by
    intro outermost names hspells hne hhead
    have hnil : outermost.toList ≠ [] := fun hnil => hne (String.toList_eq_nil_iff.1 hnil)
    rwa [hspells.text.2 hne, List.head?_append_of_ne_nil _ hnil]
  have hreads : ∀ {outermost : String} {names : List String},
      SpellsScope outermost names path → outermost ≠ "" → IsNamespacePath outermost →
      path.toList.takeWhile (· != '>') = outermost.toList := by
    intro outermost names hspells hne hpath
    rw [hspells.text.2 hne]
    refine takeWhile_append_of_stops (fun character hmem => ?_) fun character hfirst => ?_
    · exact bne_iff_ne.2 fun hsame => hpath.not_mem '>' rfl (by decide) (hsame ▸ hmem)
    · rw [head?_spelled names character hfirst]
      rfl
  by_cases hempty : outermost = ""
  · subst hempty
    have hotherEmpty : other = "" := by
      by_contra hne
      exact hroot hother hne hotherHead hspells.head?_of_root
    subst hotherEmpty
    exact ⟨rfl, spelled_inj hstored hotherStored
      ((hspells.text.1 rfl).symm.trans (hother.text.1 rfl))⟩
  · have hotherNe : other ≠ "" := by
      rintro rfl
      exact hroot hspells hempty hhead hother.head?_of_root
    have hsame : outermost.toList = other.toList :=
      (hreads hspells hempty hpath).symm.trans (hreads hother hotherNe hotherPath)
    obtain rfl := String.toList_injective hsame
    exact ⟨rfl, spelled_inj hstored hotherStored (List.append_cancel_left
      ((hspells.text.2 hempty).symm.trans (hother.text.2 hempty)))⟩

end SpellsScope

end RubyIndex
