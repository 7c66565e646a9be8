import RubyIndex.Proofs.Syntax.CodeTrees
import RubyIndex.Proofs.Syntax.CommentedLines
import RubyIndex.Proofs.Syntax.Locality

/-! # Parsers overlook comments at the end of a line

A parser that meets the end of a line reads the same whether or not there is a comment before the
line break, unless an expression carries on over the line break. Where no construct is open the
blanks, the comment and the line break separate statements; inside brackets they are all taken; and
an expression that is complete ends before the comment as it ends before the line break.

* `Unheard` readings of the input ahead do not depend on such a comment.
* `Parsed.SameCode` compares two results: the trees are the same but for blanks, line breaks and
  comments, and the comment is still ahead in both or behind in both.
* `Parser.Overlooks`: a parser has such results, where no expression carries on over the line
  break. -/

namespace RubyIndex.Syntax

open RubyIndex.Syntax.Parser

/-! ## The end of a line ahead -/

namespace Token

variable {index : Nat} {tokens tokens' rest : List Token} {token : Token}

/-- The kinds of the ends of a line are those of blanks, line breaks and comments. -/
theorem isTrivia_cases {kind : TokenKind} (htrivia : kind.isTrivia = true) :
    kind = .whitespace ∨ kind = .newline ∨ kind = .comment := by
  revert htrivia
  cases kind <;> decide

/-- What the end of a line has before its line break is trivia. -/
theorem isTrivia_of_blank_or_comment {kind : TokenKind}
    (hkind : kind = .whitespace ∨ kind = .comment) : kind.isTrivia = true := by
  rcases hkind with rfl | rfl <;> rfl

namespace LineEnd

/-- A blank in front of the end of a line belongs to it. -/
theorem cons (hend : LineEnd index tokens tokens') (hblank : token.kind = .whitespace) :
    LineEnd (index + 1) (token :: tokens) (token :: tokens') := by
  obtain ⟨later, hblanks, htrivia, hnewline, hnewline'⟩ := hend
  rename_i blanks trivia newline newline'
  have hblanks' : ∀ found ∈ token :: blanks, found.kind = .whitespace := by
    intro found hmem
    rcases List.mem_cons.1 hmem with rfl | hlater
    · exact hblank
    · exact hblanks found hlater
  refine @LineEnd.intro (token :: blanks) (token :: trivia) newline newline' later hblanks' ?_
    hnewline hnewline'
  intro found hmem
  rcases List.mem_cons.1 hmem with rfl | hlater
  · exact .inl hblank
  · exact htrivia found hlater

/-- Behind blanks there is the line break. -/
theorem kindAhead?_eq (hend : LineEnd index tokens tokens') :
    Cursor.kindAhead? 0 tokens = some .newline := by
  obtain ⟨later, hblanks, -, hnewline, -⟩ := hend
  rename_i blanks _ newline _
  induction blanks with
  | nil =>
    rw [List.nil_append, Cursor.kindAhead?, hnewline]
    rfl
  | cons token rest ih =>
    rw [List.cons_append, Cursor.kindAhead?, if_pos (hblanks token List.mem_cons_self)]
    exact ih fun found hmem => hblanks found (List.mem_cons_of_mem _ hmem)

/-- With the comment, a comment or the line break is behind blanks. -/
theorem kindAhead?_eq_or (hend : LineEnd index tokens tokens') :
    Cursor.kindAhead? 0 tokens' = some .newline ∨ Cursor.kindAhead? 0 tokens' = some .comment := by
  obtain ⟨later, -, htrivia, -, hnewline'⟩ := hend
  rename_i _ trivia _ newline'
  induction trivia with
  | nil =>
    left
    rw [List.nil_append, Cursor.kindAhead?, hnewline']
    rfl
  | cons token rest ih =>
    rw [List.cons_append, Cursor.kindAhead?]
    rcases htrivia token List.mem_cons_self with hblank | hcomment
    · rw [if_pos hblank]
      exact ih fun found hmem => htrivia found (List.mem_cons_of_mem _ hmem)
    · right
      rw [hcomment]
      rfl

/-- The end of a line is trivia, with the comment as without it, and then the same. -/
theorem exists_trivia (hend : LineEnd index tokens tokens') :
    ∃ front front' later, tokens = front ++ later ∧ tokens' = front' ++ later ∧
      front ≠ [] ∧ front' ≠ [] ∧ (∀ token ∈ front, token.kind.isTrivia = true) ∧
      ∀ token ∈ front', token.kind.isTrivia = true := by
  obtain ⟨later, hblanks, htrivia, hnewline, hnewline'⟩ := hend
  rename_i blanks trivia newline newline'
  refine ⟨blanks ++ [newline], trivia ++ [newline'], later, by simp, by simp, by simp, by simp,
    ?_, ?_⟩
  · intro token hmem
    rcases List.mem_append.1 hmem with hblank | hlast
    · rw [hblanks token hblank]
      rfl
    · rw [List.mem_singleton.1 hlast, hnewline]
      rfl
  · intro token hmem
    rcases List.mem_append.1 hmem with hfound | hlast
    · exact isTrivia_of_blank_or_comment (htrivia token hfound)
    · rw [List.mem_singleton.1 hlast, hnewline']
      rfl

/-- The end of a line begins with trivia, with the comment as without it. -/
theorem exists_head (hend : LineEnd index tokens tokens') :
    ∃ first rest first' rest', tokens = first :: rest ∧ tokens' = first' :: rest' ∧
      first.kind.isTrivia = true ∧ first'.kind.isTrivia = true := by
  obtain ⟨front, front', later, rfl, rfl, hne, hne', htrivia, htrivia'⟩ := hend.exists_trivia
  obtain ⟨first, rest, rfl⟩ := List.exists_cons_of_ne_nil hne
  obtain ⟨first', rest', rfl⟩ := List.exists_cons_of_ne_nil hne'
  exact ⟨first, rest ++ later, first', rest' ++ later, rfl, rfl,
    htrivia first List.mem_cons_self, htrivia' first' List.mem_cons_self⟩

end LineEnd

namespace Commented

/-- There is a line break ahead somewhere. -/
theorem ne_nil (hcommented : Commented index tokens tokens') : tokens ≠ [] := by
  cases hcommented with
  | cons token hlater => exact List.cons_ne_nil _ _
  | lineEnd hend =>
    obtain ⟨first, rest, -, -, rfl, -⟩ := hend.exists_head
    exact List.cons_ne_nil _ _

/-- So something is ahead behind blanks. -/
theorem kindAhead?_ne_none (hcommented : Commented index tokens tokens') :
    Cursor.kindAhead? 0 tokens ≠ none := by
  induction hcommented with
  | lineEnd hend =>
    rw [hend.kindAhead?_eq]
    exact Option.some_ne_none _
  | cons token hlater ih =>
    rw [Cursor.kindAhead?]
    split
    · exact ih
    · exact Option.some_ne_none _

/-- **The line ends here, or the next token is the same.** In the second case what is ahead behind
blanks is the same too. -/
theorem lineEnd_or_cons (hcommented : Commented index tokens tokens') :
    LineEnd index tokens tokens' ∨
      ∃ token rest rest' inner, tokens = token :: rest ∧ tokens' = token :: rest' ∧
        index = inner + 1 ∧ Commented inner rest rest' ∧
        Cursor.kindAhead? 0 tokens = Cursor.kindAhead? 0 tokens' := by
  induction hcommented with
  | lineEnd hend => exact .inl hend
  | @cons inner rest rest' token hlater ih =>
    by_cases hblank : token.kind = .whitespace
    · rcases ih with hend | ⟨_, _, _, _, _, _, _, _, hahead⟩
      · exact .inl (hend.cons hblank)
      · refine .inr ⟨token, rest, rest', inner, rfl, rfl, rfl, hlater, ?_⟩
        rw [Cursor.kindAhead?, Cursor.kindAhead?, if_pos hblank, if_pos hblank, hahead]
    · refine .inr ⟨token, rest, rest', inner, rfl, rfl, rfl, hlater, ?_⟩
      rw [Cursor.kindAhead?, Cursor.kindAhead?, if_neg hblank, if_neg hblank]

/-- A token that is code stands before the end of the line. -/
theorem of_code (hcommented : Commented index (token :: rest) tokens')
    (hcode : token.kind.isTrivia = false) :
    ∃ rest' inner, tokens' = token :: rest' ∧ index = inner + 1 ∧ Commented inner rest rest' := by
  cases hcommented with
  | cons _ hlater => exact ⟨_, _, rfl, rfl, hlater⟩
  | lineEnd hend =>
    obtain ⟨first, _, _, _, hsplit, -, htrivia, -⟩ := hend.exists_head
    obtain ⟨rfl, -⟩ := List.cons.inj hsplit
    rw [hcode] at htrivia
    cases htrivia

end Commented

end Token

open Token

/-! ## Readings of the input ahead -/

/-- Two readings of a kind are **alike** if they are the same or both are trivia. -/
def TokenKind.Alike (found found' : Option TokenKind) : Prop :=
  found = found' ∨ ∃ kind kind', found = some kind ∧ found' = some kind' ∧
    kind.isTrivia = true ∧ kind'.isTrivia = true

/-- A kind that is trivia is none that is code. -/
theorem beq_eq_false_of_isTrivia {kind code : TokenKind} (htrivia : kind.isTrivia = true)
    (hcode : code.isTrivia = false) : (some kind == some code) = false := by
  rw [Option.some_beq_some, beq_eq_false_iff_ne]
  rintro rfl
  rw [hcode] at htrivia
  cases htrivia

namespace TokenKind.Alike

variable {found found' : Option TokenKind}

/-- What is the same for all trivia is the same for alike kinds. -/
theorem eq_of_forall {α : Type} (halike : Alike found found') (use : Option TokenKind → α)
    {value : α} (hvalue : ∀ kind : TokenKind, kind.isTrivia = true → use (some kind) = value) :
    use found = use found' := by
  rcases halike with rfl | ⟨kind, kind', rfl, rfl, htrivia, htrivia'⟩
  · rfl
  · rw [hvalue kind htrivia, hvalue kind' htrivia']

/-- Alike kinds are both of a kind that is code, or neither is. -/
theorem beq_eq {kind : TokenKind} (halike : Alike found found') (hcode : kind.isTrivia = false) :
    (found == some kind) = (found' == some kind) :=
  halike.eq_of_forall (· == some kind) fun _ htrivia => beq_eq_false_of_isTrivia htrivia hcode

end TokenKind.Alike

namespace Cursor

variable {index : Nat} {input input' : Cursor}

/-- Blanks are skipped up to the comment or the line break. -/
theorem ahead?_alike (hcommented : Commented index input.tokens input'.tokens) :
    TokenKind.Alike (input.ahead? 0) (input'.ahead? 0) := by
  rcases hcommented.lineEnd_or_cons with hend | ⟨_, _, _, _, _, _, _, _, hahead⟩
  · rw [ahead?, ahead?, hend.kindAhead?_eq]
    rcases hend.kindAhead?_eq_or with hbreak | hcomment
    · exact .inl hbreak.symm
    · exact .inr ⟨_, _, rfl, hcomment, rfl, rfl⟩
  · exact .inl hahead

/-- The end of a line looks like trivia, and any other token is the same. -/
theorem kind?_alike (hcommented : Commented index input.tokens input'.tokens) :
    TokenKind.Alike input.kind? input'.kind? := by
  rw [kind?, kind?]
  cases hcommented.lineEnd_or_cons with
  | inl hend =>
    obtain ⟨first, rest, first', rest', hsplit, hsplit', htrivia, htrivia'⟩ := hend.exists_head
    rw [hsplit, hsplit']
    exact .inr ⟨_, _, rfl, rfl, htrivia, htrivia'⟩
  | inr hcons =>
    obtain ⟨token, rest, rest', _, hsplit, hsplit', -⟩ := hcons
    rw [hsplit, hsplit']
    exact .inl rfl

/-- Behind the same token, what comes next is alike too. -/
theorem secondKind?_alike {token : Token} {rest rest' : List Token}
    (hlater : Commented index rest rest') (offset offset' : Nat) :
    TokenKind.Alike (secondKind? ⟨offset, token :: rest⟩)
      (secondKind? ⟨offset', token :: rest'⟩) := by
  have halike := @kind?_alike index ⟨offset, rest⟩ ⟨offset', rest'⟩ hlater
  rwa [kind?, kind?, List.head?_eq_getElem?, List.head?_eq_getElem?] at halike

/-- So a `:` comes next in both or in none. -/
theorem atLabel_eq {token : Token} {rest rest' : List Token} (hlater : Commented index rest rest')
    (offset offset' : Nat) :
    atLabel ⟨offset', token :: rest'⟩ = atLabel ⟨offset, token :: rest⟩ :=
  ((secondKind?_alike hlater offset offset').beq_eq rfl).symm

/-- The next token is one that is code. -/
def AtCode (input : Cursor) : Prop := ∃ kind, input.kind? = some kind ∧ kind.isTrivia = false

/-- There are at most so many tokens ahead. -/
def Short (length : Nat) (input : Cursor) : Prop := input.tokens.length ≤ length

/-- What is left when a token has been taken is shorter. -/
theorem Short.of_lt {length : Nat} (hshort : input.Short (length + 1))
    (hlt : input'.tokens.length < input.tokens.length) : input'.Short length :=
  Nat.le_of_lt_succ (Nat.lt_of_lt_of_le hlt hshort)

/-- Where code is ahead, the first token is the same with the comment as without it. -/
theorem AtCode.exists_rest (hcode : input.AtCode)
    (hcommented : Commented index input.tokens input'.tokens) :
    ∃ offset offset' token rest rest' inner, input = ⟨offset, token :: rest⟩ ∧
      input' = ⟨offset', token :: rest'⟩ ∧ token.kind.isTrivia = false ∧ index = inner + 1 ∧
      Commented inner rest rest' := by
  obtain ⟨kind, hkind, htrivia⟩ := hcode
  obtain ⟨offset, token, rest, rfl, rfl⟩ := exists_of_kind? hkind
  obtain ⟨offset', tokens'⟩ := input'
  obtain ⟨rest', inner, rfl, hindex, hlater⟩ := hcommented.of_code htrivia
  exact ⟨offset, offset', token, rest, rest', inner, rfl, rfl, htrivia, hindex, hlater⟩

/-- Where code is ahead, its kind is the same with the comment. -/
theorem AtCode.kind?_eq (hcode : input.AtCode)
    (hcommented : Commented index input.tokens input'.tokens) : input'.kind? = input.kind? := by
  obtain ⟨offset, offset', token, rest, rest', _, rfl, rfl, -⟩ := hcode.exists_rest hcommented
  rfl

/-- Where no code is ahead, none is with the comment either. -/
theorem not_atCode (hcode : ¬ input.AtCode)
    (hcommented : Commented index input.tokens input'.tokens) :
    ¬ input'.AtCode := by
  rintro ⟨kind, hkind, hfalse⟩
  rcases kind?_alike hcommented with hsame | ⟨_, kind', _, hkind', _, htrivia⟩
  · exact hcode ⟨kind, hsame.trans hkind, hfalse⟩
  · obtain rfl := Option.some.inj (hkind.symm.trans hkind')
    rw [hfalse] at htrivia
    cases htrivia

end Cursor

/-- **A reading that does not hear a comment**: it is stable, and it is the same with a comment at
the end of a line ahead as without it. -/
structure Unheard {α : Type} (reading : Cursor → α) : Prop where
  stable : Stable reading
  same : ∀ {index input input'}, Commented index input.tokens input'.tokens →
    reading input = reading input'

namespace Unheard

/-- A reading of the next two tokens does not hear a comment if all trivia are the same to it, and
hide what comes after them. -/
theorem nextTwo {α : Type} (value : α) (reading : Option TokenKind → Option TokenKind → α)
    (hfirst : ∀ kind second, kind.isTrivia = true → reading (some kind) second = value)
    (hsecond : ∀ kind second other, TokenKind.Alike second other →
      reading kind second = reading kind other) :
    Unheard fun input => reading input.kind? input.secondKind? where
  stable := .nextTwo reading fun second other => by rw [hfirst _ _ rfl, hfirst _ _ rfl]
  same {index input input'} hcommented := by
    rw [Cursor.kind?, Cursor.kind?, Cursor.secondKind?, Cursor.secondKind?]
    rcases hcommented.lineEnd_or_cons with
      hend | ⟨token, rest, rest', _, hsplit, hsplit', -, hlater, -⟩
    · obtain ⟨first, rest, first', rest', hsplit, hsplit', htrivia, htrivia'⟩ := hend.exists_head
      rw [hsplit, hsplit']
      exact (hfirst _ _ htrivia).trans (hfirst _ _ htrivia').symm
    · rw [hsplit, hsplit']
      exact hsecond _ _ _ (Cursor.secondKind?_alike hlater 0 0)

/-- A reading of the next token does not hear a comment if all trivia are the same to it. -/
theorem ofKind {α : Type} (value : α) (reading : Option TokenKind → α)
    (hfirst : ∀ kind, kind.isTrivia = true → reading (some kind) = value) :
    Unheard fun input => reading input.kind? :=
  nextTwo value (fun kind _ => reading kind) (fun kind _ => hfirst kind) fun _ _ _ _ => rfl

/-- A reading that needs code first and looks for code behind it. -/
theorem firstThen (first second : Option TokenKind → Bool)
    (hfirst : ∀ kind, kind.isTrivia = true → first (some kind) = false)
    (hsecond : ∀ found other, TokenKind.Alike found other → second found = second other) :
    Unheard fun input => first input.kind? && second input.secondKind? := by
  refine nextTwo false (fun kind found => first kind && second found) ?_ ?_
  · intro kind found htrivia
    rw [hfirst kind htrivia, Bool.false_and]
  · intro kind found other halike
    rw [hsecond found other halike]

theorem isAt {kind : TokenKind} (hcode : kind.isTrivia = false) : Unheard (Cursor.isAt kind) :=
  ofKind false (· == some kind) fun _ htrivia => beq_eq_false_of_isTrivia htrivia hcode

/-- Whether a kind that is code is ahead behind blanks. -/
theorem ahead {kind : TokenKind} (hcode : kind.isTrivia = false) :
    Unheard fun input => input.ahead? 0 == some kind where
  stable := Stable.ahead?_zero.map (· == some kind)
  same hcommented := (Cursor.ahead?_alike hcommented).beq_eq hcode

end Unheard

/-! ## Results -/

/-- **No expression carries on** over the line break that is the token at an index of some trees, if
it is among them. Trees before them have been passed. -/
def Tree.Completes (index : Nat) (passed trees : List Tree) : Prop :=
  index < (leavesOf trees).length → ¬ CarriesOn (beforeOf index passed trees)

namespace Tree.Completes

variable {index : Nat} {passed front back : List Tree}

theorem append_left (hcompletes : Completes index passed (front ++ back)) :
    Completes index passed front := by
  intro hindex hcarries
  refine hcompletes ?_ ((beforeOf_append_left back hindex).symm ▸ hcarries)
  rw [leavesOf_append, List.length_append]
  omega

theorem append_right (hcompletes : Completes ((leavesOf front).length + index) passed
    (front ++ back)) : Completes index (passed ++ front) back := by
  intro hindex hcarries
  refine hcompletes ?_ ((beforeOf_append_right index passed front back).symm ▸ hcarries)
  rw [leavesOf_append, List.length_append]
  omega

/-- Inside a node nothing has been passed. -/
theorem node {kind : NodeKind} {children : List Tree}
    (hcompletes : Completes index passed [.node kind children]) :
    Completes index [] children := by
  intro hindex hcarries
  have hwithin : index < (leaves (.node kind children)).length := hindex
  refine hcompletes ?_ ?_
  · rw [leavesOf, leavesOf, List.append_nil]
    exact hwithin
  · rwa [beforeOf, if_pos hwithin, before]

/-- No expression carries on over a line break that comes next. -/
theorem not_carriesOn {token : Token} {rest : List Tree}
    (hcompletes : Completes 0 passed (.leaf token :: rest)) : ¬ CarriesOn passed := by
  have hindex : 0 < (leavesOf (.leaf token :: rest)).length := by
    rw [leavesOf, leaves, List.length_append, List.length_singleton]
    omega
  have hbefore : beforeOf 0 passed (.leaf token :: rest) = passed := by
    rw [beforeOf, if_pos (by rw [leaves]; exact Nat.one_pos), before]
  exact hbefore ▸ hcompletes hindex

/-- No expression carries on where the line break that comes behind blanks is taken. -/
theorem not_carriesOn_of_trivia {more : List Tree} {trivia : List Token}
    {newline : Token} (htrivia : ∀ token ∈ trivia, token.kind.isTrivia = true)
    (hcompletes : Completes trivia.length passed (trivia.map .leaf ++ .leaf newline :: more)) :
    ¬ CarriesOn passed := by
  have hlength : (leavesOf (trivia.map .leaf)).length = trivia.length := by
    rw [leavesOf_map_leaf]
  have hbehind : Completes 0 (passed ++ trivia.map .leaf) (.leaf newline :: more) :=
    append_right (by rwa [hlength, Nat.add_zero])
  rw [← carriesOn_append_trivia htrivia]
  exact hbehind.not_carriesOn

end Tree.Completes

/-- **Results with the same code**, without a comment and with it: the trees are the same but for
trivia, and the rests are the same or the line with the comment is still ahead. The index is that of
its line break in the input. -/
structure Parsed.SameCode (index : Nat) (parsed parsed' : Parsed) : Prop where
  trees : Tree.codeOf parsed.trees = Tree.codeOf parsed'.trees
  rest : parsed.rest.tokens = parsed'.rest.tokens ∨
    ∃ ahead, index = (Tree.leavesOf parsed.trees).length + ahead ∧
      Commented ahead parsed.rest.tokens parsed'.rest.tokens

/-- A token that both have taken first. -/
theorem Parsed.SameCode.cons {index : Nat} {parsed parsed' : Parsed}
    (hsame : parsed.SameCode index parsed') (token : Token) :
    Parsed.SameCode (index + 1) { parsed with trees := .leaf token :: parsed.trees }
      { parsed' with trees := .leaf token :: parsed'.trees } := by
  obtain ⟨htrees, hrest⟩ := hsame
  refine ⟨?_, hrest.imp_right fun ⟨ahead, hindex, hbehind⟩ => ⟨ahead, ?_, hbehind⟩⟩
  · show Tree.codeOf (_ :: _) = Tree.codeOf (_ :: _)
    rw [Tree.codeOf, Tree.codeOf, htrees]
  · show index + 1 = (Tree.leavesOf (.leaf token :: _)).length + ahead
    rw [Tree.leavesOf, Tree.leaves, List.length_append, List.length_singleton]
    omega

namespace Parser

/-- A local parser reads the same tokens to the same trees, wherever they stand. -/
theorem Local.eq_of_tokens {parser : Parser} (hlocal : Local parser) {input input' : Cursor}
    (hsame : input.tokens = input'.tokens) :
    (parser input).trees = (parser input').trees ∧
      (parser input).rest.tokens = (parser input').rest.tokens := by
  have hmoved : ∀ found : Cursor, found.tokens = input.tokens →
      (parser found).trees = (parser ⟨0, input.tokens⟩).trees ∧
        (parser found).rest.tokens = (parser ⟨0, input.tokens⟩).rest.tokens := by
    rintro ⟨offset, _⟩ rfl
    have hwithin := hlocal.within offset [] ⟨0, input.tokens⟩ (.inl rfl)
    have hplace : Cursor.within offset [] ⟨0, input.tokens⟩ = ⟨offset, input.tokens⟩ := by
      rw [Cursor.within, Nat.add_zero, List.append_nil]
    rw [hplace] at hwithin
    rw [hwithin]
    exact ⟨rfl, List.append_nil _⟩
  obtain ⟨htrees, hrest⟩ := hmoved input rfl
  obtain ⟨htrees', hrest'⟩ := hmoved input' hsame.symm
  exact ⟨htrees.trans htrees'.symm, hrest.trans hrest'.symm⟩

/-- A parser overlooks a comment in an input if its results have the same code, where no expression
carries on. Trees before what the parser builds have been passed. -/
def OverlooksAt (passed : List Tree) (parser : Parser) (input input' : Cursor) : Prop :=
  ∀ index, Commented index input.tokens input'.tokens →
    Tree.Completes index passed (parser input).trees →
      (parser input).SameCode index (parser input')

/-- **A parser overlooks comments** at the ends of lines in inputs of a domain. -/
structure Overlooks (domain : Cursor → Prop) (parser : Parser) : Prop where
  isLocal : Local parser
  overlooks : ∀ passed input input', domain input → OverlooksAt passed parser input input'

/-- A parser that overlooks comments in every input. -/
abbrev OverlooksAll (parser : Parser) : Prop := Overlooks (fun _ => True) parser

namespace OverlooksAt

variable {passed : List Tree} {first second parser : Parser} {input input' : Cursor}

/-- What is read next may depend on what has been read. -/
theorem followedBy (hfirst : OverlooksAt passed first input input')
    (hsecond : OverlooksAt (passed ++ (first input).trees) second (first input).rest
      (first input').rest) (hlocal : Local second) :
    OverlooksAt passed (first ++ second) input input' := by
  intro index hcommented hcompletes
  obtain ⟨htrees, hrest⟩ := hfirst index hcommented hcompletes.append_left
  rw [append_apply, append_apply]
  rcases hrest with hsame | ⟨ahead, hindex, hlater⟩
  · -- the comment is behind, so the rest is read the same
    obtain ⟨hagain, hleft⟩ := hlocal.eq_of_tokens hsame
    exact ⟨by simp only [Parsed.append, Tree.codeOf_append, htrees, hagain], .inl hleft⟩
  · subst hindex
    obtain ⟨hagain, hleft⟩ := hsecond ahead hlater hcompletes.append_right
    refine ⟨by simp only [Parsed.append, Tree.codeOf_append, htrees, hagain], ?_⟩
    rcases hleft with hsame | ⟨further, rfl, hbehind⟩
    · exact .inl hsame
    · refine .inr ⟨further, ?_, hbehind⟩
      simp only [Parsed.append, Tree.leavesOf_append, List.length_append]
      omega

/-- Inside a node nothing has been passed. -/
theorem node (kind : NodeKind) (hparser : OverlooksAt [] parser input input') :
    OverlooksAt passed (node kind parser) input input' := by
  intro index hcommented hcompletes
  obtain ⟨htrees, hrest⟩ := hparser index hcommented hcompletes.node
  refine ⟨?_, ?_⟩
  · show Tree.codeOf [_] = Tree.codeOf [_]
    rw [Tree.codeOf_node, Tree.codeOf_node, htrees]
  · show _ ∨ ∃ ahead, index = (Tree.leavesOf [_]).length + ahead ∧ _
    rwa [Tree.leavesOf, Tree.leavesOf, List.append_nil, Tree.leaves]

/-- Nothing is taken with the comment as without it. -/
theorem of_nothing {errors errors' : List SyntaxError}
    (hnothing : parser input = ⟨[], errors, input⟩)
    (hnothing' : parser input' = ⟨[], errors', input'⟩) :
    OverlooksAt passed parser input input' := by
  intro index hcommented _
  rw [hnothing, hnothing']
  exact ⟨rfl, .inr ⟨index, (Nat.zero_add index).symm, hcommented⟩⟩

/-- A code token that is ahead is taken with the comment as without it. -/
theorem advance (hcode : input.AtCode) : OverlooksAt passed advance input input' := by
  intro index hcommented _
  obtain ⟨offset, offset', token, rest, rest', inner, rfl, rfl, -, rfl, hlater⟩ :=
    hcode.exists_rest hcommented
  exact ⟨rfl, .inr ⟨inner, Nat.add_comm inner 1, hlater⟩⟩

/-- A choice that does not hear the comment is the same with it as without it. -/
theorem ifAhead {condition : Cursor → Bool} (hcondition : Unheard condition)
    (hfirst : condition input = true → OverlooksAt passed first input input')
    (hsecond : condition input = false → OverlooksAt passed second input input') :
    OverlooksAt passed (ifAhead condition first second) input input' := by
  intro index hcommented
  unfold Parser.ifAhead
  rw [← hcondition.same hcommented]
  cases hholds : condition input with
  | true => exact hfirst hholds index hcommented
  | false => exact hsecond hholds index hcommented

end OverlooksAt

namespace Overlooks

variable {domain other : Cursor → Prop} {first second parser positive negative : Parser}

theorem mono (hparser : Overlooks domain parser) (hdomain : ∀ input, other input → domain input) :
    Overlooks other parser :=
  ⟨hparser.isLocal, fun passed input input' hinput =>
    hparser.overlooks passed input input' (hdomain input hinput)⟩

theorem nothing : OverlooksAll nothing := ⟨.nothing, fun _ _ _ _ => .of_nothing rfl rfl⟩

theorem report (fault : SyntaxFault) : OverlooksAll (report fault) :=
  ⟨.report fault, fun _ _ _ _ => .of_nothing rfl rfl⟩

theorem advance : Overlooks Cursor.AtCode advance :=
  ⟨.advance, fun _ _ _ hcode => .advance hcode⟩

theorem followedBy (hfirst : Overlooks domain first) (hsecond : Overlooks other second)
    (hrest : ∀ input, domain input → other (first input).rest) :
    Overlooks domain (first ++ second) :=
  ⟨hfirst.isLocal.followedBy hsecond.isLocal, fun passed input input' hinput =>
    (hfirst.overlooks passed input input' hinput).followedBy
      (hsecond.overlooks _ _ _ (hrest input hinput)) hsecond.isLocal⟩

/-- What overlooks comments everywhere may come next anywhere. -/
theorem followedBy_all (hfirst : Overlooks domain first) (hsecond : OverlooksAll second) :
    Overlooks domain (first ++ second) := hfirst.followedBy hsecond fun _ _ => trivial

theorem node (kind : NodeKind) (hparser : Overlooks domain parser) :
    Overlooks domain (node kind parser) :=
  ⟨hparser.isLocal.node kind, fun _ input input' hinput =>
    (hparser.overlooks [] input input' hinput).node kind⟩

theorem ifAhead {condition : Cursor → Bool} (hcondition : Unheard condition)
    (hpositive : Overlooks (fun input => domain input ∧ condition input = true) positive)
    (hnegative : Overlooks (fun input => domain input ∧ condition input = false) negative) :
    Overlooks domain (ifAhead condition positive negative) := by
  refine ⟨hpositive.isLocal.ifAhead hcondition.stable hnegative.isLocal,
    fun passed input input' hinput => .ifAhead hcondition (fun hholds => ?_) fun hholds => ?_⟩
  · exact hpositive.overlooks passed input input' ⟨hinput, hholds⟩
  · exact hnegative.overlooks passed input input' ⟨hinput, hholds⟩

theorem whenAhead {condition : Cursor → Bool} (hcondition : Unheard condition)
    (hparser : Overlooks (fun input => domain input ∧ condition input = true) parser) :
    Overlooks domain (whenAhead condition parser) :=
  ifAhead hcondition hparser (nothing.mono fun _ _ => trivial)

/-- A token that is taken where its kind is ahead. -/
theorem advance_of_isAt {kind : TokenKind} (hcode : kind.isTrivia = false) :
    Overlooks (fun input => domain input ∧ input.isAt kind = true) Parser.advance :=
  advance.mono fun _ hinput => ⟨kind, eq_of_beq hinput.2, hcode⟩

theorem expect {kind : TokenKind} (hcode : kind.isTrivia = false) (fault : SyntaxFault) :
    OverlooksAll (expect kind fault) :=
  ifAhead (.isAt hcode) (advance_of_isAt hcode) ((report fault).mono fun _ _ => trivial)

end Overlooks

/-! ## Tokens of some kinds -/

/-- The trees of tokens that are taken as long as their kind is accepted. -/
theorem trees_advanceWhile (accepts : TokenKind → Bool) (input : Cursor) :
    (advanceWhile accepts input).trees =
      (input.tokens.takeWhile (accepts ·.kind)).map .leaf := by
  obtain ⟨offset, tokens⟩ := input
  show (advanceAmong accepts offset tokens).trees = _
  induction tokens generalizing offset with
  | nil => rfl
  | cons token rest ih =>
    rw [advanceAmong, List.takeWhile_cons]
    split
    · rw [List.map_cons, ← ih (offset + token.width)]
    · rfl

/-- **What is skipped with the comment** and what is left has the same code as without it. -/
def SkipsAlike (accepts : TokenKind → Bool) (index : Nat) (tokens tokens' : List Token) : Prop :=
  Token.codeOf (tokens.takeWhile (accepts ·.kind)) =
    Token.codeOf (tokens'.takeWhile (accepts ·.kind)) ∧
  (tokens.dropWhile (accepts ·.kind) = tokens'.dropWhile (accepts ·.kind) ∨
    ∃ ahead, index = (tokens.takeWhile (accepts ·.kind)).length + ahead ∧
      Commented ahead (tokens.dropWhile (accepts ·.kind)) (tokens'.dropWhile (accepts ·.kind)))

section Skips

variable {accepts : TokenKind → Bool} {index : Nat} {tokens tokens' : List Token}

/-- The whole end of a line is skipped where line breaks are. -/
theorem skipsAlike_of_accepts
    (haccepts : ∀ kind : TokenKind, kind.isTrivia = true → accepts kind = true)
    (hend : LineEnd index tokens tokens') : SkipsAlike accepts index tokens tokens' := by
  obtain ⟨front, front', later, rfl, rfl, -, -, htrivia, htrivia'⟩ := hend.exists_trivia
  have hskipped : ∀ token ∈ front, accepts token.kind = true :=
    fun token hmem => haccepts _ (htrivia token hmem)
  have hskipped' : ∀ token ∈ front', accepts token.kind = true :=
    fun token hmem => haccepts _ (htrivia' token hmem)
  unfold SkipsAlike
  rw [List.takeWhile_append_of_pos hskipped, List.takeWhile_append_of_pos hskipped',
    List.dropWhile_append_of_pos hskipped, List.dropWhile_append_of_pos hskipped',
    Token.codeOf_append, Token.codeOf_append, codeOf_eq_nil htrivia, codeOf_eq_nil htrivia']
  exact ⟨rfl, .inl rfl⟩

/-- Where line breaks are not skipped, blanks are, and perhaps comments. -/
theorem skipsAlike_of_stops (hblank : accepts .whitespace = true)
    (hbreak : accepts .newline = false) (hend : LineEnd index tokens tokens') :
    SkipsAlike accepts index tokens tokens' := by
  obtain ⟨later, hblanks, htrivia, hnewline, hnewline'⟩ := hend
  rename_i blanks trivia newline newline'
  have hskipped : ∀ token ∈ blanks, accepts token.kind = true := fun token hmem => by
    rw [hblanks token hmem, hblank]
  have hstops : ∀ token : Token, token.kind = .newline →
      (token :: later).takeWhile (accepts ·.kind) = [] ∧
        (token :: later).dropWhile (accepts ·.kind) = token :: later := by
    intro token hkind
    rw [List.takeWhile_cons, List.dropWhile_cons, hkind, hbreak]
    exact ⟨rfl, rfl⟩
  have hcode : Token.codeOf blanks = [] :=
    codeOf_eq_nil fun token hmem => by rw [hblanks token hmem]; rfl
  have hcode' : Token.codeOf (trivia.takeWhile (accepts ·.kind)) = [] :=
    codeOf_eq_nil fun token hmem =>
      isTrivia_of_blank_or_comment (htrivia token ((List.takeWhile_prefix _).subset hmem))
  have htaken : (trivia ++ newline' :: later).takeWhile (accepts ·.kind) =
      trivia.takeWhile (accepts ·.kind) := by
    rw [List.takeWhile_append, (hstops newline' hnewline').1, List.append_nil]
    split
    · rename_i hall
      exact ((List.takeWhile_prefix _).eq_of_length hall).symm
    · rfl
  have hleft : (trivia ++ newline' :: later).dropWhile (accepts ·.kind) =
      trivia.dropWhile (accepts ·.kind) ++ newline' :: later := by
    rw [List.dropWhile_append, (hstops newline' hnewline').2]
    split
    · rename_i hnone
      rw [List.isEmpty_iff.1 hnone, List.nil_append]
    · rfl
  unfold SkipsAlike
  rw [List.takeWhile_append_of_pos hskipped, List.dropWhile_append_of_pos hskipped,
    (hstops newline hnewline).1, (hstops newline hnewline).2, List.append_nil, htaken, hleft, hcode,
    hcode']
  refine ⟨rfl, .inr ⟨0, rfl, .lineEnd ?_⟩⟩
  exact @LineEnd.intro [] _ newline newline' later nofun
    (fun token hmem => htrivia token ((List.dropWhile_suffix _).subset hmem)) hnewline hnewline'

variable (hblank : accepts .whitespace = true)
  (hcomment : accepts .newline = true → accepts .comment = true)

include hblank hcomment

theorem skipsAlike_of_lineEnd (hend : LineEnd index tokens tokens') :
    SkipsAlike accepts index tokens tokens' := by
  cases hbreak : accepts .newline with
  | false => exact skipsAlike_of_stops hblank hbreak hend
  | true =>
    refine skipsAlike_of_accepts (fun kind htrivia => ?_) hend
    rcases isTrivia_cases htrivia with rfl | rfl | rfl
    · exact hblank
    · exact hbreak
    · exact hcomment hbreak

theorem skipsAlike_of_commented (hcommented : Commented index tokens tokens') :
    SkipsAlike accepts index tokens tokens' := by
  induction hcommented with
  | lineEnd hend => exact skipsAlike_of_lineEnd hblank hcomment hend
  | @cons inner rest rest' token hlater ih =>
    obtain ⟨hcode, hrest⟩ := ih
    unfold SkipsAlike
    rw [List.takeWhile_cons, List.takeWhile_cons, List.dropWhile_cons, List.dropWhile_cons]
    by_cases haccepted : accepts token.kind = true
    · rw [if_pos haccepted, if_pos haccepted, if_pos haccepted, if_pos haccepted]
      refine ⟨?_, hrest.imp_right fun ⟨ahead, hindex, hbehind⟩ => ⟨ahead, ?_, hbehind⟩⟩
      · rw [Token.codeOf, Token.codeOf] at hcode ⊢
        rw [List.filter_cons, List.filter_cons, hcode]
      · rw [List.length_cons]
        omega
    · rw [if_neg haccepted, if_neg haccepted, if_neg haccepted, if_neg haccepted]
      exact ⟨rfl, .inr ⟨inner + 1, (Nat.zero_add _).symm, hlater.cons token⟩⟩

/-- **Skipping tokens** of some kinds, which has to skip blanks, and comments if it goes on over
line breaks, overlooks comments. -/
theorem Overlooks.advanceWhile : OverlooksAll (advanceWhile accepts) := by
  refine ⟨.advanceWhile accepts, fun _ input input' _ index hcommented _ => ?_⟩
  obtain ⟨hcode, hrest⟩ := skipsAlike_of_commented hblank hcomment hcommented
  refine ⟨?_, ?_⟩
  · rw [trees_advanceWhile, trees_advanceWhile, Tree.codeOf_map_leaf, Tree.codeOf_map_leaf, hcode]
  · rw [Grammar.rest_advanceWhile, Grammar.rest_advanceWhile, trees_advanceWhile,
      Tree.leavesOf_map_leaf]
    exact hrest

end Skips

theorem Overlooks.skipWhitespace : OverlooksAll skipWhitespace :=
  .advanceWhile rfl fun hnewline => absurd hnewline (by decide)

end Parser

end RubyIndex.Syntax
