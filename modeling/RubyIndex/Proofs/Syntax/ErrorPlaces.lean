import RubyIndex.Proofs.Syntax.Tiling

/-! # Where syntax errors point

An error is noted about the token that is next when it is noted, or about the end of the text if no
token is left. Tokens are never put back, so errors that are noted later point further on. Both are
sequential, so they hold of every production: what a result of a parser has to say about its errors
is kept by a token in front of it and by another result behind it.

* `SyntaxError.PointsInto` is what an error points at.
* `Parsed.Places` is the relation between the errors of a result and its input.
* `parse_places_errors` says where the errors of a text point, and in which order. -/

namespace RubyIndex.Syntax

open RubyIndex.Syntax.Parser

/-! ## Places in an input -/

/-- The byte offset behind the last token of an input. -/
def Cursor.stop (input : Cursor) : Nat := input.offset + Token.totalWidth input.tokens

/-- **What an error points at**: one token of the input, from its first byte to its last, or the
place behind all tokens. -/
def SyntaxError.PointsInto (error : SyntaxError) (input : Cursor) : Prop :=
  (∃ token, (error.start, error.stop, token) ∈ Token.ranged input.offset input.tokens) ∨
    (error.start = input.stop ∧ error.stop = input.stop)

/-- An error about what is next points at it. -/
theorem Cursor.pointsInto_error (fault : SyntaxFault) (input : Cursor) :
    (input.error fault).PointsInto input := by
  obtain ⟨offset, tokens⟩ := input
  cases tokens with
  | nil => exact .inr ⟨rfl, rfl⟩
  | cons token rest => exact .inl ⟨token, List.mem_cons_self⟩

theorem Cursor.start_error (fault : SyntaxFault) (input : Cursor) :
    (input.error fault).start = input.offset := by
  obtain ⟨offset, tokens⟩ := input
  cases tokens with
  | nil => rfl
  | cons token rest => rfl

namespace Parsed.Accounts

variable {parsed : Parsed} {input : Cursor}

/-- What is left of an input ends where the input does. -/
theorem stop_rest (haccounts : parsed.Accounts input) : parsed.rest.stop = input.stop := by
  rw [Cursor.stop, Cursor.stop, haccounts.offset, Tree.widthOf_eq_totalWidth, ← haccounts.tokens,
    Token.totalWidth_append, Nat.add_assoc]

/-- The tokens that are left of an input have the ranges that they have in the input. -/
theorem mem_ranged (haccounts : parsed.Accounts input) {entry : Nat × Nat × Token}
    (hmem : entry ∈ Token.ranged parsed.rest.offset parsed.rest.tokens) :
    entry ∈ Token.ranged input.offset input.tokens := by
  rw [haccounts.offset, Tree.widthOf_eq_totalWidth] at hmem
  rw [← haccounts.tokens, Token.ranged_append]
  exact List.mem_append_right _ hmem

/-- What points into the rest of an input points into the input. -/
theorem pointsInto (haccounts : parsed.Accounts input) {error : SyntaxError}
    (hpoints : error.PointsInto parsed.rest) : error.PointsInto input := by
  rcases hpoints with ⟨token, hmem⟩ | ⟨hstart, hstop⟩
  · exact .inl ⟨token, haccounts.mem_ranged hmem⟩
  · rw [haccounts.stop_rest] at hstart hstop
    exact .inr ⟨hstart, hstop⟩

theorem offset_le (haccounts : parsed.Accounts input) : input.offset ≤ parsed.rest.offset := by
  rw [haccounts.offset]
  exact Nat.le_add_right _ _

end Parsed.Accounts

/-! ## Errors of results -/

/-- **A result that places its errors**: they come in the order of the offsets that they point at,
which lie between the beginning of the input and that of the rest, and each of them points into the
input. -/
structure Parsed.Places (parsed : Parsed) (input : Cursor) : Prop extends
    parsed.Accounts input where
  ordered : parsed.errors.Pairwise fun first second => first.start ≤ second.start
  placed : ∀ error ∈ parsed.errors, error.PointsInto input ∧ input.offset ≤ error.start ∧
    error.start ≤ parsed.rest.offset

namespace Parsed.Places

/-- Of two results in a row, the second has its errors behind those of the first. -/
theorem append {first second : Parsed} {input : Cursor} (hfirst : first.Places input)
    (hsecond : second.Places first.rest) : (first.append second).Places input where
  toAccounts := hfirst.toAccounts.append hsecond.toAccounts
  ordered := by
    refine List.pairwise_append.2 ⟨hfirst.ordered, hsecond.ordered, ?_⟩
    intro error herror later hlater
    -- where the first result stops, the second begins
    exact Nat.le_trans (hfirst.placed error herror).2.2 (hsecond.placed later hlater).2.1
  placed := by
    intro error herror
    rcases List.mem_append.1 herror with hmem | hmem
    · obtain ⟨hpoints, hbegins, hends⟩ := hfirst.placed error hmem
      exact ⟨hpoints, hbegins, Nat.le_trans hends hsecond.offset_le⟩
    · obtain ⟨hpoints, hbegins, hends⟩ := hsecond.placed error hmem
      exact ⟨hfirst.pointsInto hpoints, Nat.le_trans hfirst.offset_le hbegins, hends⟩

/-- A result without errors has nothing to place. -/
theorem ofNoErrors {parsed : Parsed} {input : Cursor} (haccounts : parsed.Accounts input)
    (hnone : parsed.errors = []) : parsed.Places input := by
  refine ⟨haccounts, ?_, ?_⟩
  · rw [hnone]
    exact List.Pairwise.nil
  · rw [hnone]
    exact fun error herror => absurd herror List.not_mem_nil

end Parsed.Places

/-! ## Errors of parsers -/

namespace Parser

instance : Sequential fun input parsed => parsed.Places input where
  nothing _ := .ofNoErrors ⟨rfl, rfl⟩ rfl
  report fault input := by
    refine ⟨⟨rfl, rfl⟩, List.pairwise_singleton _ _, fun error herror => ?_⟩
    obtain rfl := List.mem_singleton.1 herror
    have hstart := input.start_error fault
    exact ⟨input.pointsInto_error fault, Nat.le_of_eq hstart.symm, Nat.le_of_eq hstart⟩
  cons {offset rest parsed} token h := by
    -- a token in front is a result of its own that notes nothing
    have haccounts : Satisfies (fun input parsed => parsed.Accounts input) advance := .advance
    have htoken : (advance ⟨offset, token :: rest⟩).Places ⟨offset, token :: rest⟩ :=
      .ofNoErrors (haccounts _) rfl
    exact htoken.append h
  append hfirst hsecond := hfirst.append hsecond

instance : Compositional fun input parsed => parsed.Places input where
  wrap _ h := ⟨h.toAccounts.wrap _, h.ordered, h.placed⟩

end Parser

/-- **Every production places its errors**, to whatever depth it is read. -/
theorem Production.places (bound : Nat) (production : Production) :
    Satisfies (fun input parsed => parsed.Places input) (Production.parser bound production) :=
  Production.satisfies bound production

/-! ## Whole texts -/

/-- **Errors point at tokens, from left to right.** The errors of a text come in the order of the
offsets at which they begin. The range of each is that of one token of the text, or else it is the
empty range at the end of the text. -/
theorem parse_places_errors (source : String) :
    (parse source).errors.Pairwise (fun first second => first.start ≤ second.start) ∧
    ∀ error ∈ (parse source).errors,
      (∃ token, (error.start, error.stop, token) ∈ Token.ranged 0 (Token.tokenize source)) ∨
        (error.start = source.utf8ByteSize ∧ error.stop = source.utf8ByteSize) := by
  set tokens := Token.tokenize source with htokens
  have hplaces : (parseTokens tokens).Places ⟨0, tokens⟩ :=
    Production.places (Production.bound tokens.length) (.statements false) ⟨0, tokens⟩
  have hstop : (⟨0, tokens⟩ : Cursor).stop = source.utf8ByteSize := by
    rw [Cursor.stop, Nat.zero_add, Token.totalWidth_eq, htokens, Token.join_text_tokenize]
  refine ⟨hplaces.ordered, fun error herror => ?_⟩
  have hpoints := (hplaces.placed error herror).1
  rwa [SyntaxError.PointsInto, hstop] at hpoints

/-- An unclosed class whose method has no name: the first error is about the line break behind the
`def`, the others are about the end of the text. -/
example : ((parse "class A\ndef\n").errors.map fun error => (error.start, error.stop)) =
    [(11, 12), (12, 12), (12, 12)] := by decide +kernel

end RubyIndex.Syntax
