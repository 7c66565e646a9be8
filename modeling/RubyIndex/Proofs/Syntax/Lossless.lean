import RubyIndex.Proofs.Syntax.Compositional

/-! # Parsers lose nothing

A parser takes a front of its input: the leaves of what it built, followed by the tokens it left,
are the tokens it was given, and the offset has advanced by the width of what it built. This is
compositional, so it holds of every production, to whatever depth it is read.

* `Parsed.Accounts` is the relation between a result and its input.
* `Production.lossless`: no production loses, repeats or moves a token. -/

namespace RubyIndex.Syntax

open RubyIndex.Syntax.Parser

/-- **A result that accounts for its input**: its leaves and what it left are the tokens of the
input in their order, and the offset of the rest is where the leaves end. -/
structure Parsed.Accounts (parsed : Parsed) (input : Cursor) : Prop where
  tokens : Tree.leavesOf parsed.trees ++ parsed.rest.tokens = input.tokens
  offset : parsed.rest.offset = input.offset + Tree.widthOf parsed.trees

namespace Parsed.Accounts

/-- Two results in a row account for the input of the first. -/
theorem append {first second : Parsed} {input : Cursor} (hfirst : first.Accounts input)
    (hsecond : second.Accounts first.rest) : (first.append second).Accounts input := by
  constructor
  · show Tree.leavesOf (first.trees ++ second.trees) ++ second.rest.tokens = input.tokens
    rw [Tree.leavesOf_append, List.append_assoc, hsecond.tokens, hfirst.tokens]
  · show second.rest.offset = input.offset + Tree.widthOf (first.trees ++ second.trees)
    rw [Tree.widthOf_append, hsecond.offset, hfirst.offset, Nat.add_assoc]

/-- A node around a result accounts for the same input. -/
theorem wrap {parsed : Parsed} {input : Cursor} (kind : NodeKind) (h : parsed.Accounts input) :
    (parsed.wrap kind).Accounts input := by
  constructor
  · simpa [Parsed.wrap, Tree.leavesOf, Tree.leaves] using h.tokens
  · simpa [Parsed.wrap, Tree.widthOf, Tree.width] using h.offset

/-- A token in front of a result accounts for the input with that token in front. -/
theorem cons {parsed : Parsed} {offset : Nat} {rest : List Token} (token : Token)
    (h : parsed.Accounts ⟨offset + token.width, rest⟩) :
    ({ parsed with trees := .leaf token :: parsed.trees } : Parsed).Accounts
      ⟨offset, token :: rest⟩ := by
  constructor
  · simpa [Tree.leavesOf, Tree.leaves] using h.tokens
  · rw [h.offset]
    simp only [Tree.widthOf, Tree.width]
    omega

/-- What is left is never longer than the input. -/
theorem length_le {parsed : Parsed} {input : Cursor} (h : parsed.Accounts input) :
    parsed.rest.tokens.length ≤ input.tokens.length := by
  rw [← h.tokens, List.length_append]
  exact Nat.le_add_left _ _

end Parsed.Accounts

namespace Parser

/-- A parser is **lossless** if its result accounts for every input. -/
abbrev Lossless : Parser → Prop := Satisfies fun input parsed => parsed.Accounts input

instance : Sequential fun input parsed => parsed.Accounts input where
  nothing _ := ⟨rfl, rfl⟩
  report _ _ := ⟨rfl, rfl⟩
  cons token h := h.cons token
  append hfirst hsecond := hfirst.append hsecond

instance : Compositional fun input parsed => parsed.Accounts input where
  wrap _ h := h.wrap _

end Parser

/-- **No production loses a token**, to whatever depth it is read. -/
theorem Production.lossless (bound : Nat) (production : Production) :
    Lossless (Production.parser bound production) := Production.satisfies bound production

end RubyIndex.Syntax
