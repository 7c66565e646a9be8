import RubyIndex.Proofs.Syntax.Recursion
import RubyIndex.Text.Width

/-! # The syntax tree covers the text

The leaves of a syntax tree are the tokens of the text, and the byte ranges that the outline gives
them lie side by side from the beginning of the text to its end.

* `Tree.filterMap_leaf?_outlineFrom`: the ranges in an outline are those of the tokens in a row.
* `tiles_ranges`: tokens in a row lie side by side.
* `parse_covers`: a text is parsed to one tree with exactly its tokens. -/

namespace RubyIndex.Syntax

/-! ## Tokens in a row -/

namespace Token

/-- No token is empty. -/
theorem text_ne_empty_of_mem_ofChars {text : List Char} {token : Token}
    (hmem : token ∈ ofChars text) : token.text ≠ "" := by
  fun_induction ofChars text with
  | case1 => exact absurd hmem List.not_mem_nil
  | case2 first rest lexeme ih =>
    rcases List.mem_cons.1 hmem with rfl | hlater
    · simp
    · exact ih hlater

theorem width_pos_of_mem_tokenize {source : String} {token : Token}
    (hmem : token ∈ tokenize source) : 0 < token.width := by
  have hne : token.text ≠ "" := text_ne_empty_of_mem_ofChars hmem
  -- widths are counted in bytes, and a text of no bytes is empty
  refine Nat.pos_of_ne_zero fun hzero => hne ?_
  exact String.utf8ByteSize_eq_zero_iff.1 hzero

/-- The texts of the tokens of a text, joined, are the text. -/
theorem join_text_tokenize (source : String) :
    String.join ((tokenize source).map (·.text)) = source := by
  apply String.toList_injective
  rw [String.toList_join, List.flatMap_map]
  exact flatMap_text_ofChars source.toList

/-- The texts of tokens in a row are joined one row after the other. -/
theorem join_text_append (front back : List Token) :
    String.join ((front ++ back).map (·.text)) =
      String.join (front.map (·.text)) ++ String.join (back.map (·.text)) := by
  apply String.toList_injective
  simp only [String.toList_join, String.toList_append, List.map_append, List.flatMap_append]

/-- The widths of tokens add up to the size of their joined texts. -/
theorem totalWidth_eq (tokens : List Token) :
    totalWidth tokens = (String.join (tokens.map (·.text))).utf8ByteSize := by
  induction tokens with
  | nil => simp [totalWidth]
  | cons token rest ih =>
    rw [totalWidth, ih, List.map_cons, String.join_cons, String.utf8ByteSize_append]
    rfl

/-- The tokens of a list with the byte ranges they have when they stand in a row. -/
def ranged (start : Nat) (tokens : List Token) : List (Nat × Nat × Token) :=
  (positioned start tokens).map fun (offset, token) => (offset, offset + token.width, token)

@[simp] theorem ranged_nil (start : Nat) : ranged start [] = [] := rfl

@[simp] theorem ranged_cons (start : Nat) (token : Token) (rest : List Token) :
    ranged start (token :: rest) =
      (start, start + token.width, token) :: ranged (start + token.width) rest := rfl

theorem ranged_append (start : Nat) (front back : List Token) :
    ranged start (front ++ back) =
      ranged start front ++ ranged (start + totalWidth front) back := by
  induction front generalizing start with
  | nil => simp [totalWidth]
  | cons token rest ih =>
    rw [List.cons_append, ranged_cons, ranged_cons, ih, totalWidth, Nat.add_assoc,
      List.cons_append]

end Token

/-- Ranges that **tile** the offsets from `start` to `stop`: none is empty, each begins where the
one before it ends, and the last one ends at `stop`. -/
def Tiles (start stop : Nat) : List (Nat × Nat) → Prop
  | [] => start = stop
  | (first, last) :: rest => first = start ∧ first < last ∧ Tiles last stop rest

/-- Tokens in a row tile the offsets that they take up. -/
theorem tiles_ranges {tokens : List Token} (start : Nat)
    (hpos : ∀ token ∈ tokens, 0 < token.width) :
    Tiles start (start + Token.totalWidth tokens)
      ((Token.ranged start tokens).map fun (first, last, _) => (first, last)) := by
  induction tokens generalizing start with
  | nil => exact rfl
  | cons token rest ih =>
    have htoken := hpos token List.mem_cons_self
    have hrest := ih (start + token.width) fun later hlater =>
      hpos later (List.mem_cons_of_mem _ hlater)
    rw [Token.ranged_cons, List.map_cons, Token.totalWidth, ← Nat.add_assoc]
    exact ⟨rfl, Nat.lt_add_of_pos_right htoken, hrest⟩

/-! ## Tokens in an outline -/

/-- The token of an outline entry with its range, if the entry is that of a token. -/
def OutlineEntry.leaf? (entry : OutlineEntry) : Option (Nat × Nat × Token) :=
  match entry.label, entry.text with
  | .token kind, some text => some (entry.start, entry.stop, ⟨kind, text⟩)
  | _, _ => none

namespace Tree

mutual

/-- The tokens in the outline of a tree are its leaves, one after the other. -/
theorem filterMap_leaf?_outlineFrom (depth start : Nat) (tree : Tree) :
    (outlineFrom depth start tree).filterMap OutlineEntry.leaf? =
      Token.ranged start tree.leaves := by
  cases tree with
  | leaf token => rfl
  | node kind children =>
    -- the entry of the node itself has no text
    rw [outlineFrom, List.filterMap_cons_none rfl, leaves]
    exact filterMap_leaf?_outlineOfFrom (depth + 1) start children

/-- The tokens in the outline of neighbouring trees are their leaves, one after the other. -/
theorem filterMap_leaf?_outlineOfFrom (depth start : Nat) (trees : List Tree) :
    (outlineOfFrom depth start trees).filterMap OutlineEntry.leaf? =
      Token.ranged start (leavesOf trees) := by
  cases trees with
  | nil => rfl
  | cons tree rest =>
    rw [outlineOfFrom, List.filterMap_append, leavesOf, Token.ranged_append,
      filterMap_leaf?_outlineFrom depth start tree,
      filterMap_leaf?_outlineOfFrom depth (start + tree.width) rest, width_eq_totalWidth]

end

end Tree

/-! ## Whole texts -/

/-- The leaves of a syntax tree are the tokens of the text. -/
theorem leaves_parse (source : String) : (parse source).tree.leaves = Token.tokenize source := by
  have haccounts := Production.lossless_read (.statements false) ⟨0, Token.tokenize source⟩
  have hrest := Production.read_statements_rest ⟨0, Token.tokenize source⟩
  have htokens := haccounts.tokens
  rw [hrest, List.append_nil] at htokens
  exact htokens

/-- **A text is parsed to one tree with exactly its tokens.** The tree is a `sourceFile` node; its
leaves are the tokens of the text in their order; the outline gives each of them its place in the
text, and these places tile the text; the leaf texts joined are the text. The parser ends by itself:
reading to a greater depth than it is given makes no difference. -/
theorem parse_covers (source : String) :
    (∃ children, (parse source).tree = .node .sourceFile children) ∧
    (parse source).tree.leaves = Token.tokenize source ∧
    (parse source).tree.outline.filterMap OutlineEntry.leaf? =
      Token.ranged 0 (Token.tokenize source) ∧
    Tiles 0 source.utf8ByteSize
      (((parse source).tree.outline.filterMap OutlineEntry.leaf?).map
        fun (first, last, _) => (first, last)) ∧
    (parse source).tree.text = source ∧
    ∀ depth, Production.bound (Token.tokenize source).length ≤ depth →
      Production.parser depth (.statements false) ⟨0, Token.tokenize source⟩ =
        parseTokens (Token.tokenize source) := by
  have hleaves := leaves_parse source
  have houtline : (parse source).tree.outline.filterMap OutlineEntry.leaf? =
      Token.ranged 0 (Token.tokenize source) := by
    rw [← hleaves]
    exact Tree.filterMap_leaf?_outlineFrom 0 0 _
  have htext : (parse source).tree.text = source := by
    rw [Tree.text, hleaves, Token.join_text_tokenize]
  refine ⟨⟨_, rfl⟩, hleaves, houtline, ?_, htext, ?_⟩
  · have htiles := tiles_ranges 0 fun token (hmem : token ∈ Token.tokenize source) =>
      Token.width_pos_of_mem_tokenize hmem
    rwa [Nat.zero_add, Token.totalWidth_eq, Token.join_text_tokenize, ← houtline] at htiles
  · intro depth hdepth
    exact Production.parser_eq_read (.statements false) ⟨0, Token.tokenize source⟩ hdepth

end RubyIndex.Syntax
