import RubyIndex.Proofs.Syntax.LineBreaks
import RubyIndex.Proofs.Syntax.Locality
import RubyIndex.Proofs.Syntax.Progress

/-! # Texts in a row

A text that ends with a line break outside of all constructs is complete: what comes after it is
parsed as if it stood alone. The tokens of both texts in a row, the trees below the root and the
errors are those of the first text followed by those of the second, with their places moved behind
the first.

* `Tree.endsLine` tells whether the last token below several trees is a line break among them.
* `Production.read_statements_append` is the induction on the statements of the first text.
* `parse_append`: a text is parsed line by line. -/

namespace RubyIndex.Syntax

open RubyIndex.Syntax.Parser

/-! ## Trees that end a line -/

namespace Tree

/-- Whether the last token of several trees is a line break that stands directly among them, and not
inside one of them. -/
def endsLine : List Tree → Bool
  | [] => false
  | tree :: rest =>
      if (leavesOf rest).isEmpty then tree.label == .token .newline else endsLine rest

/-- The trees behind a line break at the end of a line have no tokens. -/
theorem endsLine_iff {trees : List Tree} :
    endsLine trees = true ↔ ∃ front newline back, trees = front ++ .leaf newline :: back ∧
      newline.kind = .newline ∧ leavesOf back = [] := by
  induction trees with
  | nil => simp [endsLine]
  | cons tree rest ih =>
    rw [endsLine]
    by_cases hrest : leavesOf rest = []
    · -- the line break is the tree in front
      rw [if_pos (List.isEmpty_iff.2 hrest), beq_iff_eq]
      constructor
      · intro hlabel
        cases tree with
        | node kind children => cases hlabel
        | leaf token => exact ⟨[], token, rest, rfl, Label.token.inj hlabel, hrest⟩
      · rintro ⟨front, newline, back, hsame, hnewline, -⟩
        cases front with
        | nil =>
          obtain ⟨rfl, -⟩ := List.cons.inj hsame
          exact congrArg Label.token hnewline
        | cons head front =>
          obtain rfl : rest = front ++ .leaf newline :: back := (List.cons.inj hsame).2
          rw [leavesOf_append, List.append_eq_nil_iff] at hrest
          cases hrest.2
    · rw [if_neg (mt List.isEmpty_iff.1 hrest), ih]
      constructor
      · rintro ⟨front, newline, back, rfl, hnewline, hback⟩
        exact ⟨tree :: front, newline, back, rfl, hnewline, hback⟩
      · rintro ⟨front, newline, back, hsame, hnewline, hback⟩
        cases front with
        | nil => exact absurd ((List.cons.inj hsame).2 ▸ hback) hrest
        | cons head front => exact ⟨front, newline, back, (List.cons.inj hsame).2, hnewline, hback⟩

/-- The line ends where the trees that have the last token end it. -/
theorem endsLine_append {front back : List Tree} (hback : leavesOf back ≠ []) :
    endsLine (front ++ back) = endsLine back := by
  induction front with
  | nil => rfl
  | cons tree rest ih =>
    have hlater : (leavesOf (rest ++ back)).isEmpty = false := by
      rw [leavesOf_append, List.isEmpty_eq_false_iff]
      exact List.append_ne_nil_of_right_ne_nil _ hback
    rw [List.cons_append, endsLine, hlater, if_neg Bool.false_ne_true, ih]

/-- Trees without tokens do not count. -/
theorem endsLine_append_of_leavesOf {front back : List Tree} (hback : leavesOf back = []) :
    endsLine (front ++ back) = endsLine front := by
  induction front with
  | nil =>
    refine Bool.eq_false_iff.2 fun hline => ?_
    obtain ⟨before, newline, after, rfl, -, -⟩ := endsLine_iff.1 hline
    rw [leavesOf_append, List.append_eq_nil_iff] at hback
    cases hback.2
  | cons tree rest ih =>
    rw [List.cons_append, endsLine, endsLine, leavesOf_append, hback, List.append_nil, ih]

/-- The last token of trees that end a line is a line break. -/
theorem getLast?_leavesOf_of_endsLine {trees : List Tree} (hline : endsLine trees = true) :
    ∃ last, (leavesOf trees).getLast? = some last ∧ last.kind = .newline := by
  obtain ⟨front, newline, back, rfl, hnewline, hback⟩ := endsLine_iff.1 hline
  refine ⟨newline, ?_, hnewline⟩
  rw [leavesOf_append, leavesOf, hback, List.append_nil, leaves, List.getLast?_append,
    List.getLast?_singleton, Option.some_or]

end Tree

/-! ## Results in a row -/

namespace Parsed

theorem append_assoc (first second third : Parsed) :
    (first.append second).append third = first.append (second.append third) := by
  simp only [append, List.append_assoc]

/-- What a result left is not used where another result follows it, and without a distance its
errors stay. -/
theorem within_zero_append (later : List Token) (first second : Parsed) :
    (first.within 0 later).append second = first.append second := by
  have hstay : ∀ error : SyntaxError, error.shift 0 = error := fun error => by
    simp only [SyntaxError.shift, Nat.zero_add]
  simp only [within, append, hstay, List.map_id']

end Parsed

/-- Tokens that are taken to the end of an input are taken in front of a longer one, and then more
of them. -/
theorem Parser.advanceWhile_append {accepts : TokenKind → Bool} {input : Cursor}
    (hall : (advanceWhile accepts input).rest.tokens = []) (later : List Token) :
    advanceWhile accepts (input.within 0 later) = (advanceWhile accepts input).append
      (advanceWhile accepts ((advanceWhile accepts input).rest.within 0 later)) := by
  obtain ⟨offset, tokens⟩ := input
  replace hall : (advanceAmong accepts offset tokens).rest.tokens = [] := hall
  show advanceAmong accepts (0 + offset) (tokens ++ later) =
    (advanceAmong accepts offset tokens).append
      (advanceWhile accepts ((advanceAmong accepts offset tokens).rest.within 0 later))
  induction tokens generalizing offset with
  | nil => rfl
  | cons token rest ih =>
    rw [advanceAmong] at hall
    rw [List.cons_append, advanceAmong, advanceAmong]
    by_cases haccepted : accepts token.kind = true
    · rw [if_pos haccepted] at hall
      rw [if_pos haccepted, if_pos haccepted, Nat.add_assoc, ih _ hall]
      rfl
    · rw [if_neg haccepted] at hall
      cases hall

namespace Grammar

/-- A statement is one node. -/
theorem trees_statement (parse : Production → Parser) (input : Cursor) :
    ∃ kind children, (statement parse input).trees = [.node kind children] := by
  have hmodified : ∀ parser : Parser,
      (∃ kind children, (parser input).trees = [.node kind children]) →
      ∃ kind children, (withModifier parse parser input).trees = [.node kind children] := by
    intro parser hnode
    simp only [withModifier]
    split
    · exact ⟨_, _, rfl⟩
    · exact hnode
  unfold statement
  split
  · exact hmodified _ ⟨_, _, rfl⟩
  · exact hmodified _ ⟨_, _, rfl⟩
  · exact hmodified _ ⟨_, _, rfl⟩
  · exact hmodified _ ⟨_, _, rfl⟩
  · exact hmodified _ ⟨_, _, rfl⟩
  · exact ⟨_, _, rfl⟩
  · exact ⟨_, _, rfl⟩
  · exact ⟨_, _, rfl⟩

end Grammar

/-! ## Statements in a row -/

namespace Production

theorem beginsExpressions_read : Grammar.BeginsExpressions read := by
  intro run input kind hkind hblank hgoesOn
  rw [read_eq_layer]
  exact Grammar.beginsExpressions_layer lossless_read run input kind hkind hblank hgoesOn

/-- What stands between two statements. -/
def separators : Parser := advanceWhile (·.separatesStatements)

theorem local_separators : Local separators := .advanceWhile _

/-- The statements of a list begin with separators. -/
theorem read_statements (input : Cursor) :
    read (.statements false) input = (separators input).append
      (ifAhead (Grammar.statementsEnd false) nothing
        (Grammar.progress read ++ read (.statements false)) (separators input).rest) :=
  congrFun (read_eq_layer (.statements false)) input

/-- Where nothing comes after the separators, they are all there is. -/
theorem read_statements_of_end {input : Cursor} (hend : (separators input).rest.tokens = []) :
    read (.statements false) input = separators input := by
  have hstop : Grammar.statementsEnd false (separators input).rest = true := by
    rw [Grammar.statementsEnd, Cursor.kind?, hend]
    rfl
  rw [read_statements, ifAhead, if_pos hstop]
  simp only [nothing, Parsed.append, List.append_nil]

/-- Where something comes after the separators, it is a statement, and then more statements. -/
theorem read_statements_of_ahead {input : Cursor} {kind : TokenKind}
    (hkind : (separators input).rest.kind? = some kind) :
    read (.statements false) input =
      ((separators input).append (Grammar.statement read (separators input).rest)).append
        (read (.statements false) (Grammar.statement read (separators input).rest).rest) := by
  have hgoesOn : ¬ Grammar.statementsEnd false (separators input).rest = true := by
    rw [Grammar.statementsEnd, hkind]
    exact Bool.false_ne_true
  have hprogress := Grammar.progress_eq_statement lossless_read beginsExpressions_read hkind
    (Grammar.kind?_rest_advanceWhile hkind)
  rw [read_statements, ifAhead, if_neg hgoesOn, append_apply, hprogress, Parsed.append_assoc]

/-- What the statements of a whole text are read to has its tokens. -/
theorem leavesOf_read_statements (input : Cursor) :
    Tree.leavesOf (read (.statements false) input).trees = input.tokens := by
  have htokens := (lossless_read (.statements false) input).tokens
  rwa [read_statements_rest, List.append_nil] at htokens

/-- A statement is one node, so where a list ends with a line, it ends in the statements after the
first. -/
theorem endsLine_after_statement {input : Cursor} {kind : TokenKind}
    (hkind : (separators input).rest.kind? = some kind)
    (hline : Tree.endsLine (read (.statements false) input).trees = true) :
    (Grammar.statement read (separators input).rest).rest.tokens ≠ [] ∧
      Tree.endsLine (read (.statements false)
        (Grammar.statement read (separators input).rest).rest).trees = true := by
  set after := (separators input).rest with hafter
  set parsed := Grammar.statement read after with hparsed
  have hread : read (.statements false) input = ((separators input).append parsed).append
      (read (.statements false) parsed.rest) := read_statements_of_ahead hkind
  have hleaves := leavesOf_read_statements parsed.rest
  rw [hread, Parsed.append, Parsed.append] at hline
  by_cases hnone : parsed.rest.tokens = []
  · -- the line would end with the statement
    have hstatement : parsed.Accounts after := Grammar.satisfies_statement lossless_read after
    have hne : Tree.leavesOf parsed.trees ≠ [] := by
      intro hnil
      have htokens := hstatement.tokens
      rw [hnil, hnone] at htokens
      rw [Cursor.kind?, ← htokens] at hkind
      cases hkind
    obtain ⟨nodeKind, children, hnode⟩ := Grammar.trees_statement read after
    rw [Tree.endsLine_append_of_leavesOf (hleaves.trans hnone), Tree.endsLine_append hne, hparsed,
      hnode] at hline
    cases hline
  · refine ⟨hnone, ?_⟩
    rwa [Tree.endsLine_append] at hline
    rwa [hleaves]

/-- **Statements in a row.** If the statements of an input end with a line, those of a longer text
are these and the ones after them. -/
theorem read_statements_append {input : Cursor}
    (hline : Tree.endsLine (read (.statements false) input).trees = true) (later : List Token) :
    read (.statements false) (input.within 0 later) =
      (read (.statements false) input).append
        (read (.statements false) ((read (.statements false) input).rest.within 0 later)) := by
  induction hlength : input.tokens.length using Nat.strongRecOn generalizing input with
  | _ length ih =>
    subst hlength
    have hseparators := local_separators.lossless input
    cases hahead : (separators input).rest.kind? with
    | none =>
      -- there are separators only, and those of what comes after go on where they end
      have hend : (separators input).rest.tokens = [] := by
        rwa [Cursor.kind?, Option.map_eq_none_iff, List.head?_eq_none_iff] at hahead
      have hall : separators (input.within 0 later) = (separators input).append
          (separators ((separators input).rest.within 0 later)) := advanceWhile_append hend later
      rw [read_statements_of_end hend, read_statements (input.within 0 later), hall,
        read_statements ((separators input).rest.within 0 later), Parsed.append_assoc]
      rfl
    | some kind =>
      set after := (separators input).rest with hafter
      set parsed := Grammar.statement read after with hparsed
      have hstatement := (Grammar.local_statement local_read).lossless after
      obtain ⟨hrest, hlaterLine⟩ := endsLine_after_statement hahead hline
      -- the line break at the end is still ahead, before the statement and after it
      have hsheltered : Sheltered later parsed.rest.tokens := by
        have hlast := Tree.getLast?_leavesOf_of_endsLine hlaterLine
        rw [leavesOf_read_statements] at hlast
        exact .inr hlast
      have hshelteredAfter : Sheltered later after.tokens := hsheltered.before hstatement
      have hfront := local_separators.within 0 later input hshelteredAfter
      have hmiddle := (Grammar.local_statement local_read).within 0 later after hsheltered
      have hback := ih _ (Nat.lt_of_lt_of_le (Grammar.advances_statement lossless_read
        beginsExpressions_read hahead (Grammar.kind?_rest_advanceWhile hahead))
        hseparators.length_le) hlaterLine rfl
      have haheadWithin : (separators (input.within 0 later)).rest.kind? = some kind := by
        rw [hfront]
        exact (Stable.kind? 0 later after hshelteredAfter).trans hahead
      rw [read_statements_of_ahead haheadWithin, hfront, Parsed.rest_within, hmiddle,
        Parsed.rest_within, hback, ← Parsed.within_append, Parsed.within_zero_append,
        ← Parsed.append_assoc, read_statements_of_ahead hahead]
      rfl

end Production

/-! ## Whole texts in a row -/

/-- An entry of an outline in a text that stands at a distance from the beginning of a longer
one. -/
def OutlineEntry.shift (distance : Nat) (entry : OutlineEntry) : OutlineEntry :=
  { entry with start := distance + entry.start, stop := distance + entry.stop }

namespace Tree

mutual

/-- The outline of a tree moves with the tree. -/
theorem outlineFrom_shift (depth distance start : Nat) (tree : Tree) :
    outlineFrom depth (distance + start) tree =
      (outlineFrom depth start tree).map (·.shift distance) := by
  cases tree with
  | leaf token => simp only [outlineFrom, List.map_cons, List.map_nil, OutlineEntry.shift,
      Nat.add_assoc]
  | node kind children =>
    simp only [outlineFrom, List.map_cons, OutlineEntry.shift, Nat.add_assoc]
    rw [outlineOfFrom_shift (depth + 1) distance start children]
    rfl

/-- The outline of neighbouring trees moves with the trees. -/
theorem outlineOfFrom_shift (depth distance start : Nat) (trees : List Tree) :
    outlineOfFrom depth (distance + start) trees =
      (outlineOfFrom depth start trees).map (·.shift distance) := by
  cases trees with
  | nil => rfl
  | cons tree rest =>
    rw [outlineOfFrom, outlineOfFrom, List.map_append, Nat.add_assoc,
      outlineFrom_shift depth distance start tree,
      outlineOfFrom_shift depth distance (start + tree.width) rest]

end

/-- The outline of trees in a row. -/
theorem outlineOfFrom_append (depth start : Nat) (front back : List Tree) :
    outlineOfFrom depth start (front ++ back) =
      outlineOfFrom depth start front ++ outlineOfFrom depth (start + widthOf front) back := by
  induction front generalizing start with
  | nil => rfl
  | cons tree rest ih =>
    rw [List.cons_append, outlineOfFrom, outlineOfFrom, ih, widthOf, Nat.add_assoc,
      List.append_assoc]

end Tree

namespace Token

/-- The ranges of tokens move with the tokens. -/
theorem ranged_shift (distance start : Nat) (tokens : List Token) :
    ranged (distance + start) tokens =
      (ranged start tokens).map fun (first, last, token) =>
        (distance + first, distance + last, token) := by
  induction tokens generalizing start with
  | nil => rfl
  | cons token rest ih =>
    rw [ranged_cons, ranged_cons, List.map_cons, Nat.add_assoc, ih]

/-- The tokens of a text are as wide as the text. -/
theorem totalWidth_tokenize (source : String) :
    totalWidth (tokenize source) = source.utf8ByteSize := by
  rw [totalWidth_eq, join_text_tokenize]

end Token

/-- **Tokens in a row.** Behind tokens that are parsed to trees which end a line, tokens are parsed
as they are alone. -/
theorem parseTokens_append {front : List Token}
    (hline : Tree.endsLine (parseTokens front).trees = true) (back : List Token) :
    parseTokens (front ++ back) =
      (parseTokens front).append ((parseTokens back).within (Token.totalWidth front) []) := by
  have hleaves : Tree.leavesOf (parseTokens front).trees = front :=
    Production.leavesOf_read_statements ⟨0, front⟩
  have hnone : (parseTokens front).rest.tokens = [] :=
    Production.read_statements_rest ⟨0, front⟩
  have hoffset : (parseTokens front).rest.offset = Token.totalWidth front := by
    have haccounts := Production.lossless_read (.statements false) ⟨0, front⟩
    rw [← congrArg Token.totalWidth hleaves, ← Tree.widthOf_eq_totalWidth]
    exact haccounts.offset.trans (Nat.zero_add _)
  -- behind the first tokens stand the later ones, at the distance of their width
  have hnext : (parseTokens front).rest.within 0 back =
      Cursor.within (Token.totalWidth front) [] ⟨0, back⟩ := by
    rw [Cursor.within, Cursor.within, hnone, hoffset, Nat.zero_add, Nat.add_zero,
      List.nil_append, List.append_nil]
  have hmoved := (Production.local_read (.statements false)).within (Token.totalWidth front) []
    ⟨0, back⟩ (.inl rfl)
  have hstatements : Tree.endsLine ((Production.statements false).read ⟨0, front⟩).trees = true :=
    hline
  calc parseTokens (front ++ back)
      = (Production.statements false).read (Cursor.within 0 back ⟨0, front⟩) := rfl
    _ = (parseTokens front).append
          ((Production.statements false).read ((parseTokens front).rest.within 0 back)) :=
        Production.read_statements_append hstatements back
    _ = (parseTokens front).append ((parseTokens back).within (Token.totalWidth front) []) := by
        rw [hnext, hmoved]
        rfl

/-- **A text is parsed line by line.** If the last token of a text is a line break that stands
directly below the root, the tokens of the text and of any text after it are the tokens of both, the
trees below the root are those of both, and so are the errors, with everything in the later text
moved behind the first. -/
theorem parse_append {source : String}
    (hline : Tree.endsLine (parse source).tree.children = true) (later : String) :
    Token.ranged 0 (Token.tokenize (source ++ later)) =
      Token.ranged 0 (Token.tokenize source) ++
        (Token.ranged 0 (Token.tokenize later)).map (fun (first, last, token) =>
          (source.utf8ByteSize + first, source.utf8ByteSize + last, token)) ∧
    (parse (source ++ later)).tree =
      .node .sourceFile ((parse source).tree.children ++ (parse later).tree.children) ∧
    Tree.outlineOfFrom 1 0 (parse (source ++ later)).tree.children =
      Tree.outlineOfFrom 1 0 (parse source).tree.children ++
        (Tree.outlineOfFrom 1 0 (parse later).tree.children).map
          (·.shift source.utf8ByteSize) ∧
    (parse (source ++ later)).errors =
      (parse source).errors ++ (parse later).errors.map (·.shift source.utf8ByteSize) := by
  have hwidth := Token.totalWidth_tokenize source
  have hleaves : Tree.leavesOf (parse source).tree.children = Token.tokenize source :=
    leaves_parse source
  obtain ⟨last, hlast, hnewline⟩ := Tree.getLast?_leavesOf_of_endsLine hline
  -- no token goes on behind a line break, so the texts are cut into tokens one after the other
  have htokens : Token.tokenize (source ++ later) =
      Token.tokenize source ++ Token.tokenize later :=
    Token.tokenize_append (hleaves ▸ hlast) hnewline later
  have hrow : parseTokens (Token.tokenize (source ++ later)) =
      (parseTokens (Token.tokenize source)).append
        ((parseTokens (Token.tokenize later)).within source.utf8ByteSize []) := by
    rw [htokens, ← hwidth]
    exact parseTokens_append hline (Token.tokenize later)
  have htrees : (parse (source ++ later)).tree.children =
      (parse source).tree.children ++ (parse later).tree.children := congrArg Parsed.trees hrow
  refine ⟨?_, congrArg (Tree.node .sourceFile) htrees, ?_, congrArg Parsed.errors hrow⟩
  · rw [htokens, Token.ranged_append, Nat.zero_add, hwidth, ← Token.ranged_shift, Nat.add_zero]
  · rw [htrees, Tree.outlineOfFrom_append, Tree.widthOf_eq_totalWidth, hleaves, hwidth,
      Nat.zero_add, ← Tree.outlineOfFrom_shift, Nat.add_zero]

/-- A text that ends with a line, with an error in it, and a text with an error after it. -/
theorem parse_append_errors :
    Tree.endsLine (parse "end\n").tree.children = true ∧
    (parse "end\n").errors = [⟨.unexpected "end", 0, 3⟩] ∧
    (parse ("end\n" ++ "def x\n")).errors =
      [⟨.unexpected "end", 0, 3⟩, ⟨.missingEnd .methodDef, 10, 10⟩] := by
  have hline : Tree.endsLine (parse "end\n").tree.children = true := by decide +kernel
  have herrors := (parse_append hline "def x\n").2.2.2
  refine ⟨hline, by decide +kernel, herrors.trans ?_⟩
  decide +kernel

end RubyIndex.Syntax
