import RubyIndex.Proofs.Syntax.GreedyTokens
import RubyIndex.Proofs.Syntax.Tiling

/-! # Comments at the end of a line

A comment that is put at the end of a line, with a blank before it, becomes a token of its own. The
tokens of the line stay the same, except that blanks at its end join the blank before the comment,
and so do the tokens behind the line break. The line must not end with a comment already, and its
line break must be a token, so that no literal is open at the end of the line.

* `Token.LineEnd` relates the ends of the line, and `Token.Commented` the texts.
* `LexicalRule.cases_of_mem` tells which rules may match a blank or a backslash, and
  `LexicalRule.cases_of_blank` what those that match a blank have matched before it.
* `getLast?_ne_backslash`: a line that ends with code does not end with a backslash.
* `Token.commented_tokenize` is the result for texts. -/

namespace RubyIndex.Syntax

open Pattern

/-! ## The relation between the tokens -/

namespace Token

/-- **The end of a line** with and without a comment. Up to the line break the one has blanks, of
the given number, and the other has blanks and comments. What comes after it is the same. -/
inductive LineEnd : Nat → List Token → List Token → Prop
  | intro {blanks trivia : List Token} {newline newline' : Token} (later : List Token)
      (hblanks : ∀ token ∈ blanks, token.kind = .whitespace)
      (htrivia : ∀ token ∈ trivia, token.kind = .whitespace ∨ token.kind = .comment)
      (hnewline : newline.kind = .newline) (hnewline' : newline'.kind = .newline) :
      LineEnd blanks.length (blanks ++ newline :: later) (trivia ++ newline' :: later)

/-- **Tokens with a comment added**: the same tokens up to the end of a line, the line break of
which has the given index in the first list. -/
inductive Commented : Nat → List Token → List Token → Prop
  | lineEnd {index : Nat} {tokens tokens' : List Token} (hend : LineEnd index tokens tokens') :
      Commented index tokens tokens'
  | cons {index : Nat} {tokens tokens' : List Token} (token : Token)
      (hlater : Commented index tokens tokens') :
      Commented (index + 1) (token :: tokens) (token :: tokens')

end Token

/-! ## Tokens that their first character decides -/

/-- The lexeme where only one rule matches texts with the first character. -/
theorem lexemeAt_of_only {rule : LexicalRule} {first : Char} {taken rest : List Char}
    (honly : lexicalRules.filter (·.pattern.mayBegin first) = [rule])
    (hmatches : rule.pattern.Matches (first :: taken))
    (hends : ∀ next more, next :: more <+: rest →
      ¬ rule.pattern.Matches (first :: taken ++ next :: more)) :
    lexemeAt first (taken ++ rest) = ⟨rule.kind, taken.length⟩ := by
  have hrule : rule ∈ lexicalRules :=
    List.mem_of_mem_filter (honly ▸ List.mem_singleton_self rule)
  have haccepts : rule.Accepts (first :: (taken ++ rest)) (taken.length + 1) := by
    refine ⟨Nat.succ_pos _, ?_, ?_⟩
    · rw [List.length_cons, List.length_append]
      omega
    · rwa [List.take_succ_cons, List.take_left]
  obtain ⟨winner, hwinner, hfound⟩ := haccepts.exists_winner hrule
  obtain ⟨hkind, hle, hlongest⟩ := LexicalRule.matches_of_lexeme? hfound
  have hlisted : winner ∈ lexicalRules.filter (·.pattern.mayBegin first) :=
    List.mem_filter.2 ⟨hwinner, hlongest.mayBegin⟩
  rw [honly] at hlisted
  obtain rfl := List.mem_singleton.1 hlisted
  have hreaches := haccepts.le_lexemeAt hrule
  set lexeme := lexemeAt first (taken ++ rest) with hlexeme
  obtain ⟨kind, extra⟩ := lexeme
  obtain rfl : winner.kind = kind := hkind
  refine congrArg (Lexeme.mk winner.kind) ?_
  -- what the rule took beyond the given text would begin with what it must not begin with
  have htake : (taken ++ rest).take extra = taken ++ rest.take (extra - taken.length) := by
    rw [List.take_append, List.take_of_length_le (by simpa using hreaches)]
  dsimp only at hlongest hle hreaches
  rw [htake] at hlongest
  cases hmore : rest.take (extra - taken.length) with
  | cons next more =>
    rw [hmore] at hlongest
    exact absurd hlongest (hends next more (hmore ▸ List.take_prefix _ _))
  | nil =>
    rcases List.take_eq_nil_iff.1 hmore with hzero | rfl
    · omega
    · rw [List.append_nil] at hle
      omega

namespace Token

/-- The token at the front of a text where only one rule matches texts with its first
character. -/
theorem ofChars_of_only {rule : LexicalRule} {first : Char} {taken rest : List Char}
    (honly : lexicalRules.filter (·.pattern.mayBegin first) = [rule])
    (hmatches : rule.pattern.Matches (first :: taken))
    (hends : ∀ next more, next :: more <+: rest →
      ¬ rule.pattern.Matches (first :: taken ++ next :: more)) :
    ofChars (first :: taken ++ rest) =
      ⟨rule.kind, String.ofList (first :: taken)⟩ :: ofChars rest := by
  rw [List.cons_append, ofChars, lexemeAt_of_only honly hmatches hends, List.take_left,
    List.drop_left]

/-- The rule for blanks within a line. -/
def blankRule : LexicalRule := ⟨.whitespace, atLeastOne (.one isIndent)⟩

/-- The only rule for texts that begin with a blank. -/
theorem filter_mayBegin_blank {blank : Char} (hblank : isIndent blank = true) :
    lexicalRules.filter (·.pattern.mayBegin blank) = [blankRule] := by
  have hcases : blank = ' ' ∨ blank = '\t' := by simpa [isIndent] using hblank
  rcases hcases with rfl | rfl <;> rfl

/-- Blanks in a row are what the rule for blanks matches. -/
theorem matches_blankRule {blank : Char} {blanks : List Char}
    (hblanks : (blank :: blanks).all isIndent = true) :
    blankRule.pattern.Matches (blank :: blanks) := by
  rw [List.all_cons, Bool.and_eq_true] at hblanks
  refine matches_sequence_iff.2 ⟨[blank], blanks, rfl, .one hblanks.1, ?_⟩
  have hrest := hblanks.2
  clear hblanks
  induction blanks with
  | nil => exact .manyNone
  | cons next rest ih =>
    rw [List.all_cons, Bool.and_eq_true] at hrest
    exact matches_many_cons_iff.2 ⟨[], rest, rfl, .one hrest.1, ih hrest.2⟩

/-- The rule for blanks matches blanks only. -/
theorem all_isIndent_of_matches {text : List Char} (hmatches : blankRule.pattern.Matches text) :
    text.all isIndent = true :=
  hmatches.all_of_within ⟨fun _ => id, fun _ => id⟩

/-- **Blanks in a row** are one token. -/
theorem ofChars_blanks {blank : Char} {blanks rest : List Char}
    (hblanks : (blank :: blanks).all isIndent = true)
    (hrest : ∀ next more, rest = next :: more → isIndent next = false) :
    ofChars (blank :: blanks ++ rest) =
      ⟨.whitespace, String.ofList (blank :: blanks)⟩ :: ofChars rest := by
  have hblank : isIndent blank = true := by
    rw [List.all_cons, Bool.and_eq_true] at hblanks
    exact hblanks.1
  refine ofChars_of_only (filter_mayBegin_blank hblank) (matches_blankRule hblanks) ?_
  rintro next more ⟨tail, rfl⟩ hlonger
  have hall := all_isIndent_of_matches hlonger
  have hnext : isIndent next = true := List.all_eq_true.1 hall next (by simp)
  rw [hrest next _ rfl] at hnext
  cases hnext

/-- What the rule for comments matches. -/
theorem matches_commentRule_iff {text : List Char} :
    commentRule.pattern.Matches ('#' :: text) ↔ '\n' ∉ text := by
  constructor
  · intro hmatches hmem
    obtain ⟨front, back, hsplit, hfront, hback⟩ := matches_sequence_iff.1 hmatches
    obtain ⟨mark, -, rfl⟩ := matches_one_iff.1 hfront
    obtain ⟨-, rfl⟩ := List.cons.inj hsplit
    exact absurd hmem (hback.not_mem (by decide))
  · intro hline
    refine matches_sequence_iff.2 ⟨['#'], text, rfl, .one rfl, ?_⟩
    induction text with
    | nil => exact .manyNone
    | cons next rest ih =>
      rw [List.mem_cons, not_or] at hline
      have hnext : (next != '\n') = true := by simpa using Ne.symm hline.1
      exact matches_many_cons_iff.2 ⟨[], rest, rfl, .one hnext, ih hline.2⟩

/-- **A comment** goes up to the next line break. -/
theorem ofChars_comment {comment rest : List Char} (hline : '\n' ∉ comment)
    (hrest : ∀ next more, rest = next :: more → next = '\n') :
    ofChars ('#' :: comment ++ rest) =
      ⟨.comment, String.ofList ('#' :: comment)⟩ :: ofChars rest := by
  have honly : lexicalRules.filter (·.pattern.mayBegin '#') = [commentRule] := rfl
  refine ofChars_of_only honly (matches_commentRule_iff.2 hline) ?_
  rintro next more ⟨tail, rfl⟩ hlonger
  obtain rfl := hrest next (more ++ tail) rfl
  rw [List.cons_append, matches_commentRule_iff] at hlonger
  exact hlonger (List.mem_append_right _ List.mem_cons_self)

/-- The rule for line breaks. -/
def newlineRule : LexicalRule := ⟨.newline, inOrder [.optional (char '\r'), char '\n']⟩

/-- **A line feed** is a token of its own. -/
theorem ofChars_lineFeed (rest : List Char) :
    ofChars ('\n' :: rest) = ⟨.newline, "\n"⟩ :: ofChars rest := by
  have honly : lexicalRules.filter (·.pattern.mayBegin '\n') = [newlineRule] := rfl
  have hfeed : newlineRule.pattern.Matches ['\n'] :=
    matches_sequence_iff.2 ⟨[], ['\n'], rfl, .right .empty, .one rfl⟩
  refine ofChars_of_only honly hfeed ?_
  intro next more _ hlonger
  have hsplit : [] ++ '\n' :: next :: more = ['\n'] ++ next :: more := rfl
  exact absurd (hlonger.eq_nil_of_avoidsBeforeEnd (by decide) hsplit) (List.cons_ne_nil next more)

/-- A line break ends with its only line feed. -/
theorem exists_lineFeed {newline : Token} (hlexed : newline.Lexed)
    (hnewline : newline.kind = .newline) :
    ∃ ending, newline.text.toList = ending ++ ['\n'] ∧ '\n' ∉ ending := by
  rcases hlexed.newline hnewline with hfeed | hreturn
  · exact ⟨[], hfeed, List.not_mem_nil⟩
  · exact ⟨['\r'], hreturn, by decide⟩

/-- **A comment behind blanks**, up to a line break. -/
theorem lineEnd_ofChars {blank : Char} {blanks comment : List Char} {newline : Token}
    {before back : List Token} (hblanks : (blank :: blanks).all isIndent = true)
    (hbefore : ∀ token ∈ before, token.kind = .whitespace)
    (hline : '\n' ∉ comment) (hlexed : newline.Lexed) (hnewline : newline.kind = .newline)
    (hback : ofChars (charsOf back) = back) :
    LineEnd before.length (before ++ newline :: back)
      (ofChars (blank :: blanks ++ '#' :: comment ++ charsOf (newline :: back))) := by
  -- a carriage return before the line feed becomes part of the comment
  obtain ⟨ending, htext, hending⟩ := exists_lineFeed hlexed hnewline
  have hchars : blank :: blanks ++ '#' :: comment ++ charsOf (newline :: back) =
      blank :: blanks ++ ('#' :: (comment ++ ending) ++ '\n' :: charsOf back) := by
    rw [charsOf, List.flatMap_cons, htext]
    simp [charsOf]
  have hwhole : '\n' ∉ comment ++ ending := by simp [hline, hending]
  have hmark : ∀ next more, '#' :: (comment ++ ending) ++ '\n' :: charsOf back = next :: more →
      isIndent next = false := by
    intro next more hsame
    obtain ⟨rfl, -⟩ := List.cons.inj hsame
    rfl
  have hfeed : ∀ next more, '\n' :: charsOf back = next :: more → next = '\n' :=
    fun _ _ hsame => (List.cons.inj hsame).1.symm
  rw [hchars, ofChars_blanks hblanks hmark, ofChars_comment hwhole hfeed, ofChars_lineFeed, hback]
  refine @LineEnd.intro before [⟨.whitespace, _⟩, ⟨.comment, _⟩] newline ⟨.newline, "\n"⟩ back
    hbefore ?_ hnewline rfl
  simp

end Token

/-! ## What goes on with a blank -/

namespace Pattern

/-- A literal that is not closed can be cut off before a blank. -/
theorem matches_unclosedPattern_of_blank {opening : String} {quote : Char}
    {front back : List Char} (hopening : ' ' ∉ opening.toList)
    (hmatches : (unclosedPattern opening quote).Matches (front ++ ' ' :: back))
    (hlast : front.getLast? ≠ some '\\') : (unclosedPattern opening quote).Matches front := by
  obtain ⟨before, items, hsame, hbefore, hitems⟩ := matches_sequence_iff.1 hmatches
  have hliteral := matches_chars_iff.1 hbefore
  obtain ⟨middle, rfl, rfl⟩ := exists_of_append_cons_eq hsame (hliteral ▸ hopening)
  refine .sequence hbefore (matches_many_quotedItem_of_append hitems fun hbackslash => hlast ?_)
  rw [List.getLast?_append, hbackslash, Option.some_or]

/-- A closed literal that is cut off before a blank is not closed. -/
theorem matches_quotedPattern_of_blank {opening : String} {quote : Char}
    {front back : List Char} (hopening : ' ' ∉ opening.toList) (hquote : quote ≠ ' ')
    (hmatches : (quotedPattern opening quote).Matches (front ++ ' ' :: back))
    (hlast : front.getLast? ≠ some '\\') : (unclosedPattern opening quote).Matches front := by
  obtain ⟨inner, hunclosed⟩ := exists_unclosed_of_quotedPattern hquote hmatches
  exact matches_unclosedPattern_of_blank hopening hunclosed hlast

/-- A literal that is not closed goes on with any character but a backslash and its quote. -/
theorem matches_unclosedPattern_append {opening : String} {quote next : Char} {text : List Char}
    (hmatches : (unclosedPattern opening quote).Matches text) (hquote : next ≠ quote)
    (hbackslash : next ≠ '\\') : (unclosedPattern opening quote).Matches (text ++ [next]) := by
  obtain ⟨before, items, rfl, hbefore, hitems⟩ := matches_sequence_iff.1 hmatches
  rw [List.append_assoc]
  refine .sequence hbefore (matches_many_append hitems ?_)
  exact matches_quotedItem_iff.2 (.inl ⟨next, hquote, hbackslash, rfl⟩)

/-- The last character of a text that has to end with it. -/
theorem getLast?_of_matches {first second : Pattern} {last : Char} {text : List Char}
    (hmatches : (inOrder [first, second, char last]).Matches text) :
    text.getLast? = some last := by
  obtain ⟨front, back, rfl, -, hback⟩ := matches_sequence_iff.1 hmatches
  obtain ⟨middle, ending, rfl, -, hending⟩ := matches_sequence_iff.1 hback
  obtain ⟨found, hfound, rfl⟩ := matches_one_iff.1 hending
  obtain rfl : found = last := by simpa using hfound
  rw [← List.append_assoc, List.getLast?_concat]

end Pattern

/-- The rule for a backslash that joins two lines. -/
def joinRule : LexicalRule := ⟨.whitespace, inOrder [char '\\', .optional (char '\r'), char '\n']⟩

/-- The rules for quoted literals, closed and not. -/
def literalRules : List LexicalRule :=
  (quotedForms.map fun form =>
    ⟨if form.1 = ":\"" then .symbol else .string, quotedPattern form.1 form.2⟩) ++ unclosedShapes

/-- **Few rules match** some characters: one of their own, the one for comments, and those for
quoted literals. -/
theorem LexicalRule.cases_of_mem {character : Char} {other : LexicalRule}
    (honly : lexicalRules.filter (!·.pattern.avoids character) =
      other :: commentRule :: literalRules)
    {rule : LexicalRule} (hrule : rule ∈ lexicalRules) {text : List Char}
    (hmatches : rule.pattern.Matches text) (hmem : character ∈ text) :
    rule = other ∨ rule = commentRule ∨ ∃ form ∈ quotedForms,
      rule.pattern = quotedPattern form.1 form.2 ∨
        rule.pattern = unclosedPattern form.1 form.2 := by
  have hlisted : rule ∈ lexicalRules.filter (!·.pattern.avoids character) := by
    refine List.mem_filter.2 ⟨hrule, ?_⟩
    cases havoids : rule.pattern.avoids character with
    | false => rfl
    | true => exact absurd hmem (hmatches.not_mem havoids)
  rw [honly, List.mem_cons, List.mem_cons, literalRules, List.mem_append, List.mem_map] at hlisted
  rcases hlisted with hother | hcomment | ⟨form, hform, rfl⟩ | hunclosed
  · exact .inl hother
  · exact .inr (.inl hcomment)
  · exact .inr (.inr ⟨form, hform, .inl rfl⟩)
  · obtain ⟨form, hform, rfl⟩ := mem_unclosedShapes_iff.1 hunclosed
    exact .inr (.inr ⟨form, hform, .inr rfl⟩)

/-- **A rule that goes on with a blank** is one for blanks or comments, or one for quoted literals,
where what it has matched up to the blank is a literal that is not closed. -/
theorem LexicalRule.cases_of_blank {rule : LexicalRule} (hrule : rule ∈ lexicalRules)
    {front back : List Char} (hmatches : rule.pattern.Matches (front ++ ' ' :: back))
    (hlast : front.getLast? ≠ some '\\') :
    rule = Token.blankRule ∨ rule = commentRule ∨
      ∃ form ∈ quotedForms, (unclosedPattern form.1 form.2).Matches front := by
  have honly : lexicalRules.filter (!·.pattern.avoids ' ') =
      Token.blankRule :: commentRule :: literalRules := rfl
  have hforms : ∀ form ∈ quotedForms, ' ' ∉ form.1.toList ∧ form.2 ≠ ' ' := by decide
  rcases LexicalRule.cases_of_mem honly hrule hmatches (by simp) with
    hblank | hcomment | ⟨form, hform, hquoted | hopen⟩
  · exact .inl hblank
  · exact .inr (.inl hcomment)
  · rw [hquoted] at hmatches
    obtain ⟨hopening, hquote⟩ := hforms form hform
    exact .inr (.inr ⟨form, hform,
      matches_quotedPattern_of_blank hopening hquote hmatches hlast⟩)
  · rw [hopen] at hmatches
    exact .inr (.inr ⟨form, hform,
      matches_unclosedPattern_of_blank (hforms form hform).1 hmatches hlast⟩)

namespace Token

/-- What a line break begins with. -/
theorem exists_text_of_newline {newline : Token} (hlexed : newline.Lexed)
    (hnewline : newline.kind = .newline) :
    ∃ first rest, newline.text.toList = first :: rest ∧ (first = '\r' ∨ first = '\n') ∧
      newlineRule.pattern.Matches (first :: rest) := by
  have hmatches := hlexed.matches newlineRule hnewline (by decide) rfl
  rcases hlexed.newline hnewline with hfeed | hreturn
  · exact ⟨'\n', [], hfeed, .inr rfl, hfeed ▸ hmatches⟩
  · exact ⟨'\r', ['\n'], hreturn, .inl rfl, hreturn ▸ hmatches⟩

/-- **Longest tokens**: no rule goes on with what stands behind a token. -/
theorem eq_nil_of_matches {token : Token} {back : List Token}
    (htokens : ofChars (charsOf (token :: back)) = token :: back) {rule : LexicalRule}
    (hrule : rule ∈ lexicalRules) {more : List Char} (hmore : more <+: charsOf back)
    (hmatches : rule.pattern.Matches (token.text.toList ++ more)) : more = [] := by
  have hchars : charsOf (token :: back) = token.text.toList ++ charsOf back := List.flatMap_cons
  obtain ⟨behind, hbehind⟩ := hmore
  cases hfront : token.text.toList with
  | nil =>
    -- the first token of a text is not empty
    have hempty := text_ne_empty_of_mem_ofChars (htokens ▸ List.mem_cons_self)
    exact absurd (String.toList_eq_nil_iff.1 hfront) hempty
  | cons first line =>
    rw [hfront, List.cons_append] at hchars hmatches
    rw [hchars, ofChars, List.cons.injEq] at htokens
    have hlength : line.length = (lexemeAt first (line ++ charsOf back)).extra := by
      have hsame := congrArg List.length (htokens.1 ▸ hfront)
      rw [String.toList_ofList, List.length_cons, List.length_cons,
        List.length_take_of_le (extra_lexemeAt_le first _)] at hsame
      omega
    have haccepts : rule.Accepts (first :: (line ++ charsOf back))
        ((line ++ more).length + 1) := by
      rw [← hbehind, ← List.append_assoc]
      refine ⟨Nat.succ_pos _, ?_, ?_⟩
      · simp only [List.length_cons, List.length_append]
        omega
      · rwa [List.take_succ_cons, List.take_left]
    have hle := haccepts.le_lexemeAt hrule
    rw [List.length_append] at hle
    exact List.length_eq_zero_iff.1 (by omega)

/-- A token is what a rule accepts, or one character. -/
theorem exists_rule_or_single {text : List Char} {token : Token} {back : List Token}
    (htokens : ofChars text = token :: back) :
    (∃ rule ∈ lexicalRules, rule.kind = token.kind ∧ rule.pattern.Matches token.text.toList) ∨
      ∃ first, token.text.toList = [first] := by
  cases text with
  | nil =>
    rw [ofChars] at htokens
    cases htokens
  | cons first rest =>
    rw [ofChars, List.cons.injEq] at htokens
    obtain ⟨rfl, -⟩ := htokens
    rw [String.toList_ofList]
    rcases lexemeAt_eq_or first rest with herror | ⟨rule, hrule, hfound⟩
    · exact .inr ⟨first, by rw [herror, List.take_zero]⟩
    · obtain ⟨hkind, -, hmatches⟩ := LexicalRule.matches_of_lexeme? hfound
      exact .inl ⟨rule, hrule, hkind, hmatches⟩

/-- A literal that is not closed goes on with a line break. -/
theorem matches_unclosed_lineBreak {form : String × Char} (hform : form ∈ quotedForms)
    {next : Char} (hnext : next = '\r' ∨ next = '\n') {text : List Char}
    (hmatches : (unclosedPattern form.1 form.2).Matches text) :
    (unclosedPattern form.1 form.2).Matches (text ++ [next]) := by
  have hforms : ∀ form ∈ quotedForms, form.2 ≠ '\r' ∧ form.2 ≠ '\n' := by decide
  obtain ⟨hreturn, hfeed⟩ := hforms form hform
  refine matches_unclosedPattern_append hmatches ?_ ?_
  · rintro rfl
    exact hnext.elim hreturn hfeed
  · rcases hnext with rfl | rfl <;> decide

/-- **Code before a line break** does not end with a backslash: a literal would go on behind it, and
a backslash alone would join the lines. -/
theorem getLast?_ne_backslash {token newline : Token} {back : List Token}
    (htokens : ofChars (charsOf (token :: newline :: back)) = token :: newline :: back)
    (hnewline : newline.kind = .newline) (hcomment : token.kind ≠ .comment) :
    token.text.toList.getLast? ≠ some '\\' := by
  intro hlast
  have hlexed : newline.Lexed :=
    lexed_of_mem_ofChars (htokens ▸ List.mem_cons_of_mem token List.mem_cons_self)
  obtain ⟨next, ending, hnext, hreturn, hbreak⟩ := exists_text_of_newline hlexed hnewline
  have hbehind : charsOf (newline :: back) = next :: ending ++ charsOf back := by
    rw [← hnext]
    exact List.flatMap_cons
  obtain ⟨body, htext⟩ := List.getLast?_eq_some_iff.1 hlast
  -- what ends in a backslash is an open literal or a backslash alone, and both could be longer by
  -- the line break
  rcases exists_rule_or_single htokens with ⟨rule, hrule, hkind, hmatches⟩ | ⟨first, hsingle⟩
  · have honly : lexicalRules.filter (!·.pattern.avoids '\\') =
        joinRule :: commentRule :: literalRules := rfl
    rcases LexicalRule.cases_of_mem honly hrule hmatches (by simp [htext]) with
      rfl | rfl | ⟨form, hform, hquoted | hopen⟩
    · cases hlast.symm.trans (getLast?_of_matches hmatches)
    · exact hcomment hkind.symm
    · rw [hquoted] at hmatches
      have hquote := Option.some.inj (hlast.symm.trans (getLast?_of_matches hmatches))
      exact quote_ne_backslash hform hquote.symm
    · rw [hopen] at hmatches
      have hlonger := matches_unclosed_lineBreak hform hreturn hmatches
      have hbegins : [next] <+: charsOf (newline :: back) := by simp [hbehind]
      have hmore := eq_nil_of_matches htokens hrule hbegins (hopen ▸ hlonger)
      exact absurd hmore (List.cons_ne_nil _ _)
  · obtain rfl : first = '\\' := by simpa [hsingle] using hlast
    have hjoins : joinRule.pattern.Matches (token.text.toList ++ next :: ending) := by
      rw [hsingle]
      exact matches_sequence_iff.2 ⟨['\\'], next :: ending, rfl, .one rfl, hbreak⟩
    have hrule : joinRule ∈ lexicalRules := by simp [lexicalRules, shapes, joinRule]
    have hbegins : next :: ending <+: charsOf (newline :: back) := by simp [hbehind]
    have hmore := eq_nil_of_matches htokens hrule hbegins hjoins
    exact absurd hmore (List.cons_ne_nil _ _)

/-! ## Lines with a comment added -/

/-- The first token of a text, and the text behind it. -/
theorem eq_frontOf_of_cons {first : Char} {line : List Char} {token : Token} {back : List Token}
    (htokens : ofChars (first :: line) = token :: back) :
    token = frontOf first line ∧ line.drop (lexemeAt first line).extra = charsOf back := by
  rw [ofChars, List.cons.injEq] at htokens
  obtain ⟨rfl, rfl⟩ := htokens
  exact ⟨rfl, (flatMap_text_ofChars _).symm⟩

/-- The tokens behind the first one are those of the text behind it. -/
theorem ofChars_charsOf_of_cons {text : List Char} {token : Token} {back : List Token}
    (htokens : ofChars text = token :: back) : ofChars (charsOf back) = back :=
  (ofChars_charsOf_append (List.singleton_append ▸ htokens)).2

/-- A rule matches what goes on with the blank behind a line. -/
theorem exists_rule_of_longer {first : Char} {line later : List Char}
    (hlonger : line.length < (lexemeAt first (line ++ ' ' :: later)).extra) :
    ∃ rule ∈ lexicalRules, ∃ more, rule.pattern.Matches (first :: line ++ ' ' :: more) := by
  rcases lexemeAt_eq_or first (line ++ ' ' :: later) with herror | ⟨rule, hrule, hfound⟩
  · rw [herror] at hlonger
    exact absurd hlonger (Nat.not_lt_zero _)
  · obtain ⟨-, -, hmatches⟩ := LexicalRule.matches_of_lexeme? hfound
    obtain ⟨extra, hextra⟩ := Nat.exists_eq_add_of_lt hlonger
    rw [hextra, Nat.add_assoc, List.take_length_add_append, List.take_succ_cons] at hmatches
    exact ⟨rule, hrule, _, hmatches⟩

section Line

variable {token newline : Token} {front back : List Token}
  (htokens : ofChars (charsOf (token :: front ++ newline :: back)) =
    token :: front ++ newline :: back)
  (hnewline : newline.kind = .newline)
  (hcomment : ∀ last, (token :: front).getLast? = some last → last.kind ≠ .comment)
  {first : Char} {line : List Char} (hline : charsOf (token :: front) = first :: line)

include htokens hnewline hcomment hline

/-- The last character of a line without a comment. -/
theorem getLast?_line_ne_backslash : (first :: line).getLast? ≠ some '\\' := by
  rcases List.eq_nil_or_concat (token :: front) with hnil | ⟨init, last, hlast⟩
  · cases hnil
  · rw [List.concat_eq_append] at hlast
    have hbehind : ofChars (charsOf (last :: newline :: back)) = last :: newline :: back := by
      rw [hlast, List.append_assoc] at htokens
      exact (ofChars_charsOf_append htokens).2
    have hne := getLast?_ne_backslash hbehind hnewline (hcomment last (by simp [hlast]))
    have htext : last.text.toList ≠ [] := by
      have hempty := text_ne_empty_of_mem_ofChars (hbehind ▸ List.mem_cons_self)
      exact fun hnil => hempty (String.toList_eq_nil_iff.1 hnil)
    rw [← hline, hlast, charsOf, List.flatMap_append, List.flatMap_singleton,
      List.getLast?_append_of_ne_nil _ htext]
    exact hne

/-- **A token that goes on with the blank** before a comment: the line has nothing but blanks from
there on, and they are one token. -/
theorem blanks_of_longer {later : List Char}
    (hlonger : line.length < (lexemeAt first (line ++ ' ' :: later)).extra) :
    front = [] ∧ token.kind = .whitespace ∧ (first :: line).all isIndent = true := by
  obtain ⟨hfront, hback⟩ := ofChars_charsOf_append htokens
  rw [hline] at hfront
  obtain ⟨rule, hrule, more, hmatches⟩ := exists_rule_of_longer hlonger
  rcases rule.cases_of_blank hrule hmatches
    (getLast?_line_ne_backslash htokens hnewline hcomment hline) with
    rfl | rfl | ⟨form, hform, hopen⟩
  · have hall := all_isIndent_of_matches hmatches
    rw [List.all_append, Bool.and_eq_true] at hall
    have hwhole : ofChars (first :: line ++ []) = _ := ofChars_blanks hall.1 nofun
    rw [List.append_nil, hfront, ofChars, List.cons.injEq] at hwhole
    obtain ⟨rfl, rfl⟩ := hwhole
    exact ⟨rfl, rfl, hall.1⟩
  · -- the line would be a comment
    obtain rfl : first = '#' := by
      simpa [commentRule, leads, inOrder, Pattern.char, nullable] using hmatches.leads rfl
    have hrow : '\n' ∉ line := fun hmem =>
      matches_commentRule_iff.1 hmatches (List.mem_append_left _ hmem)
    have hwhole : ofChars ('#' :: line ++ []) = _ := ofChars_comment hrow nofun
    rw [List.append_nil, hfront, ofChars, List.cons.injEq] at hwhole
    obtain ⟨rfl, rfl⟩ := hwhole
    exact absurd rfl (hcomment _ rfl)
  · -- the literal would go on with the line break
    have hlexed : newline.Lexed := lexed_of_mem_ofChars (hback ▸ List.mem_cons_self)
    obtain ⟨next, ending, hnext, hreturn, -⟩ := exists_text_of_newline hlexed hnewline
    have hopened := matches_unclosed_lineBreak hform hreturn hopen
    rw [← hline, charsOf, List.flatMap_cons, List.append_assoc] at hopened
    have hbegins : charsOf front ++ [next] <+: charsOf (front ++ newline :: back) :=
      ⟨ending ++ charsOf back, by simp [charsOf, hnext]⟩
    have hmore := eq_nil_of_matches htokens
      (List.mem_append_right _ (mem_unclosedShapes_iff.2 ⟨form, hform, rfl⟩)) hbegins hopened
    exact absurd hmore (by simp)

end Line

/-- A token that stays within a line does not depend on what comes after the line. -/
theorem ofChars_of_le {first : Char} {line later : List Char}
    (hwithin : (lexemeAt first (line ++ later)).extra ≤ line.length) :
    ofChars (first :: (line ++ later)) =
      frontOf first line :: ofChars (line.drop (lexemeAt first line).extra ++ later) := by
  have hsame : lexemeAt first (line ++ later) = lexemeAt first line := by
    rw [← lexemeAt_take hwithin, List.take_left]
  rw [hsame] at hwithin
  rw [ofChars, hsame, List.take_append_of_le_length hwithin, List.drop_append_of_le_length hwithin]
  rfl

/-- **A comment at the end of a line** leaves the tokens as they are, but for the blanks at the end
of the line. -/
theorem commented_ofChars {newline : Token} {front back : List Token} {comment : List Char}
    (htokens : ofChars (charsOf (front ++ newline :: back)) = front ++ newline :: back)
    (hnewline : newline.kind = .newline)
    (hcomment : ∀ last, front.getLast? = some last → last.kind ≠ .comment)
    (hline : '\n' ∉ comment) :
    Commented front.length (front ++ newline :: back)
      (ofChars (charsOf front ++ ' ' :: '#' :: comment ++ charsOf (newline :: back))) := by
  -- the induction is on the tokens of the line, each of which is the same in both texts
  induction front with
  | nil =>
    rw [List.nil_append] at htokens
    have hlexed : newline.Lexed := lexed_of_mem_ofChars (htokens ▸ List.mem_cons_self)
    have hblank : [' '].all isIndent = true := rfl
    have hbefore : ∀ token ∈ ([] : List Token), token.kind = .whitespace := nofun
    exact .lineEnd (lineEnd_ofChars hblank hbefore hline hlexed hnewline
      (ofChars_charsOf_of_cons htokens))
  | cons token front ih =>
    have hbehind : ofChars (charsOf (newline :: back)) = newline :: back :=
      (ofChars_charsOf_append htokens).2
    have hfront : ofChars (charsOf (token :: front)) = token :: front :=
      (ofChars_charsOf_append htokens).1
    cases hchars : charsOf (token :: front) with
    | nil =>
      rw [hchars, ofChars] at hfront
      cases hfront
    | cons first line =>
      set later := '#' :: comment ++ charsOf (newline :: back) with hlater
      by_cases hlonger : line.length < (lexemeAt first (line ++ ' ' :: later)).extra
      · -- the blanks at the end of the line join the one before the comment
        obtain ⟨rfl, hblank, hall⟩ := blanks_of_longer htokens hnewline hcomment hchars hlonger
        have hlexed : newline.Lexed := lexed_of_mem_ofChars (hbehind ▸ List.mem_cons_self)
        have hblanks : (first :: (line ++ [' '])).all isIndent = true := by
          rw [← List.cons_append, List.all_append, hall]
          rfl
        have hbefore : ∀ other ∈ [token], other.kind = .whitespace := by simpa using hblank
        have hend := lineEnd_ofChars hblanks hbefore hline hlexed hnewline
          (ofChars_charsOf_of_cons hbehind)
        simpa [hlater] using Commented.lineEnd hend
      · -- the token stays within the line, with the comment as without it
        rw [hchars] at hfront
        obtain ⟨rfl, hdrop⟩ := eq_frontOf_of_cons hfront
        have hlast : ∀ last, front.getLast? = some last → last.kind ≠ .comment :=
          fun last hfound => hcomment last (by rw [List.getLast?_cons, hfound]; rfl)
        have htext : first :: line ++ ' ' :: '#' :: comment ++ charsOf (newline :: back) =
            first :: (line ++ ' ' :: later) := by simp [hlater]
        rw [htext, ofChars_of_le (Nat.le_of_not_lt hlonger), hdrop]
        simpa [hlater] using (ih (ofChars_charsOf_of_cons htokens) hlast).cons _

/-! ## Texts -/

/-- A text with a comment between some tokens and others. -/
def withComment (front : List Token) (comment : String) (back : List Token) : String :=
  String.join (front.map (·.text)) ++ " # " ++ comment ++ String.join (back.map (·.text))

/-- **The tokens of a text with a comment** at the end of a line. -/
theorem commented_tokenize {source comment : String} {newline : Token} {front back : List Token}
    (htokens : tokenize source = front ++ newline :: back) (hnewline : newline.kind = .newline)
    (hcomment : ∀ last, front.getLast? = some last → last.kind ≠ .comment)
    (hline : '\n' ∉ comment.toList) :
    Commented front.length (tokenize source)
      (tokenize (withComment front comment (newline :: back))) := by
  have hagain : ofChars (charsOf (front ++ newline :: back)) = front ++ newline :: back := by
    rw [← htokens, charsOf, tokenize, flatMap_text_ofChars]
  have htext : (withComment front comment (newline :: back)).toList =
      charsOf front ++ ' ' :: '#' :: (' ' :: comment.toList) ++ charsOf (newline :: back) := by
    rw [withComment, String.toList_append, String.toList_append, String.toList_append,
      toList_join_text, toList_join_text, List.append_assoc (charsOf front)]
    rfl
  have hline' : '\n' ∉ ' ' :: comment.toList :=
    fun hmem => (List.mem_cons.1 hmem).elim (by decide) hline
  rw [htokens, tokenize, htext]
  exact commented_ofChars hagain hnewline hcomment hline'

end Token

end RubyIndex.Syntax
