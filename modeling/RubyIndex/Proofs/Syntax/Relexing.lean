import Mathlib.Data.List.Basic
import RubyIndex.Proofs.Syntax.TokenText

/-! # Tokens of parts of a text

A token is the longest that the rules allow, so it depends on the text after it. It does not depend
on how far that text goes: a text that is cut off behind a token has the same tokens up to there.
Tokens in a row therefore have a text of which they are all the tokens.

* `lexemeAt_take` cuts a text off behind a lexeme.
* `Token.tokenize_join`: the text of tokens in a row is cut into these tokens again. -/

namespace RubyIndex.Syntax

/-! ## Lexemes of texts that are cut off -/

/-- The longest matching beginning of a text is that of any beginning of the text that holds it. -/
theorem Pattern.longest?_take {pattern : Pattern} {text : List Char} {bound : Nat}
    (hbound : ∀ length, pattern.longest? text = some length → length ≤ bound) :
    pattern.longest? (text.take bound) = pattern.longest? text := by
  -- up to the bound, both texts have the same beginnings
  have hcut : ∀ length ≤ (text.take bound).length,
      length ≤ text.length ∧ (text.take bound).take length = text.take length := by
    intro length hlength
    rw [List.length_take] at hlength
    rw [List.take_take]
    exact ⟨by omega, congrArg (text.take ·) (by omega)⟩
  cases hlongest : pattern.longest? text with
  | none =>
    refine longest?_eq_none_iff.2 fun length hlength => ?_
    obtain ⟨hle, hsame⟩ := hcut length hlength
    rw [hsame]
    exact longest?_eq_none_iff.1 hlongest length hle
  | some length =>
    obtain ⟨hle, hmatches, hnone⟩ := longest?_eq_some_iff.1 hlongest
    have hheld : length ≤ (text.take bound).length := by
      rw [List.length_take]
      exact Nat.le_min.2 ⟨hbound length hlongest, hle⟩
    refine longest?_eq_some_iff.2 ⟨hheld, (hcut length hheld).2 ▸ hmatches, ?_⟩
    intro longer hlonger hless
    obtain ⟨hlongerLe, hsame⟩ := hcut longer hlonger
    rw [hsame]
    exact hnone longer hlongerLe hless

/-- Of several lexemes one reaches furthest, and no other reaches further. -/
theorem exists_furthest?_of_mem {lexemes : List Lexeme} {lexeme : Lexeme}
    (hmem : lexeme ∈ lexemes) :
    ∃ best, furthest? lexemes = some best ∧ lexeme.extra ≤ best.extra := by
  induction lexemes with
  | nil => cases hmem
  | cons first others ih =>
    rw [furthest?]
    rcases List.mem_cons.1 hmem with rfl | hlater
    · cases furthest? others with
      | none => exact ⟨lexeme, rfl, Nat.le_refl _⟩
      | some best =>
        dsimp only
        split
        · exact ⟨best, rfl, Nat.le_of_lt ‹_›⟩
        · exact ⟨lexeme, rfl, Nat.le_refl _⟩
    · obtain ⟨best, hbest, hle⟩ := ih hlater
      rw [hbest]
      dsimp only
      split
      · exact ⟨best, rfl, hle⟩
      · exact ⟨first, rfl, Nat.le_trans hle (Nat.le_of_not_lt ‹_›)⟩

/-- No rule reaches further than the lexeme at the front of a text. -/
theorem le_extra_lexemeAt {first : Char} {rest : List Char} {rule : LexicalRule}
    (hrule : rule ∈ lexicalRules) {lexeme : Lexeme}
    (hlexeme : rule.lexeme? first rest = some lexeme) :
    lexeme.extra ≤ (lexemeAt first rest).extra := by
  have hmem : lexeme ∈ lexicalRules.filterMap (·.lexeme? first rest) :=
    List.mem_filterMap.2 ⟨rule, hrule, hlexeme⟩
  obtain ⟨best, hbest, hle⟩ := exists_furthest?_of_mem hmem
  rw [lexemeAt, hbest]
  exact hle

/-- A lexeme stays within the text. -/
theorem extra_lexemeAt_le (first : Char) (rest : List Char) :
    (lexemeAt first rest).extra ≤ rest.length := by
  rcases lexemeAt_eq_or first rest with herror | ⟨rule, -, hlexeme⟩
  · rw [herror]
    exact Nat.zero_le _
  · exact (LexicalRule.matches_of_lexeme? hlexeme).2.1

/-- **A text that is cut off behind a lexeme** begins with the same lexeme. -/
theorem lexemeAt_take {first : Char} {rest : List Char} {bound : Nat}
    (hbound : (lexemeAt first rest).extra ≤ bound) :
    lexemeAt first (rest.take bound) = lexemeAt first rest := by
  have hrules : lexicalRules.filterMap (·.lexeme? first (rest.take bound)) =
      lexicalRules.filterMap (·.lexeme? first rest) := by
    refine List.filterMap_congr fun rule hrule => ?_
    rw [LexicalRule.lexeme?, LexicalRule.lexeme?, Pattern.longest?_take]
    intro extra hlongest
    have hlexeme : rule.lexeme? first rest = some ⟨rule.kind, extra⟩ := by
      rw [LexicalRule.lexeme?, hlongest]
      rfl
    exact Nat.le_trans (le_extra_lexemeAt hrule hlexeme) hbound
  rw [lexemeAt, lexemeAt, hrules]

/-! ## Tokens in a row -/

namespace Token

/-- The characters of tokens in a row. -/
def charsOf (tokens : List Token) : List Char := tokens.flatMap (·.text.toList)

/-- The joined texts of tokens have their characters. -/
theorem toList_join_text (tokens : List Token) :
    (String.join (tokens.map (·.text))).toList = charsOf tokens := by
  rw [String.toList_join, List.flatMap_map]
  rfl

/-- A text that is cut off between two tokens has the tokens before the cut. -/
theorem ofChars_charsOf_append {text : List Char} {front back : List Token}
    (htokens : ofChars text = front ++ back) :
    ofChars (charsOf front) = front ∧ ofChars (charsOf back) = back := by
  -- the induction is on the tokens before the cut, each of which takes a piece of the text
  induction front generalizing text with
  | nil =>
    refine ⟨by rw [charsOf, List.flatMap_nil, ofChars], ?_⟩
    rw [List.nil_append] at htokens
    rw [← htokens, charsOf, flatMap_text_ofChars, htokens]
  | cons token rest ih =>
    cases text with
    | nil =>
      rw [ofChars] at htokens
      cases htokens
    | cons first others =>
      rw [ofChars, List.cons_append, List.cons.injEq] at htokens
      obtain ⟨rfl, hlater⟩ := htokens
      obtain ⟨hrest, hback⟩ := ih hlater
      refine ⟨?_, hback⟩
      have hextra := extra_lexemeAt_le first others
      set extra := (lexemeAt first others).extra with hdef
      have hafter : others.drop extra = charsOf rest ++ charsOf back := by
        rw [charsOf, charsOf, ← List.flatMap_append, ← hlater, flatMap_text_ofChars]
      -- the text before the cut goes on for at least as long as the token
      have htaken : others.take extra ++ charsOf rest =
          others.take (extra + (charsOf rest).length) := by
        rw [List.take_add, hafter, List.take_left]
      have hlength : (others.take extra).length = extra := List.length_take_of_le hextra
      have hchars : charsOf (⟨(lexemeAt first others).kind,
          String.ofList (first :: others.take extra)⟩ :: rest) =
          first :: (others.take extra ++ charsOf rest) := by
        rw [charsOf, List.flatMap_cons, String.toList_ofList]
        rfl
      rw [hchars, ofChars, htaken, lexemeAt_take (by omega), ← hdef, ← htaken,
        List.take_left' hlength, List.drop_left' hlength, hrest]

/-- **Tokens in a row** are all the tokens of their text. -/
theorem tokenize_join {source : String} {front tokens back : List Token}
    (htokens : tokenize source = front ++ tokens ++ back) :
    tokenize (String.join (tokens.map (·.text))) = tokens := by
  obtain ⟨hfront, -⟩ := ofChars_charsOf_append htokens
  rw [tokenize, toList_join_text]
  exact (ofChars_charsOf_append hfront).2

end Token

end RubyIndex.Syntax
