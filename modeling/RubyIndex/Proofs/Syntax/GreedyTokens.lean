import RubyIndex.Proofs.Syntax.Overlaps

/-! # Greedy tokens

Tokens are cut off one after the other, each as long as the rules of the lexicon allow. A text that
opens a quoted literal which is never closed gives an `error` token up to where the literal breaks
off, even if a rule accepts its first character; a character that nothing accepts is an `error`
token of its own; and any other token is the longest beginning of the text that a rule accepts.

* `Token.Greedy` says which token a text begins with.
* `greedy_lexemeAt` is the proof for the lexeme at the front of a text.
* `Token.greedy_of_tokenize` is the result for texts. -/

namespace RubyIndex.Syntax

open Pattern

/-! ## Beginnings of a text -/

/-- A rule **accepts** a beginning of a text, by its length. -/
def LexicalRule.Accepts (rule : LexicalRule) (text : List Char) (length : Nat) : Prop :=
  0 < length ∧ length ≤ text.length ∧ rule.pattern.Matches (text.take length)

/-- The quoted literals, by what they open with and the quote that closes them. -/
def quotedForms : List (String × Char) := [("\"", '"'), ("'", '\''), (":\"", '"')]

/-- **A literal that is never closed.** The beginning of a text of some length opens a quoted
literal and is as long as its items go, and no beginning of the text is a literal with its closing
quote. -/
def NeverCloses (text : List Char) (length : Nat) : Prop :=
  ∃ form ∈ quotedForms, length ≤ text.length ∧
    (unclosedPattern form.1 form.2).Matches (text.take length) ∧
    (∀ longer ≤ text.length, length < longer →
      ¬ (unclosedPattern form.1 form.2).Matches (text.take longer)) ∧
    ∀ closed ≤ text.length, ¬ (quotedPattern form.1 form.2).Matches (text.take closed)

/-- **The token that a text begins with.** -/
inductive Token.Greedy (text : List Char) : Token → Prop
  /-- The longest beginning that a rule accepts, where no literal is left open. All rules that
  accept it agree on its kind, except that a reserved word is no identifier. -/
  | accepted {rule : LexicalRule} {length : Nat} (hcloses : ∀ length, ¬ NeverCloses text length)
      (hrule : rule ∈ tableRules) (haccepts : rule.Accepts text length)
      (hlongest : ∀ other ∈ tableRules, ∀ longer, other.Accepts text longer → longer ≤ length)
      (hkind : ∀ other ∈ tableRules, other.Accepts text length → other.kind = rule.kind ∨
        (other.kind = .ident ∧ rule.kind.isKeyword = true)) :
      Greedy text ⟨rule.kind, String.ofList (text.take length)⟩
  /-- A quoted literal that is never closed, with all its items. -/
  | unclosed {length : Nat} (hnever : NeverCloses text length) :
      Greedy text ⟨.error, String.ofList (text.take length)⟩
  /-- One character, where no rule accepts anything. -/
  | unknown (hcloses : ∀ length, ¬ NeverCloses text length)
      (hnone : ∀ rule ∈ tableRules, ∀ length, ¬ rule.Accepts text length) :
      Greedy text ⟨.error, String.ofList (text.take 1)⟩

/-! ## Quoted literals -/

/-- An item of a quoted literal is a plain character, or a backslash with what it escapes. -/
theorem matches_quotedItem_iff {quote : Char} {text : List Char} :
    (quotedItem quote).Matches text ↔
      (∃ plain, plain ≠ quote ∧ plain ≠ '\\' ∧ text = [plain]) ∨
        ∃ escaped, escaped ≠ '\n' ∧ text = ['\\', escaped] := by
  rw [quotedItem, matches_either_iff, matches_one_iff, matches_sequence_iff]
  refine or_congr ?_ ?_
  · simp [and_assoc]
  · constructor
    · rintro ⟨front, back, rfl, hfront, hback⟩
      obtain ⟨backslash, hbackslash, rfl⟩ := matches_one_iff.1 hfront
      obtain ⟨escaped, hescaped, rfl⟩ := matches_one_iff.1 hback
      obtain rfl : backslash = '\\' := by simpa using hbackslash
      exact ⟨escaped, by simpa using hescaped, rfl⟩
    · rintro ⟨escaped, hescaped, rfl⟩
      exact ⟨['\\'], [escaped], rfl, .one rfl, .one (by simpa using hescaped)⟩

/-- **Items end before the closing quote**, as no item begins with it. -/
theorem not_matches_items_quote {quote : Char} (hquote : quote ≠ '\\') {items rest : List Char}
    (hitems : (many (quotedItem quote)).Matches items) :
    ¬ (many (quotedItem quote)).Matches (items ++ quote :: rest) := by
  intro hlonger
  induction hlength : items.length using Nat.strongRecOn generalizing items with
  | _ length ih =>
    subst hlength
    cases items with
    | nil =>
      obtain ⟨front, back, -, hitem, -⟩ := matches_many_cons_iff.1 hlonger
      rcases matches_quotedItem_iff.1 hitem with ⟨plain, hplain, -, hsame⟩ | ⟨escaped, -, hsame⟩
      · exact hplain (List.cons.inj hsame).1.symm
      · exact hquote (List.cons.inj hsame).1
    | cons first items =>
      -- the first item is the same in both rows, since its first character tells its length
      obtain ⟨front, back, hsplit, hitem, hback⟩ := matches_many_cons_iff.1 hitems
      obtain ⟨front', back', hsplit', hitem', hback'⟩ := matches_many_cons_iff.1 hlonger
      rcases matches_quotedItem_iff.1 hitem with ⟨plain, -, hplain, hsame⟩ | ⟨escaped, -, hsame⟩ <;>
        rcases matches_quotedItem_iff.1 hitem' with ⟨plain', -, hplain', hsame'⟩ |
          ⟨escaped', -, hsame'⟩
      · obtain ⟨rfl, rfl⟩ := List.cons.inj hsame
        obtain ⟨-, rfl⟩ := List.cons.inj hsame'
        obtain rfl : items = back := hsplit
        obtain rfl : items ++ quote :: rest = back' := hsplit'
        exact ih items.length (Nat.lt_succ_self _) hback hback' rfl
      · exact hplain ((List.cons.inj hsame).1.symm.trans (List.cons.inj hsame').1)
      · exact hplain' ((List.cons.inj hsame').1.symm.trans (List.cons.inj hsame).1)
      · obtain ⟨-, rfl⟩ := List.cons.inj hsame
        obtain ⟨-, rfl⟩ := List.cons.inj hsame'
        subst hsplit
        obtain ⟨-, rfl⟩ := List.cons.inj hsplit'
        have hless : back.length < (first :: ([escaped] ++ back)).length := by
          simp only [List.length_cons, List.length_append]
          omega
        exact ih back.length hless hback hback' rfl

/-- A closed literal is longer than the same literal without its closing quote. -/
theorem lt_of_matches_quotedPattern {opening : String} {quote : Char} (hquote : quote ≠ '\\')
    {text : List Char} {length closed : Nat}
    (hopen : (unclosedPattern opening quote).Matches (text.take length))
    (hclosed : (quotedPattern opening quote).Matches (text.take closed)) : length < closed := by
  refine Nat.lt_of_not_le fun hle => ?_
  -- the items of the longer literal would go on with the quote that closes the shorter one
  have hsplit := List.take_append_drop closed (text.take length)
  rw [List.take_take, Nat.min_eq_left hle] at hsplit
  obtain ⟨front, items, hopened, hfront, hitems⟩ := matches_sequence_iff.1 hopen
  obtain ⟨front', literal, hclosing, hfront', hliteral⟩ := matches_sequence_iff.1 hclosed
  obtain ⟨items', ending, rfl, hitems', hending⟩ := matches_sequence_iff.1 hliteral
  obtain ⟨last, hlast, rfl⟩ := matches_one_iff.1 hending
  obtain rfl : last = quote := by simpa using hlast
  rw [matches_chars_iff.1 hfront] at hopened
  rw [matches_chars_iff.1 hfront'] at hclosing
  rw [hopened, hclosing, List.append_assoc, List.append_assoc, List.append_cancel_left_eq] at hsplit
  exact not_matches_items_quote hquote hitems' (hsplit.symm ▸ hitems)

/-- The rules for literals that are never closed. -/
theorem mem_unclosedShapes_iff {rule : LexicalRule} : rule ∈ unclosedShapes ↔
    ∃ form ∈ quotedForms, (⟨.error, unclosedPattern form.1 form.2⟩ : LexicalRule) = rule := by
  have hmap : unclosedShapes = quotedForms.map fun form =>
    ⟨.error, unclosedPattern form.1 form.2⟩ := rfl
  rw [hmap, List.mem_map]

section Forms

variable {form : String × Char} (hform : form ∈ quotedForms)

include hform

theorem quote_ne_backslash : form.2 ≠ '\\' := by
  have hforms : ∀ form ∈ quotedForms, form.2 ≠ '\\' := by decide
  exact hforms form hform

/-- A literal with its closing quote has a rule. -/
theorem exists_rule_of_quotedForm :
    ∃ rule ∈ tableRules, rule.pattern = quotedPattern form.1 form.2 := by
  simp only [quotedForms, List.mem_cons, List.not_mem_nil, or_false] at hform
  rcases hform with rfl | rfl | rfl
  · exact ⟨⟨.string, quotedPattern "\"" '"'⟩, by simp [tableRules, shapes], rfl⟩
  · exact ⟨⟨.string, quotedPattern "'" '\''⟩, by simp [tableRules, shapes], rfl⟩
  · exact ⟨⟨.symbol, quotedPattern ":\"" '"'⟩, by simp [tableRules, shapes], rfl⟩

/-- Only the two rules of a literal match a text that opens it. -/
theorem LexicalRule.pattern_of_opening {rule : LexicalRule} (hrule : rule ∈ lexicalRules)
    {rest : List Char} (hmatches : rule.pattern.Matches (form.1.toList ++ rest)) :
    rule.pattern = quotedPattern form.1 form.2 ∨
      rule = ⟨.error, unclosedPattern form.1 form.2⟩ := by
  have hlisted : rule ∈ lexicalRules.filter (·.pattern.mayOpen form.1.toList) :=
    List.mem_filter.2 ⟨hrule, hmatches.mayOpen⟩
  have honly : (∃ kind, lexicalRules.filter (·.pattern.mayOpen form.1.toList) =
      [⟨kind, quotedPattern form.1 form.2⟩, ⟨.error, unclosedPattern form.1 form.2⟩]) := by
    simp only [quotedForms, List.mem_cons, List.not_mem_nil, or_false] at hform
    rcases hform with rfl | rfl | rfl
    · exact ⟨.string, rfl⟩
    · exact ⟨.string, rfl⟩
    · exact ⟨.symbol, rfl⟩
  obtain ⟨kind, honly⟩ := honly
  rw [honly, List.mem_cons, List.mem_singleton] at hlisted
  rcases hlisted with rfl | rfl
  · exact .inl rfl
  · exact .inr rfl

end Forms

/-! ## The furthest lexeme -/

/-- Of lexemes that reach equally far, those in front win. -/
theorem mem_front_of_furthest? {front back : List Lexeme} {best lexeme : Lexeme}
    (hbest : furthest? (front ++ back) = some best) (hmem : lexeme ∈ front)
    (hextra : best.extra ≤ lexeme.extra) : best ∈ front := by
  induction front with
  | nil => cases hmem
  | cons first others ih =>
    rw [List.cons_append, furthest?] at hbest
    cases hothers : furthest? (others ++ back) with
    | none =>
      rw [hothers] at hbest
      exact Option.some.inj hbest ▸ List.mem_cons_self
    | some other =>
      rw [hothers] at hbest
      dsimp only at hbest
      -- a later lexeme wins only if it reaches further than the first one does
      split at hbest
      · obtain rfl := Option.some.inj hbest
        rcases List.mem_cons.1 hmem with rfl | hlater
        · omega
        · exact List.mem_cons_of_mem _ (ih hothers hlater)
      · exact Option.some.inj hbest ▸ List.mem_cons_self

section Winner

variable {rule : LexicalRule} {first : Char} {rest : List Char}

/-- What a rule finds in a text it accepts. -/
theorem LexicalRule.accepts_of_lexeme? {lexeme : Lexeme}
    (hlexeme : rule.lexeme? first rest = some lexeme) :
    rule.Accepts (first :: rest) (lexeme.extra + 1) := by
  obtain ⟨-, hle, hmatches⟩ := matches_of_lexeme? hlexeme
  exact ⟨Nat.succ_pos _, Nat.succ_le_succ hle, hmatches⟩

/-- A rule finds the longest beginning that it accepts. -/
theorem LexicalRule.Accepts.exists_lexeme? {length : Nat}
    (haccepts : rule.Accepts (first :: rest) length) :
    ∃ lexeme, rule.lexeme? first rest = some lexeme ∧ length ≤ lexeme.extra + 1 := by
  obtain ⟨hpos, hle, hmatches⟩ := haccepts
  obtain ⟨shorter, rfl⟩ := Nat.exists_eq_add_one_of_ne_zero (Nat.pos_iff_ne_zero.1 hpos)
  obtain ⟨extra, hlongest, hreaches⟩ := le_longest?_of_matches_take (Nat.le_of_succ_le_succ hle)
    (matches_derivative_iff.2 hmatches)
  refine ⟨⟨rule.kind, extra⟩, ?_, Nat.succ_le_succ hreaches⟩
  rw [lexeme?, hlongest]
  rfl

variable (hrule : rule ∈ lexicalRules)

include hrule

/-- No rule accepts more than the lexeme at the front of a text has. -/
theorem LexicalRule.Accepts.le_lexemeAt {length : Nat}
    (haccepts : rule.Accepts (first :: rest) length) :
    length ≤ (lexemeAt first rest).extra + 1 := by
  obtain ⟨lexeme, hlexeme, hle⟩ := haccepts.exists_lexeme?
  exact Nat.le_trans hle (Nat.succ_le_succ (le_extra_lexemeAt hrule hlexeme))

/-- Where a rule accepts something, the lexeme at the front is that of a rule. -/
theorem LexicalRule.Accepts.furthest?_eq {length : Nat}
    (haccepts : rule.Accepts (first :: rest) length) :
    furthest? (lexicalRules.filterMap (·.lexeme? first rest)) = some (lexemeAt first rest) := by
  obtain ⟨lexeme, hlexeme, -⟩ := haccepts.exists_lexeme?
  have hmem : lexeme ∈ lexicalRules.filterMap (·.lexeme? first rest) :=
    List.mem_filterMap.2 ⟨rule, hrule, hlexeme⟩
  obtain ⟨best, hbest, -⟩ := exists_furthest?_of_mem hmem
  rw [lexemeAt, hbest]
  rfl

theorem LexicalRule.Accepts.exists_winner {length : Nat}
    (haccepts : rule.Accepts (first :: rest) length) :
    ∃ winner ∈ lexicalRules, winner.lexeme? first rest = some (lexemeAt first rest) :=
  List.mem_filterMap.1 (mem_of_furthest? (haccepts.furthest?_eq hrule))

end Winner

/-- Only reserved words are of the kind of one. -/
theorem mem_keywords_of_isKeyword {rule : LexicalRule} (hrule : rule ∈ tableRules)
    (hkeyword : rule.kind.isKeyword = true) :
    rule ∈ keywords.map fun (spelling, kind) => (⟨kind, literal spelling⟩ : LexicalRule) := by
  have honly : tableRules.filter (·.kind.isKeyword) =
      keywords.map fun (spelling, kind) => (⟨kind, literal spelling⟩ : LexicalRule) := rfl
  rw [← honly]
  exact List.mem_filter.2 ⟨hrule, hkeyword⟩

/-- **A reserved word wins**: where its rule reaches as far as any, the lexeme is one. -/
theorem isKeyword_lexemeAt {rule : LexicalRule} (hrule : rule ∈ tableRules)
    (hkeyword : rule.kind.isKeyword = true) {first : Char} {rest : List Char}
    (haccepts : rule.Accepts (first :: rest) ((lexemeAt first rest).extra + 1)) :
    (lexemeAt first rest).kind.isKeyword = true := by
  have hlisted := mem_keywords_of_isKeyword hrule hkeyword
  obtain ⟨lexeme, hlexeme, hle⟩ := haccepts.exists_lexeme?
  have hbest := haccepts.furthest?_eq (List.mem_append_left _ hrule)
  rw [lexicalRules_eq, tableRules, List.append_assoc, List.append_assoc,
    List.filterMap_append] at hbest
  have hfront := mem_front_of_furthest? hbest (List.mem_filterMap.2 ⟨rule, hlisted, hlexeme⟩)
    (Nat.le_of_succ_le_succ hle)
  obtain ⟨winner, hwinner, hfound⟩ := List.mem_filterMap.1 hfront
  obtain ⟨entry, hentry, rfl⟩ := List.mem_map.1 hwinner
  have hkeywords : ∀ entry ∈ keywords, entry.2.isKeyword = true := by decide
  rw [← (LexicalRule.matches_of_lexeme? hfound).1]
  exact hkeywords entry hentry

/-! ## The three cases -/

variable {first : Char} {rest : List Char}

/-- A literal that is never closed is the lexeme at the front of its text. -/
theorem lexemeAt_of_neverCloses {length : Nat} (hnever : NeverCloses (first :: rest) length) :
    (lexemeAt first rest).kind = .error ∧ (lexemeAt first rest).extra + 1 = length := by
  obtain ⟨form, hform, hle, hopen, hlongest, hcloses⟩ := hnever
  have hunclosed : (⟨.error, unclosedPattern form.1 form.2⟩ : LexicalRule) ∈ lexicalRules :=
    List.mem_append_right _ (mem_unclosedShapes_iff.2 ⟨form, hform, rfl⟩)
  obtain ⟨opening, items, hsplit, hopening, -⟩ := matches_sequence_iff.1 hopen
  have hpos : 0 < length := by
    have hforms : ∀ form ∈ quotedForms, form.1.toList ≠ [] := by decide
    refine Nat.pos_of_ne_zero fun hzero => hforms form hform ?_
    rw [hzero, List.take_zero, matches_chars_iff.1 hopening] at hsplit
    exact (List.append_eq_nil_iff.1 hsplit.symm).1
  have haccepts : LexicalRule.Accepts ⟨.error, unclosedPattern form.1 form.2⟩ (first :: rest)
      length := ⟨hpos, hle, hopen⟩
  have hreaches := haccepts.le_lexemeAt hunclosed
  obtain ⟨winner, hwinner, hfound⟩ := haccepts.exists_winner hunclosed
  obtain ⟨-, hwithin, hmatches⟩ := LexicalRule.accepts_of_lexeme? hfound
  -- the winner reaches over what opens the literal, so it is one of the two rules for it
  have hlonger := List.take_append_drop length
    ((first :: rest).take ((lexemeAt first rest).extra + 1))
  rw [List.take_take, Nat.min_eq_left hreaches, hsplit, matches_chars_iff.1 hopening,
    List.append_assoc] at hlonger
  rcases LexicalRule.pattern_of_opening hform hwinner (hlonger.symm ▸ hmatches) with
    hquoted | rfl
  · exact absurd (hquoted ▸ hmatches) (hcloses _ hwithin)
  · refine ⟨(LexicalRule.matches_of_lexeme? hfound).1.symm, ?_⟩
    by_contra hne
    exact hlongest _ hwithin (by omega) hmatches

/-- Where no literal is left open, the rule of the lexeme is one of the table. -/
theorem mem_tableRules_of_lexeme? (hcloses : ∀ length, ¬ NeverCloses (first :: rest) length)
    {winner : LexicalRule} (hwinner : winner ∈ lexicalRules)
    (hfound : winner.lexeme? first rest = some (lexemeAt first rest)) : winner ∈ tableRules := by
  rw [lexicalRules_eq, List.mem_append] at hwinner
  rcases hwinner with htable | hunclosed
  · exact htable
  · have hmem : winner ∈ lexicalRules := List.mem_append_right _ hunclosed
    obtain ⟨form, hform, rfl⟩ := mem_unclosedShapes_iff.1 hunclosed
    obtain ⟨-, hwithin, hopen⟩ := LexicalRule.accepts_of_lexeme? hfound
    refine absurd ⟨form, hform, hwithin, hopen, fun longer hle hlonger hmatches => ?_,
      fun closed hle hclosed => ?_⟩ (hcloses ((lexemeAt first rest).extra + 1))
    · exact absurd (LexicalRule.Accepts.le_lexemeAt hmem ⟨by omega, hle, hmatches⟩) (by omega)
    · -- the closed literal would reach further
      have hlonger := lt_of_matches_quotedPattern (quote_ne_backslash hform) hopen hclosed
      obtain ⟨rule, hrule, hpattern⟩ := exists_rule_of_quotedForm hform
      have hreaches := LexicalRule.Accepts.le_lexemeAt (List.mem_append_left _ hrule)
        ⟨by omega, hle, hpattern ▸ hclosed⟩
      omega

/-! ## Tokens -/

/-- The token at the front of a text. -/
def Token.frontOf (first : Char) (rest : List Char) : Token :=
  ⟨(lexemeAt first rest).kind, String.ofList (first :: rest.take (lexemeAt first rest).extra)⟩

/-- **The lexeme at the front of a text is greedy.** -/
theorem greedy_lexemeAt (first : Char) (rest : List Char) :
    Token.Greedy (first :: rest) (Token.frontOf first rest) := by
  by_cases hnever : ∃ length, NeverCloses (first :: rest) length
  · obtain ⟨length, hnever⟩ := hnever
    obtain ⟨hkind, rfl⟩ := lexemeAt_of_neverCloses hnever
    rw [Token.frontOf, hkind]
    exact .unclosed hnever
  rw [not_exists] at hnever
  by_cases hsome : ∃ rule ∈ lexicalRules, ∃ length, rule.Accepts (first :: rest) length
  · obtain ⟨rule, hlisted, length, hlength⟩ := hsome
    obtain ⟨winner, hwinner, hfound⟩ := hlength.exists_winner hlisted
    have hrule := mem_tableRules_of_lexeme? hnever hwinner hfound
    have haccepts := LexicalRule.accepts_of_lexeme? hfound
    rw [Token.frontOf, ← (LexicalRule.matches_of_lexeme? hfound).1]
    refine .accepted hnever hrule haccepts ?_ ?_
    · intro other hother longer hlonger
      exact hlonger.le_lexemeAt (List.mem_append_left _ hother)
    · intro other hother hboth
      rcases LexicalRule.kind_of_matches hrule hother haccepts.2.2 hboth.2.2 with
        hsame | ⟨hkeyword, hident⟩ | ⟨hident, hkeyword⟩
      · exact .inl hsame.symm
      · exact .inr ⟨hident, hkeyword⟩
      · -- the reserved word would have won
        have hwins := isKeyword_lexemeAt hother hkeyword hboth
        rw [← (LexicalRule.matches_of_lexeme? hfound).1, hident] at hwins
        cases hwins
  · have hunknown : lexemeAt first rest = ⟨.error, 0⟩ := by
      refine (lexemeAt_eq_or first rest).resolve_right ?_
      rintro ⟨rule, hlisted, hfound⟩
      exact hsome ⟨rule, hlisted, _, LexicalRule.accepts_of_lexeme? hfound⟩
    rw [Token.frontOf, hunknown]
    exact .unknown hnever fun rule hrule length haccepts =>
      hsome ⟨rule, List.mem_append_left _ hrule, length, haccepts⟩

/-- **Tokens are greedy.** No token of a text is empty. Each is the token that the text begins with
behind the tokens before it, and it is all the tokens of its own text. -/
theorem Token.greedy_of_tokenize {source : String} {front back : List Token} {token : Token}
    (htokens : tokenize source = front ++ token :: back) :
    charsOf front ++ charsOf (token :: back) = source.toList ∧ token.text ≠ "" ∧
      Token.Greedy (charsOf (token :: back)) token ∧ tokenize token.text = [token] := by
  have hwhole : charsOf front ++ charsOf (token :: back) = source.toList := by
    rw [charsOf, charsOf, ← List.flatMap_append, ← htokens]
    exact flatMap_text_ofChars source.toList
  refine ⟨hwhole, ?_⟩
  have hbehind := (ofChars_charsOf_append htokens).2
  have hsplit : tokenize source = front ++ [token] ++ back := by
    rw [htokens, List.append_assoc, List.singleton_append]
  cases hchars : charsOf (token :: back) with
  | nil =>
    rw [hchars, ofChars] at hbehind
    cases hbehind
  | cons first rest =>
    rw [hchars, ofChars, List.cons.injEq] at hbehind
    obtain ⟨rfl, -⟩ := hbehind
    refine ⟨?_, greedy_lexemeAt first rest, by simpa using tokenize_join hsplit⟩
    simp

/-- In `and?`, no reserved word wins over the longer identifier. -/
theorem Token.greedy_of_tokenize_identifier :
    tokenize "and? and" = [] ++ ⟨.ident, "and?"⟩ :: [⟨.whitespace, " "⟩, ⟨.andKw, "and"⟩] ∧
      charsOf [] ++ "and? and".toList = "and? and".toList ∧ "and?" ≠ "" ∧
      Token.Greedy "and? and".toList ⟨.ident, "and?"⟩ ∧
      tokenize "and?" = [⟨.ident, "and?"⟩] := by
  have htokens : tokenize "and? and" =
      [] ++ ⟨.ident, "and?"⟩ :: [⟨.whitespace, " "⟩, ⟨.andKw, "and"⟩] := by decide +kernel
  exact ⟨htokens, Token.greedy_of_tokenize htokens⟩

/-- **An opened symbol is no colon**: where a quoted symbol is never closed, the rule for colons
accepts the first character, and yet the token is an error. -/
theorem not_forall_accepted : ¬ ∀ (source : String) (front back : List Token) (token : Token),
    Token.tokenize source = front ++ token :: back →
      (∃ rule ∈ tableRules, ∃ length, rule.Accepts (Token.charsOf (token :: back)) length) →
        ∃ rule ∈ tableRules, rule.kind = token.kind ∧
          rule.Accepts (Token.charsOf (token :: back)) token.text.toList.length := by
  intro hall
  have htokens : Token.tokenize ":\"abc" = [] ++ [⟨.error, ":\"abc"⟩] := by decide +kernel
  have hcolon : (⟨.colon, literal ":"⟩ : LexicalRule) ∈ tableRules := by
    simp [tableRules, marks]
  obtain ⟨rule, hrule, hkind, -⟩ := hall _ _ _ _ htokens
    ⟨_, hcolon, 1, Nat.one_pos, by decide, accepts_iff.1 (by decide)⟩
  have hnone : ∀ rule ∈ tableRules, rule.kind ≠ .error := by decide
  exact hnone rule hrule hkind

end RubyIndex.Syntax
