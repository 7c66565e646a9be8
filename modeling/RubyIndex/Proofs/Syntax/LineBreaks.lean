import RubyIndex.Proofs.Syntax.Relexing

/-! # Tokens before a line break

Only a quoted literal goes on behind a line break. If the line break at the end of a text is a token
of its own, no literal is open there, so whatever text comes after it, the tokens up to the line
break are the same.

* `Pattern.avoidsBeforeEnd` tells from a pattern that a character can only end its texts.
* `LexicalRule.unclosed_of_matches`: a rule that goes on behind a line break is one for quoted
  literals, and what it has matched up to there is a literal that is not closed.
* `lexemeAt_append`: the lexeme at the front of a text does not depend on what comes after a line
  break.
* `Token.tokenize_append`: the tokens of two texts in a row.
* `Token.head?_text_of_comment`: the token after a comment begins with a line break, and
  `Token.Lexed.kind_of_head?_newline`: then it is one. -/

namespace RubyIndex.Syntax

/-! ## Where patterns have line breaks -/

namespace Pattern

/-- Whether no part of a pattern accepts the given character. -/
def avoids (character : Char) : Pattern → Bool
  | .never => true
  | .empty => true
  | .one accepts => !accepts character
  | .sequence first second => first.avoids character && second.avoids character
  | .either left right => left.avoids character && right.avoids character
  | .many item => item.avoids character

theorem within_of_avoids {character : Char} {pattern : Pattern}
    (havoids : pattern.avoids character = true) : pattern.Within (· != character) := by
  induction pattern with
  | never => trivial
  | empty => trivial
  | one accepts =>
    intro found hfound
    rw [bne_iff_ne]
    rintro rfl
    rw [avoids, hfound] at havoids
    cases havoids
  | sequence first second ihFirst ihSecond =>
    rw [avoids, Bool.and_eq_true] at havoids
    exact ⟨ihFirst havoids.1, ihSecond havoids.2⟩
  | either left right ihLeft ihRight =>
    rw [avoids, Bool.and_eq_true] at havoids
    exact ⟨ihLeft havoids.1, ihRight havoids.2⟩
  | many item ih => exact ih havoids

/-- A pattern that avoids a character matches no text with it. -/
theorem Matches.not_mem {character : Char} {pattern : Pattern} {text : List Char}
    (hmatches : pattern.Matches text) (havoids : pattern.avoids character = true) :
    character ∉ text := by
  intro hmem
  have hall := hmatches.all_of_within (within_of_avoids havoids)
  exact absurd rfl (bne_iff_ne.1 (List.all_eq_true.1 hall character hmem))

/-- Whether a pattern accepts the given character in its last place only. -/
def avoidsBeforeEnd (character : Char) : Pattern → Bool
  | .never => true
  | .empty => true
  | .one _ => true
  | .sequence first second => first.avoids character && second.avoidsBeforeEnd character
  | .either left right => left.avoidsBeforeEnd character && right.avoidsBeforeEnd character
  | .many item => item.avoids character

/-- A character that does not occur in the front part of a text occurs in its back part. -/
theorem exists_of_append_cons_eq {character : Char} {front back before after : List Char}
    (hsame : front ++ character :: back = before ++ after) (hnot : character ∉ before) :
    ∃ middle, front = before ++ middle ∧ after = middle ++ character :: back := by
  rcases List.append_eq_append_iff.1 hsame with ⟨extra, hbefore, hback⟩ | found
  · -- the character would stand at the beginning of what is left of the front part
    cases extra with
    | nil => exact ⟨[], by rw [hbefore, List.append_nil, List.append_nil], hback.symm⟩
    | cons head extra =>
      obtain ⟨rfl, -⟩ := List.cons.inj hback
      exact absurd (hbefore ▸ List.mem_append_right _ List.mem_cons_self) hnot
  · exact found

/-- Nothing comes after a character that a pattern has in its last place only. -/
theorem Matches.eq_nil_of_avoidsBeforeEnd {character : Char} {pattern : Pattern}
    {text front back : List Char} (hmatches : pattern.Matches text)
    (havoids : pattern.avoidsBeforeEnd character = true)
    (htext : front ++ character :: back = text) : back = [] := by
  induction hmatches generalizing front with
  | empty => simp at htext
  | one _ =>
    cases front with
    | nil => exact (List.cons.inj htext).2
    | cons head front => simp at htext
  | sequence hfirst _ _ ihSecond =>
    rw [avoidsBeforeEnd, Bool.and_eq_true] at havoids
    obtain ⟨middle, -, hafter⟩ :=
      exists_of_append_cons_eq htext (hfirst.not_mem havoids.1)
    exact ihSecond havoids.2 hafter.symm
  | left _ ih =>
    rw [avoidsBeforeEnd, Bool.and_eq_true] at havoids
    exact ih havoids.1 htext
  | right _ ih =>
    rw [avoidsBeforeEnd, Bool.and_eq_true] at havoids
    exact ih havoids.2 htext
  | manyNone => simp at htext
  | manyMore hfront hback _ _ =>
    have hmany := (Matches.manyMore hfront hback).not_mem havoids
    exact absurd (htext ▸ List.mem_append_right _ List.mem_cons_self) hmany

/-! ## Quoted literals -/

/-- An item of a quoted literal is one character, or a backslash before one other than a line
break. -/
theorem matches_quotedItem_cons {quote first : Char} {rest : List Char}
    (hmatches : (quotedItem quote).Matches (first :: rest)) :
    rest = [] ∨ first = '\\' ∧ ∃ escaped, rest = [escaped] ∧ escaped ≠ '\n' := by
  rw [quotedItem, matches_either_iff] at hmatches
  rcases hmatches with hplain | hescape
  · obtain ⟨_, -, hsame⟩ := matches_one_iff.1 hplain
    exact .inl (List.cons.inj hsame).2
  · obtain ⟨front, back, hsame, hfront, hback⟩ := matches_sequence_iff.1 hescape
    obtain ⟨backslash, hbackslash, rfl⟩ := matches_one_iff.1 hfront
    obtain ⟨escaped, haccepted, rfl⟩ := matches_one_iff.1 hback
    obtain ⟨rfl, rfl⟩ := List.cons.inj hsame
    exact .inr ⟨eq_of_beq hbackslash, escaped, rfl, by simpa using haccepted⟩

/-- Items can be cut off anywhere but behind a backslash. -/
theorem matches_many_quotedItem_of_append {quote : Char} {front back : List Char}
    (hmatches : (many (quotedItem quote)).Matches (front ++ back))
    (hlast : front.getLast? ≠ some '\\') : (many (quotedItem quote)).Matches front := by
  induction hlength : front.length using Nat.strongRecOn generalizing front with
  | _ length ih =>
    subst hlength
    cases front with
    | nil => exact .manyNone
    | cons first front =>
      obtain ⟨item, items, hsame, hitem, hitems⟩ := matches_many_cons_iff.1 hmatches
      rcases matches_quotedItem_cons hitem with rfl | ⟨rfl, escaped, rfl, -⟩
      · obtain rfl : front ++ back = items := hsame
        refine matches_many_cons_iff.2 ⟨[], front, rfl, hitem, ih _ ?_ hitems ?_ rfl⟩
        · exact Nat.lt_succ_self _
        · intro hbackslash
          exact hlast (by simp [List.getLast?_cons, hbackslash])
      · -- the backslash is not the last character, so what it escapes stands before the cut too
        cases front with
        | nil => exact absurd rfl hlast
        | cons second front =>
          obtain ⟨rfl, hafter⟩ := List.cons.inj hsame
          obtain rfl : front ++ back = items := hafter
          refine matches_many_cons_iff.2 ⟨[second], front, rfl, hitem, ih _ ?_ hitems ?_ rfl⟩
          · simp only [List.length_cons]
            omega
          · intro hbackslash
            exact hlast (by simp [List.getLast?_cons, hbackslash])

/-- A line break between the quotes is an item of its own, so items can be cut off behind it. -/
theorem matches_many_quotedItem_cut {quote : Char} {front back : List Char}
    (hmatches : (many (quotedItem quote)).Matches (front ++ '\n' :: back)) :
    (many (quotedItem quote)).Matches (front ++ ['\n']) := by
  have hsplit : front ++ '\n' :: back = (front ++ ['\n']) ++ back := by simp
  exact matches_many_quotedItem_of_append (hsplit ▸ hmatches) (by simp)

/-- A literal that is not closed can be cut off behind a line break. -/
theorem matches_unclosedPattern_cut {opening : String} {quote : Char} {front back : List Char}
    (hopening : '\n' ∉ opening.toList)
    (hmatches : (unclosedPattern opening quote).Matches (front ++ '\n' :: back)) :
    (unclosedPattern opening quote).Matches (front ++ ['\n']) := by
  obtain ⟨before, items, hsame, hbefore, hitems⟩ := matches_sequence_iff.1 hmatches
  have hliteral := matches_chars_iff.1 hbefore
  obtain ⟨middle, rfl, rfl⟩ := exists_of_append_cons_eq hsame (hliteral ▸ hopening)
  rw [List.append_assoc]
  exact .sequence hbefore (matches_many_quotedItem_cut hitems)

/-- A closed literal goes on behind any character but its quote, and without the quote it is not
closed. -/
theorem exists_unclosed_of_quotedPattern {opening : String} {quote next : Char}
    {front back : List Char} (hquote : quote ≠ next)
    (hmatches : (quotedPattern opening quote).Matches (front ++ next :: back)) :
    ∃ inner, (unclosedPattern opening quote).Matches (front ++ next :: inner) := by
  obtain ⟨before, literal, hsame, hbefore, hliteral⟩ := matches_sequence_iff.1 hmatches
  obtain ⟨items, closing, rfl, hitems, hclosing⟩ := matches_sequence_iff.1 hliteral
  obtain ⟨last, hlast, rfl⟩ := matches_one_iff.1 hclosing
  obtain rfl : last = quote := by simpa using hlast
  -- the character is not the closing quote, so it stands before it
  rw [← List.append_assoc] at hsame
  rcases List.eq_nil_or_concat back with rfl | ⟨inner, final, rfl⟩
  · exact absurd (List.append_inj' hsame rfl).2 (by simpa using hquote.symm)
  · rw [List.concat_eq_append, ← List.cons_append, ← List.append_assoc] at hsame
    obtain ⟨hcut, -⟩ := List.append_inj' hsame rfl
    refine ⟨inner, ?_⟩
    rw [hcut]
    exact .sequence hbefore hitems

/-- A closed literal that is cut off behind a line break is not closed. -/
theorem matches_quotedPattern_cut {opening : String} {quote : Char} {front back : List Char}
    (hopening : '\n' ∉ opening.toList) (hquote : quote ≠ '\n')
    (hmatches : (quotedPattern opening quote).Matches (front ++ '\n' :: back)) :
    (unclosedPattern opening quote).Matches (front ++ ['\n']) := by
  obtain ⟨inner, hunclosed⟩ := exists_unclosed_of_quotedPattern hquote hmatches
  exact matches_unclosedPattern_cut hopening hunclosed

end Pattern

open Pattern

/-- **A rule that goes on behind a line break** is one for quoted literals: what it has matched up
to the line break is a literal that is not closed. -/
theorem LexicalRule.unclosed_of_matches {rule : LexicalRule} (hrule : rule ∈ lexicalRules)
    {front back : List Char} (hmatches : rule.pattern.Matches (front ++ '\n' :: back))
    (hback : back ≠ []) :
    ∃ unclosed ∈ unclosedShapes, unclosed.pattern.Matches (front ++ ['\n']) := by
  have hquoted : rule ∈ lexicalRules.filter (!·.pattern.avoidsBeforeEnd '\n') := by
    refine List.mem_filter.2 ⟨hrule, ?_⟩
    cases havoids : rule.pattern.avoidsBeforeEnd '\n' with
    | false => rfl
    | true => exact absurd (hmatches.eq_nil_of_avoidsBeforeEnd havoids rfl) hback
  have honly : lexicalRules.filter (!·.pattern.avoidsBeforeEnd '\n') =
      [⟨.string, quotedPattern "\"" '"'⟩, ⟨.string, quotedPattern "'" '\''⟩,
        ⟨.symbol, quotedPattern ":\"" '"'⟩] ++ unclosedShapes := rfl
  rw [honly, List.mem_append] at hquoted
  rcases hquoted with hclosed | hunclosed
  · simp only [List.mem_cons, List.not_mem_nil, or_false] at hclosed
    rcases hclosed with rfl | rfl | rfl
    · exact ⟨⟨.error, unclosedPattern "\"" '"'⟩, by simp [unclosedShapes],
        matches_quotedPattern_cut (by decide) (by decide) hmatches⟩
    · exact ⟨⟨.error, unclosedPattern "'" '\''⟩, by simp [unclosedShapes],
        matches_quotedPattern_cut (by decide) (by decide) hmatches⟩
    · exact ⟨⟨.error, unclosedPattern ":\"" '"'⟩, by simp [unclosedShapes],
        matches_quotedPattern_cut (by decide) (by decide) hmatches⟩
  · refine ⟨rule, hunclosed, ?_⟩
    simp only [unclosedShapes, List.mem_cons, List.not_mem_nil, or_false] at hunclosed
    rcases hunclosed with rfl | rfl | rfl <;>
      exact matches_unclosedPattern_cut (by decide) hmatches

/-! ## Lexemes before a line break -/

/-- A rule that matches a front of a text reaches to its end. -/
theorem le_lexemeAt_of_matches_take {rule : LexicalRule} (hrule : rule ∈ lexicalRules)
    {first : Char} {rest : List Char} {length : Nat} (hlength : length ≤ rest.length)
    (hmatches : rule.pattern.Matches (first :: rest.take length)) :
    length ≤ (lexemeAt first rest).extra := by
  obtain ⟨extra, hlongest, hle⟩ :=
    le_longest?_of_matches_take hlength (matches_derivative_iff.2 hmatches)
  have hlexeme : rule.lexeme? first rest = some ⟨rule.kind, extra⟩ := by
    rw [LexicalRule.lexeme?, hlongest]
    rfl
  exact Nat.le_trans hle (le_extra_lexemeAt hrule hlexeme)

/-- A rule that matches a whole text reaches to its end. -/
theorem length_le_lexemeAt_of_matches {rule : LexicalRule} (hrule : rule ∈ lexicalRules)
    {first : Char} {rest : List Char} (hmatches : rule.pattern.Matches (first :: rest)) :
    rest.length ≤ (lexemeAt first rest).extra := by
  refine le_lexemeAt_of_matches_take hrule (Nat.le_refl _) ?_
  rwa [List.take_length]

/-- The texts of line breaks. -/
theorem Token.Lexed.newline {token : Token} (hlexed : token.Lexed)
    (hkind : token.kind = .newline) :
    token.text.toList = ['\n'] ∨ token.text.toList = ['\r', '\n'] := by
  have hmatches := hlexed.matches ⟨.newline, inOrder [.optional (char '\r'), char '\n']⟩ hkind
    (by decide) rfl
  obtain ⟨front, back, htext, hfront, hback⟩ := matches_sequence_iff.1 hmatches
  obtain ⟨last, hlast, rfl⟩ := matches_one_iff.1 hback
  obtain rfl : last = '\n' := by simpa using hlast
  rw [Pattern.optional, matches_either_iff, matches_empty_iff] at hfront
  rcases hfront with hreturn | rfl
  · obtain ⟨first, hfirst, rfl⟩ := matches_one_iff.1 hreturn
    obtain rfl : first = '\r' := by simpa using hfirst
    exact .inr htext
  · exact .inl htext

/-- No literal begins with a line break. -/
theorem not_matches_unclosed_newline {text : List Char}
    (htext : text = ['\n'] ∨ text = ['\r', '\n']) {unclosed : LexicalRule}
    (hunclosed : unclosed ∈ unclosedShapes) : ¬ unclosed.pattern.Matches text := by
  simp only [unclosedShapes, List.mem_cons, List.not_mem_nil, or_false] at hunclosed
  -- the derivative by the first character matches nothing
  rcases htext with rfl | rfl <;> rcases hunclosed with rfl | rfl | rfl <;>
    exact fun hmatches => not_matches_never _ (matches_derivative_iff.2 hmatches)

/-- **A lexeme before a line break.** The lexeme at the front of a text that ends with a line break
is the same whatever comes after the text, if it ends before the line break or is the line break. -/
theorem lexemeAt_append {first : Char} {rest front : List Char}
    (hline : first :: rest = front ++ ['\n'])
    (hlexeme : (lexemeAt first rest).extra < rest.length ∨ (lexemeAt first rest).kind = .newline)
    (later : List Char) : lexemeAt first (rest ++ later) = lexemeAt first rest := by
  have hbound : (lexemeAt first (rest ++ later)).extra ≤ rest.length := by
    refine Nat.le_of_not_lt fun hlonger => ?_
    -- a rule that reached beyond the line break would leave a literal open in front of it
    obtain ⟨unclosed, hunclosed, hopen⟩ :
        ∃ unclosed ∈ unclosedShapes, unclosed.pattern.Matches (first :: rest) := by
      rcases lexemeAt_eq_or first (rest ++ later) with herror | ⟨rule, hrule, hfound⟩
      · rw [herror] at hlonger
        exact absurd hlonger (Nat.not_lt_zero _)
      · obtain ⟨-, hle, hmatches⟩ := LexicalRule.matches_of_lexeme? hfound
        set extra := (lexemeAt first (rest ++ later)).extra
        rw [List.take_append, List.take_of_length_le (Nat.le_of_lt hlonger), ← List.cons_append,
          hline, List.append_assoc, List.singleton_append] at hmatches
        rw [hline]
        refine LexicalRule.unclosed_of_matches hrule hmatches fun hnil => ?_
        rw [List.length_append] at hle
        have hlength := congrArg List.length hnil
        rw [List.length_take, List.length_nil] at hlength
        omega
    -- that literal would be the lexeme without what comes after, up to the end of the text
    have hmem : unclosed ∈ lexicalRules := List.mem_append_right _ hunclosed
    have hreaches := length_le_lexemeAt_of_matches hmem hopen
    rcases hlexeme with hshort | hnewline
    · omega
    · have htext := (Token.lexed_lexemeAt first rest).newline hnewline
      rw [String.toList_ofList, List.take_of_length_le hreaches] at htext
      exact not_matches_unclosed_newline htext hunclosed hopen
  rw [← lexemeAt_take hbound, List.take_left]

/-! ## Tokens before a line break -/

namespace Token

/-- A text ends with a line break if its last token is one. -/
theorem exists_of_ofChars_newline {text : List Char} {last : Token}
    (hlast : (ofChars text).getLast? = some last) (hnewline : last.kind = .newline) :
    ∃ body, text = body ++ ['\n'] := by
  obtain ⟨front, htokens⟩ := List.getLast?_eq_some_iff.1 hlast
  have hlexed : last.Lexed := lexed_of_mem_ofChars (List.mem_of_getLast? hlast)
  have htext := flatMap_text_ofChars text
  rw [htokens, List.flatMap_append, List.flatMap_singleton] at htext
  rcases hlexed.newline hnewline with hfeed | hreturn
  · exact ⟨_, by rw [← htext, hfeed]⟩
  · refine ⟨front.flatMap (·.text.toList) ++ ['\r'], ?_⟩
    rw [← htext, hreturn, List.append_assoc]
    rfl

/-- The tokens of a text whose last token is a line break are the same whatever comes after it. -/
theorem ofChars_append {text : List Char} {last : Token}
    (hlast : (ofChars text).getLast? = some last) (hnewline : last.kind = .newline)
    (later : List Char) : ofChars (text ++ later) = ofChars text ++ ofChars later := by
  fun_induction ofChars text with
  | case1 => cases hlast
  | case2 first rest lexeme ih =>
    have hle : lexeme.extra ≤ rest.length := extra_lexemeAt_le first rest
    -- either this token is the line break or one of those after it is
    have hrest : (lexeme.extra < rest.length ∨ lexeme.kind = .newline) ∧
        ofChars (rest.drop lexeme.extra ++ later) =
          ofChars (rest.drop lexeme.extra) ++ ofChars later := by
      cases hdrop : rest.drop lexeme.extra with
      | nil =>
        rw [hdrop, ofChars] at hlast
        obtain rfl := Option.some.inj hlast
        exact ⟨.inr hnewline, by rw [ofChars]; rfl⟩
      | cons second others =>
        have hlater : (ofChars (rest.drop lexeme.extra)).getLast? = some last := by
          rw [hdrop, ofChars] at hlast ⊢
          rwa [List.getLast?_cons_cons] at hlast
        refine ⟨.inl (Nat.lt_of_not_le fun hlong => ?_), hdrop ▸ ih hlater⟩
        rw [List.drop_eq_nil_of_le hlong] at hdrop
        cases hdrop
    have hall : (ofChars (first :: rest)).getLast? = some last := by
      rw [ofChars]
      exact hlast
    obtain ⟨body, hline⟩ := exists_of_ofChars_newline hall hnewline
    have hsame : lexemeAt first (rest ++ later) = lexeme := lexemeAt_append hline hrest.1 later
    rw [List.cons_append, ofChars, hsame, List.take_append_of_le_length hle,
      List.drop_append_of_le_length hle, hrest.2, List.cons_append]

/-- **The tokens of two texts in a row** are those of the first and those of the second, if the last
token of the first is a line break. -/
theorem tokenize_append {source : String} {last : Token}
    (hlast : (tokenize source).getLast? = some last) (hnewline : last.kind = .newline)
    (later : String) : tokenize (source ++ later) = tokenize source ++ tokenize later := by
  rw [tokenize, String.toList_append]
  exact ofChars_append hlast hnewline later.toList

end Token

/-! ## Comments -/

/-- Items in a row and one item more. -/
theorem Pattern.matches_many_append {item : Pattern} {front back : List Char}
    (hfront : (many item).Matches front) (hback : item.Matches back) :
    (many item).Matches (front ++ back) := by
  generalize hmany : many item = pattern at hfront
  induction hfront with
  | manyNone =>
    obtain rfl := Pattern.many.inj hmany
    rw [List.nil_append, ← List.append_nil back]
    exact .manyMore hback .manyNone
  | manyMore hfirst _ _ ih =>
    obtain rfl := Pattern.many.inj hmany
    rw [List.append_assoc]
    exact .manyMore hfirst (ih rfl)
  | _ => cases hmany

/-- The rule for comments. -/
def commentRule : LexicalRule := ⟨.comment, inOrder [char '#', .many (.one (· != '\n'))]⟩

/-- Whether a text of a pattern can begin with a character. -/
def Pattern.mayBegin (character : Char) (pattern : Pattern) : Bool :=
  match pattern.derivative character with
  | .never => false
  | _ => true

/-- The first character of a text of a pattern can begin one. -/
theorem Pattern.Matches.mayBegin {first : Char} {rest : List Char} {pattern : Pattern}
    (hmatches : pattern.Matches (first :: rest)) : pattern.mayBegin first = true := by
  have hderivative := matches_derivative_iff.2 hmatches
  rw [Pattern.mayBegin]
  split
  · next hnever => exact absurd (hnever ▸ hderivative) (not_matches_never rest)
  · rfl

namespace Token

/-- **A comment goes up to a line break**: the token after it begins with one. -/
theorem head?_text_of_comment {text : List Char} {comment next : Token} {later : List Token}
    (htokens : ofChars text = comment :: next :: later) (hkind : comment.kind = .comment) :
    next.text.toList.head? = some '\n' := by
  cases text with
  | nil =>
    rw [ofChars] at htokens
    cases htokens
  | cons first rest =>
    have hlexed : comment.Lexed := lexed_of_mem_ofChars (htokens ▸ List.mem_cons_self)
    rw [ofChars, List.cons.injEq] at htokens
    obtain ⟨rfl, hlater⟩ := htokens
    set extra := (lexemeAt first rest).extra
    cases hdrop : rest.drop extra with
    | nil =>
      rw [hdrop, ofChars] at hlater
      cases hlater
    | cons second others =>
      rw [hdrop, ofChars, List.cons.injEq] at hlater
      rw [← hlater.1, String.toList_ofList, List.head?_cons]
      -- any other character would belong to the comment
      by_contra hother
      have hline : (second != '\n') = true := by simpa using hother
      have hmatches := hlexed.matches commentRule hkind (by decide) rfl
      rw [String.toList_ofList] at hmatches
      obtain ⟨front, back, htext, hfront, hback⟩ := matches_sequence_iff.1 hmatches
      have hlonger : commentRule.pattern.Matches (first :: rest.take (extra + 1)) := by
        rw [List.take_add, hdrop, List.take_succ_cons, List.take_zero, ← List.cons_append, htext,
          List.append_assoc]
        exact .sequence hfront (matches_many_append hback (.one hline))
      have hlength : extra + 1 ≤ rest.length := by
        have hle := congrArg List.length hdrop
        rw [List.length_drop, List.length_cons] at hle
        omega
      have hrule : commentRule ∈ lexicalRules := by
        simp [lexicalRules, shapes, commentRule]
      exact absurd (le_lexemeAt_of_matches_take hrule hlength hlonger) (Nat.not_succ_le_self extra)

/-- What begins with a line break is one, or it is an error. -/
theorem Lexed.kind_of_head?_newline {token : Token} (hlexed : token.Lexed)
    (hhead : token.text.toList.head? = some '\n') :
    token.kind = .newline ∨ token.kind = .error := by
  rcases hlexed with herror | ⟨rule, hrule, hkind, hmatches⟩
  · exact .inr herror
  · obtain ⟨rest, htext⟩ := List.head?_eq_some_iff.1 hhead
    rw [htext] at hmatches
    have honly : (lexicalRules.filter (·.pattern.mayBegin '\n')).map (·.kind) = [.newline] := rfl
    have hopens : rule ∈ lexicalRules.filter (·.pattern.mayBegin '\n') :=
      List.mem_filter.2 ⟨hrule, hmatches.mayBegin⟩
    have hlisted : rule.kind ∈ [TokenKind.newline] := honly ▸ List.mem_map_of_mem hopens
    exact .inl (hkind.symm.trans (List.mem_singleton.1 hlisted))

end Token

/-! ## Blanks -/

/-- The characters that stand between words on a line and indent it. -/
def isIndent (character : Char) : Bool := character == ' ' || character == '\t'

/-- **Whitespace** is made of blanks, or it joins two lines. -/
theorem Token.Lexed.whitespace {token : Token} (hlexed : token.Lexed)
    (hkind : token.kind = .whitespace) :
    token.text.toList.all isIndent = true ∨ ∃ front, token.text.toList = front ++ ['\n'] := by
  rcases hlexed with herror | ⟨rule, hrule, hsame, hmatches⟩
  · cases hkind.symm.trans herror
  · have hlisted : rule ∈ lexicalRules.filter (·.kind == .whitespace) :=
      List.mem_filter.2 ⟨hrule, by rw [hsame, hkind]; rfl⟩
    have honly : lexicalRules.filter (·.kind == .whitespace) =
        [⟨.whitespace, atLeastOne (.one isIndent)⟩,
          ⟨.whitespace, inOrder [char '\\', .optional (char '\r'), char '\n']⟩] := rfl
    rw [honly, List.mem_cons, List.mem_singleton] at hlisted
    rcases hlisted with rfl | rfl
    · exact .inl (hmatches.all_of_within ⟨fun _ => id, fun _ => id⟩)
    · obtain ⟨front, back, htext, -, hback⟩ := matches_sequence_iff.1 hmatches
      obtain ⟨middle, ending, rfl, -, hending⟩ := matches_sequence_iff.1 hback
      obtain ⟨last, hlast, rfl⟩ := matches_one_iff.1 hending
      obtain rfl : last = '\n' := by simpa using hlast
      exact .inr ⟨front ++ middle, by rw [htext, List.append_assoc]⟩

end RubyIndex.Syntax
