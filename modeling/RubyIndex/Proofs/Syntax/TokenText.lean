import RubyIndex.Syntax.Derivative
import RubyIndex.Syntax.Token

/-! # The texts of tokens

Every token owes its kind to a lexical rule whose pattern its text matches, or else it is an
`error` token. What the rules say about characters therefore holds of the tokens.

* `Token.lexed_of_mem_tokenize` ties tokens to rules.
* `Token.Lexed.isConstant`, `Token.Lexed.instanceVariable` and `Token.Lexed.classVariable` read the
  texts of constants and of variables with a sigil, `Token.Lexed.mem_operatorNames` and
  `Token.Lexed.all_continuesMethodName` those of the tokens that names of methods are made of. -/

namespace RubyIndex.Syntax

open Pattern

/-! ## Tokens and rules -/

/-- The furthest-reaching lexeme is one of those to choose from. -/
theorem mem_of_furthest? {lexemes : List Lexeme} {best : Lexeme}
    (hbest : furthest? lexemes = some best) : best ∈ lexemes := by
  induction lexemes generalizing best with
  | nil => cases hbest
  | cons lexeme others ih =>
    rw [furthest?] at hbest
    cases hothers : furthest? others with
    | none =>
      rw [hothers] at hbest
      obtain rfl := Option.some.inj hbest
      exact List.mem_cons_self
    | some other =>
      have hmem := ih hothers
      rw [hothers] at hbest
      dsimp only at hbest
      -- the lexeme stays unless a later one reaches further
      split at hbest
      · obtain rfl := Option.some.inj hbest
        exact List.mem_cons_of_mem _ hmem
      · obtain rfl := Option.some.inj hbest
        exact List.mem_cons_self

/-- The lexeme at the front of a text is that of a rule, unless no rule accepts the character. -/
theorem lexemeAt_eq_or (first : Char) (rest : List Char) :
    lexemeAt first rest = ⟨.error, 0⟩ ∨
      ∃ rule ∈ lexicalRules, rule.lexeme? first rest = some (lexemeAt first rest) := by
  unfold lexemeAt
  cases hbest : furthest? (lexicalRules.filterMap (·.lexeme? first rest)) with
  | none => exact .inl rfl
  | some best => exact .inr (List.mem_filterMap.1 (mem_of_furthest? hbest))

/-- The lexeme of a rule is of its kind, and its characters match the pattern of the rule. -/
theorem LexicalRule.matches_of_lexeme? {rule : LexicalRule} {first : Char} {rest : List Char}
    {lexeme : Lexeme} (hlexeme : rule.lexeme? first rest = some lexeme) :
    rule.kind = lexeme.kind ∧ lexeme.extra ≤ rest.length ∧
      rule.pattern.Matches (first :: rest.take lexeme.extra) := by
  obtain ⟨extra, hlongest, rfl⟩ := Option.map_eq_some_iff.1 hlexeme
  obtain ⟨hle, hmatches⟩ := matches_take_of_longest? hlongest
  -- the derivative by the first character matches what was taken after it
  exact ⟨rfl, hle, matches_derivative_iff.1 hmatches⟩

namespace Token

/-- **A lexed token.** Its text matches a rule for its kind, unless it is an `error` token. -/
def Lexed (token : Token) : Prop :=
  token.kind = .error ∨
    ∃ rule ∈ lexicalRules, rule.kind = token.kind ∧ rule.pattern.Matches token.text.toList

/-- The token at the front of a text is lexed. -/
theorem lexed_lexemeAt (first : Char) (rest : List Char) :
    Lexed ⟨(lexemeAt first rest).kind,
      String.ofList (first :: rest.take (lexemeAt first rest).extra)⟩ := by
  rcases lexemeAt_eq_or first rest with herror | ⟨rule, hrule, hlexeme⟩
  · exact .inl (by rw [herror])
  · obtain ⟨hkind, -, hmatches⟩ := LexicalRule.matches_of_lexeme? hlexeme
    refine .inr ⟨rule, hrule, hkind, ?_⟩
    rw [String.toList_ofList]
    exact hmatches

/-- Every token of a list of characters is lexed. -/
theorem lexed_of_mem_ofChars {text : List Char} {token : Token} (hmem : token ∈ ofChars text) :
    token.Lexed := by
  fun_induction ofChars text with
  | case1 => exact absurd hmem List.not_mem_nil
  | case2 first rest lexeme ih =>
    rcases List.mem_cons.1 hmem with rfl | hlater
    · exact lexed_lexemeAt first rest
    · exact ih hlater

/-- Every token of a text is lexed. -/
theorem lexed_of_mem_tokenize {source : String} {token : Token}
    (hmem : token ∈ tokenize source) : token.Lexed := lexed_of_mem_ofChars hmem

/-- A kind with one rule decides the pattern of its tokens. -/
theorem Lexed.matches {token : Token} (hlexed : token.Lexed) (rule : LexicalRule)
    (hkind : token.kind = rule.kind) (hrule : rule.kind ≠ .error)
    (honly : lexicalRules.filter (·.kind == rule.kind) = [rule]) :
    rule.pattern.Matches token.text.toList := by
  rcases hlexed with herror | ⟨found, hmem, hfound, hmatches⟩
  · exact absurd (hkind.symm.trans herror) hrule
  · have hlisted : found ∈ lexicalRules.filter (·.kind == rule.kind) :=
      List.mem_filter.2 ⟨hmem, by rw [hfound, hkind]; exact beq_self_eq_true _⟩
    rw [honly] at hlisted
    obtain rfl := List.mem_singleton.1 hlisted
    exact hmatches

end Token

/-! ## Characters of patterns -/

namespace Pattern

/-- The characters of a pattern are all in a class. -/
def Within (allowed : Char → Bool) : Pattern → Prop
  | .never => True
  | .empty => True
  | .one accepts => ∀ character, accepts character = true → allowed character = true
  | .sequence first second => first.Within allowed ∧ second.Within allowed
  | .either left right => left.Within allowed ∧ right.Within allowed
  | .many item => item.Within allowed

/-- A text has the characters of the pattern that it matches. -/
theorem Matches.all_of_within {allowed : Char → Bool} {pattern : Pattern} {text : List Char}
    (hmatches : pattern.Matches text) (hwithin : pattern.Within allowed) :
    text.all allowed = true := by
  induction hmatches with
  | empty => rfl
  | one haccepted => simpa using hwithin _ haccepted
  | sequence _ _ ihFront ihBack =>
    rw [List.all_append, ihFront hwithin.1, ihBack hwithin.2, Bool.and_self]
  | left _ ih => exact ih hwithin.1
  | right _ ih => exact ih hwithin.2
  | manyNone => rfl
  | manyMore _ _ ihFront ihBack =>
    rw [List.all_append, ihFront hwithin, ihBack hwithin, Bool.and_self]

/-- The characters of a literal are those of its text. -/
theorem within_chars {allowed : Char → Bool} {text : List Char}
    (hall : text.all allowed = true) : (chars text).Within allowed := by
  fun_induction chars text with
  | case1 => trivial
  | case2 only =>
    intro character hsame
    obtain rfl : character = only := by simpa using hsame
    simpa using hall
  | case3 first rest _ ih =>
    rw [List.all_cons, Bool.and_eq_true] at hall
    refine ⟨?_, ih hall.2⟩
    intro character hsame
    obtain rfl : character = first := by simpa using hsame
    exact hall.1

/-- A literal matches its text only. -/
theorem matches_chars_iff {expected text : List Char} :
    (chars expected).Matches text ↔ text = expected := by
  fun_induction chars expected generalizing text with
  | case1 => exact matches_empty_iff
  | case2 only => simp [char]
  | case3 first rest _ ih =>
    rw [matches_sequence_iff]
    constructor
    · rintro ⟨front, back, rfl, hfront, hback⟩
      obtain ⟨character, hsame, rfl⟩ := matches_one_iff.1 hfront
      obtain rfl : character = first := by simpa using hsame
      rw [ih.1 hback]
      rfl
    · rintro rfl
      exact ⟨[first], rest, rfl, .one (beq_self_eq_true _), ih.2 rfl⟩

end Pattern

/-! ## Names -/

/-- Capital letters continue names. -/
theorem continuesName_of_isUpper {character : Char} (hupper : character.isUpper = true) :
    continuesName character = true := by
  show ((character.isUpper || character.isLower) || character.isDigit || character == '_') = true
  rw [hupper, Bool.true_or, Bool.true_or, Bool.true_or]

/-- Small letters continue names. -/
theorem continuesName_of_isLower {character : Char} (hlower : character.isLower = true) :
    continuesName character = true := by
  show ((character.isUpper || character.isLower) || character.isDigit || character == '_') = true
  rw [hlower, Bool.or_true, Bool.true_or, Bool.true_or]

/-- The characters that separate the parts of a path or mark a variable. -/
def isPathMark (character : Char) : Bool :=
  character == '@' || character == '#' || character == '.' || character == ':'

/-- **A constant.** A capital letter, and then letters, digits and underscores. -/
def IsConstant (name : String) : Prop :=
  ∃ first rest, name.toList = first :: rest ∧ first.isUpper = true ∧
    rest.all continuesName = true

/-- **A word.** Letters, digits and underscores, of which there is at least one. -/
def IsWord (name : String) : Prop := name ≠ "" ∧ name.toList.all continuesName = true

/-- **A plain name.** A name without path marks. -/
def IsPlain (name : String) : Prop :=
  name.toList.all (fun character => !isPathMark character) = true

/-- No character of a word is a path mark. -/
theorem isPathMark_of_continuesName {character : Char} (hname : continuesName character = true) :
    (!isPathMark character) = true := by
  cases hmark : isPathMark character with
  | false => rfl
  | true =>
    simp only [isPathMark, Bool.or_eq_true, beq_iff_eq] at hmark
    rcases hmark with ((rfl | rfl) | rfl) | rfl <;> exact absurd hname (by decide)

/-- Marks do not occur in plain names. -/
theorem IsPlain.not_mem {name : String} (hplain : IsPlain name) {mark : Char}
    (hmark : isPathMark mark = true) : mark ∉ name.toList := by
  intro hmem
  have hnot := List.all_eq_true.1 hplain mark hmem
  rw [hmark] at hnot
  exact absurd hnot (by decide)

/-- Words are plain. -/
theorem IsWord.isPlain {name : String} (hword : IsWord name) : IsPlain name :=
  List.all_eq_true.2 fun character hmem =>
    isPathMark_of_continuesName (List.all_eq_true.1 hword.2 character hmem)

/-- Constants are words. -/
theorem IsConstant.isWord {name : String} (hconstant : IsConstant name) : IsWord name := by
  obtain ⟨first, rest, hname, hupper, hrest⟩ := hconstant
  constructor
  · rintro rfl
    cases hname
  · rw [hname, List.all_cons, hrest, continuesName_of_isUpper hupper, Bool.and_true]

/-- The text of a constant. -/
theorem Token.Lexed.isConstant {token : Token} (hlexed : token.Lexed)
    (hkind : token.kind = .const) : IsConstant token.text := by
  have hmatches := hlexed.matches ⟨.const, constantPattern⟩ hkind (by decide) rfl
  obtain ⟨front, rest, htext, hfront, hrest⟩ := matches_sequence_iff.1 hmatches
  obtain ⟨first, hupper, rfl⟩ := matches_one_iff.1 hfront
  exact ⟨first, rest, htext, hupper, hrest.all_of_within fun _ haccepted => haccepted⟩

/-- What follows a sigil is a word. -/
theorem isWord_of_matches_sigil {sigil : String} {text : String}
    (hmatches : (sigilPattern sigil).Matches text.toList) :
    ∃ name, text = sigil ++ name ∧ IsWord name := by
  obtain ⟨front, back, htext, hfront, hback⟩ := matches_sequence_iff.1 hmatches
  obtain rfl := matches_chars_iff.1 hfront
  obtain ⟨opening, rest, rfl, hopening, hrest⟩ := matches_sequence_iff.1 hback
  obtain ⟨first, hfirst, rfl⟩ := matches_one_iff.1 hopening
  refine ⟨String.ofList (first :: rest), ?_, ?_, ?_⟩
  · apply String.toList_injective
    rw [htext, String.toList_append, String.toList_ofList]
    rfl
  · simp
  · have hcontinues : continuesName first = true := by
      simp only [beginsName, continuesName, Char.isAlphanum, Bool.or_eq_true] at hfirst ⊢
      rcases hfirst with halpha | hunderscore
      · exact .inl (.inl halpha)
      · exact .inr hunderscore
    rw [String.toList_ofList, List.all_cons, hcontinues, Bool.true_and]
    exact hrest.all_of_within fun _ haccepted => haccepted

/-- The text of an instance variable. -/
theorem Token.Lexed.instanceVariable {token : Token} (hlexed : token.Lexed)
    (hkind : token.kind = .instanceVariable) : ∃ name, token.text = "@" ++ name ∧ IsWord name :=
  isWord_of_matches_sigil
    (hlexed.matches ⟨.instanceVariable, sigilPattern "@"⟩ hkind (by decide) rfl)

/-- The text of a class variable. -/
theorem Token.Lexed.classVariable {token : Token} (hlexed : token.Lexed)
    (hkind : token.kind = .classVariable) : ∃ name, token.text = "@@" ++ name ∧ IsWord name :=
  isWord_of_matches_sigil
    (hlexed.matches ⟨.classVariable, sigilPattern "@@"⟩ hkind (by decide) rfl)

/-! ## Method names -/

/-- The kinds of tokens that can stand in the name of a method that is no operator. -/
def TokenKind.standsInMethodName (kind : TokenKind) : Bool :=
  kind == .ident || kind == .const || kind == .eq || kind == .leftBracket ||
    kind == .rightBracket || kind.isKeyword

/-- The characters that names of methods consist of if they are no operators. -/
def continuesMethodName (character : Char) : Bool :=
  continuesName character || ['?', '!', '=', '[', ']'].contains character

/-- The operators that can be defined as methods. -/
def operatorNames : List String := (marks.filter (·.2.isOperatorName)).map (·.1)

/-- **The name of a method** is an operator, or a text of the characters that such names consist
of. -/
def IsMethodName (name : String) : Prop :=
  name ≠ "" ∧ (name ∈ operatorNames ∨ name.toList.all continuesMethodName = true)

/-- No character of the name of a method is a path mark. -/
theorem isPathMark_of_continuesMethodName {character : Char}
    (hname : continuesMethodName character = true) : (!isPathMark character) = true := by
  rw [continuesMethodName, Bool.or_eq_true] at hname
  rcases hname with hname | hmark
  · exact isPathMark_of_continuesName hname
  · have hmarks : ['?', '!', '=', '[', ']'].all (!isPathMark ·) = true := by decide
    exact List.all_eq_true.1 hmarks character (List.contains_iff_mem.1 hmark)

/-- Names of methods are plain. -/
theorem IsMethodName.isPlain {name : String} (hname : IsMethodName name) : IsPlain name := by
  rcases hname.2 with hoperator | hall
  · have hoperators : ∀ operator ∈ operatorNames,
        operator.toList.all (fun character => !isPathMark character) = true := by decide
    exact hoperators name hoperator
  · exact List.all_eq_true.2 fun character hmem =>
      isPathMark_of_continuesMethodName (List.all_eq_true.1 hall character hmem)

/-- A literal matches its own spelling only, so the text of an operator is one of the operators. -/
theorem Token.Lexed.mem_operatorNames {token : Token} (hlexed : token.Lexed)
    (hkind : token.kind.isOperatorName = true) : token.text ∈ operatorNames := by
  rcases hlexed with herror | ⟨rule, hmem, hrule, hmatches⟩
  · rw [herror] at hkind
    cases hkind
  · rw [← hrule] at hkind
    have hnone : ∀ {rules : List LexicalRule}, rules.filter (·.kind.isOperatorName) = [] →
        rule ∉ rules := fun hempty hlisted => List.filter_eq_nil_iff.1 hempty rule hlisted hkind
    rw [lexicalRules, List.mem_append, List.mem_append, List.mem_append] at hmem
    -- of the rules, only marks are for operators
    rcases hmem with ((hkeyword | hshape) | hmark) | hunclosed
    · exact absurd hkeyword (hnone rfl)
    · exact absurd hshape (hnone rfl)
    · obtain ⟨⟨spelling, kind⟩, hentry, rfl⟩ := List.mem_map.1 hmark
      have htext : token.text = spelling := String.toList_injective (matches_chars_iff.1 hmatches)
      exact List.mem_map.2 ⟨(spelling, kind), List.mem_filter.2 ⟨hentry, hkind⟩, htext.symm⟩
    · exact absurd hunclosed (hnone rfl)

/-- Rules for tokens that can stand in method names accept the characters of such names. -/
theorem LexicalRule.within_of_standsInMethodName {rule : LexicalRule} (hmem : rule ∈ lexicalRules)
    (hkind : rule.kind.standsInMethodName = true) : rule.pattern.Within continuesMethodName := by
  have hcontinues : ∀ character, continuesName character = true →
      continuesMethodName character = true := fun character hname => by
    rw [continuesMethodName, hname, Bool.true_or]
  rw [lexicalRules, List.mem_append, List.mem_append, List.mem_append] at hmem
  -- keywords and marks are literals; of the shapes, identifiers and constants are left
  rcases hmem with ((hkeyword | hshape) | hmark) | hunclosed
  · have hkeywords : ∀ entry ∈ keywords,
        entry.1.toList.all continuesMethodName = true := by decide
    obtain ⟨⟨spelling, kind⟩, hentry, rfl⟩ := List.mem_map.1 hkeyword
    exact within_chars (hkeywords _ hentry)
  · have honly : shapes.filter (·.kind.standsInMethodName) =
        [⟨.ident, identifierPattern⟩, ⟨.const, constantPattern⟩] := rfl
    have hlisted : rule ∈ shapes.filter (·.kind.standsInMethodName) :=
      List.mem_filter.2 ⟨hshape, hkind⟩
    rw [honly, List.mem_cons, List.mem_singleton] at hlisted
    rcases hlisted with rfl | rfl
    · -- an identifier may end with a question or exclamation mark
      refine ⟨?_, hcontinues, ?_, trivial⟩
      · intro character hfirst
        refine hcontinues character ?_
        rcases (Bool.or_eq_true _ _).mp hfirst with hlower | hunderscore
        · exact continuesName_of_isLower hlower
        · rw [continuesName, hunderscore, Bool.or_true]
      · intro character hlast
        simp only [Bool.or_eq_true, beq_iff_eq] at hlast
        rcases hlast with rfl | rfl <;> rfl
    · refine ⟨?_, hcontinues⟩
      intro character hupper
      exact hcontinues character (continuesName_of_isUpper hupper)
  · have hmarks : ∀ entry ∈ marks, entry.2.standsInMethodName = true →
        entry.1.toList.all continuesMethodName = true := by decide
    obtain ⟨⟨spelling, kind⟩, hentry, rfl⟩ := List.mem_map.1 hmark
    exact within_chars (hmarks _ hentry hkind)
  · have hnone : unclosedShapes.filter (·.kind.standsInMethodName) = [] := rfl
    have hlisted : rule ∈ unclosedShapes.filter (·.kind.standsInMethodName) :=
      List.mem_filter.2 ⟨hunclosed, hkind⟩
    rw [hnone] at hlisted
    cases hlisted

/-- The characters of a token that can stand in a method name. -/
theorem Token.Lexed.all_continuesMethodName {token : Token} (hlexed : token.Lexed)
    (hkind : token.kind.standsInMethodName = true) :
    token.text.toList.all continuesMethodName = true := by
  rcases hlexed with herror | ⟨rule, hmem, hrule, hmatches⟩
  · rw [herror] at hkind
    exact absurd hkind (by decide)
  · exact hmatches.all_of_within (rule.within_of_standsInMethodName hmem (by rw [hrule, hkind]))

end RubyIndex.Syntax
