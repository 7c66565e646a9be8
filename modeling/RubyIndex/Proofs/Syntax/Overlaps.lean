import RubyIndex.Proofs.Syntax.LineBreaks

/-! # Where lexical rules overlap

No text is of two kinds, but for the reserved words, which look like identifiers. Words and marks
are literals, so it can be tested which other rules match them. The other rules are told apart by
their first character, except that class variables begin like instance variables and that floats
begin like integers.

* `Pattern.accepts` tests whether a pattern matches a text.
* `family?` is what the first character of a text tells about its kind.
* `LexicalRule.kind_of_matches`: two rules that match a text are of one kind, or they are for a
  reserved word and for identifiers. -/

namespace RubyIndex.Syntax

open Pattern

/-! ## Tests on texts and characters -/

namespace Pattern

/-- The pattern of what may follow some characters in a matching text. -/
def after (pattern : Pattern) (front : List Char) : Pattern :=
  front.foldl (fun pattern character => pattern.derivative character) pattern

theorem matches_after_iff {pattern : Pattern} {front back : List Char} :
    (pattern.after front).Matches back ↔ pattern.Matches (front ++ back) := by
  induction front generalizing pattern with
  | nil => exact Iff.rfl
  | cons character rest ih => exact ih.trans matches_derivative_iff

/-- Whether a pattern matches a text. -/
def accepts (pattern : Pattern) (text : List Char) : Bool := (pattern.after text).nullable

theorem accepts_iff {pattern : Pattern} {text : List Char} :
    pattern.accepts text = true ↔ pattern.Matches text := by
  rw [accepts, ← matches_nil_iff, matches_after_iff, List.append_nil]

/-- Whether a text of a pattern can begin with some characters. -/
def mayOpen (front : List Char) (pattern : Pattern) : Bool :=
  match pattern.after front with
  | .never => false
  | _ => true

theorem Matches.mayOpen {pattern : Pattern} {front back : List Char}
    (hmatches : pattern.Matches (front ++ back)) : pattern.mayOpen front = true := by
  have hback := matches_after_iff.2 hmatches
  rw [Pattern.mayOpen]
  split
  · next hnever => exact absurd (hnever ▸ hback) (not_matches_never back)
  · rfl

/-- Whether a pattern accepts a character in the first place. -/
def leads (character : Char) : Pattern → Bool
  | .never => false
  | .empty => false
  | .one accepts => accepts character
  | .sequence first second => first.leads character || (first.nullable && second.leads character)
  | .either left right => left.leads character || right.leads character
  | .many item => item.leads character

/-- A pattern accepts the first character of a text that it matches. -/
theorem Matches.leads {character : Char} {pattern : Pattern} {text rest : List Char}
    (hmatches : pattern.Matches text) (htext : text = character :: rest) :
    pattern.leads character = true := by
  induction hmatches generalizing rest with
  | empty => cases htext
  | one haccepted =>
    obtain ⟨rfl, -⟩ := List.cons.inj htext
    exact haccepted
  | @sequence first second front back hfront hback ihFront ihBack =>
    rw [Pattern.leads, Bool.or_eq_true, Bool.and_eq_true]
    cases front with
    | nil => exact .inr ⟨matches_nil_iff.1 hfront, ihBack htext⟩
    | cons head front =>
      obtain ⟨rfl, -⟩ := List.cons.inj htext
      exact .inl (ihFront rfl)
  | left _ ih =>
    rw [Pattern.leads, ih htext, Bool.true_or]
  | right _ ih =>
    rw [Pattern.leads, ih htext, Bool.or_true]
  | manyNone => cases htext
  | @manyMore item front back _ _ ihFront ihBack =>
    cases front with
    | nil => exact ihBack htext
    | cons head front =>
      obtain ⟨rfl, -⟩ := List.cons.inj htext
      exact ihFront rfl

end Pattern

/-! ## Families of kinds -/

/-- What the first character of a text tells about its kind: class variables count as instance
variables and floats as integers. -/
def TokenKind.family : TokenKind → TokenKind
  | .classVariable => .instanceVariable
  | .float => .integer
  | kind => kind

/-- The family of the texts that begin with a character, words and marks apart. -/
def family? (character : Char) : Option TokenKind :=
  if character.isLower || character == '_' then some .ident
  else if character.isUpper then some .const
  else if character.isDigit then some .integer
  else
    match character with
    | ' ' | '\t' | '\\' => some .whitespace
    | '\r' | '\n' => some .newline
    | '#' => some .comment
    | '@' => some .instanceVariable
    | '$' => some .globalVariable
    | '"' | '\'' => some .string
    | ':' => some .symbol
    | _ => none

theorem family?_of_isLower {character : Char}
    (hlower : character.isLower = true ∨ character = '_') : family? character = some .ident := by
  have hbegins : (character.isLower || character == '_') = true := by simpa using hlower
  unfold family?
  rw [if_pos hbegins]

theorem family?_of_isUpper {character : Char} (hupper : character.isUpper = true) :
    family? character = some .const := by
  have hlower : (character.isLower || character == '_') = false := by
    rw [Bool.or_eq_false_iff, beq_eq_false_iff_ne]
    refine ⟨?_, fun hsame => absurd (hsame ▸ hupper) (by decide)⟩
    delta Char.isUpper Char.isLower at *
    grind
  unfold family?
  rw [hlower, if_neg Bool.false_ne_true, if_pos hupper]

theorem family?_of_isDigit {character : Char} (hdigit : character.isDigit = true) :
    family? character = some .integer := by
  have hletter : (character.isLower || character == '_') = false ∧ character.isUpper = false := by
    rw [Bool.or_eq_false_iff, beq_eq_false_iff_ne]
    refine ⟨⟨?_, fun hsame => absurd (hsame ▸ hdigit) (by decide)⟩, ?_⟩
    all_goals
      delta Char.isDigit at hdigit
      delta Char.isUpper Char.isLower
      grind
  unfold family?
  rw [hletter.1, hletter.2, if_neg Bool.false_ne_true, if_neg Bool.false_ne_true, if_pos hdigit]

/-- **The first character tells the family** of a text that is no word or mark. -/
theorem LexicalRule.family?_of_matches {rule : LexicalRule} (hrule : rule ∈ shapes)
    {first : Char} {rest : List Char} (hmatches : rule.pattern.Matches (first :: rest)) :
    family? first = some rule.kind.family := by
  have hleads := hmatches.leads rfl
  simp only [shapes, List.mem_cons, List.not_mem_nil, or_false] at hrule
  rcases hrule with rfl | rfl | rfl | rfl | rfl | rfl | rfl | rfl | rfl | rfl | rfl | rfl | rfl |
    rfl | rfl
  all_goals
    simp [Pattern.leads, atLeastOne, inOrder, Pattern.char, Pattern.optional, Pattern.nullable,
      identifierPattern, constantPattern, sigilPattern, digitsPattern, quotedPattern,
      Pattern.literal, Pattern.chars] at hleads
  -- names and numbers begin with a class of characters, all else with one or two characters
  all_goals
    first
    | exact family?_of_isLower hleads
    | exact family?_of_isUpper hleads
    | exact family?_of_isDigit hleads
    | (subst hleads; rfl)
    | (rcases hleads with rfl | rfl <;> rfl)

/-! ## Rules of one family -/

/-- A kind with one rule for its shape decides the rule. -/
theorem LexicalRule.eq_of_mem_shapes {rule found : LexicalRule} (hfound : found ∈ shapes)
    (hkind : found.kind = rule.kind) (honly : shapes.filter (·.kind == rule.kind) = [rule]) :
    found = rule := by
  have hlisted : found ∈ shapes.filter (·.kind == rule.kind) :=
    List.mem_filter.2 ⟨hfound, by rw [hkind]; exact beq_self_eq_true _⟩
  rw [honly] at hlisted
  exact List.mem_singleton.1 hlisted

/-- No name goes on with another sigil. -/
theorem not_matches_sigils {text : List Char} (hinstance : (sigilPattern "@").Matches text) :
    ¬ (sigilPattern "@@").Matches text := by
  intro hclass
  rw [← String.toList_ofList (l := text)] at hinstance hclass
  obtain ⟨name, hname, hword⟩ := isWord_of_matches_sigil hinstance
  obtain ⟨other, hother, -⟩ := isWord_of_matches_sigil hclass
  have hsame : name = "@" ++ other := by
    have hboth := congrArg String.toList (hname.symm.trans hother)
    apply String.toList_injective
    simpa [String.toList_append] using hboth
  have hmark : '@' ∉ name.toList := hword.isPlain.not_mem rfl
  exact hmark (by simp [hsame])

/-- No integer has a point. -/
theorem not_matches_point {text : List Char} (hinteger : digitsPattern.Matches text)
    {fraction : Pattern} : ¬ (Pattern.sequence digitsPattern
      (.sequence (char '.') fraction)).Matches text := by
  intro hfloat
  obtain ⟨front, back, rfl, -, hback⟩ := matches_sequence_iff.1 hfloat
  obtain ⟨point, digits, rfl, hpoint, -⟩ := matches_sequence_iff.1 hback
  obtain ⟨character, hcharacter, rfl⟩ := matches_one_iff.1 hpoint
  obtain rfl : character = '.' := by simpa using hcharacter
  have hpoint : '.' ∉ front ++ (['.'] ++ digits) := hinteger.not_mem (by decide)
  exact hpoint (by simp)

/-- Two kinds of one family are the same, or a pair that begins alike. -/
theorem TokenKind.eq_or_of_family {kind other : TokenKind} (hfamily : kind.family = other.family) :
    kind = other ∨ (kind = .instanceVariable ∧ other = .classVariable) ∨
      (kind = .classVariable ∧ other = .instanceVariable) ∨
      (kind = .integer ∧ other = .float) ∨ (kind = .float ∧ other = .integer) := by
  unfold family at hfamily
  split at hfamily <;> split at hfamily <;> simp_all

/-- Rules that are no words or marks match different texts, or they are of one kind. -/
theorem LexicalRule.kind_eq_of_mem_shapes {rule other : LexicalRule} (hrule : rule ∈ shapes)
    (hother : other ∈ shapes) {first : Char} {rest : List Char}
    (hmatches : rule.pattern.Matches (first :: rest))
    (hboth : other.pattern.Matches (first :: rest)) : rule.kind = other.kind := by
  have hfamily : rule.kind.family = other.kind.family :=
    Option.some.inj ((family?_of_matches hrule hmatches).symm.trans
      (family?_of_matches hother hboth))
  have hinstance : ∀ {found : LexicalRule}, found ∈ shapes → found.kind = .instanceVariable →
      found = ⟨.instanceVariable, sigilPattern "@"⟩ :=
    fun hfound hkind => eq_of_mem_shapes hfound hkind rfl
  have hclass : ∀ {found : LexicalRule}, found ∈ shapes → found.kind = .classVariable →
      found = ⟨.classVariable, sigilPattern "@@"⟩ :=
    fun hfound hkind => eq_of_mem_shapes hfound hkind rfl
  have hinteger : ∀ {found : LexicalRule}, found ∈ shapes → found.kind = .integer →
      found = ⟨.integer, digitsPattern⟩ :=
    fun hfound hkind => eq_of_mem_shapes hfound hkind rfl
  have hfloat : ∀ {found : LexicalRule}, found ∈ shapes → found.kind = .float →
      ∃ fraction, found.pattern = .sequence digitsPattern (.sequence (char '.') fraction) := by
    intro found hfound hkind
    have hlisted : found ∈ shapes.filter (·.kind == .float) :=
      List.mem_filter.2 ⟨hfound, by rw [hkind]; rfl⟩
    rw [List.mem_singleton.1 hlisted]
    exact ⟨_, rfl⟩
  -- a family has at most two kinds: `@` and `@@`, or numbers without and with a point
  rcases TokenKind.eq_or_of_family hfamily with hsame | ⟨hleft, hright⟩ | ⟨hleft, hright⟩ |
    ⟨hleft, hright⟩ | ⟨hleft, hright⟩
  · exact hsame
  · obtain rfl := hinstance hrule hleft
    obtain rfl := hclass hother hright
    exact absurd hboth (not_matches_sigils hmatches)
  · obtain rfl := hclass hrule hleft
    obtain rfl := hinstance hother hright
    exact absurd hmatches (not_matches_sigils hboth)
  · obtain rfl := hinteger hrule hleft
    obtain ⟨fraction, hpattern⟩ := hfloat hother hright
    exact absurd (hpattern ▸ hboth) (not_matches_point hmatches)
  · obtain rfl := hinteger hother hright
    obtain ⟨fraction, hpattern⟩ := hfloat hrule hleft
    exact absurd (hpattern ▸ hmatches) (not_matches_point hboth)

/-! ## Words and marks -/

/-- The words and marks with their kinds. -/
def spellings : List (String × TokenKind) := keywords ++ marks

/-- The rules of the lexicon, those for literals that are never closed apart. -/
def tableRules : List LexicalRule :=
  keywords.map (fun (spelling, kind) => ⟨kind, literal spelling⟩) ++ shapes ++
    marks.map (fun (spelling, kind) => ⟨kind, literal spelling⟩)

theorem lexicalRules_eq : lexicalRules = tableRules ++ unclosedShapes := rfl

/-- A rule of the table is for a word or mark, or it has a shape. -/
theorem mem_tableRules_iff {rule : LexicalRule} : rule ∈ tableRules ↔
    (∃ entry ∈ spellings, rule = ⟨entry.2, literal entry.1⟩) ∨ rule ∈ shapes := by
  simp only [tableRules, spellings, List.mem_append, List.mem_map]
  constructor
  · rintro ((⟨entry, hentry, rfl⟩ | hshape) | ⟨entry, hentry, rfl⟩)
    · exact .inl ⟨entry, .inl hentry, rfl⟩
    · exact .inr hshape
    · exact .inl ⟨entry, .inr hentry, rfl⟩
  · rintro (⟨entry, hentry | hentry, rfl⟩ | hshape)
    · exact .inl (.inl ⟨entry, hentry, rfl⟩)
    · exact .inr ⟨entry, hentry, rfl⟩
    · exact .inl (.inr hshape)

/-- No word or mark is listed with two kinds. -/
theorem kind_eq_of_mem_spellings : ∀ entry ∈ spellings, ∀ other ∈ spellings,
    entry.1 = other.1 → entry.2 = other.2 := by
  decide +kernel

/-- Of the words and marks, only reserved words have a shape: that of identifiers. -/
theorem kind_of_accepts_spelling : ∀ entry ∈ spellings, ∀ rule ∈ shapes,
    rule.pattern.accepts entry.1.toList = true → entry.2.isKeyword = true ∧ rule.kind = .ident := by
  decide +kernel

/-- **Rules that overlap.** Two rules that match a text are of one kind, or one of them is for a
reserved word and the other for identifiers. -/
theorem LexicalRule.kind_of_matches {rule other : LexicalRule} (hrule : rule ∈ tableRules)
    (hother : other ∈ tableRules) {first : Char} {rest : List Char}
    (hmatches : rule.pattern.Matches (first :: rest))
    (hboth : other.pattern.Matches (first :: rest)) :
    rule.kind = other.kind ∨ (rule.kind.isKeyword = true ∧ other.kind = .ident) ∨
      (rule.kind = .ident ∧ other.kind.isKeyword = true) := by
  have hspelling : ∀ {entry : String × TokenKind}, (literal entry.1).Matches (first :: rest) →
      entry.1.toList = first :: rest := fun hentry => (matches_chars_iff.1 hentry).symm
  rcases mem_tableRules_iff.1 hrule with ⟨entry, hentry, rfl⟩ | hshape <;>
    rcases mem_tableRules_iff.1 hother with ⟨entry', hentry', rfl⟩ | hshape'
  · refine .inl (kind_eq_of_mem_spellings entry hentry entry' hentry' ?_)
    exact String.toList_injective ((hspelling hmatches).trans (hspelling hboth).symm)
  · exact .inr (.inl (kind_of_accepts_spelling entry hentry other hshape'
      (accepts_iff.2 (hspelling hmatches ▸ hboth))))
  · exact .inr (.inr (kind_of_accepts_spelling entry' hentry' rule hshape
      (accepts_iff.2 (hspelling hboth ▸ hmatches))).symm)
  · exact .inl (kind_eq_of_mem_shapes hshape hshape' hmatches hboth)

end RubyIndex.Syntax
