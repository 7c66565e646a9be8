import RubyIndex.Proofs.Syntax.Recursion
import RubyIndex.Proofs.Syntax.Shape

/-! # Every statement makes progress

Where a list of statements goes on, the separators before the next statement have been taken, so
the token ahead begins a statement, and whatever the form of the statement is, it takes that token.
No token is ever skipped because no rule makes progress at it. So the productions may as well be
read without the report that such a token would get.

* `Grammar.BeginsExpressions` is what has to be known of the expressions inside a statement.
* `Grammar.advances_statement`: a statement takes a token.
* `Production.silent` reads the productions without the report, and `parseTokens_eq_silent` says
  that texts are parsed to the same. -/

namespace RubyIndex.Syntax

open RubyIndex.Syntax.Parser

namespace Grammar

/-! ## The front of a statement -/

/-- Taking tokens of some kinds ends before a token of another kind. -/
theorem kind?_rest_advanceWhile {accepts : TokenKind → Bool} {input : Cursor} {kind : TokenKind}
    (hkind : (advanceWhile accepts input).rest.kind? = some kind) : accepts kind = false := by
  unfold Cursor.kind? at hkind
  rw [rest_advanceWhile] at hkind
  obtain ⟨token, hhead, rfl⟩ := Option.map_eq_some_iff.1 hkind
  have hrefused := List.head?_dropWhile_not (accepts ·.kind) input.tokens
  rw [hhead] at hrefused
  simpa using hrefused

/-- The kind ahead is that of the token behind the blanks. -/
theorem ahead?_zero (input : Cursor) : input.ahead? 0 = (skipWhitespace input).rest.kind? := by
  obtain ⟨offset, tokens⟩ := input
  rw [Cursor.kind?, skipWhitespace, rest_advanceWhile, Cursor.ahead?]
  show Cursor.kindAhead? 0 tokens = (tokens.dropWhile _).head?.map _
  induction tokens with
  | nil => rfl
  | cons token rest ih =>
    rw [Cursor.kindAhead?, List.dropWhile_cons]
    by_cases hblank : token.kind = .whitespace <;> simp [hblank, ih]

/-- A plain statement begins with a token that closes and continues nothing. -/
theorem opens_of_plain {input : Cursor} {kind : TokenKind} (hkind : input.kind? = some kind)
    (hform : statementForm input = .plain) :
    (kind == .endKw || kind.isClosing || kind.opensClause) = false := by
  unfold statementForm at hform
  rw [hkind] at hform
  split at hform <;> grind

/-- What separates, closes and continues nothing does not end a statement before its first token. -/
theorem endsBefore_start {kind : TokenKind} (hseparates : kind.separatesStatements = false)
    (hopens : (kind == .endKw || kind.isClosing || kind.opensClause) = false) :
    (ExpressionRun.start .statement).endsBefore kind = false := by
  revert hseparates hopens
  cases kind <;> decide

/-- What a stray clause or an unexpected token begins with stands on the line of the error. -/
theorem standsInLine_of_form {input : Cursor} {kind : TokenKind} (hkind : input.kind? = some kind)
    (hform : statementForm input = .unexpected ∨ statementForm input = .strayClause) :
    (kind != .newline && kind != .semicolon) = true := by
  have hclass : (kind == .endKw || kind.isClosing || kind.opensClause) = true := by
    unfold statementForm at hform
    rw [hkind] at hform
    rcases hform with hform | hform <;> split at hform <;> grind
  revert hclass
  cases kind <;> decide

/-! ## Statements take a token -/

/-- **Expressions begin.** An expression takes the token ahead, unless it is a blank or the
expression ends before it. -/
def BeginsExpressions (parse : Production → Parser) : Prop :=
  ∀ run input kind, input.kind? = some kind → kind ≠ .whitespace → run.endsBefore kind = false →
    (parse (.expression run) input).rest.tokens.length < input.tokens.length

/-- Where there is a token, a parser that advances takes one. -/
theorem rest_lt_of_advances {parser : Parser} (hadvances : Advances parser) {input : Cursor}
    {kind : TokenKind} (hkind : input.kind? = some kind) :
    (parser input).rest.tokens.length < input.tokens.length := by
  have hrest := hadvances input
  obtain ⟨offset, token, rest, rfl, -⟩ := Cursor.exists_of_kind? hkind
  simp only [List.length_cons] at hrest ⊢
  omega

section

variable {parse : Production → Parser} (hparse : ∀ production, Lossless (parse production))

include hparse

theorem advances_moduleDefinition : Advances (moduleDefinition parse) :=
  ((((Advances.advance.followedBy .skipWhitespace).followedBy
    (satisfies_definedName _)).followedBy (satisfies_body hparse)).followedBy
    (satisfies_closing _)).node _

theorem advances_classDefinition : Advances (classDefinition parse) :=
  (((((Advances.advance.followedBy .skipWhitespace).followedBy
    (satisfies_definedName _)).followedBy (satisfies_superclass hparse)).followedBy
    (satisfies_body hparse)).followedBy (satisfies_closing _)).node _

theorem advances_assignment : Advances (assignment parse) :=
  (((((Advances.advance.node _).followedBy .skipWhitespace).followedBy .advance).followedBy
    (.advanceWhile _)).followedBy ((satisfies_expression hparse _).node (by decide))).node _

/-- An expression that goes on takes the token ahead, be it alone or with what it opens. -/
theorem beginsExpressions_layer : BeginsExpressions (layer parse) := by
  intro run input kind hkind hblank hgoesOn
  show (remainder parse run input).rest.tokens.length < _
  unfold remainder
  split
  · rename_i hnone
    rw [hnone] at hkind
    cases hkind
  · rename_i hwhitespace
    rw [hwhitespace, Option.some.injEq] at hkind
    exact absurd hkind.symm hblank
  · rename_i found _ hfound
    obtain rfl : found = kind := Option.some.inj (hfound.symm.trans hkind)
    rw [hgoesOn, if_neg Bool.false_ne_true]
    split
    · exact rest_lt_of_advances (Advances.advance.followedBy (hparse _)) hkind
    · exact rest_lt_of_advances ((advances_block hparse).followedBy (hparse _)) hkind
    · exact rest_lt_of_advances ((advances_methodDefinition hparse).followedBy (hparse _)) hkind

/-- A modifier takes nothing back. -/
theorem rest_withModifier_le (parser : Parser) (input : Cursor) :
    (withModifier parse parser input).rest.tokens.length ≤ (parser input).rest.tokens.length := by
  have htail : Lossless (skipWhitespace ++ advance ++ expression parse .statement) :=
    (Satisfies.skipWhitespace.followedBy .advance).followedBy (satisfies_expression hparse _)
  simp only [withModifier]
  split
  · exact (htail _).length_le
  · exact Nat.le_refl _

/-- **A statement takes a token**, where the separators have been taken. -/
theorem advances_statement (hbegins : BeginsExpressions parse) {input : Cursor}
    {kind : TokenKind} (hkind : input.kind? = some kind)
    (hseparators : kind.separatesStatements = false) :
    (statement parse input).rest.tokens.length < input.tokens.length := by
  have hmodified : ∀ {parser : Parser}, Advances parser →
      (withModifier parse parser input).rest.tokens.length < input.tokens.length :=
    fun hadvances => Nat.lt_of_le_of_lt (rest_withModifier_le hparse _ input)
      (rest_lt_of_advances hadvances hkind)
  -- an error takes the line that it is on
  have hskipped : ∀ fault, (kind != .newline && kind != .semicolon) = true →
      (skipLine fault input).rest.tokens.length < input.tokens.length := by
    intro fault hline
    obtain ⟨offset, token, rest, rfl, rfl⟩ := Cursor.exists_of_kind? hkind
    show (advanceWhile _ ⟨offset, token :: rest⟩).rest.tokens.length < (token :: rest).length
    rw [rest_advanceWhile, List.dropWhile_cons, if_pos hline]
    exact Nat.lt_succ_of_le (List.dropWhile_suffix _).length_le
  unfold statement
  split
  · exact hmodified (advances_moduleDefinition hparse)
  · exact hmodified (advances_classDefinition hparse)
  · exact hmodified (advances_methodDefinition hparse)
  · exact hmodified (advances_block hparse)
  · exact hmodified (advances_assignment hparse)
  · rename_i hform
    exact hskipped _ (standsInLine_of_form hkind (.inl hform))
  · rename_i hform
    exact hskipped _ (standsInLine_of_form hkind (.inr hform))
  · rename_i hform
    refine hbegins (.start .statement) input kind hkind ?_ ?_
    · rintro rfl
      cases hseparators
    · exact endsBefore_start hseparators (opens_of_plain hkind hform)

/-- **No token is in the way.** A list of statements goes on with a statement alone. -/
theorem progress_eq_statement (hbegins : BeginsExpressions parse) {input : Cursor}
    {kind : TokenKind} (hkind : input.kind? = some kind)
    (hseparators : kind.separatesStatements = false) :
    progress parse input = statement parse input := by
  simp only [progress]
  rw [if_pos (advances_statement hparse hbegins hkind hseparators)]

end

end Grammar

/-! ## Productions without the report -/

namespace Production

/-- The parser of a production that takes a token without a report where its depth is used up. -/
def silent : Nat → Production → Parser
  | 0, _ => advance
  | bound + 1, production => Grammar.layer (silent bound) production

theorem lossless_silent (bound : Nat) (production : Production) :
    Lossless (silent bound production) := by
  induction bound generalizing production with
  | zero => exact Satisfies.advance
  | succ bound ih => exact Grammar.satisfies_layer ih production

theorem beginsExpressions_silent (bound : Nat) : Grammar.BeginsExpressions (silent bound) := by
  cases bound with
  | zero => exact fun run input kind hkind _ _ => Grammar.rest_lt_of_advances .advance hkind
  | succ bound => exact Grammar.beginsExpressions_layer (lossless_silent bound)

end Production

/-- A text is parsed the same by any reading of the productions layer by layer, whatever it does
where its depth is used up. -/
theorem parseTokens_eq_of_layers {parsers : Nat → Production → Parser}
    (hparsers : ∀ bound production, parsers (bound + 1) production =
      Grammar.layer (parsers bound) production) (tokens : List Token) :
    parseTokens tokens =
      parsers (Production.bound tokens.length) (.statements false) ⟨0, tokens⟩ := by
  have hbound : 3 * tokens.length + (Production.statements false).rank <
      Production.bound tokens.length := by
    have hrank := (Production.statements false).rank_le
    unfold Production.bound
    omega
  exact Production.sameUpTo_of_layers (fun _ _ => rfl) hparsers Production.lossless
    tokens.length (.statements false) hbound hbound ⟨0, tokens⟩ (Nat.le_refl _)

/-- **The report is never needed**: to the depth that suffices for a text, productions are read
the same without it. -/
theorem parseTokens_eq_silent (tokens : List Token) :
    parseTokens tokens =
      Production.silent (Production.bound tokens.length) (.statements false) ⟨0, tokens⟩ :=
  parseTokens_eq_of_layers (fun _ _ => rfl) tokens

end RubyIndex.Syntax
