import RubyIndex.Proofs.Syntax.Recursion

/-! # Parsers look ahead within a line

A parser that leaves a line break over cannot tell what comes after it: wherever the grammar looks
ahead, it skips blanks only, or looks at the token behind one that is no line break. So it does the
same in front of a longer text, and as errors and rests count from where a text begins, it does the
same at another place of a text.

* `Cursor.within` puts an input into a longer text, `Parsed.within` a result.
* `Sheltered`: the last line break of an input hides what comes after the input.
* `Stable` readings of an input cannot see beyond it, and `Parser.Local` parsers do nothing that
  depends on it.
* `Production.local_read`: the productions are local. -/

namespace RubyIndex.Syntax

open RubyIndex.Syntax.Parser

/-! ## Parts of a longer text -/

/-- An error in a text that stands at a distance from the beginning of a longer one. -/
def SyntaxError.shift (distance : Nat) (error : SyntaxError) : SyntaxError :=
  { error with start := distance + error.start, stop := distance + error.stop }

/-- An input that stands at a distance from the beginning of a longer text, with more tokens after
it. -/
def Cursor.within (distance : Nat) (later : List Token) (input : Cursor) : Cursor :=
  ⟨distance + input.offset, input.tokens ++ later⟩

/-- A result of which the input stands in a longer text. -/
def Parsed.within (distance : Nat) (later : List Token) (parsed : Parsed) : Parsed :=
  ⟨parsed.trees, parsed.errors.map (·.shift distance), parsed.rest.within distance later⟩

@[simp] theorem Parsed.rest_within (distance : Nat) (later : List Token) (parsed : Parsed) :
    (parsed.within distance later).rest = parsed.rest.within distance later := rfl

/-- Results in a row are put into a longer text one by one. -/
theorem Parsed.within_append (distance : Nat) (later : List Token) (first second : Parsed) :
    (first.append second).within distance later =
      (first.within distance later).append (second.within distance later) := by
  simp only [Parsed.within, Parsed.append, List.map_append]

/-- **Sheltered tokens.** Nothing comes after them, or the last of them is a line break. -/
def Sheltered (later tokens : List Token) : Prop :=
  later = [] ∨ ∃ last, tokens.getLast? = some last ∧ last.kind = .newline

namespace Sheltered

variable {later tokens : List Token}

/-- Without tokens there is no line break. -/
theorem eq_nil (h : Sheltered later []) : later = [] := by
  rcases h with hnone | ⟨last, hlast, -⟩
  · exact hnone
  · cases hlast

/-- What stands before sheltered tokens is sheltered with them. -/
theorem append_left (front : List Token) (h : Sheltered later tokens) :
    Sheltered later (front ++ tokens) := by
  rcases h with hnone | ⟨last, hlast, hnewline⟩
  · exact .inl hnone
  · exact .inr ⟨last, by rw [List.getLast?_append, hlast, Option.some_or], hnewline⟩

/-- The input of a result is sheltered if what it left is. -/
theorem before {parsed : Parsed} {input : Cursor} (haccounts : parsed.Accounts input)
    (h : Sheltered later parsed.rest.tokens) : Sheltered later input.tokens :=
  haccounts.tokens ▸ h.append_left _

/-- Behind a token that is no line break, sheltered tokens are sheltered. -/
theorem tail {token : Token} {rest : List Token} (h : Sheltered later (token :: rest))
    (hkind : token.kind ≠ .newline) : Sheltered later rest := by
  rcases h with hnone | ⟨last, hlast, hnewline⟩
  · exact .inl hnone
  · cases rest with
    | nil =>
      obtain rfl := Option.some.inj hlast
      exact absurd hnewline hkind
    | cons second rest =>
      rw [List.getLast?_cons_cons] at hlast
      exact .inr ⟨last, hlast, hnewline⟩

end Sheltered

/-! ## Readings of the input ahead -/

/-- A reading of the input is **stable** if it does not see what comes after a sheltered input, nor
where the input stands. -/
def Stable {α : Type} (reading : Cursor → α) : Prop :=
  ∀ distance later input, Sheltered later input.tokens →
    reading (input.within distance later) = reading input

namespace Stable

/-- A reading of the next two tokens is stable if the second does not count after a line break. -/
theorem nextTwo {α : Type} (reading : Option TokenKind → Option TokenKind → α)
    (hnewline : ∀ second other, reading (some .newline) second = reading (some .newline) other) :
    Stable fun input => reading input.kind? input.secondKind? := by
  intro distance later ⟨offset, tokens⟩ hsheltered
  cases tokens with
  | nil =>
    obtain rfl := hsheltered.eq_nil
    rfl
  | cons token rest =>
    cases rest with
    | cons second rest => rfl
    | nil =>
      by_cases hkind : token.kind = .newline
      · show reading (some token.kind) _ = reading (some token.kind) _
        rw [hkind]
        exact hnewline _ _
      · obtain rfl := (hsheltered.tail hkind).eq_nil
        rfl

/-- What is made of a stable reading is stable. -/
theorem map {α β : Type} {reading : Cursor → α} (use : α → β) (h : Stable reading) :
    Stable fun input => use (reading input) :=
  fun distance later input hsheltered => congrArg use (h distance later input hsheltered)

theorem kind? : Stable Cursor.kind? := nextTwo (fun kind _ => kind) fun _ _ => rfl

theorem isAt (kind : TokenKind) : Stable (Cursor.isAt kind) :=
  nextTwo (fun found _ => found == some kind) fun _ _ => rfl

theorem text : Stable Cursor.text := by
  intro distance later ⟨offset, tokens⟩ hsheltered
  cases tokens with
  | nil =>
    obtain rfl := hsheltered.eq_nil
    rfl
  | cons token rest => rfl

/-- Blanks are skipped up to the line break at most. -/
theorem kindAhead?_zero {later tokens : List Token} (hsheltered : Sheltered later tokens) :
    Cursor.kindAhead? 0 (tokens ++ later) = Cursor.kindAhead? 0 tokens := by
  induction tokens with
  | nil =>
    obtain rfl := hsheltered.eq_nil
    rfl
  | cons token rest ih =>
    rw [List.cons_append, Cursor.kindAhead?, Cursor.kindAhead?]
    split
    · rename_i hblank
      exact ih (hsheltered.tail (by rw [hblank]; decide))
    · rfl

theorem ahead?_zero : Stable (Cursor.ahead? 0) := fun _ _ _ hsheltered =>
  kindAhead?_zero hsheltered

/-- The first token is skipped, and then blanks up to the line break at most. -/
theorem ahead?_one {distance : Nat} {later : List Token} {input : Cursor} {kind : TokenKind}
    (hsheltered : Sheltered later input.tokens) (hkind : input.kind? = some kind)
    (hblank : kind ≠ .whitespace) (hnewline : kind ≠ .newline) :
    (input.within distance later).ahead? 1 = input.ahead? 1 := by
  obtain ⟨offset, token, rest, rfl, rfl⟩ := Cursor.exists_of_kind? hkind
  show Cursor.kindAhead? 1 (token :: (rest ++ later)) = Cursor.kindAhead? 1 (token :: rest)
  rw [Cursor.kindAhead?, Cursor.kindAhead?, if_neg hblank, if_neg hblank]
  exact kindAhead?_zero (hsheltered.tail hnewline)

/-- The token behind the next one decides about labels, unless the next one is a line break. -/
theorem atLabel {distance : Nat} {later : List Token} {input : Cursor} {kind : TokenKind}
    (hsheltered : Sheltered later input.tokens) (hkind : input.kind? = some kind)
    (hnewline : kind ≠ .newline) : (input.within distance later).atLabel = input.atLabel := by
  obtain ⟨offset, token, rest, rfl, rfl⟩ := Cursor.exists_of_kind? hkind
  cases rest with
  | cons second rest => rfl
  | nil =>
    obtain rfl := (hsheltered.tail hnewline).eq_nil
    rfl

end Stable

/-- An error about the next token stands where the token does. -/
theorem Cursor.error_within {distance : Nat} {later : List Token} {input : Cursor}
    (hsheltered : Sheltered later input.tokens) (fault : SyntaxFault) :
    (input.within distance later).error fault = (input.error fault).shift distance := by
  obtain ⟨offset, tokens⟩ := input
  cases tokens with
  | nil =>
    obtain rfl := hsheltered.eq_nil
    rfl
  | cons token rest =>
    show SyntaxError.mk fault (distance + offset) (distance + offset + token.width) = _
    rw [Nat.add_assoc]
    rfl

/-! ## Local parsers -/

namespace Parser

/-- What two parsers in a row do. -/
theorem append_apply (first second : Parser) (input : Cursor) :
    (first ++ second) input = (first input).append (second (first input).rest) := rfl

/-- **A local parser** loses nothing, and where it leaves a sheltered rest, it does the same in a
longer text. -/
structure Local (parser : Parser) : Prop where
  lossless : Lossless parser
  within : ∀ distance later input, Sheltered later (parser input).rest.tokens →
    parser (input.within distance later) = (parser input).within distance later

namespace Local

variable {first second parser positive negative : Parser}

/-- A lossless parser need be considered on sheltered inputs only. -/
theorem of_lossless (hlossless : Lossless parser)
    (h : ∀ distance later input, Sheltered later input.tokens →
      Sheltered later (parser input).rest.tokens →
        parser (input.within distance later) = (parser input).within distance later) :
    Local parser :=
  ⟨hlossless, fun distance later input hsheltered =>
    h distance later input (hsheltered.before (hlossless input)) hsheltered⟩

theorem nothing : Local nothing := ⟨Satisfies.nothing, fun _ _ _ _ => rfl⟩

theorem report (fault : SyntaxFault) : Local (report fault) := by
  refine ⟨Satisfies.report fault, fun distance later input hsheltered => ?_⟩
  have hinput : Sheltered later input.tokens := hsheltered
  show Parsed.mk [] [(input.within distance later).error fault] _ = _
  rw [Cursor.error_within hinput]
  rfl

theorem followedBy (hfirst : Local first) (hsecond : Local second) : Local (first ++ second) := by
  refine ⟨hfirst.lossless.followedBy hsecond.lossless, fun distance later input hsheltered => ?_⟩
  have hmiddle : Sheltered later (first input).rest.tokens :=
    hsheltered.before (hsecond.lossless (first input).rest)
  calc (first ++ second) (input.within distance later)
      = (first (input.within distance later)).append
          (second (first (input.within distance later)).rest) := append_apply first second _
    _ = ((first input).within distance later).append
          (second ((first input).rest.within distance later)) := by
        rw [hfirst.within distance later input hmiddle]
        rfl
    _ = ((first input).within distance later).append
          ((second (first input).rest).within distance later) := by
        rw [hsecond.within distance later (first input).rest hsheltered]
    _ = ((first ++ second) input).within distance later :=
        (Parsed.within_append distance later _ _).symm

theorem node (kind : NodeKind) (h : Local parser) : Local (node kind parser) := by
  refine ⟨fun input => (h.lossless input).wrap kind, fun distance later input hsheltered => ?_⟩
  show (parser (input.within distance later)).wrap kind = _
  rw [h.within distance later input hsheltered]
  rfl

theorem advance : Local advance := by
  refine ⟨Satisfies.advance, fun distance later ⟨offset, tokens⟩ hsheltered => ?_⟩
  cases tokens with
  | nil =>
    obtain rfl := hsheltered.eq_nil
    rfl
  | cons token rest =>
    show Parsed.mk [.leaf token] [] ⟨distance + offset + token.width, rest ++ later⟩ = _
    rw [Nat.add_assoc]
    rfl

theorem advanceWhile (accepts : TokenKind → Bool) : Local (advanceWhile accepts) := by
  refine ⟨Satisfies.advanceWhile accepts, fun distance later ⟨offset, tokens⟩ hsheltered => ?_⟩
  show advanceAmong accepts (distance + offset) (tokens ++ later) =
    (advanceAmong accepts offset tokens).within distance later
  replace hsheltered : Sheltered later (advanceAmong accepts offset tokens).rest.tokens :=
    hsheltered
  -- the offset moves with every token, so it is generalized
  induction tokens generalizing offset with
  | nil =>
    obtain rfl := hsheltered.eq_nil
    rfl
  | cons token rest ih =>
    rw [advanceAmong] at hsheltered
    rw [List.cons_append, advanceAmong, advanceAmong]
    split
    · rename_i haccepted
      rw [if_pos haccepted] at hsheltered
      simp only [Nat.add_assoc, ih _ hsheltered]
      rfl
    · rfl

theorem skipWhitespace : Local skipWhitespace := advanceWhile _

/-- A parser that is chosen by a stable reading. -/
theorem choose {α : Type} {reading : Cursor → α} (hreading : Stable reading) {parser : α → Parser}
    (h : ∀ found, Local (parser found)) : Local fun input => parser (reading input) input := by
  refine ⟨fun input => (h _).lossless input, fun distance later input hsheltered => ?_⟩
  have hinput := hsheltered.before ((h (reading input)).lossless input)
  show parser (reading (input.within distance later)) (input.within distance later) = _
  rw [hreading distance later input hinput]
  exact (h _).within distance later input hsheltered

theorem ifAhead {condition : Cursor → Bool} (hcondition : Stable condition)
    (hpositive : Local positive) (hnegative : Local negative) :
    Local (ifAhead condition positive negative) := by
  have hbranch : ∀ holds : Bool, Local fun input => if holds then positive input
      else negative input := by
    intro holds
    cases holds with
    | true => exact hpositive
    | false => exact hnegative
  exact choose hcondition hbranch

theorem whenAhead {condition : Cursor → Bool} (hcondition : Stable condition)
    (h : Local parser) : Local (whenAhead condition parser) := h.ifAhead hcondition nothing

theorem expect (kind : TokenKind) (fault : SyntaxFault) : Local (expect kind fault) :=
  advance.ifAhead (.isAt kind) (report fault)

end Local

end Parser

namespace Grammar

/-! ## Names and headers -/

theorem local_qualifiers : Local fun input => qualifiersAmong input.offset input.tokens := by
  refine ⟨satisfies_qualifiers, fun distance later ⟨offset, tokens⟩ hsheltered => ?_⟩
  show qualifiersAmong (distance + offset) (tokens ++ later) =
    (qualifiersAmong offset tokens).within distance later
  replace hsheltered : Sheltered later (qualifiersAmong offset tokens).rest.tokens := hsheltered
  fun_induction qualifiersAmong offset tokens with
  | case1 offset colons constant rest isQualifier parsed ih =>
    rw [List.cons_append, List.cons_append, qualifiersAmong, if_pos isQualifier, Nat.add_assoc,
      Nat.add_assoc, ← Nat.add_assoc offset, ih hsheltered]
    rfl
  | case2 offset colons constant rest isOther =>
    rw [List.cons_append, List.cons_append, qualifiersAmong, if_neg isOther]
    rfl
  | case3 offset tokens isShort =>
    cases tokens with
    | nil =>
      obtain rfl := hsheltered.eq_nil
      rfl
    | cons token rest =>
      cases rest with
      | cons second rest => exact absurd rfl (isShort token second rest)
      | nil =>
        cases later with
        | nil => rfl
        | cons next more =>
          -- a line break continues no name, whatever comes after it
          obtain ⟨last, hlast, hnewline⟩ := hsheltered.resolve_left (List.cons_ne_nil _ _)
          obtain rfl : token = last := Option.some.inj hlast
          rw [List.singleton_append, qualifiersAmong, hnewline]
          rfl

theorem local_constPath : Local constPath :=
  (((Local.advance.whenAhead (.isAt _)).followedBy (.expect _ _)).followedBy
    local_qualifiers).node _

theorem local_definedName (construct : Construct) : Local (definedName construct) := by
  have hahead : Stable fun input => input.isAt .const || input.isAt .colonColon :=
    .nextTwo (fun kind _ => kind == some .const || kind == some .colonColon) fun _ _ => rfl
  exact local_constPath.ifAhead hahead (.report _)

theorem local_closing (construct : Construct) : Local (closing construct) := .expect _ _

theorem local_methodNameTokens : Local methodNameTokens := by
  have hsetter : Stable setterAhead :=
    .nextTwo (fun kind second => kind == some .eq &&
      (second == some .leftParen || second == some .ident)) fun _ _ => rfl
  have hindexed : Stable fun input => input.isAt .eq && input.secondKind? == some .leftParen :=
    .nextTwo (fun kind second => kind == some .eq && second == some .leftParen) fun _ _ => rfl
  refine .of_lossless Satisfies.methodNameTokens fun distance later input hinput => ?_
  unfold methodNameTokens
  rw [Stable.kind? distance later input hinput]
  split
  · exact (Local.advance.followedBy (Local.advance.whenAhead hsetter)).within distance later input
  · exact (Local.advance.followedBy (Local.advance.whenAhead hsetter)).within distance later input
  · exact ((Local.advance.followedBy (Local.advance.whenAhead (.isAt _))).followedBy
      (Local.advance.whenAhead hindexed)).within distance later input
  · split
    · exact Local.advance.within distance later input
    · exact (Local.report _).within distance later input
  · exact (Local.report _).within distance later input

theorem local_methodName : Local methodName := local_methodNameTokens.node _

theorem local_receiver : Local receiver := by
  have hahead : Stable receiverAhead :=
    .nextTwo (fun kind second => (kind == some .selfKw || kind == some .const) &&
      second == some .dot) fun _ _ => rfl
  exact ((Local.advance.followedBy .advance).node _).whenAhead hahead

theorem local_parenthesized : Local parenthesized := by
  refine ⟨satisfies_parenthesized, fun distance later ⟨offset, tokens⟩ hsheltered => ?_⟩
  show parenthesizedAmong 0 (distance + offset) (tokens ++ later) =
    (parenthesizedAmong 0 offset tokens).within distance later
  replace hsheltered : Sheltered later (parenthesizedAmong 0 offset tokens).rest.tokens :=
    hsheltered
  -- the depth of the open parentheses changes from token to token
  generalize 0 = depth at hsheltered ⊢
  fun_induction parenthesizedAmong depth offset tokens with
  | case1 depth offset =>
    obtain rfl := hsheltered.eq_nil
    rfl
  | case2 depth offset token rest depthAfter closes =>
    rw [List.cons_append, parenthesizedAmong, if_pos closes, Nat.add_assoc]
    rfl
  | case3 depth offset token rest depthAfter goesOn parsed ih =>
    rw [List.cons_append, parenthesizedAmong, if_neg goesOn, Nat.add_assoc, ih hsheltered]
    rfl

theorem stable_bareParametersAhead : Stable bareParametersAhead := by
  intro distance later input hsheltered
  unfold bareParametersAhead
  rw [Stable.isAt _ distance later input hsheltered,
    Stable.ahead?_zero distance later input hsheltered]

/-- The clause that is ahead, with the clauses after it. -/
def nextClause (parse : Production → Parser) : Parser := fun input =>
  match input.kind? with
  | some .elsifKw | some .whenKw | some .inKw | some .rescueKw =>
      (advance ++ expression parse .statement ++ parse .clauses) input
  | some .elseKw | some .ensureKw | some .thenKw => (advance ++ parse .clauses) input
  | _ => nothing input

/-! ## Constructs -/

section Constructs

variable {parse : Production → Parser} (hparse : ∀ production, Local (parse production))

include hparse

theorem local_body : Local (body parse) := (hparse _).node _

theorem local_moduleDefinition : Local (moduleDefinition parse) :=
  ((((Local.advance.followedBy .skipWhitespace).followedBy (local_definedName _)).followedBy
    (local_body hparse)).followedBy (local_closing _)).node _

theorem local_superclass : Local (superclass parse) := by
  have hahead : Stable (·.ahead? 0 == some .lt) := Stable.ahead?_zero.map (· == some .lt)
  exact (((Local.skipWhitespace.followedBy .advance).followedBy .skipWhitespace).followedBy
    ((hparse _).node _)).whenAhead hahead

theorem local_classDefinition : Local (classDefinition parse) :=
  (((((Local.advance.followedBy .skipWhitespace).followedBy (local_definedName _)).followedBy
    (local_superclass hparse)).followedBy (local_body hparse)).followedBy
    (local_closing _)).node _

theorem local_parameters : Local (parameters parse) :=
  (local_parenthesized.node _).ifAhead (.isAt _)
    ((Local.skipWhitespace.followedBy ((hparse _).node _)).whenAhead stable_bareParametersAhead)

theorem local_endlessBody : Local (endlessBody parse) :=
  ((Local.skipWhitespace.followedBy .advance).followedBy .skipWhitespace).followedBy
    (((hparse _).node _).node _)

theorem local_methodDefinition : Local (methodDefinition parse) := by
  have hahead : Stable (·.ahead? 0 == some .eq) := Stable.ahead?_zero.map (· == some .eq)
  exact (((((Local.advance.followedBy .skipWhitespace).followedBy local_receiver).followedBy
    local_methodName).followedBy (local_parameters hparse)).followedBy
    ((local_endlessBody hparse).ifAhead hahead
      ((local_body hparse).followedBy (local_closing _)))).node _

theorem local_assignment : Local (assignment parse) :=
  (((((Local.advance.node _).followedBy .skipWhitespace).followedBy .advance).followedBy
    (.advanceWhile _)).followedBy ((hparse _).node _)).node _

theorem local_block : Local (block parse) := by
  have hblock : ∀ kind? : Option TokenKind, Local (node .block (advance ++
      expression parse (headerMode kind?) ++ body parse ++ closing .block)) := fun kind? =>
    (((Local.advance.followedBy (hparse _)).followedBy (local_body hparse)).followedBy
      (local_closing _)).node _
  exact .choose .kind? hblock

/-! ## Statements -/

omit hparse in
/-- The form of a statement shows in its first tokens, or in a keyword or variable and what comes
after it on its line. -/
theorem stable_statementForm : Stable statementForm := by
  intro distance later input hsheltered
  have hsame := Stable.kind? distance later input hsheltered
  unfold statementForm
  cases hkind : input.kind? with
  | none => rw [hsame, hkind]
  | some kind =>
    by_cases hskipped : kind = .whitespace ∨ kind = .newline
    · -- no statement of a form of its own begins with a blank or a line break
      rcases hskipped with rfl | rfl <;> rw [hsame, hkind] <;> rfl
    · obtain ⟨hblank, hnewline⟩ := not_or.1 hskipped
      rw [hsame, hkind, Stable.atLabel hsheltered hkind hnewline,
        Stable.ahead?_one hsheltered hkind hblank hnewline]

theorem local_withModifier {parser : Parser} (h : Local parser) :
    Local (withModifier parse parser) := by
  have htail : Local (skipWhitespace ++ advance ++ expression parse .statement) :=
    (Local.skipWhitespace.followedBy .advance).followedBy (hparse _)
  refine ⟨fun input => holds_withModifier (fun inner => (hparse inner).lossless)
    (h.lossless input), fun distance later input hsheltered => ?_⟩
  simp only [withModifier] at hsheltered ⊢
  have hparsed : Sheltered later (parser input).rest.tokens := by
    split at hsheltered
    · exact hsheltered.before (htail.lossless (parser input).rest)
    · exact hsheltered
  have hahead : ((parser input).within distance later).rest.ahead? 0 =
      (parser input).rest.ahead? 0 := Stable.ahead?_zero distance later _ hparsed
  rw [h.within distance later input hparsed, hahead]
  split
  · rename_i hmodifier
    rw [if_pos hmodifier] at hsheltered
    have hmodified := htail.within distance later (parser input).rest hsheltered
    show (((parser input).within distance later).append
      ((skipWhitespace ++ advance ++ expression parse .statement)
        ((parser input).rest.within distance later))).wrap .statement = _
    rw [hmodified, ← Parsed.within_append]
    rfl
  · rfl

omit hparse in
theorem local_skipLine (fault : SyntaxFault) : Local (skipLine fault) :=
  (Local.report fault).followedBy ((Local.advanceWhile _).node _)

theorem local_statement : Local (statement parse) := by
  refine .of_lossless (satisfies_statement fun inner => (hparse inner).lossless)
    fun distance later input hinput => ?_
  unfold statement
  rw [stable_statementForm distance later input hinput, Stable.text distance later input hinput]
  split
  · exact (local_withModifier hparse (local_moduleDefinition hparse)).within distance later input
  · exact (local_withModifier hparse (local_classDefinition hparse)).within distance later input
  · exact (local_withModifier hparse (local_methodDefinition hparse)).within distance later input
  · exact (local_withModifier hparse (local_block hparse)).within distance later input
  · exact (local_withModifier hparse (local_assignment hparse)).within distance later input
  · exact (local_skipLine _).within distance later input
  · exact (local_skipLine _).within distance later input
  · exact ((hparse _).node _).within distance later input

/-! ## Productions -/

omit hparse in
theorem local_skipStuck : Local skipStuck := by
  have hskip : ∀ kind? : Option TokenKind, Local (report (.stuck (kind?.getD .error)) ++ advance) :=
    fun _ => (Local.report _).followedBy .advance
  exact .choose .kind? hskip

theorem local_progress : Local (progress parse) := by
  have hstatement := local_statement hparse
  refine ⟨satisfies_progress fun inner => (hparse inner).lossless,
    fun distance later input hsheltered => ?_⟩
  simp only [progress] at hsheltered ⊢
  have hparsed : Sheltered later (statement parse input).rest.tokens := by
    split at hsheltered
    · exact hsheltered
    · exact hsheltered.before (local_skipStuck.lossless (statement parse input).rest)
  rw [hstatement.within distance later input hparsed]
  -- both lengths have grown by what comes after
  have hlength : ((statement parse input).within distance later).rest.tokens.length <
      (input.within distance later).tokens.length ↔
      (statement parse input).rest.tokens.length < input.tokens.length := by
    simp only [Parsed.within, Cursor.within, List.length_append, Nat.add_lt_add_iff_right]
  simp only [hlength]
  split
  · rfl
  · rename_i hstuck
    rw [if_neg hstuck] at hsheltered
    have hskipped := local_skipStuck.within distance later (statement parse input).rest hsheltered
    show ((statement parse input).within distance later).append
      (skipStuck ((statement parse input).rest.within distance later)) = _
    rw [hskipped, ← Parsed.within_append]

theorem local_statements (nested : Bool) : Local (statements parse nested) := by
  have hend : Stable (statementsEnd nested) := by
    intro distance later input hsheltered
    unfold statementsEnd
    rw [Stable.kind? distance later input hsheltered]
  exact (Local.advanceWhile _).followedBy
    (Local.nothing.ifAhead hend ((local_progress hparse).followedBy (hparse _)))

theorem local_nextClause : Local (nextClause parse) := by
  have hheaded : Local (advance ++ expression parse .statement ++ parse .clauses) :=
    (Local.advance.followedBy (hparse _)).followedBy (hparse _)
  have hbare : Local (advance ++ parse .clauses) := Local.advance.followedBy (hparse _)
  refine .of_lossless (fun input => ?_) ?_
  · unfold nextClause
    split
    · exact hheaded.lossless input
    · exact hheaded.lossless input
    · exact hheaded.lossless input
    · exact hheaded.lossless input
    · exact hbare.lossless input
    · exact hbare.lossless input
    · exact hbare.lossless input
    · exact Local.nothing.lossless input
  · intro distance later input hinput
    unfold nextClause
    rw [Stable.kind? distance later input hinput]
    split
    · exact hheaded.within distance later input
    · exact hheaded.within distance later input
    · exact hheaded.within distance later input
    · exact hheaded.within distance later input
    · exact hbare.within distance later input
    · exact hbare.within distance later input
    · exact hbare.within distance later input
    · exact Local.nothing.within distance later input

theorem local_clauses : Local (clauses parse) := (hparse _).followedBy (local_nextClause hparse)

theorem local_remainder (run : ExpressionRun) : Local (remainder parse run) := by
  refine .of_lossless (satisfies_remainder (fun inner => (hparse inner).lossless) run)
    fun distance later input hinput => ?_
  unfold remainder
  rw [Stable.kind? distance later input hinput]
  split
  · exact Local.nothing.within distance later input
  · rw [Stable.ahead?_zero distance later input hinput]
    split
    · exact Local.nothing.within distance later input
    · exact (Local.advance.followedBy (hparse _)).within distance later input
  · rename_i kind _ hkind
    -- a line break is no keyword, so it is never read as a label
    have hstep : run.step kind (input.within distance later).atLabel =
        run.step kind input.atLabel := by
      by_cases hnewline : kind = .newline
      · subst hnewline
        rfl
      · rw [Stable.atLabel hinput hkind hnewline]
    rw [hstep]
    split
    · exact Local.nothing.within distance later input
    · split
      · exact (Local.advance.followedBy (hparse _)).within distance later input
      · exact ((local_block hparse).followedBy (hparse _)).within distance later input
      · exact ((local_methodDefinition hparse).followedBy (hparse _)).within distance later input

theorem local_layer (production : Production) : Local (layer parse production) := by
  cases production with
  | statements nested => exact local_statements hparse nested
  | clauses => exact local_clauses hparse
  | expression run => exact local_remainder hparse run

end Constructs

end Grammar

namespace Production

/-- Every production is local, to whatever depth it is read. -/
theorem local_of_bound (bound : Nat) (production : Production) :
    Local (parser bound production) := by
  induction bound generalizing production with
  | zero => exact Grammar.local_skipStuck
  | succ bound ih => exact Grammar.local_layer ih production

/-- **The productions are local.** -/
theorem local_read (production : Production) : Local production.read := by
  refine ⟨lossless_read production, fun distance later input hsheltered => ?_⟩
  -- the depth for the longer text suffices for the input as well
  set depth := bound (input.within distance later).tokens.length with hdepth
  have hsame : parser depth production input = production.read input := by
    refine parser_eq_read production input ?_
    rw [hdepth, Cursor.within, List.length_append]
    unfold bound
    omega
  rw [← hsame] at hsheltered ⊢
  exact (local_of_bound depth production).within distance later input hsheltered

end Production

end RubyIndex.Syntax
