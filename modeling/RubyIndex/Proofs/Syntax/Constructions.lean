import RubyIndex.Proofs.Syntax.Progress

/-! # Properties of whatever the grammar builds

Some properties hold of the results of the grammar because of what it does not do: it notes no error
that its constructs do not note themselves, and it puts the node of a value around nothing but an
expression. Such a property is kept by tokens, by joining results, by the reports of the constructs
and by all nodes but those of values, and what is left to show is that the values have it.

* `Constructive` is what a property has to keep.
* `Grammar.BuildsValues` is what has to be known of values.
* `Grammar.builds_layer` carries the property from productions to the constructs over them. -/

namespace RubyIndex.Syntax

open RubyIndex.Syntax.Parser

/-- Whether a fault says that no rule made progress. -/
def SyntaxFault.isStuck : SyntaxFault → Bool
  | .stuck _ => true
  | _ => false

/-- **A constructive property** of results. It is kept by all that a construct does, where no token
is in the way and no value is built. -/
class Constructive (holds : Parsed → Prop) : Prop where
  nothing : ∀ rest, holds ⟨[], [], rest⟩
  token : ∀ token rest, holds ⟨[.leaf token], [], rest⟩
  report : ∀ {fault : SyntaxFault} (input : Cursor), fault.isStuck = false →
    holds ⟨[], [input.error fault], input⟩
  append : ∀ {first second : Parsed}, holds first → holds second → holds (first.append second)
  wrap : ∀ {kind : NodeKind} {contents : Parsed}, kind ≠ .expr → holds contents →
    holds (contents.wrap kind)

/-- A token in front of a result. -/
theorem Constructive.cons {holds : Parsed → Prop} [Constructive holds] {parsed : Parsed}
    (token : Token) (hparsed : holds parsed) :
    holds { parsed with trees := .leaf token :: parsed.trees } :=
  Constructive.append (Constructive.token token parsed.rest) hparsed

/-- A parser **builds** what a property allows, whatever its input is. -/
def Parser.Builds (holds : Parsed → Prop) (parser : Parser) : Prop :=
  ∀ input, holds (parser input)

namespace Parser.Builds

variable {holds : Parsed → Prop} [Constructive holds]

/-! ## Combinators -/

theorem nothing : Builds holds nothing := Constructive.nothing

theorem report {fault : SyntaxFault} (hfault : fault.isStuck = false) :
    Builds holds (report fault) := fun input => Constructive.report input hfault

theorem followedBy {first second : Parser} (hfirst : Builds holds first)
    (hsecond : Builds holds second) : Builds holds (first ++ second) :=
  fun input => Constructive.append (hfirst input) (hsecond _)

theorem advance : Builds holds advance := by
  intro ⟨offset, tokens⟩
  cases tokens with
  | nil => exact nothing ⟨offset, []⟩
  | cons token rest => exact Constructive.token token ⟨offset + token.width, rest⟩

omit [Constructive holds] in
theorem ifAhead (condition : Cursor → Bool) {positive negative : Parser}
    (hpositive : Builds holds positive) (hnegative : Builds holds negative) :
    Builds holds (ifAhead condition positive negative) := by
  intro input
  unfold Parser.ifAhead
  split
  · exact hpositive input
  · exact hnegative input

theorem whenAhead (condition : Cursor → Bool) {parser : Parser} (hparser : Builds holds parser) :
    Builds holds (whenAhead condition parser) := hparser.ifAhead condition nothing

theorem expect (kind : TokenKind) {fault : SyntaxFault} (hfault : fault.isStuck = false) :
    Builds holds (expect kind fault) := advance.ifAhead _ (report hfault)

theorem advanceWhile (accepts : TokenKind → Bool) : Builds holds (advanceWhile accepts) := by
  intro ⟨offset, tokens⟩
  show holds (advanceAmong accepts offset tokens)
  induction tokens generalizing offset with
  | nil => exact nothing ⟨offset, []⟩
  | cons token rest ih =>
    rw [advanceAmong]
    split
    · exact Constructive.cons token (ih (offset + token.width))
    · exact nothing ⟨offset, token :: rest⟩

theorem skipWhitespace : Builds holds skipWhitespace := advanceWhile _

/-- A node that is no value. -/
theorem node {kind : NodeKind} (hkind : kind ≠ .expr) {parser : Parser}
    (hparser : Builds holds parser) : Builds holds (node kind parser) :=
  fun input => Constructive.wrap hkind (hparser input)

end Parser.Builds

namespace Grammar

variable {holds : Parsed → Prop} [Constructive holds]

/-! ## Names and headers -/

theorem builds_constPath : Builds holds constPath := by
  have hqualifiers : Builds holds fun input => qualifiersAmong input.offset input.tokens := by
    intro ⟨offset, tokens⟩
    show holds (qualifiersAmong offset tokens)
    fun_induction qualifiersAmong offset tokens with
    | case1 offset colons constant rest isQualifier parsed ih =>
      exact Constructive.cons colons (Constructive.cons constant ih)
    | case2 offset colons constant rest isOther => exact Constructive.nothing _
    | case3 offset tokens isShort => exact Constructive.nothing _
  exact (((Builds.advance.whenAhead _).followedBy (.expect _ rfl)).followedBy hqualifiers).node
    (by decide)

theorem builds_definedName (construct : Construct) : Builds holds (definedName construct) :=
  builds_constPath.ifAhead _ (.report rfl)

theorem builds_closing (construct : Construct) : Builds holds (closing construct) :=
  .expect _ rfl

theorem builds_methodName : Builds holds methodName := by
  refine Builds.node (by decide) fun input => ?_
  unfold methodNameTokens
  split
  · exact (Builds.advance.followedBy (.whenAhead _ .advance)) input
  · exact (Builds.advance.followedBy (.whenAhead _ .advance)) input
  · exact ((Builds.advance.followedBy (.whenAhead _ .advance)).followedBy
      (.whenAhead _ .advance)) input
  · split
    · exact Builds.advance input
    · exact Constructive.report input rfl
  · exact Constructive.report input rfl

theorem builds_receiver : Builds holds receiver :=
  ((Builds.advance.followedBy .advance).node (by decide)).whenAhead _

theorem builds_parenthesized : Builds holds parenthesized := by
  intro ⟨offset, tokens⟩
  show holds (parenthesizedAmong 0 offset tokens)
  -- the depth of the open parentheses changes from token to token
  generalize 0 = depth
  fun_induction parenthesizedAmong depth offset tokens with
  | case1 depth offset => exact Constructive.report _ rfl
  | case2 depth offset token rest depthAfter closes => exact Constructive.token token _
  | case3 depth offset token rest depthAfter goesOn parsed ih => exact Constructive.cons token ih

/-! ## Constructs -/

section Constructs

variable {parse : Production → Parser} (hparse : ∀ production, Builds holds (parse production))

include hparse

theorem builds_body : Builds holds (body parse) := (hparse _).node (by decide)

theorem builds_moduleDefinition : Builds holds (moduleDefinition parse) :=
  ((((Builds.advance.followedBy .skipWhitespace).followedBy (builds_definedName _)).followedBy
    (builds_body hparse)).followedBy (builds_closing _)).node (by decide)

theorem builds_superclass : Builds holds (superclass parse) :=
  (((Builds.skipWhitespace.followedBy .advance).followedBy .skipWhitespace).followedBy
    ((hparse _).node (by decide))).whenAhead _

theorem builds_classDefinition : Builds holds (classDefinition parse) :=
  (((((Builds.advance.followedBy .skipWhitespace).followedBy (builds_definedName _)).followedBy
    (builds_superclass hparse)).followedBy (builds_body hparse)).followedBy
    (builds_closing _)).node (by decide)

theorem builds_parameters : Builds holds (parameters parse) :=
  (builds_parenthesized.node (by decide)).ifAhead _
    ((Builds.skipWhitespace.followedBy ((hparse _).node (by decide))).whenAhead _)

theorem builds_endlessBody : Builds holds (endlessBody parse) :=
  ((Builds.skipWhitespace.followedBy .advance).followedBy .skipWhitespace).followedBy
    (((hparse _).node (by decide)).node (by decide))

theorem builds_methodDefinition : Builds holds (methodDefinition parse) :=
  (((((Builds.advance.followedBy .skipWhitespace).followedBy builds_receiver).followedBy
    builds_methodName).followedBy (builds_parameters hparse)).followedBy
    ((builds_endlessBody hparse).ifAhead _
      ((builds_body hparse).followedBy (builds_closing _)))).node (by decide)

theorem builds_block : Builds holds (block parse) := fun input =>
  ((((Builds.advance.followedBy (hparse _)).followedBy (builds_body hparse)).followedBy
    (builds_closing _)).node (by decide)) input

/-- **Values are built** as the property allows, where blanks and line breaks have been taken. -/
def BuildsValues (holds : Parsed → Prop) (parse : Production → Parser) : Prop :=
  ∀ input, input.kind? ≠ some .whitespace → input.kind? ≠ some .newline →
    holds (node .expr (expression parse .value) input)

variable (hvalues : BuildsValues holds parse)

include hvalues

omit hparse in
theorem builds_assignment : Builds holds (assignment parse) := by
  intro input
  have htarget : Builds holds (node .varField advance ++ skipWhitespace ++ advance) :=
    ((Builds.advance.node (by decide)).followedBy .skipWhitespace).followedBy .advance
  refine Constructive.wrap (by decide) (Constructive.append
    (Constructive.append (htarget input) (Builds.advanceWhile _ _)) (hvalues _ ?_ ?_))
  · intro hblank
    cases kind?_rest_advanceWhile hblank
  · intro hbreak
    cases kind?_rest_advanceWhile hbreak

/-! ## Statements -/

omit hvalues in
/-- A statement with a modifier is as the statement is. -/
theorem builds_withModifier {parser : Parser} (hparser : Builds holds parser) :
    Builds holds (withModifier parse parser) := by
  intro input
  simp only [withModifier]
  split
  · exact Constructive.wrap (by decide) (Constructive.append (hparser input)
      (((Builds.skipWhitespace.followedBy .advance).followedBy (hparse _)) _))
  · exact hparser input

theorem builds_statement : Builds holds (statement parse) := by
  intro input
  have hskipped : ∀ {fault : SyntaxFault}, fault.isStuck = false → Builds holds (skipLine fault) :=
    fun hfault => (Builds.report hfault).followedBy ((Builds.advanceWhile _).node (by decide))
  unfold statement
  split
  · exact builds_withModifier hparse (builds_moduleDefinition hparse) input
  · exact builds_withModifier hparse (builds_classDefinition hparse) input
  · exact builds_withModifier hparse (builds_methodDefinition hparse) input
  · exact builds_withModifier hparse (builds_block hparse) input
  · exact builds_withModifier hparse (builds_assignment hvalues) input
  · exact hskipped rfl input
  · exact hskipped rfl input
  · exact (hparse (.expression (.start .statement))).node (by decide) input

/-! ## Productions -/

/-- No list of statements has to skip a token. -/
theorem builds_statements (hlossless : ∀ production, Lossless (parse production))
    (hbegins : BeginsExpressions parse) (nested : Bool) :
    Builds holds (statements parse nested) := by
  intro input
  refine Constructive.append (Builds.advanceWhile _ input) ?_
  set behind := (advanceWhile (·.separatesStatements) input).rest with hbehind
  unfold ifAhead
  split
  · exact Constructive.nothing behind
  · rename_i hgoesOn
    refine Constructive.append ?_ (hparse _ _)
    cases hkind : behind.kind? with
    | none => exact absurd (by rw [statementsEnd, hkind]) hgoesOn
    | some kind =>
      rw [progress_eq_statement hlossless hbegins hkind (kind?_rest_advanceWhile hkind)]
      exact builds_statement hparse hvalues behind

omit hvalues in
theorem builds_clauses : Builds holds (clauses parse) := by
  have hheaded : Builds holds (advance ++ expression parse .statement ++ parse .clauses) :=
    (Builds.advance.followedBy (hparse _)).followedBy (hparse _)
  have hbare : Builds holds (advance ++ parse .clauses) := Builds.advance.followedBy (hparse _)
  refine (hparse _).followedBy fun input => ?_
  split
  · exact hheaded input
  · exact hheaded input
  · exact hheaded input
  · exact hheaded input
  · exact hbare input
  · exact hbare input
  · exact hbare input
  · exact Constructive.nothing input

omit hvalues in
theorem builds_remainder (run : ExpressionRun) : Builds holds (remainder parse run) := by
  intro input
  unfold remainder
  split
  · exact Constructive.nothing input
  · split
    · exact Constructive.nothing input
    · exact Builds.advance.followedBy (hparse _) input
  · split
    · exact Constructive.nothing input
    · split
      · exact Builds.advance.followedBy (hparse _) input
      · exact (builds_block hparse).followedBy (hparse _) input
      · exact (builds_methodDefinition hparse).followedBy (hparse _) input

/-- **One layer**: over productions that build what a property allows, so do productions. -/
theorem builds_layer (hlossless : ∀ production, Lossless (parse production))
    (hbegins : BeginsExpressions parse) (production : Production) :
    Builds holds (layer parse production) := by
  cases production with
  | statements nested => exact builds_statements hparse hvalues hlossless hbegins nested
  | clauses => exact builds_clauses hparse
  | expression run => exact builds_remainder hparse run

end Constructs

end Grammar

end RubyIndex.Syntax
