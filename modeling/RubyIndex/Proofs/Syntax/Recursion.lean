import RubyIndex.Proofs.Syntax.Lossless
import Mathlib.Data.Nat.Init
import Mathlib.Tactic.Set

/-! # The productions as a recursion

The productions are read with a bound on how often they call each other. A production over `n`
tokens reaches a depth of at most `3 * n + 3`: a call that does not take a token first goes from
clauses to statements or from statements to an expression, and every other call comes after a token
has been taken. So the bound changes nothing, and the productions satisfy the equations of an
unbounded recursion.

* `Production.parser_sameUpTo`: any two sufficient bounds give the same parser.
* `Production.read_eq_layer`: a production is one layer over the productions inside it.
* `Production.read_statements_rest`: the statements of a whole text leave nothing over. -/

namespace RubyIndex.Syntax

open RubyIndex.Syntax.Parser

/-! ## Parsers that take a token -/

/-- A parser **advances** if it takes at least one token of an input that has one. -/
def Parser.Advances (parser : Parser) : Prop :=
  ∀ input, (parser input).rest.tokens.length ≤ input.tokens.length - 1

namespace Parser.Advances

theorem advance : Advances advance := by
  intro ⟨offset, tokens⟩
  cases tokens with
  | nil => exact Nat.le_refl 0
  | cons token rest => exact Nat.le_refl rest.length

theorem followedBy {first second : Parser} (hfirst : Advances first) (hsecond : Lossless second) :
    Advances (first ++ second) := fun input =>
  Nat.le_trans (hsecond (first input).rest).length_le (hfirst input)

theorem precededBy {first second : Parser} (hfirst : Lossless first) (hsecond : Advances second) :
    Advances (first ++ second) := fun input =>
  Nat.le_trans (hsecond (first input).rest) (Nat.sub_le_sub_right (hfirst input).length_le 1)

theorem node (kind : NodeKind) {parser : Parser} (h : Advances parser) :
    Advances (node kind parser) := h

end Parser.Advances

namespace Grammar

section Advances

variable {parse : Production → Parser} (hparse : ∀ production, Lossless (parse production))

include hparse

theorem advances_block : Advances (block parse) := fun input =>
  (((Advances.advance.followedBy (satisfies_expression hparse _)).followedBy
    (satisfies_body hparse)).followedBy (satisfies_closing _)) input

theorem advances_methodDefinition : Advances (methodDefinition parse) :=
  (((((Advances.advance.followedBy .skipWhitespace).followedBy satisfies_receiver).followedBy
    satisfies_methodName).followedBy (satisfies_parameters hparse)).followedBy
    ((satisfies_endlessBody hparse).ifAhead _
      ((satisfies_body hparse).followedBy (satisfies_closing _)))).node _

/-- A list of statements takes a token with every round. -/
theorem advances_progress : Advances (progress parse) := by
  intro input
  simp only [progress]
  split
  · -- the statement took a token itself
    omega
  · -- it took none, and the token that is skipped after it is the one that counts
    have hle := (satisfies_statement hparse input).length_le
    have hskip : Advances skipStuck := fun input =>
      Advances.precededBy (Satisfies.report _) Advances.advance input
    exact Nat.le_trans (hskip _) (Nat.sub_le_sub_right hle 1)

end Advances

end Grammar

/-! ## Parsers that agree on short inputs -/

/-- Two parsers are the **same up to** a length if they do the same on all inputs of at most so
many tokens. -/
def Parser.SameUpTo (length : Nat) (first second : Parser) : Prop :=
  ∀ input : Cursor, input.tokens.length ≤ length → first input = second input

namespace Parser.SameUpTo

variable {length : Nat} {first first' second second' : Parser}

theorem refl (parser : Parser) : SameUpTo length parser parser := fun _ _ => rfl

theorem mono {shorter : Nat} (hle : shorter ≤ length) (h : SameUpTo length first second) :
    SameUpTo shorter first second :=
  fun input hlength => h input (Nat.le_trans hlength hle)

theorem node (kind : NodeKind) (h : SameUpTo length first second) :
    SameUpTo length (node kind first) (node kind second) := by
  intro input hlength
  show (first input).wrap kind = (second input).wrap kind
  rw [h input hlength]

theorem ifAhead (condition : Cursor → Bool) (hpositive : SameUpTo length first first')
    (hnegative : SameUpTo length second second') :
    SameUpTo length (ifAhead condition first second) (ifAhead condition first' second') := by
  intro input hlength
  unfold Parser.ifAhead
  rw [hpositive input hlength, hnegative input hlength]

theorem whenAhead (condition : Cursor → Bool) (h : SameUpTo length first second) :
    SameUpTo length (whenAhead condition first) (whenAhead condition second) :=
  h.ifAhead condition (refl nothing)

theorem followedBy (hlossless : Lossless first) (hfirst : SameUpTo length first first')
    (hsecond : SameUpTo length second second') :
    SameUpTo length (first ++ second) (first' ++ second') := by
  intro input hlength
  show (first input).append (second (first input).rest) =
    (first' input).append (second' (first' input).rest)
  rw [← hfirst input hlength,
    hsecond _ (Nat.le_trans (hlossless input).length_le hlength)]

/-- What comes first may be exchanged whatever comes next. -/
theorem followedBy_right (h : SameUpTo length first first') (second : Parser) :
    SameUpTo length (first ++ second) (first' ++ second) := by
  intro input hlength
  show (first input).append (second (first input).rest) =
    (first' input).append (second (first' input).rest)
  rw [h input hlength]

/-- After a token has been taken, what follows need only agree on shorter inputs. -/
theorem followedBy_of_advances (hadvances : Advances first)
    (hfirst : SameUpTo (length + 1) first first') (hsecond : SameUpTo length second second') :
    SameUpTo (length + 1) (first ++ second) (first' ++ second') := by
  intro input hlength
  show (first input).append (second (first input).rest) =
    (first' input).append (second' (first' input).rest)
  have hrest := hadvances input
  rw [← hfirst input hlength, hsecond _ (by omega)]

end Parser.SameUpTo

namespace Grammar

/-! ## One layer over productions that agree

Every construct takes its keyword before it calls a production, so a layer over productions that
agree up to a length agrees up to one token more. Only an expression at the front of a statement,
and the statements at the front of a body, stand where no token has been taken yet. -/

section Congruence

variable {parse parse' : Production → Parser} {length : Nat}
  (hparse : ∀ production, Lossless (parse production))
  (hsame : ∀ production, SameUpTo length (parse production) (parse' production))

include hsame

theorem sameUpTo_body : SameUpTo length (body parse) (body parse') := (hsame _).node _

theorem sameUpTo_superclass : SameUpTo length (superclass parse) (superclass parse') :=
  (SameUpTo.followedBy ((Satisfies.skipWhitespace.followedBy .advance).followedBy .skipWhitespace)
    (.refl _) ((hsame _).node _)).whenAhead _

theorem sameUpTo_parameters : SameUpTo length (parameters parse) (parameters parse') :=
  (SameUpTo.refl _).ifAhead _
    ((SameUpTo.followedBy .skipWhitespace (.refl _) ((hsame _).node _)).whenAhead _)

theorem sameUpTo_endlessBody : SameUpTo length (endlessBody parse) (endlessBody parse') :=
  .followedBy ((Satisfies.skipWhitespace.followedBy .advance).followedBy .skipWhitespace)
    (.refl _) (((hsame _).node _).node _)

theorem sameUpTo_moduleDefinition :
    SameUpTo (length + 1) (moduleDefinition parse) (moduleDefinition parse') := by
  have hheader : Advances (advance ++ skipWhitespace ++ definedName .moduleDef) :=
    (Advances.advance.followedBy .skipWhitespace).followedBy (satisfies_definedName _)
  exact (((SameUpTo.refl _).followedBy_of_advances hheader
    (sameUpTo_body hsame)).followedBy_right _).node _

theorem sameUpTo_assignment : SameUpTo (length + 1) (assignment parse) (assignment parse') := by
  have hheader : Advances (Parser.node .varField advance ++ skipWhitespace ++ advance ++
      advanceWhile fun kind => kind == .whitespace || kind == .newline) :=
    (((Advances.advance.node _).followedBy .skipWhitespace).followedBy .advance).followedBy
      (.advanceWhile _)
  exact ((SameUpTo.refl _).followedBy_of_advances hheader ((hsame _).node _)).node _

include hparse

theorem sameUpTo_classDefinition :
    SameUpTo (length + 1) (classDefinition parse) (classDefinition parse') := by
  -- the `class` is taken before the superclass, and what is up to there before the body
  have hheader : Advances (advance ++ skipWhitespace ++ definedName .classDef) :=
    (Advances.advance.followedBy .skipWhitespace).followedBy (satisfies_definedName _)
  have hsuperclass : Advances (advance ++ skipWhitespace ++ definedName .classDef ++
      superclass parse) := hheader.followedBy (satisfies_superclass hparse)
  exact (((((SameUpTo.refl _).followedBy_of_advances hheader
    (sameUpTo_superclass hsame)).followedBy_of_advances hsuperclass
    (sameUpTo_body hsame))).followedBy_right _).node _

theorem sameUpTo_methodDefinition :
    SameUpTo (length + 1) (methodDefinition parse) (methodDefinition parse') := by
  -- the `def` is taken before the parameters, and what is up to there before the body
  have hheader : Advances (advance ++ skipWhitespace ++ receiver ++ methodName) :=
    ((Advances.advance.followedBy .skipWhitespace).followedBy satisfies_receiver).followedBy
      satisfies_methodName
  have hparameters : Advances (advance ++ skipWhitespace ++ receiver ++ methodName ++
      parameters parse) := hheader.followedBy (satisfies_parameters hparse)
  exact (((SameUpTo.refl _).followedBy_of_advances hheader
    (sameUpTo_parameters hsame)).followedBy_of_advances hparameters
    ((sameUpTo_endlessBody hsame).ifAhead _ ((sameUpTo_body hsame).followedBy_right _))).node _

theorem sameUpTo_block : SameUpTo (length + 1) (block parse) (block parse') := by
  intro input hlength
  have hheader : Advances (advance ++ expression parse (headerMode input.kind?)) :=
    Advances.advance.followedBy (hparse _)
  exact ((((((SameUpTo.refl _).followedBy_of_advances Advances.advance
    (hsame _)).followedBy_of_advances hheader (sameUpTo_body hsame))).followedBy_right _).node _)
    input hlength

omit hparse in
theorem sameUpTo_withModifier {parser parser' : Parser}
    (h : SameUpTo (length + 1) parser parser') {input : Cursor}
    (haccounts : (parser input).Accounts input) (hlength : input.tokens.length ≤ length + 1) :
    withModifier parse parser input = withModifier parse' parser' input := by
  -- the modifier is taken before its condition is read
  have hmodifier : Advances (skipWhitespace ++ advance) :=
    .precededBy .skipWhitespace .advance
  have htail : SameUpTo (length + 1) (skipWhitespace ++ advance ++ expression parse .statement)
      (skipWhitespace ++ advance ++ expression parse' .statement) :=
    (SameUpTo.refl _).followedBy_of_advances hmodifier (hsame _)
  simp only [withModifier, ← h input hlength]
  rw [htail _ (Nat.le_trans haccounts.length_le hlength)]

theorem sameUpTo_remainder (run : ExpressionRun) :
    SameUpTo (length + 1) (remainder parse run) (remainder parse' run) := by
  intro input hlength
  unfold remainder
  split
  · rfl
  · split
    · rfl
    · exact (SameUpTo.refl _).followedBy_of_advances .advance (hsame _) input hlength
  · split
    · rfl
    · split
      · exact (SameUpTo.refl _).followedBy_of_advances .advance (hsame _) input hlength
      · exact (sameUpTo_block hparse hsame).followedBy_of_advances (advances_block hparse)
          (hsame _) input hlength
      · exact (sameUpTo_methodDefinition hparse hsame).followedBy_of_advances
          (advances_methodDefinition hparse) (hsame _) input hlength

variable (hexpression : ∀ run,
  SameUpTo (length + 1) (parse (.expression run)) (parse' (.expression run)))

include hexpression

theorem sameUpTo_statement : SameUpTo (length + 1) (statement parse) (statement parse') := by
  intro input hlength
  have hkeyword := isAt_of_statementForm input
  unfold statement
  split
  · rename_i hform
    exact sameUpTo_withModifier hsame (sameUpTo_moduleDefinition hsame)
      (holds_moduleDefinition hparse (hkeyword _ _ hform rfl)) hlength
  · rename_i hform
    exact sameUpTo_withModifier hsame (sameUpTo_classDefinition hparse hsame)
      (holds_classDefinition hparse (hkeyword _ _ hform rfl)) hlength
  · rename_i hform
    exact sameUpTo_withModifier hsame (sameUpTo_methodDefinition hparse hsame)
      (holds_methodDefinition hparse (hkeyword _ _ hform rfl)) hlength
  · exact sameUpTo_withModifier hsame (sameUpTo_block hparse hsame)
      (satisfies_block hparse input) hlength
  · exact sameUpTo_withModifier hsame (sameUpTo_assignment hsame)
      (satisfies_assignment hparse input) hlength
  · rfl
  · rfl
  · exact (hexpression _).node _ input hlength

theorem sameUpTo_statements (nested : Bool) :
    SameUpTo (length + 1) (statements parse nested) (statements parse' nested) := by
  -- only the first statement can start before a token is taken
  have hprogress : SameUpTo (length + 1) (progress parse) (progress parse') := by
    intro input hlength
    simp only [progress, sameUpTo_statement hparse hsame hexpression input hlength]
  exact .followedBy (.advanceWhile _) (.refl _) ((SameUpTo.refl _).ifAhead _
    (hprogress.followedBy_of_advances (advances_progress hparse) (hsame _)))

omit hexpression in
theorem sameUpTo_clauses
    (hstatements : SameUpTo (length + 1) (parse (.statements true)) (parse' (.statements true))) :
    SameUpTo (length + 1) (clauses parse) (clauses parse') := by
  have hclause : SameUpTo (length + 1) (advance ++ expression parse .statement ++ parse .clauses)
      (advance ++ expression parse' .statement ++ parse' .clauses) :=
    ((SameUpTo.refl _).followedBy_of_advances .advance (hsame _)).followedBy_of_advances
      (Advances.advance.followedBy (hparse _)) (hsame _)
  have hbare : SameUpTo (length + 1) (advance ++ parse .clauses) (advance ++ parse' .clauses) :=
    (SameUpTo.refl _).followedBy_of_advances .advance (hsame _)
  refine .followedBy (hparse _) hstatements fun input hlength => ?_
  split
  · exact hclause input hlength
  · exact hclause input hlength
  · exact hclause input hlength
  · exact hclause input hlength
  · exact hbare input hlength
  · exact hbare input hlength
  · exact hbare input hlength
  · rfl

end Congruence

end Grammar

namespace Production

/-- How many calls a production can make before one of them takes a token. -/
def rank : Production → Nat
  | .expression _ => 0
  | .statements _ => 1
  | .clauses => 2

theorem rank_le (production : Production) : production.rank ≤ 2 := by
  cases production <;> simp [rank]

/-- A layer over two readings of the productions is the same up to a length if the readings agree
on all shorter inputs, and on inputs of that length for the productions of a lower rank. -/
theorem layer_sameUpTo {parse parse' : Production → Parser} {length : Nat}
    (production : Production) (hparse : ∀ production, Lossless (parse production))
    (hshorter : ∀ shorter < length, ∀ inner, SameUpTo shorter (parse inner) (parse' inner))
    (hlower : ∀ inner, inner.rank < production.rank →
      SameUpTo length (parse inner) (parse' inner)) :
    SameUpTo length (Grammar.layer parse production) (Grammar.layer parse' production) := by
  cases length with
  | zero =>
    -- without tokens every production is at its end
    intro ⟨offset, tokens⟩ hlength
    obtain rfl : tokens = [] := List.length_eq_zero_iff.1 (Nat.le_zero.1 hlength)
    cases production with
    | expression run => rfl
    | statements nested => rfl
    | clauses =>
      -- after the first statements of a body no input is left, so there is no clause
      refine SameUpTo.followedBy (hparse _) (hlower (.statements true) (by decide)) ?_ _ hlength
      intro ⟨offset, tokens⟩ hlength
      obtain rfl : tokens = [] := List.length_eq_zero_iff.1 (Nat.le_zero.1 hlength)
      rfl
  | succ length =>
    have hsame := hshorter length (Nat.lt_succ_self length)
    cases production with
    | expression run => exact Grammar.sameUpTo_remainder hparse hsame run
    | statements nested =>
      exact Grammar.sameUpTo_statements hparse hsame
        (fun run => hlower (.expression run) Nat.zero_lt_one) nested
    | clauses =>
      exact Grammar.sameUpTo_clauses hparse hsame (hlower (.statements true) (by decide))

/-- **The depth changes nothing.** Two ways to read productions layer by layer agree on inputs of at
most `length` tokens, whatever they do where their depth is used up, if it is more than three times
the length and the rank. -/
theorem sameUpTo_of_layers {first second : Nat → Production → Parser}
    (hfirst : ∀ bound production, first (bound + 1) production =
      Grammar.layer (first bound) production)
    (hsecond : ∀ bound production, second (bound + 1) production =
      Grammar.layer (second bound) production)
    (hlossless : ∀ bound production, Lossless (first bound production))
    (length : Nat) (production : Production) {bound bound' : Nat}
    (hbound : 3 * length + production.rank < bound)
    (hbound' : 3 * length + production.rank < bound') :
    SameUpTo length (first bound production) (second bound' production) := by
  induction bound generalizing length production bound' with
  | zero => omega
  | succ bound ih =>
    obtain ⟨bound', rfl⟩ : ∃ smaller, bound' = smaller + 1 := ⟨bound' - 1, by omega⟩
    rw [hfirst, hsecond]
    refine layer_sameUpTo production (hlossless bound) ?_ ?_
    · -- one token less pays for the three ranks
      intro shorter hshorter inner
      have hrank := inner.rank_le
      exact ih shorter inner (by omega) (by omega)
    · intro inner hrank
      exact ih length inner (by omega) (by omega)

/-- **The bound changes nothing**: a production over at most `length` tokens is the same parser for
any two bounds above three times the length and its rank. -/
theorem parser_sameUpTo (length : Nat) (production : Production) {bound bound' : Nat}
    (hbound : 3 * length + production.rank < bound)
    (hbound' : 3 * length + production.rank < bound') :
    SameUpTo length (parser bound production) (parser bound' production) :=
  sameUpTo_of_layers (fun _ _ => rfl) (fun _ _ => rfl) lossless length production hbound hbound'

/-! ## Productions without a bound -/

/-- The parser of a production, read to a depth that suffices for its input. -/
def read (production : Production) : Parser := fun input =>
  parser (bound input.tokens.length) production input

/-- Any bound of at least the sufficient one reads the production. -/
theorem parser_eq_read (production : Production) (input : Cursor) {depth : Nat}
    (hdepth : bound input.tokens.length ≤ depth) :
    parser depth production input = production.read input := by
  have hrank := production.rank_le
  unfold bound at hdepth
  refine parser_sameUpTo input.tokens.length production ?_ ?_ input (Nat.le_refl _)
  · omega
  · unfold bound
    omega

theorem lossless_read (production : Production) : Lossless production.read :=
  fun input => lossless _ production input

theorem parser_sameUpTo_read (length : Nat) (production : Production) :
    SameUpTo length (parser (bound length) production) production.read := by
  intro input hlength
  refine parser_eq_read production input ?_
  unfold bound
  omega

/-- **The productions are a recursion**: each is one layer over the productions inside it. -/
theorem read_eq_layer (production : Production) :
    production.read = Grammar.layer read production := by
  funext input
  have hsame := parser_sameUpTo_read input.tokens.length
  calc production.read input
      = parser (bound input.tokens.length + 1) production input :=
        (parser_eq_read production input (Nat.le_succ _)).symm
    _ = Grammar.layer read production input :=
        layer_sameUpTo production (lossless _)
          (fun shorter hshorter inner => (hsame inner).mono (Nat.le_of_lt hshorter))
          (fun inner _ => hsame inner) input (Nat.le_refl _)

/-- The statements of a whole text are read to its end. -/
theorem read_statements_rest (input : Cursor) :
    (read (.statements false) input).rest.tokens = [] := by
  induction hlength : input.tokens.length using Nat.strong_induction_on generalizing input with
  | _ length ih =>
    subst hlength
    rw [read_eq_layer]
    have hlossless : Lossless (advanceWhile (·.separatesStatements)) := Satisfies.advanceWhile _
    have hseparators := (hlossless input).length_le
    set afterSeparators := (advanceWhile (·.separatesStatements) input).rest with hafter
    show (ifAhead (Grammar.statementsEnd false) nothing
      (Grammar.progress read ++ read (.statements false)) afterSeparators).rest.tokens = []
    cases htokens : afterSeparators.tokens with
    | nil =>
      have hend : Grammar.statementsEnd false afterSeparators = true := by
        simp [Grammar.statementsEnd, Cursor.kind?, htokens]
      rw [ifAhead, if_pos hend]
      exact htokens
    | cons token rest =>
      have hgoesOn : Grammar.statementsEnd false afterSeparators = false := by
        simp [Grammar.statementsEnd, Cursor.kind?, htokens]
      rw [ifAhead, hgoesOn, if_neg Bool.false_ne_true]
      -- one round takes a token, so the induction hypothesis covers the rounds after it
      have hround := Grammar.advances_progress lossless_read afterSeparators
      rw [htokens, List.length_cons] at hseparators hround
      exact ih _ (by omega) _ rfl

end Production

end RubyIndex.Syntax
