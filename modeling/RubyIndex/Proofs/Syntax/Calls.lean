import RubyIndex.Proofs.Syntax.Concatenation
import RubyIndex.Proofs.Syntax.Constructions
import Mathlib.Logic.Relation

/-! # How the parsers of the grammar call each other

The parsers of the grammar call each other without a bound of their own. They come to an end because
every call is about fewer tokens, or about the same tokens and a smaller part of the grammar: from
the clauses of a body to its statements, from there to one statement, to an expression, and to a
construct that takes its first token before it calls anything. So a parser that gets to itself again
has taken a token on the way.

* `Rule.unfolded` is what a rule does, by what the rules do that it calls.
* `Calls` is read off from it: a rule calls another where its result depends on that of the other.
* `height_lt_of_calls`: every call goes down.
* `parsing_makes_progress` is the result. -/

namespace RubyIndex.Syntax

open RubyIndex.Syntax.Parser

/-! ## Rules -/

/-- A parser of the grammar that takes part in its recursion. -/
inductive Rule where
  | production (production : Production)
  | statement
  | moduleDefinition
  | classDefinition
  | methodDefinition
  | block
  | assignment

namespace Rule

/-- What a rule does. -/
def read : Rule → Parser
  | .production inner => inner.read
  | .statement => Grammar.statement Production.read
  | .moduleDefinition => Grammar.moduleDefinition Production.read
  | .classDefinition => Grammar.classDefinition Production.read
  | .methodDefinition => Grammar.methodDefinition Production.read
  | .block => Grammar.block Production.read
  | .assignment => Grammar.assignment Production.read

/-- A statement, or a skipped token where the statement is empty. -/
def moved (statement : Parser) : Parser := fun input =>
  let parsed := statement input
  if parsed.rest.tokens.length < input.tokens.length then parsed
  else parsed.append (Grammar.skipStuck parsed.rest)

/-- **A rule by the rules it calls**: what a rule does, with the given parsers for all rules that it
calls. -/
def unfolded (call : Rule → Parser) : Rule → Parser
  | .production (.statements nested) =>
      advanceWhile (·.separatesStatements) ++
        ifAhead (Grammar.statementsEnd nested) nothing
          (moved (call .statement) ++ call (.production (.statements nested)))
  | .production .clauses => Grammar.clauses fun inner => call (.production inner)
  | .production (.expression run) => fun input =>
      match input.kind? with
      | none => nothing input
      | some .whitespace =>
          if (input.ahead? 0).all run.endsBefore then nothing input
          else (advance ++ call (.production (.expression run))) input
      | some kind =>
          if run.endsBefore kind then nothing input
          else
            match run.step kind input.atLabel with
            | .token next => (advance ++ call (.production (.expression next))) input
            | .block => (call .block ++ call (.production (.expression run.afterNested))) input
            | .method =>
                (call .methodDefinition ++ call (.production (.expression run.afterNested))) input
  | .statement => fun input =>
      let modified := Grammar.withModifier fun inner => call (.production inner)
      match Grammar.statementForm input with
      | .moduleDefinition => modified (call .moduleDefinition) input
      | .classDefinition => modified (call .classDefinition) input
      | .methodDefinition => modified (call .methodDefinition) input
      | .block => modified (call .block) input
      | .assignment => modified (call .assignment) input
      | .unexpected => Grammar.skipLine (.unexpected input.text) input
      | .strayClause => Grammar.skipLine (.strayClause input.text) input
      | .plain => node .statement (call (.production (.expression (.start .statement)))) input
  | .moduleDefinition => Grammar.moduleDefinition fun inner => call (.production inner)
  | .classDefinition => Grammar.classDefinition fun inner => call (.production inner)
  | .methodDefinition => Grammar.methodDefinition fun inner => call (.production inner)
  | .block => Grammar.block fun inner => call (.production inner)
  | .assignment => Grammar.assignment fun inner => call (.production inner)

/-- **The rules are a recursion**: each does what its parts do. -/
theorem read_eq_unfolded (rule : Rule) : rule.read = rule.unfolded read := by
  cases rule with
  | production inner =>
    rw [read, Production.read_eq_layer]
    cases inner <;> rfl
  | _ => rfl

end Rule

/-- The functions that the rules are, whatever their arguments are. -/
inductive Routine where
  | statements
  | clauses
  | expression
  | statement
  | moduleDefinition
  | classDefinition
  | methodDefinition
  | block
  | assignment
  deriving DecidableEq, Repr

/-- How many calls a function can make before one of them is about fewer tokens. A construct takes a
token before it calls anything, but where there is none to take. -/
def Routine.rank (tokens : Nat) : Routine → Nat
  | .expression => 1
  | .statement => 2
  | .statements => 3
  | .clauses => 5
  | _ => if tokens = 0 then 6 else 0

theorem Routine.rank_le (tokens : Nat) (routine : Routine) : routine.rank tokens ≤ 6 := by
  cases routine <;> grind [Routine.rank]

namespace Rule

/-- The function that a rule is. -/
def routine : Rule → Routine
  | .production (.statements _) => .statements
  | .production .clauses => .clauses
  | .production (.expression _) => .expression
  | .statement => .statement
  | .moduleDefinition => .moduleDefinition
  | .classDefinition => .classDefinition
  | .methodDefinition => .methodDefinition
  | .block => .block
  | .assignment => .assignment

/-- The height of a call, by the tokens that it is about. -/
def height (rule : Rule) (input : Cursor) : Nat :=
  7 * input.tokens.length + rule.routine.rank input.tokens.length

theorem height_production (inner : Production) (input : Cursor) :
    height (.production inner) input = 7 * input.tokens.length + (2 * inner.rank + 1) := by
  cases inner <;> rfl

/-! ## Calls go down -/

/-- Two parsers in a row at one input. -/
theorem append_congr {first first' second second' : Parser} {input : Cursor}
    (hfirst : first input = first' input)
    (hsecond : second (first' input).rest = second' (first' input).rest) :
    (first ++ second) input = (first' ++ second') input := by
  rw [append_apply, append_apply, hfirst, hsecond]

section Agreement

variable {call : Rule → Parser} {input : Cursor}

/-- What is called does what it should, as far as it is lower than a bound. -/
def AgreesBelow (bound : Nat) (call : Rule → Parser) : Prop :=
  ∀ inner input, height inner input < bound → call inner input = inner.read input

theorem AgreesBelow.sameUpTo {bound length : Nat} (hagrees : AgreesBelow bound call)
    (production : Production) (hlength : 7 * length + (2 * production.rank + 1) < bound) :
    SameUpTo length production.read (call (.production production)) := by
  intro behind hbehind
  refine (hagrees (.production production) behind ?_).symm
  rw [height_production]
  omega

theorem AgreesBelow.sameUpTo_shorter {bound length : Nat} (hagrees : AgreesBelow bound call)
    (hlength : 7 * length + 6 ≤ bound) (production : Production) :
    SameUpTo length production.read (call (.production production)) := by
  have hrank := production.rank_le
  exact hagrees.sameUpTo production (by omega)

/-- The clauses of a body begin with statements. -/
theorem unfolded_clauses (hagrees : AgreesBelow (height (.production .clauses) input) call) :
    unfolded call (.production .clauses) input = read (.production .clauses) input := by
  rw [read_eq_unfolded]
  refine (Production.layer_sameUpTo .clauses Production.lossless_read ?_ ?_ input
    (Nat.le_refl _)).symm
  · intro shorter hshorter
    exact hagrees.sameUpTo_shorter (by rw [height]; omega)
  · intro inner hinner
    refine hagrees.sameUpTo inner ?_
    rw [height_production]
    omega

/-- A list of statements goes on with a statement, which takes a token. -/
theorem unfolded_statements {nested : Bool}
    (hagrees : AgreesBelow (height (.production (.statements nested)) input) call) :
    unfolded call (.production (.statements nested)) input =
      read (.production (.statements nested)) input := by
  rw [read_eq_unfolded]
  refine append_congr rfl ?_
  have hlossless : Lossless (advanceWhile (·.separatesStatements)) := Satisfies.advanceWhile _
  have hbehind := (hlossless input).length_le
  set behind := (advanceWhile (·.separatesStatements) input).rest
  unfold ifAhead
  split
  · rfl
  · rename_i hgoesOn
    have hstatement : call .statement behind = read .statement behind := by
      refine hagrees _ _ ?_
      simp only [height, routine, Routine.rank]
      omega
    refine append_congr ?_ ?_
    · rw [moved, moved, hstatement]
    · -- the statement takes a token, whether or not it makes progress by itself
      have hmoved : (moved (read .statement) behind).rest.tokens.length ≤
          behind.tokens.length - 1 := Grammar.advances_progress Production.lossless_read behind
      have htaken : behind.tokens.length ≠ 0 := by
        intro hnone
        refine hgoesOn ?_
        rw [Grammar.statementsEnd, Cursor.kind?, List.length_eq_zero_iff.1 hnone]
        rfl
      refine hagrees _ _ ?_
      simp only [height, routine, Routine.rank]
      omega

/-- An expression goes on with a token, or with a construct at that token. -/
theorem unfolded_expression {run : ExpressionRun}
    (hagrees : AgreesBelow (height (.production (.expression run)) input) call) :
    unfolded call (.production (.expression run)) input =
      read (.production (.expression run)) input := by
  rw [read_eq_unfolded]
  obtain ⟨offset, tokens⟩ := input
  cases tokens with
  | nil => rfl
  | cons token rest =>
    have hshorter : ∀ next, SameUpTo rest.length (Production.read (.expression next))
        (call (.production (.expression next))) := by
      intro next
      refine hagrees.sameUpTo_shorter ?_ _
      rw [height, List.length_cons]
      omega
    have htoken : ∀ next, (advance ++ call (.production (.expression next)))
        ⟨offset, token :: rest⟩ = (advance ++ read (.production (.expression next)))
        ⟨offset, token :: rest⟩ :=
      fun next => append_congr rfl (hshorter next _ (Nat.le_refl _)).symm
    -- a construct is called at the same token, where it is of a lower rank than the expression
    have hnested : ∀ {construct : Rule}, construct.routine.rank (rest.length + 1) = 0 →
        Advances construct.read →
        (call construct ++ call (.production (.expression run.afterNested)))
          ⟨offset, token :: rest⟩ =
        (construct.read ++ read (.production (.expression run.afterNested)))
          ⟨offset, token :: rest⟩ := by
      intro construct hrank hadvances
      refine append_congr ?_ (hshorter _ _ (hadvances _)).symm
      refine hagrees _ _ ?_
      rw [height, List.length_cons, hrank, height_production, List.length_cons]
      omega
    unfold unfolded
    dsimp only
    split
    · rfl
    · split
      · rfl
      · exact htoken run
    · split
      · rfl
      · split
        · exact htoken _
        · exact hnested rfl (Grammar.advances_block Production.lossless_read)
        · exact hnested rfl (Grammar.advances_methodDefinition Production.lossless_read)

/-- A statement is an expression, or a construct at the same token. -/
theorem unfolded_statement (hagrees : AgreesBelow (height .statement input) call) :
    unfolded call .statement input = read .statement input := by
  rw [read_eq_unfolded]
  obtain ⟨offset, tokens⟩ := input
  cases tokens with
  | nil => exact congrArg (Parsed.wrap .statement) (hagrees _ _ (Nat.lt_succ_self 1))
  | cons token rest =>
    have hmodified : ∀ {construct : Rule}, construct.routine.rank (rest.length + 1) = 0 →
        (construct.read ⟨offset, token :: rest⟩).Accounts ⟨offset, token :: rest⟩ →
        Grammar.withModifier (fun inner => call (.production inner)) (call construct)
          ⟨offset, token :: rest⟩ =
        Grammar.withModifier Production.read construct.read ⟨offset, token :: rest⟩ := by
      intro construct hrank haccounts
      have hconstruct : call construct ⟨offset, token :: rest⟩ =
          construct.read ⟨offset, token :: rest⟩ := by
        refine hagrees _ _ ?_
        rw [height, List.length_cons, hrank]
        exact Nat.lt_add_of_pos_right Nat.zero_lt_two
      have hshorter : ∀ production, SameUpTo rest.length (Production.read production)
          (call (.production production)) := by
        refine hagrees.sameUpTo_shorter ?_
        rw [height, List.length_cons]
        omega
      rw [Grammar.sameUpTo_withModifier hshorter (.refl construct.read) haccounts (Nat.le_refl _),
        Grammar.withModifier, Grammar.withModifier, hconstruct]
    have hkeyword := Grammar.isAt_of_statementForm ⟨offset, token :: rest⟩
    have hlossless := Production.lossless_read
    unfold unfolded
    dsimp only
    split
    · rename_i hform
      exact hmodified rfl (Grammar.holds_moduleDefinition hlossless (hkeyword _ _ hform rfl))
    · rename_i hform
      exact hmodified rfl (Grammar.holds_classDefinition hlossless (hkeyword _ _ hform rfl))
    · rename_i hform
      exact hmodified rfl (Grammar.holds_methodDefinition hlossless (hkeyword _ _ hform rfl))
    · exact hmodified rfl (Grammar.satisfies_block hlossless _)
    · exact hmodified rfl (Grammar.satisfies_assignment hlossless _)
    · rfl
    · rfl
    · refine congrArg (Parsed.wrap .statement) (hagrees _ _ ?_)
      rw [height, height]
      exact Nat.lt_succ_self _

/-- **A rule depends on what is lower only.** If all that is of less height does what it should, so
does the rule. -/
theorem unfolded_eq_read (rule : Rule) (hagrees : AgreesBelow (rule.height input) call) :
    rule.unfolded call input = rule.read input := by
  -- a construct takes a token, if there is one, before it calls anything
  have hconstruct : rule.routine.rank input.tokens.length =
      Routine.block.rank input.tokens.length → ∀ production, SameUpTo
      (input.tokens.length - 1) production.read (call (.production production)) := by
    intro hrank
    refine hagrees.sameUpTo_shorter ?_
    rw [height, hrank]
    change _ ≤ _ + if input.tokens.length = 0 then 6 else 0
    split <;> omega
  have hlength : input.tokens.length ≤ input.tokens.length - 1 + 1 := by omega
  have hlossless := Production.lossless_read
  cases rule with
  | production inner =>
    cases inner with
    | statements nested => exact unfolded_statements hagrees
    | clauses => exact unfolded_clauses hagrees
    | expression run => exact unfolded_expression hagrees
  | statement => exact unfolded_statement hagrees
  | moduleDefinition =>
    exact (Grammar.sameUpTo_moduleDefinition (hconstruct rfl) input hlength).symm
  | classDefinition =>
    exact (Grammar.sameUpTo_classDefinition hlossless (hconstruct rfl) input hlength).symm
  | methodDefinition =>
    exact (Grammar.sameUpTo_methodDefinition hlossless (hconstruct rfl) input hlength).symm
  | block => exact (Grammar.sameUpTo_block hlossless (hconstruct rfl) input hlength).symm
  | assignment => exact (Grammar.sameUpTo_assignment (hconstruct rfl) input hlength).symm

end Agreement

end Rule

/-! ## The relation of calls -/

/-- A rule and the input that it is called with. -/
abbrev Call := Rule × Cursor

/-- **A call makes another** if what it does is different with something else in the place of the
other one. -/
def Calls (outer inner : Call) : Prop :=
  ∃ call : Rule → Parser,
    (∀ rule input, (rule, input) ≠ inner → call rule input = rule.read input) ∧
      outer.1.unfolded call outer.2 ≠ outer.1.read outer.2

/-- **Every call goes down.** -/
theorem height_lt_of_calls {outer inner : Call} (hcalls : Calls outer inner) :
    inner.1.height inner.2 < outer.1.height outer.2 := by
  obtain ⟨call, hothers, hdiffers⟩ := hcalls
  by_contra hheight
  refine hdiffers (Rule.unfolded_eq_read outer.1 fun rule input hlower => ?_)
  refine hothers rule input ?_
  rintro rfl
  exact hheight hlower

theorem height_lt_of_transGen {outer inner : Call} (hcalls : Relation.TransGen Calls outer inner) :
    inner.1.height inner.2 < outer.1.height outer.2 := by
  induction hcalls with
  | single hcall => exact height_lt_of_calls hcall
  | tail _ hcall ih => exact Nat.lt_trans (height_lt_of_calls hcall) ih

/-- Calls come to an end. -/
theorem wellFounded_calls : WellFounded fun inner outer => Calls outer inner :=
  Subrelation.wf height_lt_of_calls (measure fun call : Call => call.1.height call.2).wf

/-- **A function that gets to itself has taken a token.** -/
theorem length_lt_of_transGen {outer inner : Call} (hcalls : Relation.TransGen Calls outer inner)
    (hroutine : outer.1.routine = inner.1.routine) :
    inner.2.tokens.length < outer.2.tokens.length := by
  have hheight := height_lt_of_transGen hcalls
  have hrank := outer.1.routine.rank_le outer.2.tokens.length
  unfold Rule.height at hheight
  by_contra hlength
  have hsame : outer.2.tokens.length = inner.2.tokens.length := by omega
  rw [hroutine, hsame] at hheight
  omega

/-! ## Statements -/

/-- What a rule would do if a statement had one more error. -/
theorem moved_of_errors {statement statement' : Parser} {input : Cursor} {error : SyntaxError}
    (hstatement : statement' input =
      { statement input with errors := error :: (statement input).errors }) :
    Rule.moved statement' input = { Rule.moved statement input with
      errors := error :: (Rule.moved statement input).errors } := by
  simp only [Rule.moved, hstatement]
  split <;> rfl

/-- **A list of statements calls for a statement** where it goes on, and nowhere else. -/
theorem calls_statement_iff {nested : Bool} {input behind : Cursor} :
    Calls (.production (.statements nested), input) (.statement, behind) ↔
      behind = (advanceWhile (·.separatesStatements) input).rest ∧
        Grammar.statementsEnd nested behind = false := by
  constructor
  · rintro ⟨call, hothers, hdiffers⟩
    by_contra hnot
    refine hdiffers ?_
    rw [Rule.read_eq_unfolded]
    refine Rule.append_congr rfl ?_
    set after := (advanceWhile (·.separatesStatements) input).rest with hafter
    unfold ifAhead
    split
    · rfl
    · rename_i hgoesOn
      have hstatement : call .statement after = Rule.statement.read after := by
        refine hothers _ _ fun hsame => hnot ⟨(Prod.mk.inj hsame).2.symm, ?_⟩
        rw [← (Prod.mk.inj hsame).2]
        exact Bool.not_eq_true _ ▸ hgoesOn
      refine Rule.append_congr ?_ (hothers _ _ fun hsame => ?_)
      · rw [Rule.moved, Rule.moved, hstatement]
      · cases (Prod.mk.inj hsame).1
  · rintro ⟨hbehind, hgoesOn⟩
    -- with one more error in the statement, there is one more in the list
    obtain ⟨call, hothers, hstatement⟩ : ∃ call : Rule → Parser,
        (∀ rule after, (rule, after) ≠ (.statement, behind) → call rule after = rule.read after) ∧
          call .statement behind = { Rule.statement.read behind with
            errors := behind.error .missingConstant :: (Rule.statement.read behind).errors } := by
      classical
      refine ⟨fun rule after => if (rule, after) = (.statement, behind) then
        { rule.read after with errors := behind.error .missingConstant :: (rule.read after).errors }
        else rule.read after, fun rule after hother => if_neg hother, if_pos rfl⟩
    have hlist : call (.production (.statements nested)) =
        Rule.read (.production (.statements nested)) :=
      funext fun after => hothers _ _ fun hsame => Rule.noConfusion (Prod.mk.inj hsame).1
    have hmore : (Rule.unfolded call (.production (.statements nested)) input).errors.length =
        (Rule.unfolded Rule.read (.production (.statements nested)) input).errors.length + 1 := by
      simp only [Rule.unfolded, append_apply, ← hbehind, ifAhead, hgoesOn, Bool.false_eq_true,
        if_false, moved_of_errors hstatement, hlist, Parsed.append, List.length_append,
        List.length_cons]
      omega
    refine ⟨call, hothers, fun hsame => ?_⟩
    rw [hsame, Rule.read_eq_unfolded] at hmore
    exact Nat.succ_ne_self _ hmore.symm

/-! ## Reports -/

/-- No error of a result says that a token is in the way. -/
def Parsed.Unstuck (parsed : Parsed) : Prop :=
  ∀ error ∈ parsed.errors, error.fault.isStuck = false

theorem Cursor.fault_error (fault : SyntaxFault) (input : Cursor) :
    (input.error fault).fault = fault := by
  unfold Cursor.error
  split <;> rfl

instance : Constructive Parsed.Unstuck where
  nothing _ := nofun
  token _ _ := nofun
  report input hfault error herror := by
    rw [List.mem_singleton.1 herror, Cursor.fault_error]
    exact hfault
  append hfirst hsecond error herror :=
    (List.mem_append.1 herror).elim (hfirst error) (hsecond error)
  wrap _ hcontents := hcontents

theorem Production.unstuck_silent (bound : Nat) (production : Production) :
    Builds Parsed.Unstuck (silent bound production) := by
  induction bound generalizing production with
  | zero => exact Builds.advance
  | succ bound ih =>
    -- a value is an expression like any other
    exact Grammar.builds_layer ih (fun input _ _ => ih _ input) (lossless_silent bound)
      (beginsExpressions_silent bound) production

/-- **No token is in the way**: a parse never notes that no rule makes progress. -/
theorem isStuck_eq_false_of_mem_errors {tokens : List Token} {error : SyntaxError}
    (herror : error ∈ (parseTokens tokens).errors) : error.fault.isStuck = false := by
  have hread : parseTokens tokens = Production.silent (Production.bound tokens.length)
      (.statements false) ⟨0, tokens⟩ := parseTokens_eq_silent tokens
  rw [hread] at herror
  exact Production.unstuck_silent _ _ _ error herror

/-! ## Progress -/

/-- A statement that a list calls for takes a token, so that none is skipped after it. -/
theorem statement_of_calls {nested : Bool} {input behind : Cursor}
    (hcalls : Calls (.production (.statements nested), input) (.statement, behind)) :
    (Rule.statement.read behind).rest.tokens.length < behind.tokens.length ∧
      Rule.moved Rule.statement.read behind = Rule.statement.read behind := by
  obtain ⟨hbehind, hgoesOn⟩ := calls_statement_iff.1 hcalls
  cases hkind : behind.kind? with
  | none =>
    rw [Grammar.statementsEnd, hkind] at hgoesOn
    cases hgoesOn
  | some kind =>
    have hseparators : kind.separatesStatements = false := by
      rw [hbehind] at hkind
      exact Grammar.kind?_rest_advanceWhile hkind
    exact ⟨Grammar.advances_statement Production.lossless_read Production.beginsExpressions_read
        hkind hseparators,
      Grammar.progress_eq_statement Production.lossless_read Production.beginsExpressions_read
        hkind hseparators⟩

/-- **Parsing makes progress.** The rules are a recursion that comes to an end: no chain of calls
goes on for ever, and a function that gets to itself, be it in the next round of a loop or further
inside, is called about fewer tokens. Where a list of statements calls for a statement, that
statement takes a token, and nothing is skipped. So no token list is parsed with the note that no
rule makes progress. -/
theorem parsing_makes_progress :
    (∀ rule : Rule, rule.read = rule.unfolded Rule.read) ∧
      (WellFounded fun inner outer => Calls outer inner) ∧
      (∀ outer inner : Call, Relation.TransGen Calls outer inner →
        outer.1.routine = inner.1.routine → inner.2.tokens.length < outer.2.tokens.length) ∧
      (∀ nested input behind, Calls (.production (.statements nested), input) (.statement, behind) →
        (Rule.statement.read behind).rest.tokens.length < behind.tokens.length ∧
          Rule.moved Rule.statement.read behind = Rule.statement.read behind) ∧
      ∀ tokens, parseTokens tokens = Rule.read (.production (.statements false)) ⟨0, tokens⟩ ∧
        ∀ error ∈ (parseTokens tokens).errors, error.fault.isStuck = false :=
  ⟨Rule.read_eq_unfolded, wellFounded_calls, fun _ _ => length_lt_of_transGen,
    fun _ _ _ => statement_of_calls,
    fun _ => ⟨rfl, fun _ => isStuck_eq_false_of_mem_errors⟩⟩

end RubyIndex.Syntax
