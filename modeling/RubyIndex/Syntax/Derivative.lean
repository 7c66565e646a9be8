import RubyIndex.Syntax.Pattern

/-! # Derivatives of patterns

What the derivative of a pattern matches, and what follows for the longest matching beginning of
a text.

* `matches_nil_iff`: a pattern matches the empty text if and only if it is nullable.
* `matches_derivative_iff`: the derivative by a character matches what may follow the character.
* `longest?_eq_some_iff` and `longest?_eq_none_iff`: `longest?` finds the longest matching
  beginning, and nothing only if no beginning matches. -/

namespace RubyIndex.Syntax.Pattern

/-! ## Matches, constructor by constructor -/

@[simp] theorem not_matches_never (text : List Char) : ¬ Matches .never text := nofun

@[simp] theorem matches_empty_iff {text : List Char} : Matches .empty text ↔ text = [] :=
  ⟨fun found => by cases found; rfl, fun isEmpty => isEmpty ▸ .empty⟩

@[simp] theorem matches_one_iff {accepts : Char → Bool} {text : List Char} :
    Matches (.one accepts) text ↔ ∃ character, accepts character = true ∧ text = [character] :=
  ⟨fun | .one accepted => ⟨_, accepted, rfl⟩, fun ⟨_, accepted, same⟩ => same ▸ .one accepted⟩

theorem matches_sequence_iff {first second : Pattern} {text : List Char} :
    Matches (.sequence first second) text ↔
      ∃ front back, text = front ++ back ∧ Matches first front ∧ Matches second back :=
  ⟨fun | .sequence matchesFront matchesBack => ⟨_, _, rfl, matchesFront, matchesBack⟩,
    fun ⟨_, _, same, matchesFront, matchesBack⟩ => same ▸ .sequence matchesFront matchesBack⟩

@[simp] theorem matches_either_iff {left right : Pattern} {text : List Char} :
    Matches (.either left right) text ↔ Matches left text ∨ Matches right text :=
  ⟨fun | .left found => .inl found | .right found => .inr found,
    fun | .inl found => .left found | .inr found => .right found⟩

/-- A sequence matches a non-empty text if the first part takes its first character, or takes
nothing and leaves it to the second part. -/
theorem matches_sequence_cons_iff {first second : Pattern} {character : Char}
    {text : List Char} :
    Matches (.sequence first second) (character :: text) ↔
      (∃ front back, text = front ++ back ∧ Matches first (character :: front) ∧
        Matches second back) ∨
      (Matches first [] ∧ Matches second (character :: text)) := by
  rw [matches_sequence_iff]
  constructor
  · rintro ⟨front, back, same, matchesFront, matchesBack⟩
    cases front with
    | nil => exact .inr ⟨matchesFront, by simpa [same] using matchesBack⟩
    | cons head front =>
      obtain ⟨rfl, rfl⟩ := List.cons.inj same
      exact .inl ⟨front, back, rfl, matchesFront, matchesBack⟩
  · rintro (⟨front, back, rfl, matchesFront, matchesBack⟩ | ⟨matchesNil, found⟩)
    · exact ⟨character :: front, back, rfl, matchesFront, matchesBack⟩
    · exact ⟨[], character :: text, rfl, matchesNil, found⟩

/-- A repetition matches a non-empty text if an item takes its first character and the
repetition matches the rest. -/
theorem matches_many_cons_iff {item : Pattern} {character : Char} {text : List Char} :
    Matches (.many item) (character :: text) ↔
      ∃ front back, text = front ++ back ∧ Matches item (character :: front) ∧
        Matches (.many item) back := by
  constructor
  · intro found
    generalize isMany : Pattern.many item = pattern at found
    generalize isCons : character :: text = whole at found
    induction found with
    | @manyMore item front back matchesFront matchesBack _ ihBack =>
      cases isMany
      cases front with
      | nil => exact ihBack rfl isCons
      | cons head front =>
        obtain ⟨rfl, rfl⟩ := List.cons.inj isCons
        exact ⟨front, back, rfl, matchesFront, matchesBack⟩
    | manyNone => cases isCons
    | _ => cases isMany
  · rintro ⟨front, back, rfl, matchesFront, matchesBack⟩
    exact .manyMore matchesFront matchesBack

/-! ## The simplifying combinators -/

@[simp] theorem matches_followedBy_iff {first second : Pattern} {text : List Char} :
    Matches (first.followedBy second) text ↔ Matches (.sequence first second) text := by
  rw [matches_sequence_iff]
  fun_cases followedBy first second with
  | case1 => simp
  | case2 =>
    constructor
    · exact fun found => ⟨[], text, rfl, .empty, found⟩
    · rintro ⟨front, back, rfl, isEmpty, found⟩
      simpa [matches_empty_iff.1 isEmpty] using found
  | case3 => exact matches_sequence_iff

@[simp] theorem matches_orElse_iff {left right : Pattern} {text : List Char} :
    Matches (left.orElse right) text ↔ Matches left text ∨ Matches right text := by
  fun_cases orElse left right <;> simp

/-! ## Derivatives -/

/-- A pattern matches the empty text if and only if it is nullable. -/
theorem matches_nil_iff {pattern : Pattern} : Matches pattern [] ↔ pattern.nullable = true := by
  induction pattern with
  | never => simp [nullable]
  | empty => simp [nullable]
  | one accepts => simp [nullable]
  | sequence first second ihFirst ihSecond =>
    simp only [matches_sequence_iff, nullable, Bool.and_eq_true, ← ihFirst, ← ihSecond]
    constructor
    · rintro ⟨front, back, same, matchesFront, matchesBack⟩
      obtain ⟨rfl, rfl⟩ := List.append_eq_nil_iff.1 same.symm
      exact ⟨matchesFront, matchesBack⟩
    · rintro ⟨matchesFirst, matchesSecond⟩
      exact ⟨[], [], rfl, matchesFirst, matchesSecond⟩
  | either left right ihLeft ihRight => simp [nullable, ihLeft, ihRight]
  | many item => simpa [nullable] using Matches.manyNone

/-- The derivative by a character matches exactly what may follow the character in a matching
text. -/
theorem matches_derivative_iff {pattern : Pattern} {character : Char} {text : List Char} :
    Matches (pattern.derivative character) text ↔ Matches pattern (character :: text) := by
  induction pattern generalizing text with
  | never => simp [derivative]
  | empty => simp [derivative]
  | one accepts =>
    by_cases accepted : accepts character = true <;> grind [derivative, matches_one_iff,
      matches_empty_iff, not_matches_never]
  | sequence first second ihFirst ihSecond =>
    rw [matches_sequence_cons_iff, matches_nil_iff]
    by_cases mayBeEmpty : first.nullable = true <;>
      simp [derivative, mayBeEmpty, matches_sequence_iff, ihFirst, ihSecond]
  | either left right ihLeft ihRight => simp [derivative, ihLeft, ihRight]
  | many item ih => simp [derivative, matches_sequence_iff, matches_many_cons_iff, ih]

/-! ## The longest matching beginning -/

@[simp] theorem longest?_nil (pattern : Pattern) :
    pattern.longest? [] = if pattern.nullable then some 0 else none := by
  rw [longest?]

@[simp] theorem longest?_never (text : List Char) : never.longest? text = none := by
  cases text <;> simp [longest?, nullable]

/-- A match goes on as long as the derivative by the next character matches. -/
theorem longest?_cons (pattern : Pattern) (character : Char) (rest : List Char) :
    pattern.longest? (character :: rest) =
      match (pattern.derivative character).longest? rest with
      | some length => some (length + 1)
      | none => if pattern.nullable then some 0 else none := by
  cases pattern with
  | never => simp [derivative, nullable]
  | _ => rfl

/-- What `longest?` finds is a matching beginning. -/
theorem matches_take_of_longest? {pattern : Pattern} {text : List Char} {length : Nat}
    (found : pattern.longest? text = some length) :
    length ≤ text.length ∧ Matches pattern (text.take length) := by
  induction text generalizing pattern length with
  | nil =>
    obtain ⟨isNullable, rfl⟩ : pattern.nullable = true ∧ 0 = length := by simpa using found
    exact ⟨Nat.le_refl 0, matches_nil_iff.2 isNullable⟩
  | cons character rest ih =>
    rw [longest?_cons] at found
    cases further : (pattern.derivative character).longest? rest with
    | some more =>
      obtain rfl : more + 1 = length := by simpa [further] using found
      obtain ⟨bounded, matchesRest⟩ := ih further
      exact ⟨Nat.succ_le_succ bounded, matches_derivative_iff.1 matchesRest⟩
    | none =>
      obtain ⟨isNullable, rfl⟩ : pattern.nullable = true ∧ 0 = length := by
        simpa [further] using found
      exact ⟨Nat.zero_le _, matches_nil_iff.2 isNullable⟩

/-- `longest?` reaches at least as far as any matching beginning. -/
theorem le_longest?_of_matches_take {pattern : Pattern} {text : List Char} {length : Nat}
    (bounded : length ≤ text.length) (found : Matches pattern (text.take length)) :
    ∃ longest, pattern.longest? text = some longest ∧ length ≤ longest := by
  induction text generalizing pattern length with
  | nil =>
    obtain rfl : length = 0 := by simpa using bounded
    exact ⟨0, by simpa using matches_nil_iff.1 found, Nat.le_refl 0⟩
  | cons character rest ih =>
    rw [longest?_cons]
    cases length with
    | zero =>
      cases (pattern.derivative character).longest? rest with
      | some more => exact ⟨more + 1, rfl, Nat.zero_le _⟩
      | none => exact ⟨0, by simp [matches_nil_iff.1 found], Nat.le_refl 0⟩
    | succ length =>
      obtain ⟨more, further, reached⟩ :=
        ih (Nat.le_of_succ_le_succ bounded) (matches_derivative_iff.2 found)
      exact ⟨more + 1, by rw [further], Nat.succ_le_succ reached⟩

/-- `longest?` finds nothing if and only if no beginning of the text matches. -/
theorem longest?_eq_none_iff {pattern : Pattern} {text : List Char} :
    pattern.longest? text = none ↔
      ∀ length ≤ text.length, ¬ Matches pattern (text.take length) := by
  constructor
  · intro isNone length bounded found
    obtain ⟨longest, isSome, _⟩ := le_longest?_of_matches_take bounded found
    simp [isNone] at isSome
  · intro noMatch
    cases result : pattern.longest? text with
    | none => rfl
    | some length =>
      obtain ⟨bounded, found⟩ := matches_take_of_longest? result
      exact absurd found (noMatch length bounded)

/-- `longest?` finds a length if and only if the beginning of that length matches and no longer
one does. -/
theorem longest?_eq_some_iff {pattern : Pattern} {text : List Char} {length : Nat} :
    pattern.longest? text = some length ↔
      length ≤ text.length ∧ Matches pattern (text.take length) ∧
        ∀ longer ≤ text.length, length < longer → ¬ Matches pattern (text.take longer) := by
  constructor
  · intro result
    obtain ⟨bounded, found⟩ := matches_take_of_longest? result
    refine ⟨bounded, found, fun longer longerBounded isLonger longerFound => ?_⟩
    obtain ⟨longest, isLongest, reached⟩ := le_longest?_of_matches_take longerBounded longerFound
    obtain rfl : length = longest := by simpa [result] using isLongest
    exact absurd isLonger (Nat.not_lt.2 reached)
  · rintro ⟨bounded, found, isLongest⟩
    obtain ⟨longest, result, reached⟩ := le_longest?_of_matches_take bounded found
    obtain ⟨longestBounded, longestFound⟩ := matches_take_of_longest? result
    rcases Nat.lt_or_eq_of_le reached with isLonger | rfl
    · exact absurd longestFound (isLongest longest longestBounded isLonger)
    · exact result

end RubyIndex.Syntax.Pattern
