import RubyIndex.Proofs.Markup.Paragraphs

/-! # Where paragraphs stand

A paragraph is a maximal run of lines that are not blank, and it is where its first line is: behind
the lines above it, each of which ends with a line break.

* `IsRun` says that some lines are such a run, between those above and those below.
* `IsParagraphOf` says the same of a paragraph with its offset. `mem_paragraphs_iff`: these are the
  paragraphs that are found.
* `mem_earlier_iff`: the paragraphs come in the order of their offsets.
* `paragraphs_of_isParagraphOf`: the text of a paragraph is one paragraph. -/

namespace RubyIndex.Markup

open Text

/-! ## Runs of lines -/

/-- **A maximal run of lines that are not blank**, with the lines above it and those below it. -/
structure IsRun (lines above run below : List (List Char)) : Prop where
  lines_eq : lines = above ++ run ++ below
  ne_nil : run ≠ []
  not_blank : ∀ line ∈ run, isBlankText line = false
  blank_above : ∀ line ∈ above.getLast?, isBlankText line = true
  blank_below : ∀ line ∈ below.head?, isBlankText line = true

/-- The width of lines in bytes, each with a line break behind it. -/
def linesWidth (lines : List (List Char)) : Nat := byteWidth (lines.flatMap (· ++ ['\n']))

/-- **A paragraph of a text**: a maximal run of lines that are not blank, where it begins. -/
def IsParagraphOf (paragraph : Paragraph) (text : List Char) : Prop :=
  ∃ above run below, IsRun (pieces '\n' text) above run below ∧
    paragraph = ⟨linesWidth above, ['\n'].intercalate run⟩

@[simp] theorem linesWidth_nil : linesWidth [] = 0 := rfl

@[simp] theorem linesWidth_cons (line : List Char) (rest : List (List Char)) :
    linesWidth (line :: rest) = byteWidth line + 1 + linesWidth rest := by
  have hbreak : '\n'.utf8Size = 1 := rfl
  simp [linesWidth, hbreak, Nat.add_assoc]

@[simp] theorem linesWidth_append (front back : List (List Char)) :
    linesWidth (front ++ back) = linesWidth front + linesWidth back := by
  simp [linesWidth]

/-- Lines take up some bytes, if there are any. -/
theorem linesWidth_pos {lines : List (List Char)} (hne : lines ≠ []) : 0 < linesWidth lines := by
  obtain ⟨first, rest, rfl⟩ := List.exists_cons_of_ne_nil hne
  rw [linesWidth_cons]
  omega

/-- A line that is not blank begins a run, which goes up to the next blank line. -/
theorem exists_run {line : List Char} (hline : isBlankText line = false)
    (rest : List (List Char)) :
    ∃ run others, line :: rest = run ++ others ∧ run ≠ [] ∧
      (∀ line ∈ run, isBlankText line = false) ∧
      (∀ line ∈ others.head?, isBlankText line = true) ∧ others.length ≤ rest.length := by
  induction rest generalizing line with
  | nil =>
    exact ⟨[line], [], rfl, List.cons_ne_nil _ _, by simpa using hline, by simp, Nat.le_refl _⟩
  | cons second later ih =>
    cases hsecond : isBlankText second with
    | true =>
      exact ⟨[line], second :: later, rfl, List.cons_ne_nil _ _, by simpa using hline,
        by simpa using hsecond, Nat.le_refl _⟩
    | false =>
      obtain ⟨run, others, hsplit, -, hrun, hothers, hshorter⟩ := ih hsecond
      exact ⟨line :: run, others, by rw [hsplit]; rfl, List.cons_ne_nil _ _,
        List.forall_mem_cons.2 ⟨hline, hrun⟩, hothers, Nat.le_succ_of_le hshorter⟩

/-- **Induction along runs.** Lines begin with a blank one, or with a whole run. -/
theorem runInduction {motive : List (List Char) → Prop} (nil : motive [])
    (blank : ∀ line rest, isBlankText line = true → motive rest → motive (line :: rest))
    (run : ∀ run rest, run ≠ [] → (∀ line ∈ run, isBlankText line = false) →
      (∀ line ∈ rest.head?, isBlankText line = true) → motive rest → motive (run ++ rest))
    (lines : List (List Char)) : motive lines := by
  induction hlength : lines.length using Nat.strongRecOn generalizing lines with
  | ind length ih =>
    subst hlength
    cases lines with
    | nil => exact nil
    | cons line rest =>
      cases hline : isBlankText line with
      | true => exact blank line rest hline (ih rest.length (Nat.lt_succ_self _) rest rfl)
      | false =>
        obtain ⟨first, others, hsplit, hne, hfirst, hothers, hshorter⟩ := exists_run hline rest
        rw [hsplit]
        exact run first others hne hfirst hothers
          (ih others.length (Nat.lt_succ_of_le hshorter) others rfl)

/-- There is no run where there are no lines. -/
theorem not_isRun_nil (above run below : List (List Char)) : ¬IsRun [] above run below := by
  intro hrun
  have hnone := hrun.lines_eq
  simp only [List.nil_eq, List.append_eq_nil_iff] at hnone
  exact hrun.ne_nil hnone.1.2

/-- A blank line stands above all runs. -/
theorem isRun_blank_cons_iff {line : List Char} (hblank : isBlankText line = true)
    {rest above run below : List (List Char)} :
    IsRun (line :: rest) above run below ↔
      ∃ others, above = line :: others ∧ IsRun rest others run below := by
  constructor
  · intro hrun
    -- a run has no blank line, so the one in front is above it
    cases above with
    | nil =>
      obtain ⟨first, others, rfl⟩ := List.exists_cons_of_ne_nil hrun.ne_nil
      obtain ⟨rfl, -⟩ := List.cons.inj hrun.lines_eq
      rw [hrun.not_blank line List.mem_cons_self] at hblank
      cases hblank
    | cons first others =>
      obtain ⟨rfl, hrest⟩ := List.cons.inj hrun.lines_eq
      refine ⟨others, rfl, hrest, hrun.ne_nil, hrun.not_blank, ?_, hrun.blank_below⟩
      intro last hlast
      refine hrun.blank_above last ?_
      rw [List.getLast?_cons, Option.mem_def, Option.mem_def.1 hlast]
      rfl
  · rintro ⟨others, rfl, hrun⟩
    refine ⟨by rw [hrun.lines_eq]; rfl, hrun.ne_nil, hrun.not_blank, ?_, hrun.blank_below⟩
    intro last hlast
    cases hothers : others.getLast? with
    | none =>
      rw [List.getLast?_cons, hothers] at hlast
      obtain rfl := Option.some.inj hlast
      exact hblank
    | some found =>
      rw [List.getLast?_cons, hothers] at hlast
      obtain rfl := Option.some.inj hlast
      exact hrun.blank_above _ hothers

/-- Two runs in the same place go up to the same blank line. -/
theorem eq_of_append_eq_append {first rest run below : List (List Char)}
    (hfirst : ∀ line ∈ first, isBlankText line = false)
    (hrest : ∀ line ∈ rest.head?, isBlankText line = true)
    (hrun : ∀ line ∈ run, isBlankText line = false)
    (hbelow : ∀ line ∈ below.head?, isBlankText line = true)
    (hlines : first ++ rest = run ++ below) : run = first ∧ below = rest := by
  rcases List.append_eq_append_iff.1 hlines with ⟨more, rfl, rfl⟩ | ⟨more, rfl, rfl⟩
  · cases more with
    | nil => exact ⟨List.append_nil _, rfl⟩
    | cons line others =>
      have hblank := hrest line rfl
      rw [hrun line (by simp)] at hblank
      cases hblank
  · cases more with
    | nil => exact ⟨(List.append_nil _).symm, rfl⟩
    | cons line others =>
      have hblank := hbelow line rfl
      rw [hfirst line (by simp)] at hblank
      cases hblank

/-- A blank line that does not stand in a run at the front stands behind it. -/
theorem exists_append_of_blank {first rest front later : List (List Char)} {last : List Char}
    (hfirst : ∀ line ∈ first, isBlankText line = false) (hlast : isBlankText last = true)
    (hlines : first ++ rest = front ++ last :: later) :
    ∃ others, front ++ [last] = first ++ others ∧ others.getLast? = some last ∧
      rest = others ++ later := by
  rcases List.append_eq_append_iff.1 hlines with ⟨more, rfl, rfl⟩ | ⟨more, rfl, hrest⟩
  · exact ⟨more ++ [last], by simp, by simp, by simp⟩
  · cases more with
    | nil => exact ⟨[last], by simp, rfl, hrest.symm⟩
    | cons line others =>
      obtain ⟨rfl, -⟩ := List.cons.inj hrest
      rw [hfirst last (by simp)] at hlast
      cases hlast

/-- **The first of several runs** has nothing above it, and stands above all others. -/
theorem isRun_append_iff {first rest above run below : List (List Char)} (hne : first ≠ [])
    (hfirst : ∀ line ∈ first, isBlankText line = false)
    (hrest : ∀ line ∈ rest.head?, isBlankText line = true) :
    IsRun (first ++ rest) above run below ↔
      (above = [] ∧ run = first ∧ below = rest) ∨
        ∃ others, above = first ++ others ∧ IsRun rest others run below := by
  constructor
  · intro hrun
    have hlines := hrun.lines_eq
    rw [List.append_assoc] at hlines
    rcases List.eq_nil_or_concat above with rfl | ⟨front, last, rfl⟩
    · exact .inl ⟨rfl, eq_of_append_eq_append hfirst hrest hrun.not_blank hrun.blank_below hlines⟩
    · -- the last line above is blank, so that it comes after the first run
      right
      rw [List.concat_eq_append] at hlines hrun ⊢
      have hlast := hrun.blank_above last (by simp)
      rw [List.append_assoc, List.singleton_append] at hlines
      obtain ⟨others, habove, hends, hsplit⟩ := exists_append_of_blank hfirst hlast hlines
      refine ⟨others, habove, by rw [hsplit, List.append_assoc], hrun.ne_nil, hrun.not_blank, ?_,
        hrun.blank_below⟩
      intro line hline
      rw [hends] at hline
      obtain rfl := Option.some.inj hline
      exact hlast
  · rintro (⟨rfl, rfl, rfl⟩ | ⟨others, rfl, hrun⟩)
    · exact ⟨rfl, hne, hfirst, by simp, hrest⟩
    · refine ⟨by simp [hrun.lines_eq], hrun.ne_nil, hrun.not_blank, ?_, hrun.blank_below⟩
      intro line hline
      cases hothers : others.getLast? with
      | none =>
        -- the run would begin with the blank line that ends the first one
        rw [List.getLast?_eq_none_iff] at hothers
        obtain ⟨head, tail, htail⟩ := List.exists_cons_of_ne_nil hrun.ne_nil
        have hblank := hrest head (by rw [hrun.lines_eq, hothers, htail]; rfl)
        rw [hrun.not_blank head (by rw [htail]; exact List.mem_cons_self)] at hblank
        cases hblank
      | some found =>
        rw [List.getLast?_append, hothers] at hline
        obtain rfl := Option.some.inj hline
        exact hrun.blank_above _ hothers

/-! ## Paragraphs of runs -/

/-- A blank line ends the paragraph before it. -/
theorem paragraphsFrom_of_head?_blank (start : Nat) (unfinished : Option Paragraph)
    {rest : List (List Char)} (hrest : ∀ line ∈ rest.head?, isBlankText line = true) :
    paragraphsFrom start unfinished rest = unfinished.toList ++ paragraphsFrom start none rest := by
  cases rest with
  | nil => simp [paragraphsFrom]
  | cons line others =>
    have hblank := hrest line rfl
    rw [paragraphsFrom_cons, paragraphsFrom_cons, if_pos hblank, if_pos hblank]
    rfl

/-- Lines that are not blank go on with a paragraph. -/
theorem paragraphsFrom_append (start first : Nat) {front run : List (List Char)} (hne : front ≠ [])
    (hrun : ∀ line ∈ run, isBlankText line = false) (rest : List (List Char)) :
    paragraphsFrom start (some ⟨first, ['\n'].intercalate front⟩) (run ++ rest) =
      paragraphsFrom (start + linesWidth run) (some ⟨first, ['\n'].intercalate (front ++ run)⟩)
        rest := by
  induction run generalizing start front with
  | nil => simp
  | cons line others ih =>
    have hline := hrun line List.mem_cons_self
    have hcontinued : continued start (some ⟨first, ['\n'].intercalate front⟩) line =
        ⟨first, ['\n'].intercalate (front ++ [line])⟩ := by
      rw [continued, Paragraph.addLine, intercalate_concat hne]
    rw [List.cons_append, paragraphsFrom_cons, hline, if_neg Bool.false_ne_true, hcontinued,
      ih _ (List.append_ne_nil_of_right_ne_nil front (List.cons_ne_nil line []))
        (fun other hother => hrun other (List.mem_cons_of_mem _ hother)),
      linesWidth_cons, List.append_assoc, List.singleton_append]
    simp only [Nat.add_assoc]

/-- **A run makes up a paragraph.** -/
theorem paragraphsFrom_run (start : Nat) {run rest : List (List Char)} (hne : run ≠ [])
    (hrun : ∀ line ∈ run, isBlankText line = false)
    (hrest : ∀ line ∈ rest.head?, isBlankText line = true) :
    paragraphsFrom start none (run ++ rest) =
      ⟨start, ['\n'].intercalate run⟩ :: paragraphsFrom (start + linesWidth run) none rest := by
  obtain ⟨line, others, rfl⟩ := List.exists_cons_of_ne_nil hne
  have hline := hrun line List.mem_cons_self
  have hbegun : continued start none line = ⟨start, ['\n'].intercalate [line]⟩ := by
    simp [continued]
  rw [List.cons_append, paragraphsFrom_cons, hline, if_neg Bool.false_ne_true, hbegun,
    paragraphsFrom_append _ _ (List.cons_ne_nil line [])
      (fun other hother => hrun other (List.mem_cons_of_mem _ hother)),
    paragraphsFrom_of_head?_blank _ _ hrest, linesWidth_cons]
  simp only [Nat.add_assoc]
  rfl

/-- The paragraphs of some lines are their runs. -/
theorem mem_paragraphsFrom_iff (start : Nat) (lines : List (List Char)) (paragraph : Paragraph) :
    paragraph ∈ paragraphsFrom start none lines ↔ ∃ above run below, IsRun lines above run below ∧
      paragraph = ⟨start + linesWidth above, ['\n'].intercalate run⟩ := by
  induction lines using runInduction generalizing start with
  | nil =>
    simp only [paragraphsFrom, Option.toList_none, List.not_mem_nil, false_iff]
    rintro ⟨above, run, below, hrun, -⟩
    exact not_isRun_nil above run below hrun
  | blank line rest hblank ih =>
    -- every run has the blank line above it
    rw [paragraphsFrom_cons, if_pos hblank, Option.toList_none, List.nil_append, ih]
    simp only [isRun_blank_cons_iff hblank]
    constructor
    · rintro ⟨above, run, below, hrun, rfl⟩
      exact ⟨line :: above, run, below, ⟨above, rfl, hrun⟩, by simp [Nat.add_assoc]⟩
    · rintro ⟨_, run, below, ⟨above, rfl, hrun⟩, rfl⟩
      exact ⟨above, run, below, hrun, by simp [Nat.add_assoc]⟩
  | run first rest hne hfirst hrest ih =>
    -- the first run makes up the first paragraph, and stands above all others
    rw [paragraphsFrom_run start hne hfirst hrest, List.mem_cons, ih]
    simp only [isRun_append_iff hne hfirst hrest]
    constructor
    · rintro (rfl | ⟨above, run, below, hrun, rfl⟩)
      · exact ⟨[], first, rest, .inl ⟨rfl, rfl, rfl⟩, rfl⟩
      · exact ⟨first ++ above, run, below, .inr ⟨above, rfl, hrun⟩, by simp [Nat.add_assoc]⟩
    · rintro ⟨_, run, below, ⟨rfl, rfl, rfl⟩ | ⟨above, rfl, hrun⟩, rfl⟩
      · exact .inl rfl
      · exact .inr ⟨above, run, below, hrun, by simp [Nat.add_assoc]⟩

/-- Paragraphs begin further and further on. -/
theorem pairwise_paragraphsFrom (start : Nat) (lines : List (List Char)) :
    (paragraphsFrom start none lines).Pairwise (·.start < ·.start) := by
  induction lines using runInduction generalizing start with
  | nil => exact List.Pairwise.nil
  | blank line rest hblank ih =>
    rw [paragraphsFrom_cons, if_pos hblank]
    exact ih _
  | run first rest hne hfirst hrest ih =>
    rw [paragraphsFrom_run start hne hfirst hrest, List.pairwise_cons]
    refine ⟨fun later hlater => ?_, ih _⟩
    obtain ⟨above, run, below, -, rfl⟩ := (mem_paragraphsFrom_iff _ _ _).1 hlater
    have hpos := linesWidth_pos hne
    change start < start + linesWidth first + linesWidth above
    omega

/-! ## Paragraphs of texts -/

variable {text : List Char} {paragraph : Paragraph}

/-- **The paragraphs of a text** are its maximal runs of lines that are not blank. -/
theorem mem_paragraphs_iff : paragraph ∈ paragraphs text ↔ IsParagraphOf paragraph text := by
  rw [paragraphs, mem_paragraphsFrom_iff]
  simp only [Nat.zero_add, IsParagraphOf]

/-- **The paragraphs before another** are those with smaller offsets. -/
theorem mem_earlier_iff {earlier later : List Paragraph}
    (hsplit : paragraphs text = earlier ++ paragraph :: later) {other : Paragraph} :
    other ∈ earlier ↔ IsParagraphOf other text ∧ other.start < paragraph.start := by
  have hordered := pairwise_paragraphsFrom 0 (pieces '\n' text)
  rw [← paragraphs, hsplit, List.pairwise_append, List.pairwise_cons] at hordered
  obtain ⟨-, ⟨hlater, -⟩, hearlier⟩ := hordered
  rw [← mem_paragraphs_iff, hsplit, List.mem_append, List.mem_cons]
  constructor
  · exact fun hmem => ⟨.inl hmem, hearlier other hmem paragraph List.mem_cons_self⟩
  · rintro ⟨hmem | rfl | hmem, hbefore⟩
    · exact hmem
    · exact absurd hbefore (Nat.lt_irrefl _)
    · exact absurd hbefore (Nat.lt_asymm (hlater other hmem))

/-- A paragraph stands in the text at its offset. -/
theorem IsParagraphOf.exists_append (hparagraph : IsParagraphOf paragraph text) :
    ∃ front back, text = front ++ paragraph.text ++ back ∧ byteWidth front = paragraph.start := by
  obtain ⟨above, run, below, hrun, rfl⟩ := hparagraph
  have hlines : text ++ ['\n'] = above.flatMap (· ++ ['\n']) ++ ['\n'].intercalate run ++
      '\n' :: below.flatMap (· ++ ['\n']) := by
    rw [← flatMap_lines, hrun.lines_eq, List.flatMap_append, List.flatMap_append,
      flatMap_concat_eq hrun.ne_nil]
    simp
  obtain ⟨back, htext⟩ := exists_append_of_concat hlines
  exact ⟨above.flatMap (· ++ ['\n']), back, htext, rfl⟩

/-- **The text of a paragraph** has one paragraph, which is all of it. -/
theorem paragraphs_of_isParagraphOf (hparagraph : IsParagraphOf paragraph text) :
    paragraphs paragraph.text = [⟨0, paragraph.text⟩] := by
  obtain ⟨above, run, below, hrun, rfl⟩ := hparagraph
  have hpieces : pieces '\n' (['\n'].intercalate run) = run := by
    refine pieces_intercalate hrun.ne_nil fun line hline => ?_
    exact not_mem_of_mem_pieces (by rw [hrun.lines_eq]; simp [hline])
  have hend : ∀ line ∈ ([] : List (List Char)).head?, isBlankText line = true := by simp
  have hone := paragraphsFrom_run 0 hrun.ne_nil hrun.not_blank hend
  rw [List.append_nil] at hone
  rw [paragraphs, hpieces, hone]
  rfl

end RubyIndex.Markup
