import Mathlib.Data.List.Basic
import RubyIndex.Markup.Paragraph

/-! # The paragraphs of a text

The lines of a text that are not blank come in runs, with blank lines between them. Each run makes
up one paragraph, whose text is that of its lines with the line breaks between them.

* `lineRuns` are the maximal runs of lines that are not blank.
* `map_text_paragraphs`: the paragraphs are these runs, in their order. -/

namespace RubyIndex.Markup

open Text

/-- **The maximal runs of lines that are not blank**: what is left between the blank lines, where
there is something left. -/
def lineRuns (text : List Char) : List (List (List Char)) :=
  ((pieces '\n' text).splitOnP isBlankText).filter (· ≠ [])

/-- What stands in front of a line break stands at the front of a text, also if the line break has
been put behind the text. -/
theorem exists_append_of_concat {text front left : List Char}
    (htext : text ++ ['\n'] = front ++ '\n' :: left) : ∃ back, text = front ++ back := by
  rcases List.append_eq_append_iff.1 htext with ⟨more, hmore, hlast⟩ | ⟨back, hback, -⟩
  · have hlength := congrArg List.length hlast
    simp only [List.length_append, List.length_cons, List.length_nil] at hlength
    obtain rfl : more = [] := List.length_eq_zero_iff.1 (by omega)
    exact ⟨[], by rw [hmore, List.append_nil, List.append_nil]⟩
  · exact ⟨back, hback⟩

/-- The lines of a text with the line breaks behind them. -/
theorem flatMap_lines (text : List Char) :
    (pieces '\n' text).flatMap (· ++ ['\n']) = text ++ ['\n'] := by
  rw [flatMap_concat_eq (pieces_ne_nil '\n' text), intercalate_pieces]

/-! ## Unfinished paragraphs -/

/-- A paragraph with a further line, which starts at a byte offset if it is the first. -/
def continued (start : Nat) (unfinished : Option Paragraph) (line : List Char) : Paragraph :=
  match unfinished with
  | none => ⟨start, line⟩
  | some paragraph => paragraph.addLine line

/-- A blank line ends a paragraph, and any other goes on with one or begins one. -/
theorem paragraphsFrom_cons (start : Nat) (unfinished : Option Paragraph) (line : List Char)
    (rest : List (List Char)) :
    paragraphsFrom start unfinished (line :: rest) =
      if isBlankText line then
        unfinished.toList ++ paragraphsFrom (start + byteWidth line + 1) none rest
      else paragraphsFrom (start + byteWidth line + 1) (some (continued start unfinished line))
        rest := by
  cases unfinished <;> rfl

/-- **The lines of an unfinished paragraph**, of which there are none if it has not begun. -/
def HasLines (unfinished : Option Paragraph) (run : List (List Char)) : Prop :=
  unfinished.toList.map (·.text) = ([run].filter (· ≠ [])).map ['\n'].intercalate

theorem hasLines_none : HasLines none [] := rfl

/-- A line more for the paragraph is a line more for the run. -/
theorem HasLines.continued {unfinished : Option Paragraph} {run : List (List Char)}
    (hlines : HasLines unfinished run) (start : Nat) (line : List Char) :
    HasLines (some (continued start unfinished line)) (run ++ [line]) := by
  have hjoined : (Markup.continued start unfinished line).text =
      ['\n'].intercalate (run ++ [line]) := by
    unfold HasLines at hlines
    by_cases hnil : run = []
    · subst hnil
      cases unfinished with
      | none => simp [Markup.continued]
      | some paragraph => simp at hlines
    · cases unfinished with
      | none => simp [hnil] at hlines
      | some paragraph =>
        have htext : paragraph.text = ['\n'].intercalate run := by simpa [hnil] using hlines
        rw [Markup.continued, Paragraph.addLine, htext, intercalate_concat hnil]
  simp [HasLines, hjoined]

/-- The paragraphs of some lines after those of an unfinished paragraph, which begin the first
run. -/
theorem map_text_paragraphsFrom (start : Nat) {unfinished : Option Paragraph}
    {run : List (List Char)} (hrun : HasLines unfinished run) (lines : List (List Char)) :
    (paragraphsFrom start unfinished lines).map (·.text) =
      (((lines.splitOnP isBlankText).modifyHead (run ++ ·)).filter (· ≠ [])).map
        ['\n'].intercalate := by
  induction lines generalizing start unfinished run with
  | nil =>
    rw [List.splitOnP_nil, List.modifyHead_cons, List.append_nil]
    exact hrun
  | cons line rest ih =>
    obtain ⟨first, others, hothers⟩ :=
      List.exists_cons_of_ne_nil (List.splitOnP_ne_nil isBlankText rest)
    rw [paragraphsFrom_cons, List.splitOnP_cons_eq_if_modifyHead]
    split
    · -- the run ends here, and the next one begins with nothing
      rw [List.map_append, hrun, ih _ hasLines_none, hothers]
      simp only [List.modifyHead_cons, List.nil_append, List.append_nil]
      rw [← List.map_append, ← List.filter_append, List.singleton_append]
    · rw [ih _ (hrun.continued start line), hothers]
      simp only [List.modifyHead_cons, List.append_assoc, List.singleton_append]

/-- **Paragraphs are runs of lines**: one for each maximal run, in order. -/
theorem map_text_paragraphs (text : List Char) :
    (paragraphs text).map (·.text) = (lineRuns text).map ['\n'].intercalate := by
  obtain ⟨first, others, hothers⟩ :=
    List.exists_cons_of_ne_nil (List.splitOnP_ne_nil isBlankText (pieces '\n' text))
  rw [paragraphs, map_text_paragraphsFrom 0 hasLines_none, lineRuns, hothers,
    List.modifyHead_cons, List.nil_append]

end RubyIndex.Markup
