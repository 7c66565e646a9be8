import RubyIndex.Proofs.Markup.ParagraphPlaces
import RubyIndex.Proofs.Markup.Slices

/-! # Code that is not closed

A docstring is not rendered if a mark opens code that no later mark of its paragraph closes. Whether
a mark opens code or closes it depends on all marks before it. The one that is reported is the last
of its paragraph and stands at the beginning of a word, after text that leaves no code open.

* `LeavesClosed` says that a text is rendered and leaves no code open.
* `inlineHtml_eq_error_iff` says which mark of a paragraph cannot be rendered.
* `UnclosedMark` is such a mark in a docstring, and `renderHtml_unterminated_iff` is the result. -/

namespace RubyIndex.Markup

open Text

/-! ## Texts that leave no code open -/

theorem map_eq_error_iff {Cause Inner Value : Type} {run : Inner → Value}
    {result : Except Cause Inner} {cause : Cause} :
    result.map run = .error cause ↔ result = .error cause := by
  cases result <;> simp [Except.map]

theorem exists_map_eq_ok_iff {Cause Inner Value : Type} {run : Inner → Value}
    {result : Except Cause Inner} :
    (∃ value, result.map run = .ok value) ↔ ∃ inner, result = .ok inner := by
  cases result <;> simp [Except.map]

/-- Whether a text is rendered does not depend on where it stands. -/
theorem exists_inlineHtml_iff {inCode : Bool} {before : Option Char} {text : List Char}
    (offset other : Nat) :
    (∃ html, inlineHtml inCode offset before text = .ok html) ↔
      ∃ html, inlineHtml inCode other before text = .ok html := by
  induction text generalizing inCode before offset other with
  | nil => exact Iff.rfl
  | cons character rest ih =>
    rw [inlineHtml, inlineHtml]
    split
    · rw [exists_map_eq_ok_iff, exists_map_eq_ok_iff]
      exact ih _ _
    · split
      · split
        · rw [exists_map_eq_ok_iff, exists_map_eq_ok_iff]
          exact ih _ _
        · simp
      · rw [exists_map_eq_ok_iff, exists_map_eq_ok_iff]
        exact ih _ _

/-- **A text that leaves no code open**: it is rendered, and code that is open before it is closed
in it. -/
structure LeavesClosed (inCode : Bool) (before : Option Char) (text : List Char) : Prop where
  closes : inCode = true → '+' ∈ text
  renders : ∃ html, inlineHtml inCode 0 before text = .ok html

theorem leavesClosed_nil (before : Option Char) : LeavesClosed false before [] :=
  ⟨Bool.noConfusion, [], rfl⟩

theorem not_leavesClosed_nil (before : Option Char) : ¬LeavesClosed true before [] :=
  fun hleaves => List.not_mem_nil (hleaves.closes rfl)

/-- What is rendered behind a character leaves no code open if it does so with the character. -/
theorem leavesClosed_cons_iff {inCode inside : Bool} {before : Option Char} {character : Char}
    {rest front : List Char} {next : Nat}
    (hstep : inlineHtml inCode 0 before (character :: rest) =
      (inlineHtml inside next (some character) rest).map (front ++ ·))
    (hcloses : (inCode = true → '+' ∈ character :: rest) ↔ (inside = true → '+' ∈ rest)) :
    LeavesClosed inCode before (character :: rest) ↔
      LeavesClosed inside (some character) rest := by
  have hrenders : (∃ html, inlineHtml inCode 0 before (character :: rest) = .ok html) ↔
      ∃ html, inlineHtml inside 0 (some character) rest = .ok html := by
    rw [hstep, exists_map_eq_ok_iff]
    exact exists_inlineHtml_iff _ _
  constructor
  · exact fun hleaves => ⟨hcloses.1 hleaves.closes, hrenders.1 hleaves.renders⟩
  · exact fun hleaves => ⟨hcloses.2 hleaves.closes, hrenders.2 hleaves.renders⟩

theorem leavesClosed_cons_of_ne {inCode : Bool} {before : Option Char} {character : Char}
    (hother : character ≠ '+') {rest : List Char} :
    LeavesClosed inCode before (character :: rest) ↔
      LeavesClosed inCode (some character) rest :=
  leavesClosed_cons_iff (inlineHtml_cons_of_ne _ _ _ hother _) (by simp [Ne.symm hother])

/-- A mark inside code ends it. -/
theorem leavesClosed_closing {before : Option Char} {rest : List Char} :
    LeavesClosed true before ('+' :: rest) ↔ LeavesClosed false (some '+') rest :=
  leavesClosed_cons_iff (inlineHtml_closing _ _ _) (by simp)

/-- A mark that opens nothing is text. -/
theorem leavesClosed_plain {before : Option Char} {rest : List Char}
    (hopens : startsCode before rest = false) :
    LeavesClosed false before ('+' :: rest) ↔ LeavesClosed false (some '+') rest :=
  leavesClosed_cons_iff (inlineHtml_plain _ hopens) (by simp)

/-- A mark opens code, which is to be closed. -/
theorem leavesClosed_opening {before : Option Char} {rest : List Char}
    (hopens : startsCode before rest = true) :
    LeavesClosed false before ('+' :: rest) ↔ LeavesClosed true (some '+') rest := by
  by_cases hmore : '+' ∈ rest
  · exact leavesClosed_cons_iff (inlineHtml_opening _ hopens hmore) (by simp [hmore])
  · constructor
    · rintro ⟨-, html, hok⟩
      rw [inlineHtml_unclosed _ hopens hmore] at hok
      cases hok
    · exact fun hleaves => absurd (hleaves.closes rfl) hmore

/-! ## The mark that cannot be rendered -/

/-- Whether a mark opens code does not depend on what comes from the next mark on. -/
theorem startsCode_append (before : Option Char) (front after : List Char) :
    startsCode before (front ++ '+' :: after) = startsCode before front := by
  cases front with
  | nil => simp [startsCode]
  | cons character rest => rfl

/-- When a mark opens code: it begins a word and goes on with something. -/
theorem startsCode_iff {before : Option Char} {after : List Char} :
    startsCode before after = true ↔
      (∀ previous ∈ before, isAlphanumeric previous = false ∧ previous ≠ '+') ∧
        ∃ next ∈ after.head?, isBlank next = false ∧ next ≠ '+' := by
  unfold startsCode
  cases before <;> cases after <;> simp

/-- **The mark that cannot be rendered** in a text behind an offset and a character: it opens code,
what stands in front of it leaves no code open, and what stands behind it has no mark. -/
def Unclosed (inCode : Bool) (offset : Nat) (before : Option Char) (text : List Char)
    (cause : MarkupError) : Prop :=
  ∃ front after, text = front ++ '+' :: after ∧ '+' ∉ after ∧
    startsCode (front.getLast?.or before) after = true ∧ LeavesClosed inCode before front ∧
    cause = .unterminated '+' (offset + byteWidth front)

/-- A character that is not the mark itself stands in front of it. -/
theorem unclosed_cons_iff {inCode inside : Bool} {offset : Nat} {before : Option Char}
    {character : Char} {rest : List Char} {cause : MarkupError}
    (hother : character = '+' → '+' ∉ rest → startsCode before rest = true →
      ¬LeavesClosed inCode before [])
    (hstep : ∀ front after, rest = front ++ '+' :: after →
      (LeavesClosed inCode before (character :: front) ↔
        LeavesClosed inside (some character) front)) :
    Unclosed inCode offset before (character :: rest) cause ↔
      Unclosed inside (offset + character.utf8Size) (some character) rest cause := by
  -- the character in front of a mark is the last one read, or the one before the text
  have hlast (front : List Char) : (character :: front).getLast?.or before =
      front.getLast?.or (some character) := by
    rw [List.getLast?_cons]
    cases front.getLast? <;> rfl
  constructor
  · rintro ⟨front, after, htext, hafter, hopens, hleaves, rfl⟩
    cases front with
    | nil =>
      obtain ⟨rfl, rfl⟩ := List.cons.inj htext
      exact absurd hleaves (hother rfl hafter hopens)
    | cons first front =>
      obtain ⟨rfl, rfl⟩ := List.cons.inj htext
      refine ⟨front, after, rfl, hafter, (hlast front) ▸ hopens, (hstep _ _ rfl).1 hleaves, ?_⟩
      rw [byteWidth_cons, Nat.add_assoc]
  · rintro ⟨front, after, rfl, hafter, hopens, hleaves, rfl⟩
    refine ⟨character :: front, after, rfl, hafter, (hlast front).symm ▸ hopens,
      (hstep _ _ rfl).2 hleaves, ?_⟩
    rw [byteWidth_cons, Nat.add_assoc]

/-- The last mark is the one that cannot be rendered, if it opens code. -/
theorem unclosed_last_iff {offset : Nat} {before : Option Char} {rest : List Char}
    {cause : MarkupError} (hopens : startsCode before rest = true) (hlast : '+' ∉ rest) :
    Unclosed false offset before ('+' :: rest) cause ↔ cause = .unterminated '+' offset := by
  constructor
  · rintro ⟨front, after, htext, -, -, -, rfl⟩
    cases front with
    | nil => rfl
    | cons first front =>
      obtain ⟨-, rfl⟩ := List.cons.inj htext
      simp at hlast
  · rintro rfl
    exact ⟨[], rest, rfl, hlast, hopens, leavesClosed_nil before, rfl⟩

/-- **What cannot be rendered** is the last mark, if it opens code. -/
theorem inlineHtml_eq_error_iff {inCode : Bool} {offset : Nat} {before : Option Char}
    {text : List Char} {cause : MarkupError} :
    inlineHtml inCode offset before text = .error cause ↔
      Unclosed inCode offset before text cause := by
  induction text generalizing inCode offset before with
  | nil =>
    constructor
    · exact fun herror => nomatch herror
    · rintro ⟨front, after, htext, -⟩
      simp at htext
  | cons character rest ih =>
    -- the cases are those of the rendering; all but one go on behind the character
    by_cases hmark : character = '+'
    · subst hmark
      cases inCode with
      | true =>
        rw [inlineHtml_closing, map_eq_error_iff, ih]
        refine (unclosed_cons_iff ?_ ?_).symm
        · exact fun _ _ _ => not_leavesClosed_nil before
        · exact fun _ _ _ => leavesClosed_closing
      | false =>
        cases hopens : startsCode before rest with
        | false =>
          rw [inlineHtml_plain _ hopens, map_eq_error_iff, ih]
          refine (unclosed_cons_iff ?_ ?_).symm
          · intro _ _ hstarts
            rw [hopens] at hstarts
            cases hstarts
          · -- the mark opens nothing in the front alone, either
            rintro front after rfl
            rw [startsCode_append] at hopens
            exact leavesClosed_plain hopens
        | true =>
          by_cases hmore : '+' ∈ rest
          · rw [inlineHtml_opening _ hopens hmore, map_eq_error_iff, ih]
            refine (unclosed_cons_iff ?_ ?_).symm
            · exact fun _ hnone _ => absurd hmore hnone
            · rintro front after rfl
              rw [startsCode_append] at hopens
              exact leavesClosed_opening hopens
          · rw [inlineHtml_unclosed _ hopens hmore, unclosed_last_iff hopens hmore,
              Except.error.injEq, eq_comm]
    · rw [inlineHtml_cons_of_ne _ _ _ hmark, map_eq_error_iff, ih]
      refine (unclosed_cons_iff ?_ ?_).symm
      · exact fun hsame => absurd hsame hmark
      · exact fun _ _ _ => leavesClosed_cons_of_ne hmark

/-! ## Docstrings -/

theorem mapM_cons_eq_error_iff {Item Cause Value : Type} {run : Item → Except Cause Value}
    {first : Item} {rest : List Item} {cause : Cause} :
    (first :: rest).mapM run = .error cause ↔
      run first = .error cause ∨ (∃ value, run first = .ok value) ∧
        rest.mapM run = .error cause := by
  rw [List.mapM_cons]
  cases run first with
  | error found => simp [bind, Except.bind]
  | ok value => cases rest.mapM run <;> simp [bind, Except.bind, pure, Except.pure]

/-- A row of results fails with its first error. -/
theorem mapM_eq_error_iff {Item Cause Value : Type} {run : Item → Except Cause Value}
    {items : List Item} {cause : Cause} :
    items.mapM run = .error cause ↔ ∃ earlier item later, items = earlier ++ item :: later ∧
      (∀ other ∈ earlier, ∃ value, run other = .ok value) ∧ run item = .error cause := by
  induction items with
  | nil =>
    constructor
    · exact fun herror => nomatch herror
    · rintro ⟨earlier, item, later, hitems, -⟩
      simp at hitems
  | cons first rest ih =>
    rw [mapM_cons_eq_error_iff, ih]
    constructor
    · rintro (herror | ⟨hfirst, earlier, item, later, rfl, hearlier, herror⟩)
      · exact ⟨[], first, rest, rfl, List.forall_mem_nil _, herror⟩
      · exact ⟨first :: earlier, item, later, rfl, List.forall_mem_cons.2 ⟨hfirst, hearlier⟩,
          herror⟩
    · rintro ⟨earlier, item, later, hitems, hearlier, herror⟩
      cases earlier with
      | nil =>
        obtain ⟨rfl, -⟩ := List.cons.inj hitems
        exact .inl herror
      | cons other others =>
        obtain ⟨rfl, rfl⟩ := List.cons.inj hitems
        obtain ⟨hfirst, hothers⟩ := List.forall_mem_cons.1 hearlier
        exact .inr ⟨hfirst, others, item, later, rfl, hothers, herror⟩

/-- The text of a paragraph is rendered by itself as it is in its place. -/
theorem exists_renderHtml_iff {paragraph : Paragraph} {text : List Char}
    (hparagraph : IsParagraphOf paragraph text) :
    (∃ html, renderHtml (String.ofList paragraph.text) = .ok html) ↔
      ∃ element, paragraphHtml paragraph = .ok element := by
  have hone : [(⟨0, paragraph.text⟩ : Paragraph)].mapM paragraphHtml =
      (paragraphHtml ⟨0, paragraph.text⟩).map ([·]) := by
    rw [List.mapM_cons]
    cases paragraphHtml ⟨0, paragraph.text⟩ <;> rfl
  rw [renderHtml, String.toList_ofList, paragraphs_of_isParagraphOf hparagraph,
    exists_map_eq_ok_iff, hone, exists_map_eq_ok_iff, paragraphHtml, paragraphHtml,
    exists_map_eq_ok_iff, exists_map_eq_ok_iff]
  exact exists_inlineHtml_iff _ _

/-- **A mark that opens code which is not closed**, at a byte offset of a text, with what stands
before it and after it in its paragraph. -/
structure UnclosedMark (text : List Char) (paragraph : Paragraph) (before after : List Char)
    (offset : Nat) : Prop where
  isParagraph : IsParagraphOf paragraph text
  text_eq : paragraph.text = before ++ '+' :: after
  offset_eq : offset = paragraph.start + byteWidth before
  /-- The offset is that of the mark in the whole text. -/
  stands : ∃ front back, text = front ++ '+' :: back ∧ byteWidth front = offset
  /-- No other mark comes after it. -/
  last : '+' ∉ after
  /-- It is followed by a character that is not blank. -/
  followed : ∃ next ∈ after.head?, isBlank next = false
  /-- It stands at the beginning of the paragraph, or of a word. -/
  startsWord : ∀ previous ∈ before.getLast?, isAlphanumeric previous = false ∧ previous ≠ '+'
  /-- No code is open before it, so that what stands there could be a paragraph. -/
  outside : ∃ element, paragraphHtml ⟨0, before⟩ = .ok element

/-- What cannot be rendered in a paragraph is a mark that opens code. -/
theorem paragraphHtml_eq_error_iff {text : List Char} {paragraph : Paragraph}
    (hparagraph : IsParagraphOf paragraph text) {marker : Char} {offset : Nat} :
    paragraphHtml paragraph = .error (.unterminated marker offset) ↔
      marker = '+' ∧ ∃ before after, UnclosedMark text paragraph before after offset := by
  rw [paragraphHtml, map_eq_error_iff, inlineHtml_eq_error_iff]
  constructor
  · rintro ⟨before, after, htext, hafter, hopens, hleaves, hcause⟩
    cases hcause
    rw [Option.or_none] at hopens
    obtain ⟨hword, next, hnext, hnonblank, -⟩ := startsCode_iff.1 hopens
    obtain ⟨front, back, hdocstring, hstart⟩ := hparagraph.exists_append
    refine ⟨rfl, before, after, hparagraph, htext, rfl,
      ⟨front ++ before, after ++ back, by simp [hdocstring, htext], by simp [hstart]⟩, hafter,
      ⟨next, hnext, hnonblank⟩, hword, ?_⟩
    rw [paragraphHtml, exists_map_eq_ok_iff]
    exact hleaves.renders
  · rintro ⟨rfl, before, after, hmark⟩
    obtain ⟨next, hnext, hnonblank⟩ := hmark.followed
    have hother : next ≠ '+' := by
      rintro rfl
      exact hmark.last (List.mem_of_mem_head? hnext)
    have hopens := startsCode_iff.2 ⟨hmark.startsWord, next, hnext, hnonblank, hother⟩
    have hrenders := hmark.outside
    rw [paragraphHtml, exists_map_eq_ok_iff] at hrenders
    exact ⟨before, after, hmark.text_eq, hmark.last, by rwa [Option.or_none],
      ⟨Bool.noConfusion, hrenders⟩, by rw [hmark.offset_eq]⟩

/-- **Code that is not closed.** Every slice that is needed to render a docstring can be cut. What
cannot be rendered is a mark that opens code which is not closed, in the first paragraph where there
is one: those before it can be rendered by themselves. -/
theorem renderHtml_unterminated_iff (docstring : String) :
    slicedHtml docstring = some (renderHtml docstring) ∧
      ∀ marker offset, renderHtml docstring = .error (.unterminated marker offset) ↔
        marker = '+' ∧ ∃ paragraph before after,
          UnclosedMark docstring.toList paragraph before after offset ∧
          ∀ earlier, IsParagraphOf earlier docstring.toList → earlier.start < paragraph.start →
            ∃ html, renderHtml (String.ofList earlier.text) = .ok html := by
  refine ⟨slicedHtml_eq docstring, fun marker offset => ?_⟩
  rw [renderHtml, map_eq_error_iff, mapM_eq_error_iff]
  constructor
  · rintro ⟨earlier, paragraph, later, hsplit, hearlier, herror⟩
    have hparagraph : IsParagraphOf paragraph docstring.toList :=
      mem_paragraphs_iff.1 (by rw [hsplit]; simp)
    obtain ⟨rfl, before, after, hmark⟩ := (paragraphHtml_eq_error_iff hparagraph).1 herror
    refine ⟨rfl, paragraph, before, after, hmark, fun other hother hbefore => ?_⟩
    rw [exists_renderHtml_iff hother]
    exact hearlier other ((mem_earlier_iff hsplit).2 ⟨hother, hbefore⟩)
  · rintro ⟨rfl, paragraph, before, after, hmark, hearlier⟩
    obtain ⟨earlier, later, hsplit⟩ := List.append_of_mem (mem_paragraphs_iff.2 hmark.isParagraph)
    refine ⟨earlier, paragraph, later, hsplit, fun other hother => ?_,
      (paragraphHtml_eq_error_iff hmark.isParagraph).2 ⟨rfl, before, after, hmark⟩⟩
    obtain ⟨hother, hbefore⟩ := (mem_earlier_iff hsplit).1 hother
    exact (exists_renderHtml_iff hother).1 (hearlier other hother hbefore)

/-- The second mark closes code in the first paragraph, and in the second the third one opens it. -/
example : renderHtml "+a +é\n\n+b+ +c" = .error (.unterminated '+' 12) := by
  decide +kernel

end RubyIndex.Markup
