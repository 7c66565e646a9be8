import Mathlib.Computability.Language
import RubyIndex.Markup.Html
import RubyIndex.Proofs.Markup.Paragraphs

/-! # Reading docstrings back from HTML

What is rendered holds nothing but the text of the docstring and the tags around paragraphs and
code. Characters that mean something in HTML stand as entities, so the text can be read back: tags
of code are turned back into the marks that they came from, and entities into characters.

* `inlineContent` is what may stand in a paragraph, as a language.
* `plainText` reads the text of a paragraph back from its content.
* `inlineHtml_readable` goes through a paragraph character by character, and
  `renderHtml_readable` is the result for docstrings. -/

namespace RubyIndex.Markup

open Text
open scoped Computability

/-! ## What may stand in a paragraph -/

/-- The characters that do not stand for themselves in HTML text, with their entities. -/
def entities : List (Char × List Char) :=
  [('&', "&amp;".toList), ('<', "&lt;".toList), ('>', "&gt;".toList), ('"', "&quot;".toList)]

/-- A character that stands for itself. -/
def plainCharacter : Language Char :=
  {unit | ∃ character ∉ entities.map (·.1), unit = [character]}

/-- One of the four entities. -/
def entity : Language Char := {unit | unit ∈ entities.map (·.2)}

/-- **One character of text**: it stands for itself or is an entity. -/
def textUnit : Language Char := plainCharacter + entity

/-- An element with code in it, which is nothing but text. -/
def codeElement : Language Char := {"<tt>".toList} * textUnit∗ * {"</tt>".toList}

/-- **The content of a paragraph**: text and elements with code. Reserved characters stand in the
tags of these elements and at the start of entities, and nowhere else. -/
def inlineContent : Language Char := (textUnit + codeElement)∗

/-- What is left of the content of a paragraph inside or outside code. -/
def contentFrom (inCode : Bool) : Language Char :=
  if inCode then textUnit∗ * {"</tt>".toList} * inlineContent else inlineContent

/-! ## Reading text back -/

/-- A text with the characters that its entities stand for. -/
def decodeEntities : List Char → List Char
  | '&' :: 'a' :: 'm' :: 'p' :: ';' :: rest => '&' :: decodeEntities rest
  | '&' :: 'l' :: 't' :: ';' :: rest => '<' :: decodeEntities rest
  | '&' :: 'g' :: 't' :: ';' :: rest => '>' :: decodeEntities rest
  | '&' :: 'q' :: 'u' :: 'o' :: 't' :: ';' :: rest => '"' :: decodeEntities rest
  | character :: rest => character :: decodeEntities rest
  | [] => []

/-- **The text of a paragraph**, from its content: a `+` for each tag of code, and a character for
each entity. -/
def plainText (content : List Char) : List Char :=
  decodeEntities (replaceAll "</tt>".toList ['+'] (replaceAll "<tt>".toList ['+'] content))

/-! ## Single characters -/

theorem decodeEntities_cons_of_ne {character : Char} (hne : character ≠ '&') (rest : List Char) :
    decodeEntities (character :: rest) = character :: decodeEntities rest := by
  refine decodeEntities.eq_5 character rest ?_ ?_ ?_ ?_
  all_goals exact fun _ hsame => absurd hsame hne

theorem decodeEntities_entity {character : Char} {written : List Char}
    (hentity : (character, written) ∈ entities) (rest : List Char) :
    decodeEntities (written ++ rest) = character :: decodeEntities rest := by
  simp only [entities, List.mem_cons, List.not_mem_nil, or_false, Prod.mk.injEq] at hentity
  rcases hentity with ⟨rfl, rfl⟩ | ⟨rfl, rfl⟩ | ⟨rfl, rfl⟩ | ⟨rfl, rfl⟩ <;> rfl

/-- A character stands for itself or is written as its entity. -/
theorem escapeChar_cases (character : Char) :
    (character ∉ entities.map (·.1) ∧ escapeChar character = [character]) ∨
      (character, escapeChar character) ∈ entities := by
  unfold escapeChar
  grind [entities]

/-- A character is decoded from what it is written as. -/
theorem decodeEntities_escapeChar (character : Char) (rest : List Char) :
    decodeEntities (escapeChar character ++ rest) = character :: decodeEntities rest := by
  rcases escapeChar_cases character with ⟨hplain, hsame⟩ | hentity
  · rw [hsame]
    refine decodeEntities_cons_of_ne ?_ rest
    rintro rfl
    exact hplain (by decide)
  · exact decodeEntities_entity hentity rest

theorem escapeChar_mem_textUnit (character : Char) : escapeChar character ∈ textUnit := by
  rcases escapeChar_cases character with ⟨hplain, hsame⟩ | hentity
  · exact .inl ⟨character, hplain, hsame⟩
  · exact .inr (List.mem_map.2 ⟨_, hentity, rfl⟩)

/-- Tags begin with a character that is not written for any. -/
theorem not_mem_escapeChar (character : Char) : '<' ∉ escapeChar character := by
  rcases escapeChar_cases character with ⟨hplain, hsame⟩ | hentity
  · rw [hsame, List.mem_singleton]
    rintro rfl
    exact hplain (by decide)
  · have hnone : ∀ pair ∈ entities, '<' ∉ pair.2 := by decide
    exact hnone _ hentity

/-! ## What stands at the front of a content -/

theorem plainText_openTag (rest : List Char) :
    plainText ("<tt>".toList ++ rest) = '+' :: plainText rest := by
  have hopen : replaceAll "<tt>".toList ['+'] ("<tt>".toList ++ rest) =
      '+' :: replaceAll "<tt>".toList ['+'] rest :=
    replaceAll_append_of_ne_nil ['+'] rest (List.cons_ne_nil _ _)
  rw [plainText, hopen, replaceAll_cons_of_not rfl, decodeEntities_cons_of_ne (by decide)]
  rfl

theorem plainText_closeTag (rest : List Char) :
    plainText ("</tt>".toList ++ rest) = '+' :: plainText rest := by
  have hopen : replaceAll "<tt>".toList ['+'] ("</tt>".toList ++ rest) =
      "</tt>".toList ++ replaceAll "<tt>".toList ['+'] rest := by
    refine (replaceAll_cons_of_not rfl).trans (congrArg ('<' :: ·) ?_)
    exact replaceAll_cons_append_of_not_mem (show '<' ∉ "/tt>".toList by decide) rest
  have hclose := replaceAll_append_of_ne_nil ['+'] (replaceAll "<tt>".toList ['+'] rest)
    (show "</tt>".toList ≠ [] from List.cons_ne_nil _ _)
  rw [plainText, hopen, hclose, List.singleton_append, decodeEntities_cons_of_ne (by decide)]
  rfl

theorem plainText_escapeChar (character : Char) (rest : List Char) :
    plainText (escapeChar character ++ rest) = character :: plainText rest := by
  have hopen : replaceAll "<tt>".toList ['+'] (escapeChar character ++ rest) =
      escapeChar character ++ replaceAll "<tt>".toList ['+'] rest :=
    replaceAll_cons_append_of_not_mem (not_mem_escapeChar character) rest
  have hclose (back : List Char) : replaceAll "</tt>".toList ['+'] (escapeChar character ++ back) =
      escapeChar character ++ replaceAll "</tt>".toList ['+'] back :=
    replaceAll_cons_append_of_not_mem (not_mem_escapeChar character) back
  rw [plainText, hopen, hclose, decodeEntities_escapeChar]
  rfl

/-- One more part of a paragraph outside code. -/
theorem append_mem_inlineContent {part rest : List Char} (hpart : part ∈ textUnit + codeElement)
    (hrest : rest ∈ inlineContent) : part ++ rest ∈ inlineContent :=
  (mul_kstar_le_kstar : (textUnit + codeElement) * inlineContent ≤ inlineContent)
    (Language.append_mem_mul hpart hrest)

/-- Text goes on inside and outside code. -/
theorem append_mem_contentFrom {inCode : Bool} {unit rest : List Char} (hunit : unit ∈ textUnit)
    (hrest : rest ∈ contentFrom inCode) : unit ++ rest ∈ contentFrom inCode := by
  cases inCode with
  | false => exact append_mem_inlineContent (.inl hunit) hrest
  | true =>
    obtain ⟨_, ⟨units, hunits, tag, htag, rfl⟩, behind, hbehind, rfl⟩ := hrest
    have hmore : unit ++ units ∈ textUnit∗ :=
      (mul_kstar_le_kstar : textUnit * textUnit∗ ≤ textUnit∗)
        (Language.append_mem_mul hunit hunits)
    have hcode := Language.append_mem_mul (Language.append_mem_mul hmore htag) hbehind
    simpa only [contentFrom, if_true, List.append_assoc] using hcode

/-- Code ends. -/
theorem closeTag_append_mem_contentFrom {rest : List Char} (hrest : rest ∈ contentFrom false) :
    "</tt>".toList ++ rest ∈ contentFrom true := by
  have hclose : [] ++ "</tt>".toList ∈ textUnit∗ * ({"</tt>".toList} : Language Char) :=
    Language.append_mem_mul (Language.nil_mem_kstar _) rfl
  exact Language.append_mem_mul hclose hrest

/-- Code begins, and what is left of it makes up an element. -/
theorem openTag_append_mem_contentFrom {rest : List Char} (hrest : rest ∈ contentFrom true) :
    "<tt>".toList ++ rest ∈ contentFrom false := by
  obtain ⟨code, hcode, behind, hbehind, rfl⟩ := hrest
  have helement : "<tt>".toList ++ code ∈ codeElement := by
    rw [codeElement, mul_assoc]
    exact Language.append_mem_mul rfl hcode
  have hcontent := append_mem_inlineContent (.inr helement) hbehind
  rwa [List.append_assoc] at hcontent

/-! ## Paragraphs -/

theorem exists_of_map_eq_ok {Cause Inner Value : Type} {run : Inner → Value}
    {result : Except Cause Inner} {value : Value} (hok : result.map run = .ok value) :
    ∃ inner, result = .ok inner ∧ run inner = value := by
  cases result with
  | error cause => cases hok
  | ok inner => exact ⟨inner, rfl, Except.ok.inj hok⟩

/-- **What is left of a paragraph can be read back**, inside code if a mark that ends it is still to
come. -/
theorem inlineHtml_readable {inCode : Bool} {offset : Nat} {before : Option Char}
    {text html : List Char} (hends : inCode = true → '+' ∈ text)
    (hok : inlineHtml inCode offset before text = .ok html) :
    html ∈ contentFrom inCode ∧ plainText html = text := by
  induction text generalizing inCode offset before html with
  | nil =>
    cases inCode with
    | false =>
      cases hok
      exact ⟨Language.nil_mem_kstar _, by simp [plainText, decodeEntities]⟩
    | true => cases hends rfl
  | cons character rest ih =>
    rw [inlineHtml] at hok
    split at hok
    · -- a mark that ends code
      rename_i hmark
      obtain ⟨inner, hinner, rfl⟩ := exists_of_map_eq_ok hok
      obtain ⟨hcontent, hback⟩ := ih (fun hin => by cases hin) hinner
      rw [hmark.1, hmark.2]
      exact ⟨closeTag_append_mem_contentFrom hcontent, by rw [plainText_closeTag, hback]⟩
    · rename_i hgoesOn
      split at hok
      · -- a mark that begins code, which a later mark has to end
        rename_i hopens
        have hout : inCode = false := by simpa [hopens.1] using hgoesOn
        split at hok
        · rename_i hlater
          obtain ⟨inner, hinner, rfl⟩ := exists_of_map_eq_ok hok
          obtain ⟨hcontent, hback⟩ := ih (fun _ => by simpa using hlater) hinner
          rw [hopens.1, hout]
          exact ⟨openTag_append_mem_contentFrom hcontent, by rw [plainText_openTag, hback]⟩
        · cases hok
      · -- text, so that a mark that ends code is still to come
        obtain ⟨inner, hinner, rfl⟩ := exists_of_map_eq_ok hok
        have hstill : inCode = true → '+' ∈ rest := by
          intro hin
          rcases List.mem_cons.1 (hends hin) with hfirst | hlater
          · exact absurd ⟨hfirst.symm, hin⟩ hgoesOn
          · exact hlater
        obtain ⟨hcontent, hback⟩ := ih hstill hinner
        exact ⟨append_mem_contentFrom (escapeChar_mem_textUnit character) hcontent,
          by rw [plainText_escapeChar, hback]⟩

/-- What stands in the element of a paragraph. -/
theorem exists_of_paragraphHtml {paragraph : Paragraph} {element : List Char}
    (hok : paragraphHtml paragraph = .ok element) :
    ∃ content ∈ inlineContent, element = "<p>".toList ++ content ++ "</p>".toList ∧
      plainText content = paragraph.text := by
  obtain ⟨content, hcontent, rfl⟩ := exists_of_map_eq_ok hok
  obtain ⟨hin, hback⟩ := inlineHtml_readable (fun hin => by cases hin) hcontent
  exact ⟨content, hin, rfl, hback⟩

/-- What stands in the elements of some paragraphs. -/
theorem exists_of_mapM_paragraphHtml {paragraphs : List Paragraph} {elements : List (List Char)}
    (hok : paragraphs.mapM paragraphHtml = .ok elements) :
    ∃ contents : List (List Char), (∀ content ∈ contents, content ∈ inlineContent) ∧
      elements = contents.map (fun content => "<p>".toList ++ content ++ "</p>".toList) ∧
      contents.map plainText = paragraphs.map (·.text) := by
  induction paragraphs generalizing elements with
  | nil =>
    cases hok
    exact ⟨[], by simp, rfl, rfl⟩
  | cons first rest ih =>
    rw [List.mapM_cons] at hok
    cases hfirst : paragraphHtml first with
    | error cause => rw [hfirst] at hok; cases hok
    | ok element =>
      cases hrest : rest.mapM paragraphHtml with
      | error cause => rw [hfirst, hrest] at hok; cases hok
      | ok others =>
        rw [hfirst, hrest] at hok
        cases hok
        obtain ⟨content, hin, rfl, hback⟩ := exists_of_paragraphHtml hfirst
        obtain ⟨contents, hall, rfl, hbacks⟩ := ih hrest
        exact ⟨content :: contents, by simpa using ⟨hin, hall⟩, rfl, by simp [hback, hbacks]⟩

/-! ## Docstrings -/

/-- **Docstrings can be read back from HTML**: where a docstring is rendered, what comes out is one
element for each maximal run of lines that are not blank, in order, with line breaks between them.
Nothing stands in an element but text and code, and the lines of its run are read back from it. -/
theorem renderHtml_readable {docstring html : String} (hok : renderHtml docstring = .ok html) :
    ∃ contents : List (List Char),
      html = String.ofList (['\n'].intercalate
        (contents.map fun content => "<p>".toList ++ content ++ "</p>".toList)) ∧
      (∀ content ∈ contents, content ∈ inlineContent) ∧
      contents.map plainText = (lineRuns docstring.toList).map ['\n'].intercalate := by
  obtain ⟨elements, helements, rfl⟩ := exists_of_map_eq_ok hok
  obtain ⟨contents, hall, rfl, hbacks⟩ := exists_of_mapM_paragraphHtml helements
  exact ⟨contents, rfl, hall, hbacks.trans (map_text_paragraphs _)⟩

/-- A docstring with code, characters that have entities, a mark that stands for itself and two runs
of lines. -/
theorem renderHtml_readable_two_paragraphs :
    ∃ contents : List (List Char),
      "<p>Is <tt>a&lt;b</tt> &amp; more\nor &quot;1 + 2&quot;</p>\n<p>end</p>" =
        String.ofList (['\n'].intercalate
          (contents.map fun content => "<p>".toList ++ content ++ "</p>".toList)) ∧
      (∀ content ∈ contents, content ∈ inlineContent) ∧
      contents.map plainText =
        (lineRuns "Is +a<b+ & more\nor \"1 + 2\"\n\nend".toList).map ['\n'].intercalate :=
  renderHtml_readable (show renderHtml "Is +a<b+ & more\nor \"1 + 2\"\n\nend" = .ok _ by
    decide +kernel)

end RubyIndex.Markup
