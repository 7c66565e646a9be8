import RubyIndex.Markup.Html
import RubyIndex.Proofs.Markup.Paragraphs

/-! # Rendering by slices

Docstrings can be rendered by cutting them at byte offsets: a paragraph is the slice from its first
line to its last, and its marks are found one after the other in the slices behind those before. A
slice cannot be cut past the end of a text or inside a character, and none ever is.

* `Text.slice?` cuts a text at two offsets. `Text.slice?_eq_some_iff` says where it can.
* `slicedHtml` renders a docstring by slices.
* `slicedHtml_eq`: what it gives is what is rendered, so that every slice can be cut. -/

namespace RubyIndex

/-! ## Slices -/

namespace Text

/-- Cuts a text behind some bytes, unless that is past its end or inside a character. -/
def cut? : Nat → List Char → Option (List Char × List Char)
  | 0, text => some ([], text)
  | _ + 1, [] => none
  | bytes + 1, character :: rest =>
      if character.utf8Size ≤ bytes + 1 then
        (cut? (bytes + 1 - character.utf8Size) rest).map fun (front, back) =>
          (character :: front, back)
      else none

/-- **The slice of a text** from one byte offset up to another. There is none if one of them is past
the end of the text or inside a character, or if they are in the wrong order. -/
def slice? (text : List Char) (start stop : Nat) : Option (List Char) :=
  if start ≤ stop then do
    let (_, back) ← cut? start text
    let (part, _) ← cut? (stop - start) back
    return part
  else none

/-- The byte offset at which a character first stands. -/
def offsetOf? (sought : Char) : List Char → Option Nat
  | [] => none
  | character :: rest =>
      if character = sought then some 0
      else (offsetOf? sought rest).map (character.utf8Size + ·)

/-- A text can be cut behind some of its characters. -/
theorem cut?_append (front back : List Char) :
    cut? (byteWidth front) (front ++ back) = some (front, back) := by
  induction front with
  | nil => simp [cut?]
  | cons character rest ih =>
    have hpos := character.utf8Size_pos
    obtain ⟨bytes, hbytes⟩ : ∃ bytes, byteWidth (character :: rest) = bytes + 1 :=
      Nat.exists_eq_succ_of_ne_zero (by rw [byteWidth_cons]; omega)
    have hrest : bytes + 1 - character.utf8Size = byteWidth rest := by
      rw [← hbytes, byteWidth_cons, Nat.add_sub_cancel_left]
    have hfits : character.utf8Size ≤ bytes + 1 := by
      rw [← hbytes, byteWidth_cons]
      exact Nat.le_add_right _ _
    rw [hbytes, List.cons_append, cut?, if_pos hfits, hrest, ih]
    rfl

/-- Where a text is cut, characters end. -/
theorem eq_append_of_cut? {bytes : Nat} {text front back : List Char}
    (hcut : cut? bytes text = some (front, back)) :
    text = front ++ back ∧ byteWidth front = bytes := by
  fun_induction cut? bytes text generalizing front with
  | case1 text =>
    cases hcut
    exact ⟨rfl, rfl⟩
  | case2 bytes => cases hcut
  | case3 bytes character rest hfits ih =>
    obtain ⟨⟨others, behind⟩, hrest, hsame⟩ := Option.map_eq_some_iff.1 hcut
    cases hsame
    obtain ⟨rfl, hwidth⟩ := ih hrest
    refine ⟨rfl, ?_⟩
    rw [byteWidth_cons, hwidth]
    omega
  | case4 bytes character rest hlong => cases hcut

/-- **Where a text has a slice**: up to both offsets it has whole characters, and the slice is what
lies between. -/
theorem slice?_eq_some_iff {text part : List Char} {start stop : Nat} :
    slice? text start stop = some part ↔ ∃ front back, text = front ++ part ++ back ∧
      byteWidth front = start ∧ byteWidth (front ++ part) = stop := by
  constructor
  · intro hslice
    unfold slice? at hslice
    split at hslice
    · rename_i horder
      obtain ⟨⟨front, later⟩, hfront, hslice⟩ := Option.bind_eq_some_iff.1 hslice
      obtain ⟨⟨found, back⟩, hpart, hsame⟩ := Option.bind_eq_some_iff.1 hslice
      cases hsame
      obtain ⟨rfl, rfl⟩ := eq_append_of_cut? hfront
      obtain ⟨rfl, hwidth⟩ := eq_append_of_cut? hpart
      refine ⟨front, back, (List.append_assoc _ _ _).symm, rfl, ?_⟩
      rw [byteWidth_append, hwidth]
      omega
    · cases hslice
  · rintro ⟨front, back, rfl, rfl, rfl⟩
    have hwidth : byteWidth (front ++ part) - byteWidth front = byteWidth part := by
      rw [byteWidth_append, Nat.add_sub_cancel_left]
    have horder : byteWidth front ≤ byteWidth (front ++ part) := by
      rw [byteWidth_append]
      exact Nat.le_add_right _ _
    rw [slice?, if_pos horder, hwidth, List.append_assoc, cut?_append]
    change (cut? (byteWidth part) (part ++ back)).bind _ = _
    rw [cut?_append]
    rfl

/-- A slice that begins at an offset goes no further than the text. -/
theorem le_of_slice? {text part : List Char} {start stop : Nat}
    (hslice : slice? text start stop = some part) : start ≤ byteWidth text := by
  obtain ⟨front, back, rfl, rfl, -⟩ := slice?_eq_some_iff.1 hslice
  rw [List.append_assoc, byteWidth_append]
  exact Nat.le_add_right _ _

theorem offsetOf?_of_not_mem {sought : Char} {text : List Char} (hnot : sought ∉ text) :
    offsetOf? sought text = none := by
  induction text with
  | nil => rfl
  | cons character rest ih =>
    rw [List.mem_cons, not_or] at hnot
    rw [offsetOf?, if_neg (Ne.symm hnot.1), ih hnot.2]
    rfl

/-- A character that is not in front of a place is found there. -/
theorem offsetOf?_append_cons {sought : Char} {front : List Char} (hnot : sought ∉ front)
    (back : List Char) : offsetOf? sought (front ++ sought :: back) = some (byteWidth front) := by
  induction front with
  | nil => exact if_pos rfl
  | cons character rest ih =>
    rw [List.mem_cons, not_or] at hnot
    rw [List.cons_append, offsetOf?, if_neg (Ne.symm hnot.1), ih hnot.2]
    rfl

end Text

namespace Markup

open Text

/-! ## Paragraphs as slices -/

/-- An unfinished paragraph, cut out of a text, if it has begun. -/
def cutUnfinished (text : List Char) (first : Option Nat) (stop : Nat) : Option (List Paragraph) :=
  match first with
  | none => some []
  | some start => (slice? text start stop).map fun part => [⟨start, part⟩]

/-- The paragraphs of a text, cut out of it. The given lines are those that are left from an offset
on. An unfinished paragraph has its first line at one offset, and ends at another. -/
def slicedParagraphsFrom (text : List Char) (first : Option Nat) (stop offset : Nat) :
    List (List Char) → Option (List Paragraph)
  | [] => cutUnfinished text first stop
  | line :: rest =>
      let next := offset + byteWidth line + 1
      if isBlankText line then do
        let finished ← cutUnfinished text first stop
        return finished ++ (← slicedParagraphsFrom text none stop next rest)
      else slicedParagraphsFrom text (some (first.getD offset)) (offset + byteWidth line) next rest

/-- The paragraphs of a text, cut out of it. -/
def slicedParagraphs (text : List Char) : Option (List Paragraph) :=
  slicedParagraphsFrom text none 0 0 (pieces '\n' text)

/-! ## Marks in slices -/

/-- What comes of looking for the next mark of a paragraph. -/
inductive Round where
  /-- There is no mark any more, and the rest is text. -/
  | finished (html : List Char)
  /-- The mark at an offset opens code that is not closed. -/
  | unclosed (place : Nat)
  /-- Some of the paragraph is rendered, and the rest begins at an offset. -/
  | goesOn (html : List Char) (next : Nat)

/-- Whether the mark at a byte offset opens code, judged by the slices on both sides of it. -/
def opensAt? (text : List Char) (place : Nat) : Option Bool := do
  let before ← slice? text 0 place
  let after ← slice? text (place + 1) (byteWidth text)
  return startsCode before.getLast? after

/-- Renders the text from a byte offset up to the next mark, with the code that it opens. -/
def round? (text : List Char) (offset : Nat) : Option Round := do
  let rest ← slice? text offset (byteWidth text)
  match offsetOf? '+' rest with
  | none => return .finished (rest.flatMap escapeChar)
  | some found =>
      let place := offset + found
      let plain ← slice? text offset place
      if ← opensAt? text place then
        let behind ← slice? text (place + 1) (byteWidth text)
        match offsetOf? '+' behind with
        | none => return .unclosed place
        | some length =>
            let code ← slice? text (place + 1) (place + 1 + length)
            let element := "<tt>".toList ++ code.flatMap escapeChar ++ "</tt>".toList
            return .goesOn (plain.flatMap escapeChar ++ element) (place + 1 + length + 1)
      else return .goesOn (plain.flatMap escapeChar ++ ['+']) (place + 1)

/-- A round that goes on has moved on, within the text. -/
theorem lt_of_round? {text html : List Char} {offset next : Nat}
    (hround : round? text offset = some (.goesOn html next)) :
    offset < next ∧ offset ≤ byteWidth text := by
  obtain ⟨rest, hrest, hfound⟩ := Option.bind_eq_some_iff.1 hround
  refine ⟨?_, le_of_slice? hrest⟩
  split at hfound
  · cases hfound
  · obtain ⟨plain, -, hplain⟩ := Option.bind_eq_some_iff.1 hfound
    obtain ⟨opens, -, hopens⟩ := Option.bind_eq_some_iff.1 hplain
    split at hopens
    · obtain ⟨behind, -, hbehind⟩ := Option.bind_eq_some_iff.1 hopens
      split at hbehind
      · cases hbehind
      · obtain ⟨code, -, hcode⟩ := Option.bind_eq_some_iff.1 hbehind
        cases hcode
        omega
    · cases hopens
      omega

/-- Renders the inline markup of a text from a byte offset on. The text itself starts at an offset
of the docstring. -/
def slicedInline (text : List Char) (start offset : Nat) :
    Option (Except MarkupError (List Char)) :=
  match _ : round? text offset with
  | none => none
  | some (.finished html) => some (.ok html)
  | some (.unclosed place) => some (.error (.unterminated '+' (start + place)))
  | some (.goesOn html next) => (slicedInline text start next).map (·.map (html ++ ·))
termination_by byteWidth text + 1 - offset
decreasing_by
  have hmoved := lt_of_round? (by assumption)
  omega

/-- Renders paragraphs one after the other. -/
def slicedElements : List Paragraph → Option (Except MarkupError (List (List Char)))
  | [] => some (.ok [])
  | paragraph :: rest => do
      match ← slicedInline paragraph.text paragraph.start 0 with
      | .error cause => return .error cause
      | .ok inner =>
          let others ← slicedElements rest
          return others.map (("<p>".toList ++ inner ++ "</p>".toList) :: ·)

/-- **A docstring as HTML, rendered by slices.** There is nothing if a slice cannot be cut. -/
def slicedHtml (docstring : String) : Option (Except MarkupError String) := do
  let paragraphs ← slicedParagraphs docstring.toList
  let elements ← slicedElements paragraphs
  return elements.map fun elements => String.ofList (['\n'].intercalate elements)

/-! ## Slices that can be cut -/

/-- What lies between some front and some back is a slice. -/
theorem slice?_between {text : List Char} (front part back : List Char) {start stop : Nat}
    (htext : text = front ++ part ++ back) (hstart : byteWidth front = start)
    (hstop : start + byteWidth part = stop) : slice? text start stop = some part := by
  refine slice?_eq_some_iff.2 ⟨front, back, htext, hstart, ?_⟩
  rw [byteWidth_append, hstart, hstop]

/-- What lies behind some front is a slice. -/
theorem slice?_behind {text : List Char} (front back : List Char) {start : Nat}
    (htext : text = front ++ back) (hstart : byteWidth front = start) :
    slice? text start (byteWidth text) = some back :=
  slice?_between front back [] (by simp [htext]) hstart (by simp [htext, hstart])

/-- The text on both sides of a mark can be cut, since a mark is one byte long. -/
theorem opensAt?_append (front back : List Char) :
    opensAt? (front ++ '+' :: back) (byteWidth front) =
      some (startsCode front.getLast? back) := by
  have hmark : '+'.utf8Size = 1 := rfl
  have hbefore : slice? (front ++ '+' :: back) 0 (byteWidth front) = some front :=
    slice?_between [] front ('+' :: back) rfl rfl (Nat.zero_add _)
  have hafter : slice? (front ++ '+' :: back) (byteWidth front + 1)
      (byteWidth (front ++ '+' :: back)) = some back :=
    slice?_behind (front ++ ['+']) back (by simp) (by simp [hmark])
  rw [opensAt?, hbefore, hafter]
  rfl

/-- Without a mark, the rest is text. -/
theorem round?_of_not_mem (front : List Char) {back : List Char} (hnot : '+' ∉ back) :
    round? (front ++ back) (byteWidth front) = some (.finished (back.flatMap escapeChar)) := by
  have hrest := slice?_behind front back rfl rfl
  simp only [round?, hrest, Option.bind_eq_bind, Option.bind_some, offsetOf?_of_not_mem hnot]
  rfl

/-- **A round with a mark** cuts the text in front of the mark, on both sides of it, and up to the
mark that closes code. -/
theorem round?_of_mark (front : List Char) {plain : List Char} (hplain : '+' ∉ plain)
    (back : List Char) :
    let text := front ++ (plain ++ '+' :: back)
    let place := byteWidth front + byteWidth plain
    round? text (byteWidth front) =
      if startsCode (front ++ plain).getLast? back then
        match offsetOf? '+' back with
        | none => some (.unclosed place)
        | some length => (slice? text (place + 1) (place + 1 + length)).map fun code =>
            .goesOn (plain.flatMap escapeChar ++
                ("<tt>".toList ++ code.flatMap escapeChar ++ "</tt>".toList))
              (place + 1 + length + 1)
      else some (.goesOn (plain.flatMap escapeChar ++ ['+']) (place + 1)) := by
  intro text place
  have hmark : '+'.utf8Size = 1 := rfl
  have hrest : slice? text (byteWidth front) (byteWidth text) = some (plain ++ '+' :: back) :=
    slice?_behind front _ rfl rfl
  have hslice : slice? text (byteWidth front) place = some plain :=
    slice?_between front plain ('+' :: back) (List.append_assoc _ _ _).symm rfl rfl
  have hopens : opensAt? text place = some (startsCode (front ++ plain).getLast? back) := by
    have hsides := opensAt?_append (front ++ plain) back
    rwa [List.append_assoc, byteWidth_append] at hsides
  have hbehind : slice? text (place + 1) (byteWidth text) = some back :=
    slice?_behind (front ++ plain ++ ['+']) back (by simp [text])
      (by simp [place, hmark, Nat.add_assoc])
  -- all slices but the last can be cut, whether or not the mark opens code
  simp only [round?, hrest, Option.bind_eq_bind, Option.bind_some, offsetOf?_append_cons hplain]
  rw [hslice, hopens, hbehind, Option.bind_some, Option.bind_some]
  split
  · rw [Option.bind_some]
    cases offsetOf? '+' back with
    | none => rfl
    | some length => exact Option.map_eq_bind.symm
  · rfl

/-- A mark that opens code is closed by the next one, up to which the code can be cut. -/
theorem round?_of_code (front : List Char) {plain : List Char} (hplain : '+' ∉ plain)
    {code : List Char} (hcode : '+' ∉ code) {later : List Char}
    (hopens : startsCode (front ++ plain).getLast? (code ++ '+' :: later) = true) :
    round? (front ++ (plain ++ '+' :: (code ++ '+' :: later))) (byteWidth front) =
      some (.goesOn (plain.flatMap escapeChar ++
          ("<tt>".toList ++ code.flatMap escapeChar ++ "</tt>".toList))
        (byteWidth front + byteWidth plain + 1 + byteWidth code + 1)) := by
  have hmark : '+'.utf8Size = 1 := rfl
  have hslice : slice? (front ++ (plain ++ '+' :: (code ++ '+' :: later)))
      (byteWidth front + byteWidth plain + 1)
      (byteWidth front + byteWidth plain + 1 + byteWidth code) = some code :=
    slice?_between (front ++ plain ++ ['+']) code ('+' :: later) (by simp)
      (by simp [hmark, Nat.add_assoc]) rfl
  rw [round?_of_mark front hplain, if_pos hopens, offsetOf?_append_cons hcode]
  dsimp only
  rw [hslice, Option.map_some]

/-! ## What comes of slices -/

theorem slicedInline_of_finished {text html : List Char} {start offset : Nat}
    (hround : round? text offset = some (.finished html)) :
    slicedInline text start offset = some (.ok html) := by
  rw [slicedInline]
  split <;> simp_all

theorem slicedInline_of_unclosed {text : List Char} {start offset place : Nat}
    (hround : round? text offset = some (.unclosed place)) :
    slicedInline text start offset = some (.error (.unterminated '+' (start + place))) := by
  rw [slicedInline]
  split <;> simp_all

theorem slicedInline_of_goesOn {text html : List Char} {start offset next : Nat}
    (hround : round? text offset = some (.goesOn html next)) :
    slicedInline text start offset =
      (slicedInline text start next).map (·.map (html ++ ·)) := by
  rw [slicedInline]
  split <;> simp_all

theorem map_map_append (front back : List Char) (result : Except MarkupError (List Char)) :
    (result.map (back ++ ·)).map (front ++ ·) = result.map (front ++ back ++ ·) := by
  cases result with
  | error cause => rfl
  | ok html => exact congrArg Except.ok (List.append_assoc front back html).symm

/-- A character that is no mark is text. -/
theorem inlineHtml_cons_of_ne (inCode : Bool) (offset : Nat) (before : Option Char)
    {character : Char} (hother : character ≠ '+') (rest : List Char) :
    inlineHtml inCode offset before (character :: rest) =
      (inlineHtml inCode (offset + character.utf8Size) (some character) rest).map
        (escapeChar character ++ ·) := by
  rw [inlineHtml, if_neg fun hmark => hother hmark.1, if_neg fun hmark => hother hmark.1]

/-- A mark inside code ends it. -/
theorem inlineHtml_closing (offset : Nat) (before : Option Char) (rest : List Char) :
    inlineHtml true offset before ('+' :: rest) =
      (inlineHtml false (offset + 1) (some '+') rest).map ("</tt>".toList ++ ·) := by
  rw [inlineHtml, if_pos ⟨rfl, rfl⟩]
  rfl

/-- A mark that opens nothing is text. -/
theorem inlineHtml_plain (offset : Nat) {before : Option Char} {rest : List Char}
    (hopens : startsCode before rest = false) :
    inlineHtml false offset before ('+' :: rest) =
      (inlineHtml false (offset + 1) (some '+') rest).map (['+'] ++ ·) := by
  rw [inlineHtml, if_neg (by simp), if_neg (by simp [hopens])]
  rfl

/-- A mark opens code if another one is to come. -/
theorem inlineHtml_opening (offset : Nat) {before : Option Char} {rest : List Char}
    (hopens : startsCode before rest = true) (hmore : '+' ∈ rest) :
    inlineHtml false offset before ('+' :: rest) =
      (inlineHtml true (offset + 1) (some '+') rest).map ("<tt>".toList ++ ·) := by
  rw [inlineHtml, if_neg (by simp), if_pos ⟨rfl, hopens⟩, if_pos (by simpa using hmore)]
  rfl

/-- A mark that would open code is an error if it is the last one. -/
theorem inlineHtml_unclosed (offset : Nat) {before : Option Char} {rest : List Char}
    (hopens : startsCode before rest = true) (hlast : '+' ∉ rest) :
    inlineHtml false offset before ('+' :: rest) = .error (.unterminated '+' offset) := by
  rw [inlineHtml, if_neg (by simp), if_pos ⟨rfl, hopens⟩, if_neg (by simpa using hlast)]

/-- Text without marks is rendered character by character. -/
theorem inlineHtml_append (inCode : Bool) (offset : Nat) (before : Option Char) {plain : List Char}
    (hplain : '+' ∉ plain) (rest : List Char) :
    inlineHtml inCode offset before (plain ++ rest) =
      (inlineHtml inCode (offset + byteWidth plain) (plain.getLast?.or before) rest).map
        (plain.flatMap escapeChar ++ ·) := by
  induction plain generalizing offset before with
  | nil =>
    rw [List.nil_append]
    cases hrest : inlineHtml inCode offset before rest <;> simp [hrest, Except.map]
  | cons character others ih =>
    rw [List.mem_cons, not_or] at hplain
    have hlast : (character :: others).getLast?.or before =
        others.getLast?.or (some character) := by
      rw [List.getLast?_cons]
      cases others.getLast? <;> rfl
    rw [List.cons_append, inlineHtml_cons_of_ne _ _ _ (Ne.symm hplain.1), ih _ _ hplain.2, hlast,
      map_map_append, List.flatMap_cons, byteWidth_cons, Nat.add_assoc]

/-- **The inline markup of a paragraph** is rendered by slices as it is character by character. -/
theorem slicedInline_eq (start : Nat) (front back : List Char) :
    slicedInline (front ++ back) start (byteWidth front) =
      some (inlineHtml false (start + byteWidth front) front.getLast? back) := by
  have hmark : '+'.utf8Size = 1 := rfl
  induction hlength : back.length using Nat.strongRecOn generalizing front back with
  | ind length ih =>
    by_cases hmore : '+' ∈ back
    · obtain ⟨plain, rest, rfl, hplain⟩ := List.eq_append_cons_of_mem hmore
      rw [inlineHtml_append false _ _ hplain, ← List.getLast?_append]
      cases hopens : startsCode (front ++ plain).getLast? rest with
      | false =>
        -- the mark is text
        have hround := round?_of_mark front hplain rest
        dsimp only at hround
        rw [hopens, if_neg Bool.false_ne_true] at hround
        have hrest := ih rest.length (by simp [← hlength]; omega) (front ++ plain ++ ['+']) rest rfl
        have hnext : byteWidth (front ++ plain ++ ['+']) =
            byteWidth front + byteWidth plain + 1 := by simp [hmark, Nat.add_assoc]
        have htext : front ++ plain ++ ['+'] ++ rest = front ++ (plain ++ '+' :: rest) := by simp
        rw [hnext, htext, List.getLast?_concat] at hrest
        rw [slicedInline_of_goesOn hround, hrest, inlineHtml_plain _ hopens, map_map_append,
          Option.map_some]
        simp only [Nat.add_assoc]
      | true =>
        by_cases hclosed : '+' ∈ rest
        · -- the mark opens code that the next one closes
          obtain ⟨code, later, rfl, hcode⟩ := List.eq_append_cons_of_mem hclosed
          have hround := round?_of_code front hplain hcode hopens
          have hrest := ih later.length (by simp [← hlength]; omega)
            (front ++ plain ++ '+' :: code ++ ['+']) later rfl
          have hnext : byteWidth (front ++ plain ++ '+' :: code ++ ['+']) =
              byteWidth front + byteWidth plain + 1 + byteWidth code + 1 := by
            simp [hmark, Nat.add_assoc]
          have htext : front ++ plain ++ '+' :: code ++ ['+'] ++ later =
              front ++ (plain ++ '+' :: (code ++ '+' :: later)) := by simp
          rw [hnext, htext, List.getLast?_concat] at hrest
          rw [slicedInline_of_goesOn hround, hrest, inlineHtml_opening _ hopens (by simp),
            inlineHtml_append true _ _ hcode, inlineHtml_closing, map_map_append, map_map_append,
            map_map_append, Option.map_some]
          simp only [Nat.add_assoc, List.append_assoc]
        · -- the mark opens code that nothing closes
          have hround := round?_of_mark front hplain rest
          dsimp only at hround
          rw [if_pos hopens, offsetOf?_of_not_mem hclosed] at hround
          rw [slicedInline_of_unclosed hround, inlineHtml_unclosed _ hopens hclosed, Nat.add_assoc]
          rfl
    · have hrest := inlineHtml_append false (start + byteWidth front) front.getLast? hmore []
      rw [List.append_nil] at hrest
      rw [slicedInline_of_finished (round?_of_not_mem front hmore), hrest]
      simp [inlineHtml, Except.map]

/-- **Where an unfinished paragraph stands** in the lines that have been read: it is the last of
them, and has been given by its two ends. -/
def StandsAtEnd (read : List Char) (first : Option Nat) (stop : Nat) : Option Paragraph → Prop
  | none => first = none
  | some paragraph => first = some paragraph.start ∧
      ∃ above, read = above ++ paragraph.text ++ ['\n'] ∧ byteWidth above = paragraph.start ∧
        byteWidth (above ++ paragraph.text) = stop

/-- An unfinished paragraph can be cut out of the text. -/
theorem StandsAtEnd.cutUnfinished_eq {text read left : List Char} {first : Option Nat} {stop : Nat}
    {unfinished : Option Paragraph} (hstands : StandsAtEnd read first stop unfinished)
    (htext : text ++ ['\n'] = read ++ left) :
    cutUnfinished text first stop = some unfinished.toList := by
  cases unfinished with
  | none =>
    obtain rfl := hstands
    rfl
  | some paragraph =>
    obtain ⟨rfl, above, rfl, habove, hstop⟩ := hstands
    have hbehind : ∃ back, text = above ++ paragraph.text ++ back :=
      exists_append_of_concat (by rw [htext, List.append_assoc _ ['\n']]; rfl)
    obtain ⟨back, htext⟩ := hbehind
    have hslice := slice?_eq_some_iff.2 ⟨above, back, htext, habove, hstop⟩
    rw [cutUnfinished, hslice]
    rfl

/-- One more line goes on with the unfinished paragraph, or begins one. -/
theorem StandsAtEnd.continued {read : List Char} {first : Option Nat} {stop : Nat}
    {unfinished : Option Paragraph} (hstands : StandsAtEnd read first stop unfinished)
    (line : List Char) :
    StandsAtEnd (read ++ (line ++ ['\n'])) (some (first.getD (byteWidth read)))
      (byteWidth read + byteWidth line)
      (some (Markup.continued (byteWidth read) unfinished line)) := by
  cases unfinished with
  | none =>
    obtain rfl := hstands
    exact ⟨rfl, read, by simp [Markup.continued], rfl, by simp [Markup.continued]⟩
  | some paragraph =>
    obtain ⟨rfl, above, rfl, habove, -⟩ := hstands
    refine ⟨rfl, above, ?_, habove, ?_⟩
    · simp [Markup.continued, Paragraph.addLine]
    · simp [Markup.continued, Paragraph.addLine, Nat.add_assoc]

/-- **The paragraphs of the lines that are left** can be cut out of the text. -/
theorem slicedParagraphsFrom_eq {text read : List Char} {lines : List (List Char)}
    {first : Option Nat} {stop : Nat} {unfinished : Option Paragraph}
    (htext : text ++ ['\n'] = read ++ lines.flatMap (· ++ ['\n']))
    (hstands : StandsAtEnd read first stop unfinished) :
    slicedParagraphsFrom text first stop (byteWidth read) lines =
      some (paragraphsFrom (byteWidth read) unfinished lines) := by
  induction lines generalizing read first stop unfinished with
  | nil => exact hstands.cutUnfinished_eq htext
  | cons line rest ih =>
    have hbreak : '\n'.utf8Size = 1 := rfl
    have hnext : byteWidth (read ++ (line ++ ['\n'])) = byteWidth read + byteWidth line + 1 := by
      simp [hbreak, Nat.add_assoc]
    have hmore : text ++ ['\n'] = read ++ (line ++ ['\n']) ++ rest.flatMap (· ++ ['\n']) := by
      rw [htext, List.flatMap_cons, List.append_assoc read]
    rw [slicedParagraphsFrom, paragraphsFrom_cons]
    cases hline : isBlankText line with
    | true =>
      -- the paragraph is cut out, and the lines behind the blank one begin another
      have hends : StandsAtEnd (read ++ (line ++ ['\n'])) none stop none := rfl
      have hrest := ih hmore hends
      rw [hnext] at hrest
      rw [if_pos rfl, if_pos rfl, hstands.cutUnfinished_eq htext, hrest]
      rfl
    | false =>
      have hrest := ih hmore (hstands.continued line)
      rw [hnext] at hrest
      rw [if_neg Bool.false_ne_true, if_neg Bool.false_ne_true, hrest]

/-- **Paragraphs can be cut out of their text.** -/
theorem slicedParagraphs_eq (text : List Char) :
    slicedParagraphs text = some (paragraphs text) := by
  have hread : StandsAtEnd [] none 0 none := rfl
  exact slicedParagraphsFrom_eq (flatMap_lines text).symm hread

/-- Paragraphs are rendered by slices as they are character by character. -/
theorem slicedElements_eq (paragraphs : List Paragraph) :
    slicedElements paragraphs = some (paragraphs.mapM paragraphHtml) := by
  induction paragraphs with
  | nil => rfl
  | cons paragraph rest ih =>
    have hinner := slicedInline_eq paragraph.start [] paragraph.text
    rw [List.nil_append] at hinner
    have hfirst : slicedInline paragraph.text paragraph.start 0 =
        some (inlineHtml false paragraph.start none paragraph.text) := hinner
    rw [slicedElements, hfirst, ih, List.mapM_cons, paragraphHtml]
    cases inlineHtml false paragraph.start none paragraph.text with
    | error cause => rfl
    | ok inner =>
      cases rest.mapM paragraphHtml with
      | error cause => rfl
      | ok others => rfl

/-- **Every slice can be cut**, and what comes of rendering a docstring by slices is what is
rendered. -/
theorem slicedHtml_eq (docstring : String) :
    slicedHtml docstring = some (renderHtml docstring) := by
  rw [slicedHtml, slicedParagraphs_eq]
  change (slicedElements (paragraphs docstring.toList)).bind _ = _
  rw [slicedElements_eq]
  rfl

end Markup

end RubyIndex
