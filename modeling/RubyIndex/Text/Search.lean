/-! # Searching and cutting texts

Occurrences of one text in another, the pieces of a text between separators, and replacement of
all occurrences from left to right. -/

namespace RubyIndex.Text

/-- Whether a pattern occurs somewhere in a text. -/
def occursIn (pattern : List Char) : List Char → Bool
  | [] => pattern.isEmpty
  | character :: rest =>
      pattern.isPrefixOf (character :: rest) || occursIn pattern rest

/-- A pattern occurs in a text if the text has it as an infix. -/
theorem occursIn_iff {pattern text : List Char} :
    occursIn pattern text = true ↔ pattern <:+: text := by
  induction text with
  | nil => rw [occursIn, List.isEmpty_iff, List.infix_nil]
  | cons character rest ih =>
    rw [occursIn, Bool.or_eq_true, List.isPrefixOf_iff_prefix, ih, List.infix_cons_iff]

/-- A pattern does not occur where one of its characters does not. -/
theorem occursIn_eq_false_of_not_mem {pattern text : List Char} {character : Char}
    (hpattern : character ∈ pattern) (hnot : character ∉ text) : occursIn pattern text = false := by
  rw [Bool.eq_false_iff, Ne, occursIn_iff]
  exact fun hinside => hnot (hinside.subset hpattern)

/-- A pattern does not occur where its first character does not. -/
theorem occursIn_append_of_not_mem {first : Char} {others front : List Char}
    (hnot : first ∉ front) (back : List Char) :
    occursIn (first :: others) (front ++ back) = occursIn (first :: others) back := by
  induction front with
  | nil => rfl
  | cons character rest ih =>
    rw [List.mem_cons, not_or] at hnot
    have hother : (first :: others).isPrefixOf (character :: (rest ++ back)) = false := by
      simp [List.isPrefixOf, hnot.1]
    rw [List.cons_append, occursIn, hother, Bool.false_or, ih hnot.2]

/-- The pieces of a text between the occurrences of a separator; there is always one. -/
def pieces (separator : Char) : List Char → List (List Char)
  | [] => [[]]
  | character :: rest =>
      if character = separator then [] :: pieces separator rest
      else
        match pieces separator rest with
        | [] => [[character]]
        | piece :: others => (character :: piece) :: others

theorem pieces_ne_nil (separator : Char) (text : List Char) : pieces separator text ≠ [] := by
  fun_cases pieces separator text <;> simp_all

/-- The pieces joined by the separator are the text. -/
theorem intercalate_pieces (separator : Char) (text : List Char) :
    [separator].intercalate (pieces separator text) = text := by
  fun_induction pieces separator text with
  | case1 => rfl
  | case2 rest ih =>
    obtain ⟨piece, others, found⟩ := List.exists_cons_of_ne_nil (pieces_ne_nil separator rest)
    rw [found] at ih ⊢
    simpa [List.intercalate] using ih
  | case3 character rest differs none => exact absurd none (pieces_ne_nil separator rest)
  | case4 character rest differs piece others found ih =>
    rw [found] at ih
    cases others <;> simpa [List.intercalate] using ih

/-- No piece contains the separator. -/
theorem not_mem_of_mem_pieces {separator : Char} {text piece : List Char}
    (isPiece : piece ∈ pieces separator text) : separator ∉ piece := by
  fun_induction pieces separator text generalizing piece with
  | case1 => simp_all
  | case2 rest ih =>
    rcases List.mem_cons.1 isPiece with rfl | later
    · simp
    · exact ih later
  | case3 character rest differs none => exact absurd none (pieces_ne_nil separator rest)
  | case4 character rest differs first others found ih =>
    rw [found] at ih
    grind

@[simp] theorem pieces_cons_self (separator : Char) (rest : List Char) :
    pieces separator (separator :: rest) = [] :: pieces separator rest := if_pos rfl

/-- A character that is not the separator stands at the front of the first piece. -/
theorem pieces_cons_of_ne {separator character : Char} {rest piece : List Char}
    {others : List (List Char)} (hother : character ≠ separator)
    (hrest : pieces separator rest = piece :: others) :
    pieces separator (character :: rest) = (character :: piece) :: others := by
  rw [pieces, if_neg hother, hrest]

/-- A text without separators is its only piece. -/
theorem pieces_of_not_mem {separator : Char} {text : List Char} (hnot : separator ∉ text) :
    pieces separator text = [text] := by
  induction text with
  | nil => rfl
  | cons character rest ih =>
    rw [List.mem_cons, not_or] at hnot
    exact pieces_cons_of_ne (Ne.symm hnot.1) (ih hnot.2)

/-- A separator cuts a text in two, each with its own pieces. -/
theorem pieces_append_cons (separator : Char) (front back : List Char) :
    pieces separator (front ++ separator :: back) =
      pieces separator front ++ pieces separator back := by
  induction front with
  | nil => exact pieces_cons_self separator back
  | cons character rest ih =>
    by_cases hsame : character = separator
    · rw [hsame, List.cons_append, pieces_cons_self, pieces_cons_self, ih, List.cons_append]
    · obtain ⟨piece, others, hrest⟩ := List.exists_cons_of_ne_nil (pieces_ne_nil separator rest)
      rw [hrest] at ih
      rw [List.cons_append, pieces_cons_of_ne hsame ih, pieces_cons_of_ne hsame hrest]
      rfl

/-- A text without separators continues the last piece of what is in front of it. -/
theorem exists_pieces_append (separator : Char) (front : List Char) :
    ∃ others last, pieces separator front = others ++ [last] ∧ ∀ back, separator ∉ back →
      pieces separator (front ++ back) = others ++ [last ++ back] := by
  induction front with
  | nil => exact ⟨[], [], rfl, fun back hnot => pieces_of_not_mem hnot⟩
  | cons character rest ih =>
    obtain ⟨others, last, hrest, hback⟩ := ih
    by_cases hsame : character = separator
    · refine ⟨[] :: others, last, ?_, fun back hnot => ?_⟩
      · rw [hsame, pieces_cons_self, hrest, List.cons_append]
      · rw [hsame, List.cons_append, pieces_cons_self, hback back hnot, List.cons_append]
    · -- the character goes to the first piece, which may be the last one, too
      cases others with
      | nil =>
        exact ⟨[], character :: last, pieces_cons_of_ne hsame hrest,
          fun back hnot => pieces_cons_of_ne hsame (hback back hnot)⟩
      | cons piece others =>
        exact ⟨(character :: piece) :: others, last, pieces_cons_of_ne hsame hrest,
          fun back hnot => pieces_cons_of_ne hsame (hback back hnot)⟩

/-- The first piece stands at the front, and the others do not depend on it. -/
theorem drop_one_pieces_append {separator : Char} {front : List Char} (hnot : separator ∉ front)
    (text : List Char) :
    (pieces separator (front ++ text)).drop 1 = (pieces separator text).drop 1 := by
  induction front with
  | nil => rfl
  | cons character rest ih =>
    rw [List.mem_cons, not_or] at hnot
    obtain ⟨piece, others, hpieces⟩ :=
      List.exists_cons_of_ne_nil (pieces_ne_nil separator (rest ++ text))
    rw [← ih hnot.2, List.cons_append, pieces_cons_of_ne (Ne.symm hnot.1) hpieces, hpieces]
    rfl

/-- A text goes on after its first piece with a separator, if it goes on. -/
theorem eq_piece_append {separator : Char} {text first : List Char} {others : List (List Char)}
    (hpieces : pieces separator text = first :: others) :
    text = first ∨ ∃ back, text = first ++ separator :: back := by
  have hjoined := intercalate_pieces separator text
  rw [hpieces] at hjoined
  cases others with
  | nil => exact .inl (by simpa [List.intercalate] using hjoined.symm)
  | cons second later =>
    refine .inr ⟨[separator].intercalate (second :: later), ?_⟩
    rw [← hjoined, List.intercalate_cons_cons, List.append_assoc, List.singleton_append]

/-- A row of pieces with one more. -/
theorem intercalate_concat {separator : Char} {front : List (List Char)} (hne : front ≠ [])
    (piece : List Char) :
    [separator].intercalate (front ++ [piece]) =
      [separator].intercalate front ++ separator :: piece := by
  induction front with
  | nil => exact absurd rfl hne
  | cons first rest ih =>
    cases rest with
    | nil => simp [List.intercalate_cons_cons]
    | cons second others =>
      rw [List.cons_append, List.intercalate_cons_of_ne_nil (by simp), ih (List.cons_ne_nil _ _),
        List.intercalate_cons_cons, List.append_assoc _ _ (separator :: piece)]

/-- Pieces without separators are read back from the text that they are joined to. -/
theorem pieces_intercalate {separator : Char} {parts : List (List Char)} (hne : parts ≠ [])
    (hparts : ∀ part ∈ parts, separator ∉ part) :
    pieces separator ([separator].intercalate parts) = parts := by
  induction parts with
  | nil => exact absurd rfl hne
  | cons first rest ih =>
    have hfirst := pieces_of_not_mem (hparts first List.mem_cons_self)
    cases rest with
    | nil => rw [List.intercalate_singleton, hfirst]
    | cons second others =>
      rw [List.intercalate_cons_cons, List.append_assoc, List.singleton_append, pieces_append_cons,
        hfirst, ih (List.cons_ne_nil _ _) fun part hpart => hparts part
          (List.mem_cons_of_mem _ hpart)]
      rfl

/-- Pieces with a separator behind each of them are joined pieces with a separator at the end. -/
theorem flatMap_concat_eq {separator : Char} {parts : List (List Char)} (hne : parts ≠ []) :
    parts.flatMap (· ++ [separator]) = [separator].intercalate parts ++ [separator] := by
  induction parts with
  | nil => exact absurd rfl hne
  | cons first rest ih =>
    cases rest with
    | nil => simp
    | cons second others =>
      rw [List.flatMap_cons, ih (List.cons_ne_nil _ _), List.intercalate_cons_cons]
      simp only [List.append_assoc]

/-- A text with every occurrence of a non-empty pattern replaced, from left to right. -/
def replaceAll (pattern replacement : List Char) : List Char → List Char
  | [] => []
  | character :: rest =>
      if pattern.isPrefixOf (character :: rest) then
        replacement ++ replaceAll pattern replacement (rest.drop (pattern.length - 1))
      else character :: replaceAll pattern replacement rest
termination_by text => text.length
decreasing_by all_goals (simp only [List.length_cons, List.length_drop]; omega)

@[simp] theorem replaceAll_nil (pattern replacement : List Char) :
    replaceAll pattern replacement [] = [] := by
  rw [replaceAll]

/-- Where the pattern does not stand, one character is kept. -/
theorem replaceAll_cons_of_not {pattern replacement rest : List Char} {character : Char}
    (hother : pattern.isPrefixOf (character :: rest) = false) :
    replaceAll pattern replacement (character :: rest) =
      character :: replaceAll pattern replacement rest := by
  rw [replaceAll, hother, if_neg Bool.false_ne_true]

/-- Where the pattern stands, it is replaced. -/
theorem replaceAll_append_of_ne_nil {pattern : List Char} (replacement rest : List Char)
    (hne : pattern ≠ []) :
    replaceAll pattern replacement (pattern ++ rest) =
      replacement ++ replaceAll pattern replacement rest := by
  obtain ⟨first, others, rfl⟩ := List.exists_cons_of_ne_nil hne
  have hahead : (first :: others).isPrefixOf (first :: (others ++ rest)) = true :=
    List.isPrefixOf_iff_prefix.2 (List.prefix_append (first :: others) rest)
  rw [List.cons_append, replaceAll, if_pos hahead, List.length_cons, Nat.add_sub_cancel,
    List.drop_left]

/-- A pattern that does not occur is not replaced. -/
theorem replaceAll_eq_self_of_occursIn {pattern replacement text : List Char}
    (hnot : occursIn pattern text = false) : replaceAll pattern replacement text = text := by
  induction text with
  | nil => exact replaceAll_nil _ _
  | cons character rest ih =>
    obtain ⟨hother, hrest⟩ := Bool.or_eq_false_iff.1 hnot
    rw [replaceAll_cons_of_not hother, ih hrest]

/-- A pattern is not replaced where one of its characters does not occur. -/
theorem replaceAll_eq_self_of_not_mem {pattern replacement text : List Char} {character : Char}
    (hpattern : character ∈ pattern) (hnot : character ∉ text) :
    replaceAll pattern replacement text = text := by
  induction text with
  | nil => exact replaceAll_nil _ _
  | cons first rest ih =>
    have hother : pattern.isPrefixOf (first :: rest) = false := by
      rw [Bool.eq_false_iff, Ne, List.isPrefixOf_iff_prefix]
      exact fun hahead => hnot (hahead.subset hpattern)
    rw [replaceAll_cons_of_not hother, ih fun hmem => hnot (List.mem_cons_of_mem _ hmem)]

/-- A pattern does not stand where its first character does not. -/
theorem replaceAll_cons_append_of_not_mem {first : Char} {others replacement front : List Char}
    (hnot : first ∉ front) (back : List Char) :
    replaceAll (first :: others) replacement (front ++ back) =
      front ++ replaceAll (first :: others) replacement back := by
  induction front with
  | nil => rfl
  | cons character rest ih =>
    rw [List.mem_cons, not_or] at hnot
    have hother : (first :: others).isPrefixOf (character :: (rest ++ back)) = false := by
      simp [List.isPrefixOf, hnot.1]
    rw [List.cons_append, replaceAll_cons_of_not hother, ih hnot.2, List.cons_append]

/-- A pattern does not reach over a character that is not in it. -/
theorem prefix_of_prefix_append_cons {pattern front back : List Char} {mark : Char}
    (hmark : mark ∉ pattern) (hahead : pattern <+: front ++ mark :: back) : pattern <+: front := by
  have hfront : front ++ [mark] <+: front ++ mark :: back :=
    (List.prefix_append_right_inj front).2 (List.prefix_append [mark] back)
  rcases Nat.lt_or_ge front.length pattern.length with hlonger | hshorter
  · have hinside : front ++ [mark] <+: pattern :=
      List.prefix_of_prefix_length_le hfront hahead (by simpa using Nat.succ_le_of_lt hlonger)
    exact absurd (hinside.subset (List.mem_append_right _ List.mem_cons_self)) hmark
  · exact List.prefix_of_prefix_length_le hahead (List.prefix_append _ _) hshorter

/-- A pattern without the separator occurs in a text if it occurs in one of the pieces. -/
theorem any_pieces {pattern : List Char} {separator : Char} (hpattern : separator ∉ pattern)
    (text : List Char) :
    (pieces separator text).any (occursIn pattern) = occursIn pattern text := by
  -- the pattern does not reach over a separator, since it has none in it
  have hinside : ∀ piece back : List Char,
      pattern.isPrefixOf (piece ++ separator :: back) = pattern.isPrefixOf piece := by
    intro piece back
    rw [Bool.eq_iff_iff, List.isPrefixOf_iff_prefix, List.isPrefixOf_iff_prefix]
    exact ⟨prefix_of_prefix_append_cons hpattern,
      fun hahead => hahead.trans (List.prefix_append _ _)⟩
  fun_induction pieces separator text with
  | case1 => rw [List.any_cons, List.any_nil, Bool.or_false]
  | case2 rest ih =>
    have hempty : pattern.isPrefixOf (separator :: rest) = occursIn pattern [] := by
      rw [← List.nil_append (separator :: rest), hinside]
      cases pattern <;> rfl
    rw [List.any_cons, ih, ← hempty]
    rfl
  | case3 character rest differs none => exact absurd none (pieces_ne_nil separator rest)
  | case4 character rest differs first others found ih =>
    have hahead : pattern.isPrefixOf (character :: rest) =
        pattern.isPrefixOf (character :: first) := by
      rcases eq_piece_append found with hsame | ⟨back, hsame⟩
      · rw [hsame]
      · rw [hsame]
        exact hinside (character :: first) back
    rw [found, List.any_cons] at ih
    rw [List.any_cons, occursIn, occursIn, hahead, ← ih, Bool.or_assoc]

/-- A character that is not in the pattern keeps the replacements in front of it and behind it
apart. -/
theorem replaceAll_append_cons {pattern replacement : List Char} {mark : Char}
    (hmark : mark ∉ pattern) (front back : List Char) :
    replaceAll pattern replacement (front ++ mark :: back) =
      replaceAll pattern replacement front ++
        replaceAll pattern replacement (mark :: back) := by
  fun_induction replaceAll pattern replacement front with
  | case1 => rfl
  | case2 character rest hahead ih =>
    have hreaches := List.isPrefixOf_iff_prefix.1 hahead
    have hlength : pattern.length - 1 ≤ rest.length := by
      have := hreaches.length_le
      rw [List.length_cons] at this
      omega
    have hlonger : pattern.isPrefixOf (character :: (rest ++ mark :: back)) = true :=
      List.isPrefixOf_iff_prefix.2 (hreaches.trans (List.prefix_append _ _))
    rw [List.cons_append, replaceAll, if_pos hlonger, List.drop_append_of_le_length hlength, ih,
      List.append_assoc]
  | case3 character rest hother ih =>
    have hlonger : pattern.isPrefixOf (character :: (rest ++ mark :: back)) = false := by
      rw [List.isPrefixOf_iff_prefix] at hother
      rw [Bool.eq_false_iff, Ne, List.isPrefixOf_iff_prefix]
      exact fun hahead => hother (prefix_of_prefix_append_cons hmark hahead)
    rw [List.cons_append, replaceAll_cons_of_not hlonger, ih, List.cons_append]

/-- A pattern of one character, where it stands. -/
theorem replaceAll_singleton_cons (mark : Char) (replacement rest : List Char) :
    replaceAll [mark] replacement (mark :: rest) =
      replacement ++ replaceAll [mark] replacement rest :=
  replaceAll_append_of_ne_nil replacement rest (List.cons_ne_nil mark [])

/-- A pattern of one character is replaced in front and behind. -/
theorem replaceAll_singleton_append (mark : Char) (replacement front back : List Char) :
    replaceAll [mark] replacement (front ++ back) =
      replaceAll [mark] replacement front ++ replaceAll [mark] replacement back := by
  induction front with
  | nil => rw [List.nil_append, replaceAll_nil, List.nil_append]
  | cons character rest ih =>
    by_cases hsame : character = mark
    · rw [hsame, List.cons_append, replaceAll_singleton_cons, replaceAll_singleton_cons, ih,
        List.append_assoc]
    · have hother : ∀ text, [mark].isPrefixOf (character :: text) = false := by
        intro text
        simp [List.isPrefixOf, Ne.symm hsame]
      rw [List.cons_append, replaceAll_cons_of_not (hother _), replaceAll_cons_of_not (hother _),
        ih, List.cons_append]

/-- A pattern of one character that does not occur is not replaced. -/
theorem replaceAll_singleton_of_not_mem {mark : Char} {replacement text : List Char}
    (hnot : mark ∉ text) : replaceAll [mark] replacement text = text :=
  replaceAll_eq_self_of_not_mem List.mem_cons_self hnot

/-- A pattern of one character that occurs once. -/
theorem replaceAll_singleton_once {mark : Char} {replacement front back : List Char}
    (hfront : mark ∉ front) (hback : mark ∉ back) :
    replaceAll [mark] replacement (front ++ mark :: back) = front ++ replacement ++ back := by
  rw [replaceAll_singleton_append, replaceAll_singleton_cons,
    replaceAll_singleton_of_not_mem hfront, replaceAll_singleton_of_not_mem hback,
    List.append_assoc]

/-- The characters after replacements come from the text or are put in. -/
theorem mem_of_mem_replaceAll {pattern replacement text : List Char} {character : Char}
    (hmem : character ∈ replaceAll pattern replacement text) :
    character ∈ replacement ∨ character ∈ text := by
  fun_induction replaceAll pattern replacement text with
  | case1 => cases hmem
  | case2 first rest hahead ih =>
    rcases List.mem_append.1 hmem with hmade | hlater
    · exact .inl hmade
    · exact (ih hlater).imp_right fun hrest => List.mem_cons_of_mem _ (List.mem_of_mem_drop hrest)
  | case3 first rest hother ih =>
    rcases List.mem_cons.1 hmem with rfl | hlater
    · exact .inr List.mem_cons_self
    · exact (ih hlater).imp_right (List.mem_cons_of_mem _)

/-- A character outside the pattern is kept. -/
theorem mem_replaceAll_of_mem {pattern replacement text : List Char} {character : Char}
    (hne : pattern ≠ []) (hmem : character ∈ text) (hnot : character ∉ pattern) :
    character ∈ replaceAll pattern replacement text := by
  obtain ⟨front, back, rfl⟩ := List.append_of_mem hmem
  have hkept : pattern.isPrefixOf (character :: back) = false := by
    rw [Bool.eq_false_iff, Ne, List.isPrefixOf_iff_prefix]
    intro hahead
    exact hne (List.prefix_nil.1 (prefix_of_prefix_append_cons hnot hahead))
  rw [replaceAll_append_cons hnot, replaceAll_cons_of_not hkept]
  exact List.mem_append_right _ List.mem_cons_self

/-- **Replacing back.** If the replacement is one character that did not occur, putting the pattern
back in its place gives the text again. -/
theorem replaceAll_replaceAll {pattern text : List Char} {mark : Char} (hne : pattern ≠ [])
    (hnot : mark ∉ text) :
    replaceAll [mark] pattern (replaceAll pattern [mark] text) = text := by
  fun_induction replaceAll pattern [mark] text with
  | case1 => exact replaceAll_nil _ _
  | case2 character rest hahead ih =>
    obtain ⟨later, hlater⟩ := List.isPrefixOf_iff_prefix.1 hahead
    have hdrop : rest.drop (pattern.length - 1) = later := by
      obtain ⟨first, others, rfl⟩ := List.exists_cons_of_ne_nil hne
      obtain ⟨-, rfl⟩ := List.cons.inj hlater
      simp
    rw [hdrop] at ih ⊢
    have hnotLater : mark ∉ later := fun hmem =>
      hnot (hlater ▸ List.mem_append_right _ hmem)
    rw [replaceAll_append_of_ne_nil _ _ (List.cons_ne_nil _ _), ih hnotLater, hlater]
  | case3 character rest hother ih =>
    rw [List.mem_cons, not_or] at hnot
    have hdifferent : [mark].isPrefixOf
        (character :: replaceAll pattern [mark] rest) = false := by
      simp [List.isPrefixOf, hnot.1]
    rw [replaceAll_cons_of_not hdifferent, ih hnot.2]

/-- **What stands in front of a text after a replacement** has stood there before, if nothing of it
was put in. -/
theorem prefix_of_prefix_replaceAll {pattern replacement sought text : List Char}
    (hne : replacement ≠ [])
    (hapart : ∀ character ∈ sought, character ∉ replacement)
    (hahead : sought <+: replaceAll pattern replacement text) : sought <+: text := by
  fun_induction replaceAll pattern replacement text generalizing sought with
  | case1 => exact hahead
  | case2 character rest hpattern ih =>
    cases sought with
    | nil => exact List.nil_prefix
    | cons first others =>
      -- the replacement would begin with what is sought
      obtain ⟨put, more, rfl⟩ := List.exists_cons_of_ne_nil hne
      rw [List.cons_append, List.cons_prefix_cons] at hahead
      exact absurd (hahead.1 ▸ List.mem_cons_self) (hapart first List.mem_cons_self)
  | case3 character rest hother ih =>
    cases sought with
    | nil => exact List.nil_prefix
    | cons first others =>
      rw [List.cons_prefix_cons] at hahead ⊢
      exact ⟨hahead.1, ih (fun later hlater => hapart later (List.mem_cons_of_mem _ hlater))
        hahead.2⟩

/-- **What stands in a text after a replacement** has stood in it before, if nothing of it was put
in. -/
theorem infix_of_infix_replaceAll {pattern replacement sought text : List Char}
    (hne : replacement ≠ [])
    (hapart : ∀ character ∈ sought, character ∉ replacement)
    (hinside : sought <:+: replaceAll pattern replacement text) : sought <:+: text := by
  cases sought with
  | nil => exact List.nil_infix
  | cons first others =>
    fun_induction replaceAll pattern replacement text with
    | case1 => exact hinside
    | case2 character rest hpattern ih =>
      rw [← occursIn_iff, occursIn_append_of_not_mem (hapart first List.mem_cons_self),
        occursIn_iff] at hinside
      exact (ih hinside).trans ((List.drop_suffix _ rest).isInfix.trans
        (List.suffix_cons character rest).isInfix)
    | case3 character rest hother ih =>
      rw [List.infix_cons_iff] at hinside ⊢
      refine hinside.imp (fun hahead => ?_) ih
      rw [← replaceAll_cons_of_not (Bool.eq_false_iff.2 hother)] at hahead
      exact prefix_of_prefix_replaceAll hne hapart hahead

/-- **What is replaced is gone**, if nothing of it is put in. -/
theorem not_infix_replaceAll {pattern replacement text : List Char} (hpattern : pattern ≠ [])
    (hne : replacement ≠ []) (hapart : ∀ character ∈ pattern, character ∉ replacement) :
    ¬pattern <:+: replaceAll pattern replacement text := by
  intro hinside
  fun_induction replaceAll pattern replacement text with
  | case1 => exact hpattern (List.infix_nil.1 hinside)
  | case2 character rest hahead ih =>
    obtain ⟨first, others, rfl⟩ := List.exists_cons_of_ne_nil hpattern
    rw [← occursIn_iff, occursIn_append_of_not_mem (hapart first List.mem_cons_self),
      occursIn_iff] at hinside
    exact ih hinside
  | case3 character rest hother ih =>
    rcases List.infix_cons_iff.1 hinside with hahead | hlater
    · -- it would have been replaced there
      rw [← replaceAll_cons_of_not (Bool.eq_false_iff.2 hother)] at hahead
      exact hother (List.isPrefixOf_iff_prefix.2 (prefix_of_prefix_replaceAll hne hapart hahead))
    · exact ih hlater

end RubyIndex.Text
