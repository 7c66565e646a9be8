import Mathlib.Tactic.SplitIfs
import RubyIndex.Json.Decode

/-! # Numbers and strings read back

The written form of a natural number is read up to where the text goes on with something else, and
the written form of a string up to its closing quote. Neither has a control character in it, because
those are written as escapes.

* `JsonReader.EndsNumber` says what may follow a number.
* `number?_toDigits` and `digitsValue?_toDigits` are about numbers.
* `string?_written` is about strings; the codes of characters are read back because no character is
  half of a surrogate pair.
* `printable_writeString` is about control characters. -/

namespace RubyIndex

/-! ## Numbers -/

/-- Whether a number that is followed by the character would go on with it. -/
def continuesNumber (character : Char) : Bool :=
  character.isDigit || character == '.' || character == 'e' || character == 'E'

namespace JsonReader

/-- **A text ends the number before it** if it does not go on with a digit, a fraction or an
exponent. -/
def EndsNumber (rest : List Char) : Prop :=
  ∀ character ∈ rest.head?, continuesNumber character = false

theorem endsNumber_cons {character : Char} (hends : continuesNumber character = false)
    (rest : List Char) : EndsNumber (character :: rest) := by
  rintro found hfound
  obtain rfl := Option.some.inj hfound
  exact hends

theorem EndsNumber.isDigit {character : Char} {rest : List Char}
    (hends : EndsNumber (character :: rest)) : character.isDigit = false := by
  have hcontinues := hends character rfl
  simp only [continuesNumber, Bool.or_eq_false_iff] at hcontinues
  exact hcontinues.1.1.1

/-- What is behind a literal does not show at its front. -/
theorem head?_toDigits_append (value : Nat) (rest : List Char) :
    (Nat.toDigits 10 value ++ rest).head? = (Nat.toDigits 10 value).head? := by
  cases hliteral : Nat.toDigits 10 value with
  | nil => exact absurd hliteral Nat.toDigits_ne_nil
  | cons digit literal => rfl

/-- A number that begins with a zero is zero. -/
theorem eq_zero_of_head?_toDigits {value : Nat} (hhead : (Nat.toDigits 10 value).head? = some '0') :
    value = 0 := by
  induction value using Nat.strongRecOn with
  | ind value ih =>
    rcases Nat.lt_or_ge value 10 with hdigit | hmore
    · rw [Nat.toDigits_of_lt_base hdigit] at hhead
      exact Nat.digitChar_eq_zero.1 (Option.some.inj hhead)
    · -- the leading digit is that of the number without its last digit, which is not zero
      rw [Nat.toDigits_of_base_le (by decide) hmore, head?_toDigits_append] at hhead
      have hfront := ih (value / 10) (by omega) hhead
      omega

/-- Digits are read up to the end of the number. -/
theorem digits?_append {literal rest : List Char} (hne : literal ≠ [])
    (hdigits : ∀ digit ∈ literal, digit.isDigit = true) (hends : EndsNumber rest) :
    digits? (literal ++ rest) = some (literal, rest) := by
  have hstop : rest.takeWhile Char.isDigit = [] ∧ rest.dropWhile Char.isDigit = rest := by
    cases rest with
    | nil => exact ⟨rfl, rfl⟩
    | cons character rest => simp [hends.isDigit]
  rw [digits?, List.takeWhile_append_of_pos hdigits, List.dropWhile_append_of_pos hdigits,
    hstop.1, hstop.2, List.append_nil]
  cases literal with
  | nil => exact absurd rfl hne
  | cons digit literal => rfl

/-- What ends a number is no fraction and no exponent. -/
theorem fraction?_of_endsNumber {rest : List Char} (hends : EndsNumber rest) :
    fraction? rest = some ([], rest) ∧ exponent? rest = some ([], rest) := by
  cases rest with
  | nil => exact ⟨rfl, rfl⟩
  | cons character rest =>
    have hcontinues := hends character rfl
    simp only [continuesNumber, Bool.or_eq_false_iff, beq_eq_false_iff_ne] at hcontinues
    obtain ⟨⟨⟨-, hpoint⟩, hlower⟩, hupper⟩ := hcontinues
    constructor
    · unfold fraction?
      split
      · rename_i hcons
        exact absurd (List.cons.inj hcons).1 hpoint
      · rfl
    · rw [exponent?, if_neg (by simp [hlower, hupper])]

/-- The integral part of a number is all of its digits. -/
theorem integral?_toDigits (value : Nat) {rest : List Char} (hends : EndsNumber rest) :
    integral? (Nat.toDigits 10 value ++ rest) = some (Nat.toDigits 10 value, rest) := by
  have hdigits : ∀ digit ∈ Nat.toDigits 10 value, digit.isDigit = true :=
    fun digit hmem => Nat.isDigit_of_mem_toDigits (by decide) (by decide) hmem
  unfold integral?
  split
  · rename_i after hzero
    have hhead : (Nat.toDigits 10 value).head? = some '0' := by
      rw [← head?_toDigits_append value rest, hzero]
      rfl
    obtain rfl := eq_zero_of_head?_toDigits hhead
    rw [Nat.toDigits_zero] at hzero ⊢
    obtain rfl : rest = after := (List.cons.inj hzero).2
    rfl
  · exact digits?_append Nat.toDigits_ne_nil hdigits hends

/-- **Numbers read back.** The literal of a natural number is read up to where it ends. -/
theorem number?_toDigits (value : Nat) {rest : List Char} (hends : EndsNumber rest) :
    number? (Nat.toDigits 10 value ++ rest) = some (Nat.toDigits 10 value, rest) := by
  have hunsigned : unsigned? (Nat.toDigits 10 value ++ rest) =
      some (Nat.toDigits 10 value, rest) := by
    obtain ⟨hfraction, hexponent⟩ := fraction?_of_endsNumber hends
    simp [unsigned?, integral?_toDigits value hends, hfraction, hexponent]
  unfold number?
  split
  · rename_i after hsign
    -- no digit is a sign
    have hmem : '-' ∈ Nat.toDigits 10 value := by
      cases hliteral : Nat.toDigits 10 value with
      | nil => exact absurd hliteral Nat.toDigits_ne_nil
      | cons digit literal =>
        rw [hliteral] at hsign
        rw [(List.cons.inj hsign).1]
        exact List.mem_cons_self
    cases Nat.isDigit_of_mem_toDigits (by decide) (by decide) hmem
  · exact hunsigned

end JsonReader

namespace JsonValue

/-- The value of the literal of a natural number is the number. -/
theorem digitsValue?_toDigits (value : Nat) :
    digitsValue? (Nat.toDigits 10 value) = some value := by
  have hdigits : (Nat.toDigits 10 value).all Char.isDigit = true :=
    List.all_eq_true.2 fun digit hmem => Nat.isDigit_of_mem_toDigits (by decide) (by decide) hmem
  rw [digitsValue?, if_pos hdigits]
  refine congrArg some ((Eq.trans ?_ Nat.ofDigitChars_eq_foldl.symm).trans
    Nat.ofDigitChars_ten_toDigits)
  simp only [Nat.mul_comm]

end JsonValue

/-! ## Strings -/

namespace JsonReader

/-- Two hexadecimal digits write a number below 32 behind two zeros. -/
theorem hexCode?_digits : ∀ code < 0x20, hexCode? '0' '0' (JsonValue.hexDigit (code / 16))
    (JsonValue.hexDigit (code % 16)) = some code := by
  decide

/-- An escape by a single letter or mark stands for one code. -/
theorem codes?_shortEscape {mark : Char} {code : Nat} (hmark : shortEscape? mark = some code)
    (text : List Char) : codes? ('\\' :: mark :: text) =
      (codes? text).map fun (codes, rest) => (code :: codes, rest) := by
  have hunicode : mark ≠ 'u' := by
    rintro rfl
    cases hmark
  -- the reader tries escapes by a number first, and these begin with another letter
  rw [codes?.eq_def]
  split
  · contradiction
  · rename_i hcons
    cases (List.cons.inj hcons).1
  · rename_i hcons
    exact absurd (List.cons.inj (List.cons.inj hcons).2).1 hunicode
  · rename_i hcons
    obtain ⟨rfl, rfl⟩ := List.cons.inj (List.cons.inj hcons).2
    rw [hmark]
    cases codes? text <;> rfl
  · rename_i hother hcons
    obtain ⟨rfl, rfl⟩ := List.cons.inj hcons
    exact (hother mark text rfl rfl).elim

/-- **A character reads back** as its code, with or without an escape. -/
theorem codes?_writeChar (character : Char) (text : List Char) :
    codes? (JsonValue.writeChar character ++ text) =
      (codes? text).map fun (codes, rest) => (character.toNat :: codes, rest) := by
  unfold JsonValue.writeChar
  split_ifs with hquote hbackslash hnewline hreturn htab hbackspace hformfeed hcontrol
  · exact codes?_shortEscape (by rw [hquote]; rfl) text
  · exact codes?_shortEscape (by rw [hbackslash]; rfl) text
  · exact codes?_shortEscape (by rw [hnewline]; rfl) text
  · exact codes?_shortEscape (by rw [hreturn]; rfl) text
  · exact codes?_shortEscape (by rw [htab]; rfl) text
  · exact codes?_shortEscape (by rw [hbackspace]; rfl) text
  · exact codes?_shortEscape (by rw [hformfeed]; rfl) text
  · simp only [List.cons_append, List.nil_append]
    rw [codes?, hexCode?_digits character.toNat hcontrol]
    cases codes? text <;> rfl
  · rw [List.singleton_append, codes?.eq_def]
    split
    · contradiction
    · rename_i hcons
      exact absurd (List.cons.inj hcons).1 hquote
    · rename_i hcons
      exact absurd (List.cons.inj hcons).1 hbackslash
    · rename_i hcons
      exact absurd (List.cons.inj hcons).1 hbackslash
    · rename_i hcons
      obtain ⟨rfl, rfl⟩ := List.cons.inj hcons
      rw [if_neg (by simp [hbackslash, hcontrol])]
      cases codes? text <;> rfl

/-- The codes of a written text are those of its characters. -/
theorem codes?_written (text rest : List Char) :
    codes? (text.flatMap JsonValue.writeChar ++ '"' :: rest) =
      some (text.map Char.toNat, rest) := by
  induction text with
  | nil => rfl
  | cons character text ih =>
    rw [List.flatMap_cons, List.append_assoc, codes?_writeChar, ih]
    rfl

/-- No character is half of a surrogate pair. -/
theorem isSurrogate_toNat (character : Char) :
    isLeading character.toNat = false ∧ isTrailing character.toNat = false := by
  have hvalid : character.toNat < 0xD800 ∨ 0xDFFF < character.toNat ∧ character.toNat < 0x110000 :=
    character.valid
  simp only [isLeading, isTrailing, Bool.and_eq_false_iff, decide_eq_false_iff_not]
  omega

/-- The characters of the codes of a text are the text. -/
theorem characters?_toNat (text : List Char) : characters? (text.map Char.toNat) = some text := by
  induction text with
  | nil => rfl
  | cons first rest ih =>
    obtain ⟨hleading, htrailing⟩ := isSurrogate_toNat first
    cases rest with
    | nil => simp [characters?, hleading, htrailing]
    | cons second rest =>
      rw [List.map_cons] at ih ⊢
      simp [characters?, hleading, htrailing, ih]

/-- **Strings read back.** A written text is read up to its closing quote. -/
theorem string?_written (text : String) (rest : List Char) :
    string? (text.toList.flatMap JsonValue.writeChar ++ '"' :: rest) = some (some text, rest) := by
  rw [string?, codes?_written]
  simp [characters?_toNat]

end JsonReader

/-! ## Control characters -/

namespace JsonValue

/-- A digit is no control character. -/
theorem printable_of_isDigit {character : Char} (hdigit : character.isDigit = true) :
    0x20 ≤ character.toNat := by
  have hrange : 48 ≤ character.toNat ∧ character.toNat ≤ 57 := by
    simpa [Char.isDigit, UInt32.le_iff_toNat_le] using hdigit
  omega

/-- Whether there are control characters in a text can be checked. -/
theorem printable_of_all {text : List Char}
    (hall : text.all (fun written => decide (0x20 ≤ written.toNat)) = true) :
    ∀ written ∈ text, 0x20 ≤ written.toNat :=
  fun written hwritten => of_decide_eq_true (List.all_eq_true.1 hall written hwritten)

/-- The escape of a control character has none in it. -/
theorem printable_escape : ∀ code < 0x20,
    ['\\', 'u', '0', '0', hexDigit (code / 16), hexDigit (code % 16)].all
      (fun written => decide (0x20 ≤ written.toNat)) = true := by
  decide

/-- **What is written for a character** has no control characters in it. -/
theorem printable_writeChar (character : Char) :
    ∀ written ∈ writeChar character, 0x20 ≤ written.toNat := by
  unfold writeChar
  split_ifs with hquote hbackslash hnewline hreturn htab hbackspace hformfeed hcontrol
  iterate 7 exact printable_of_all rfl
  · exact printable_of_all (printable_escape character.toNat hcontrol)
  · intro written hwritten
    rw [List.mem_singleton.1 hwritten]
    exact Nat.le_of_not_lt hcontrol

/-- A text is written between quotes. -/
theorem writeString_some (text : String) :
    writeString (some text) = '"' :: (text.toList.flatMap writeChar ++ ['"']) := rfl

/-- What is written for a text has no control characters in it. -/
theorem printable_writeString (text : String) :
    ∀ written ∈ writeString (some text), 0x20 ≤ written.toNat := by
  intro written hwritten
  rw [writeString_some, List.mem_cons, List.mem_append, List.mem_flatMap,
    List.mem_singleton] at hwritten
  rcases hwritten with rfl | ⟨character, -, hcharacter⟩ | rfl
  · decide
  · exact printable_writeChar character written hcharacter
  · decide

end JsonValue

end RubyIndex
