import RubyIndex.Proofs.Json.Scalars

/-! # Values read back

What is written for a value is read back as the value. The reader may be in front of more text: an
item is followed by a comma or the bracket that closes the array, and a whole text may end with
blanks. The bound of the reader is never in the way, because every call inside a value has at least
one character of the value to itself.

* `JsonValue.Plain` values have a text for every string and a literal of a natural number for every
  number.
* `JsonReader.value?_write` is the step for values inside of a text, by induction on the value.
* `JsonReader.read?_render` is the result for whole texts.
* `JsonValue.record?_present` is about records, of which absent members are left out. -/

namespace RubyIndex

/-! ## Plain values -/

namespace JsonValue

mutual

/-- **A plain value** is made of texts, natural numbers, truth values, arrays and objects. -/
def Plain : JsonValue → Prop
  | .null => True
  | .boolean _ => True
  | .number literal => ∃ value, literal = Nat.toDigits 10 value
  | .string text => text.isSome = true
  | .array items => PlainItems items
  | .object members => PlainMembers members

/-- Every one of several values is plain. -/
def PlainItems : List JsonValue → Prop
  | [] => True
  | item :: rest => item.Plain ∧ PlainItems rest

/-- Every one of several members has a name and a plain value. -/
def PlainMembers : List (Option String × JsonValue) → Prop
  | [] => True
  | (name, value) :: rest => name.isSome = true ∧ value.Plain ∧ PlainMembers rest

end

theorem plainItems_of_forall {items : List JsonValue} (hitems : ∀ item ∈ items, item.Plain) :
    PlainItems items := by
  induction items with
  | nil => trivial
  | cons item rest ih =>
    exact ⟨hitems item List.mem_cons_self,
      ih fun later hlater => hitems later (List.mem_cons_of_mem _ hlater)⟩

/-- Members that are given by name are plain if their values are. -/
theorem plain_ofMembers {members : List (String × JsonValue)}
    (hmembers : ∀ member ∈ members, member.2.Plain) : (ofMembers members).Plain := by
  show PlainMembers (members.map fun member => (some member.1, member.2))
  induction members with
  | nil => trivial
  | cons member rest ih =>
    exact ⟨rfl, hmembers member List.mem_cons_self,
      ih fun later hlater => hmembers later (List.mem_cons_of_mem _ hlater)⟩

/-! ## The written form -/

/-- What is written for a value begins with no blank and with no closing bracket. -/
theorem exists_front_write {value : JsonValue} (hplain : value.Plain) :
    ∃ first more, value.write = first :: more ∧ JsonReader.isSpace first = false ∧
      first ≠ ']' := by
  cases value with
  | null => exact ⟨'n', _, rfl, rfl, by decide⟩
  | boolean truth => cases truth <;> exact ⟨_, _, rfl, rfl, by decide⟩
  | string text =>
    obtain ⟨text, rfl⟩ := Option.isSome_iff_exists.1 hplain
    exact ⟨'"', _, rfl, rfl, by decide⟩
  | array items => exact ⟨'[', _, rfl, rfl, by decide⟩
  | object members => exact ⟨'{', _, rfl, rfl, by decide⟩
  | number literal =>
    obtain ⟨number, rfl⟩ := hplain
    cases hliteral : Nat.toDigits 10 number with
    | nil => exact absurd hliteral Nat.toDigits_ne_nil
    | cons digit literal =>
      have hdigit : digit.isDigit = true :=
        Nat.isDigit_of_mem_toDigits (by decide) (by decide) (hliteral ▸ List.mem_cons_self)
      refine ⟨digit, literal, rfl, ?_, ?_⟩
      · simp only [JsonReader.isSpace, Bool.or_eq_false_iff, beq_eq_false_iff_ne]
        refine ⟨⟨⟨?_, ?_⟩, ?_⟩, ?_⟩ <;> rintro rfl <;> cases hdigit
      · rintro rfl
        cases hdigit

/-- What is written for items begins as what is written for the first of them. -/
theorem exists_front_writeItems {item : JsonValue} {items : List JsonValue}
    (hplain : PlainItems (item :: items)) : ∃ first more,
      writeItems (item :: items) = first :: more ∧ JsonReader.isSpace first = false ∧
        first ≠ ']' := by
  obtain ⟨first, more, hwrite, hspace, hbracket⟩ := exists_front_write hplain.1
  cases items with
  | nil => exact ⟨first, more, hwrite, hspace, hbracket⟩
  | cons following rest =>
    exact ⟨first, more ++ ',' :: writeItems (following :: rest), by rw [writeItems, hwrite]; rfl,
      hspace, hbracket⟩

/-- What is written for members begins with the quote of the first name. -/
theorem exists_front_writeMembers {member : Option String × JsonValue}
    {members : List (Option String × JsonValue)} (hplain : PlainMembers (member :: members)) :
    ∃ more, writeMembers (member :: members) = '"' :: more := by
  obtain ⟨name, value⟩ := member
  obtain ⟨name, rfl⟩ := Option.isSome_iff_exists.1 hplain.1
  cases members with
  | nil => exact ⟨_, rfl⟩
  | cons following rest => exact ⟨_, rfl⟩

theorem length_write_pos {value : JsonValue} (hplain : value.Plain) : 0 < value.write.length := by
  obtain ⟨first, more, hwrite, -⟩ := exists_front_write hplain
  rw [hwrite]
  exact Nat.succ_pos _

mutual

/-- **What is written for a value** has no control characters in it. -/
theorem printable_write {value : JsonValue} (hplain : value.Plain) :
    ∀ written ∈ value.write, 0x20 ≤ written.toNat := by
  cases value with
  | null => exact printable_of_all rfl
  | boolean truth => cases truth <;> exact printable_of_all rfl
  | string text =>
    obtain ⟨text, rfl⟩ := Option.isSome_iff_exists.1 hplain
    exact printable_writeString text
  | number literal =>
    obtain ⟨number, rfl⟩ := hplain
    intro digit hdigit
    exact printable_of_isDigit (Nat.isDigit_of_mem_toDigits (by decide) (by decide) hdigit)
  | array items =>
    have hitems := printable_writeItems hplain
    simp only [write, List.mem_cons, List.mem_append, List.not_mem_nil, or_false]
    rintro written (rfl | hwritten | rfl)
    · decide
    · exact hitems written hwritten
    · decide
  | object members =>
    have hmembers := printable_writeMembers hplain
    simp only [write, List.mem_cons, List.mem_append, List.not_mem_nil, or_false]
    rintro written (rfl | hwritten | rfl)
    · decide
    · exact hmembers written hwritten
    · decide

theorem printable_writeItems {items : List JsonValue} (hplain : PlainItems items) :
    ∀ written ∈ writeItems items, 0x20 ≤ written.toNat := by
  match items with
  | [] => exact fun written hwritten => absurd hwritten List.not_mem_nil
  | [item] => exact printable_write hplain.1
  | item :: following :: rest =>
    have hfirst := printable_write hplain.1
    have hrest := printable_writeItems hplain.2
    simp only [writeItems, List.mem_cons, List.mem_append]
    rintro written (hwritten | rfl | hwritten)
    · exact hfirst written hwritten
    · decide
    · exact hrest written hwritten

theorem printable_writeMembers {members : List (Option String × JsonValue)}
    (hplain : PlainMembers members) :
    ∀ written ∈ writeMembers members, 0x20 ≤ written.toNat := by
  match members with
  | [] => exact fun written hwritten => absurd hwritten List.not_mem_nil
  | [(name, value)] =>
    obtain ⟨name, rfl⟩ := Option.isSome_iff_exists.1 hplain.1
    have hname := printable_writeString name
    have hvalue := printable_write hplain.2.1
    simp only [writeMembers, List.mem_cons, List.mem_append]
    rintro written (hwritten | rfl | hwritten)
    · exact hname written hwritten
    · decide
    · exact hvalue written hwritten
  | (name, value) :: following :: rest =>
    obtain ⟨name, rfl⟩ := Option.isSome_iff_exists.1 hplain.1
    have hname := printable_writeString name
    have hvalue := printable_write hplain.2.1
    have hrest := printable_writeMembers hplain.2.2
    simp only [writeMembers, List.mem_cons, List.mem_append]
    rintro written (hwritten | rfl | hwritten | rfl | hwritten)
    · exact hname written hwritten
    · decide
    · exact hvalue written hwritten
    · decide
    · exact hrest written hwritten

end

end JsonValue

/-! ## Reading -/

namespace JsonReader

open JsonValue

theorem skipSpace_cons {first : Char} (hfirst : isSpace first = false) (more : List Char) :
    skipSpace (first :: more) = first :: more := by
  rw [skipSpace, List.dropWhile_cons, hfirst]
  rfl

/-- A value that begins with a digit is a number. -/
theorem value?_of_isDigit {digit : Char} (hdigit : digit.isDigit = true) (bound : Nat)
    (more : List Char) : value? (bound + 1) (digit :: more) =
      (number? (digit :: more)).map fun (literal, rest) => (.number literal, rest) := by
  have hspace : isSpace digit = false := by
    simp only [isSpace, Bool.or_eq_false_iff, beq_eq_false_iff_ne]
    refine ⟨⟨⟨?_, ?_⟩, ?_⟩, ?_⟩ <;> rintro rfl <;> cases hdigit
  rw [value?, skipSpace_cons hspace]
  -- none of the characters that other values begin with is a digit
  split
  all_goals first
    | rfl
    | rename_i hcons
      obtain ⟨rfl, -⟩ := List.cons.inj hcons
      cases hdigit

/-- An array that is not empty is read by its items. -/
theorem value?_array {first : Char} (hspace : isSpace first = false) (hbracket : first ≠ ']')
    (bound : Nat) (more : List Char) : value? (bound + 1) ('[' :: first :: more) =
      (items? bound (first :: more)).map fun (items, rest) => (.array items, rest) := by
  rw [value?, skipSpace_cons rfl]
  simp only [skipSpace_cons hspace]
  split
  · rename_i hcons
    exact absurd (List.cons.inj hcons).1 hbracket
  · rfl

/-- An object that is not empty is read by its members. -/
theorem value?_object (bound : Nat) (more : List Char) :
    value? (bound + 1) ('{' :: '"' :: more) =
      (members? bound ('"' :: more)).map fun (members, rest) => (.object members, rest) := by
  rw [value?, skipSpace_cons rfl]
  rfl

/-- The last item is followed by the bracket that closes the array. -/
theorem items?_last {bound : Nat} {text rest : List Char} {item : JsonValue}
    (hitem : value? bound text = some (item, ']' :: rest)) :
    items? (bound + 1) text = some ([item], rest) := by
  rw [items?, hitem]
  rfl

/-- Any other item is followed by a comma. -/
theorem items?_next {bound : Nat} {text following rest : List Char} {item : JsonValue}
    {items : List JsonValue} (hitem : value? bound text = some (item, ',' :: following))
    (hitems : items? bound following = some (items, rest)) :
    items? (bound + 1) text = some (item :: items, rest) := by
  rw [items?, hitem]
  show (items? bound following).bind _ = _
  rw [hitems]
  rfl

/-- A member is a name and a value with a colon between them. -/
theorem members?_name {bound : Nat} {name : String} {text following : List Char}
    {value : JsonValue} (hvalue : value? bound text = some (value, following)) :
    members? (bound + 1) (writeString (some name) ++ ':' :: text) =
      match skipSpace following with
      | '}' :: rest => some ([(some name, value)], rest)
      | ',' :: rest => (members? bound rest).map fun (members, rest) =>
          ((some name, value) :: members, rest)
      | _ => none := by
  rw [writeString_some, List.cons_append, List.append_assoc, List.singleton_append, members?,
    skipSpace_cons rfl]
  show (string? _).bind _ = _
  rw [string?_written]
  show (value? bound text).bind _ = _
  rw [hvalue]
  show (match skipSpace following with | '}' :: rest => _ | ',' :: rest => _ | _ => _) = _
  split
  · rfl
  · rename_i rest _
    cases members? bound rest <;> rfl
  · rfl

mutual

/-- **Values read back**, in front of whatever does not go on with a number. -/
theorem value?_write {value : JsonValue} (hplain : value.Plain) {rest : List Char}
    (hends : EndsNumber rest) {bound : Nat} (hbound : value.write.length ≤ bound) :
    value? bound (value.write ++ rest) = some (value, rest) := by
  -- the bound is at least one, because something is written
  obtain ⟨bound, rfl⟩ : ∃ lower, bound = lower + 1 :=
    ⟨bound - 1, by have := length_write_pos hplain; omega⟩
  cases value with
  | null => rfl
  | boolean truth => cases truth <;> rfl
  | number literal =>
    obtain ⟨number, rfl⟩ := hplain
    have hread := number?_toDigits number hends
    rw [write]
    cases hliteral : Nat.toDigits 10 number with
    | nil => exact absurd hliteral Nat.toDigits_ne_nil
    | cons digit literal =>
      rw [hliteral] at hread
      rw [List.cons_append, value?_of_isDigit (Nat.isDigit_of_mem_toDigits (by decide)
        (by decide) (hliteral ▸ List.mem_cons_self)), ← List.cons_append, hread]
      rfl
  | string text =>
    obtain ⟨text, rfl⟩ := Option.isSome_iff_exists.1 hplain
    rw [write, writeString_some, List.cons_append, List.append_assoc, List.singleton_append,
      value?, skipSpace_cons rfl]
    show (string? _).map _ = _
    rw [string?_written]
    rfl
  | array items =>
    rw [write, List.cons_append, List.append_assoc, List.singleton_append]
    cases items with
    | nil => rfl
    | cons item items =>
      obtain ⟨first, more, hfront, hspace, hbracket⟩ := exists_front_writeItems hplain
      have hitems : items? bound (writeItems (item :: items) ++ ']' :: rest) = _ :=
        items?_writeItems hplain (List.cons_ne_nil _ _) rest (by
          simp only [write, List.length_cons, List.length_append] at hbound
          omega)
      rw [hfront, List.cons_append] at hitems ⊢
      rw [value?_array hspace hbracket, hitems]
      rfl
  | object members =>
    rw [write, List.cons_append, List.append_assoc, List.singleton_append]
    cases members with
    | nil => rfl
    | cons member members =>
      obtain ⟨more, hfront⟩ := exists_front_writeMembers hplain
      have hmembers : members? bound (writeMembers (member :: members) ++ '}' :: rest) = _ :=
        members?_writeMembers hplain (List.cons_ne_nil _ _) rest (by
          simp only [write, List.length_cons, List.length_append] at hbound
          omega)
      rw [hfront, List.cons_append] at hmembers ⊢
      rw [value?_object, hmembers]
      rfl

/-- One or more items read back, up to the bracket that closes them. -/
theorem items?_writeItems {items : List JsonValue} (hplain : PlainItems items)
    (hne : items ≠ []) (rest : List Char) {bound : Nat}
    (hbound : (writeItems items).length < bound) :
    items? bound (writeItems items ++ ']' :: rest) = some (items, rest) := by
  obtain ⟨bound, rfl⟩ : ∃ lower, bound = lower + 1 := ⟨bound - 1, by omega⟩
  match items with
  | [] => exact absurd rfl hne
  | [item] =>
    exact items?_last (value?_write hplain.1 (endsNumber_cons rfl rest)
      (Nat.le_of_lt_succ hbound))
  | item :: following :: later =>
    have hpos := length_write_pos hplain.1
    rw [writeItems, List.length_append, List.length_cons] at hbound
    rw [writeItems, List.append_assoc, List.cons_append]
    exact items?_next (value?_write hplain.1 (endsNumber_cons rfl _) (by omega))
      (items?_writeItems hplain.2 (List.cons_ne_nil _ _) rest (by omega))

/-- One or more members read back, up to the brace that closes them. -/
theorem members?_writeMembers {members : List (Option String × JsonValue)}
    (hplain : PlainMembers members) (hne : members ≠ []) (rest : List Char) {bound : Nat}
    (hbound : (writeMembers members).length < bound) :
    members? bound (writeMembers members ++ '}' :: rest) = some (members, rest) := by
  obtain ⟨bound, rfl⟩ : ∃ lower, bound = lower + 1 := ⟨bound - 1, by omega⟩
  match members with
  | [] => exact absurd rfl hne
  | [(name, value)] =>
    obtain ⟨name, rfl⟩ := Option.isSome_iff_exists.1 hplain.1
    -- the bound goes down with every member, as each takes a character at least
    rw [writeMembers, List.length_append, List.length_cons] at hbound
    rw [writeMembers, List.append_assoc, List.cons_append,
      members?_name (value?_write hplain.2.1 (endsNumber_cons rfl rest) (by omega))]
    rfl
  | (name, value) :: following :: later =>
    obtain ⟨name, rfl⟩ := Option.isSome_iff_exists.1 hplain.1
    rw [writeMembers, List.length_append, List.length_cons, List.length_append,
      List.length_cons] at hbound
    rw [writeMembers, List.append_assoc, List.cons_append, List.append_assoc, List.cons_append,
      members?_name (value?_write hplain.2.1 (endsNumber_cons rfl _) (by omega)),
      skipSpace_cons rfl]
    show (members? bound _).map _ = _
    rw [members?_writeMembers hplain.2.2 (List.cons_ne_nil _ _) rest (by omega)]
    rfl

end

/-- **Whole texts read back**, with blanks behind them if there are any. -/
theorem read?_render {value : JsonValue} (hplain : value.Plain) (blanks : String)
    (hblanks : ∀ blank ∈ blanks.toList, isSpace blank = true) :
    read? (value.render ++ blanks) = some value := by
  have hends : EndsNumber blanks.toList := by
    intro blank hblank
    have hspace := hblanks blank (List.mem_of_mem_head? hblank)
    simp only [isSpace, Bool.or_eq_true, beq_iff_eq] at hspace
    rcases hspace with ((rfl | rfl) | rfl) | rfl <;> rfl
  have hrest : skipSpace blanks.toList = [] := by
    rw [skipSpace, ← List.append_nil blanks.toList, List.dropWhile_append_of_pos hblanks]
    rfl
  have htext : (value.render ++ blanks).toList = value.write ++ blanks.toList := by
    rw [String.toList_append, render, String.toList_ofList]
  rw [read?, htext, value?_write hplain hends (by rw [List.length_append]; omega)]
  show (if (skipSpace blanks.toList).isEmpty = true then some value else none) = some value
  rw [hrest]
  rfl

end JsonReader

/-! ## Records -/

namespace JsonValue

/-- The members of a record, without those that are absent. -/
def present (fields : List (String × Option JsonValue)) : List (String × JsonValue) :=
  fields.filterMap fun (name, value) => value.map (name, ·)

theorem sublist_names_present (fields : List (String × Option JsonValue)) :
    ((present fields).map (·.1)).Sublist (fields.map (·.1)) := by
  induction fields with
  | nil => exact List.Sublist.refl []
  | cons field rest ih =>
    obtain ⟨name, value⟩ := field
    cases value with
    | none => exact ih.cons name
    | some value => exact ih.cons_cons name

/-- A member that is given by name is found by name. -/
theorem find?_present {fields : List (String × Option JsonValue)}
    (hnames : (fields.map (·.1)).Nodup) {name : String} {value : Option JsonValue}
    (hfield : (name, value) ∈ fields) :
    (((present fields).map fun (name, value) => (some name, value)).find?
      (·.1 == some name)).map (·.2) = value := by
  induction fields with
  | nil => cases hfield
  | cons field rest ih =>
    obtain ⟨first, here⟩ := field
    rw [List.map_cons, List.nodup_cons] at hnames
    rcases List.mem_cons.1 hfield with hfirst | hrest
    · obtain ⟨rfl, rfl⟩ := Prod.mk.inj hfirst
      cases value with
      | some value => simp [present]
      | none =>
        -- the name does not come again
        have habsent : ∀ member ∈ (present rest).map fun (name, value) => (some name, value),
            (member.1 == some name) = false := by
          intro member hmember
          obtain ⟨⟨found, value⟩, hfound, rfl⟩ := List.mem_map.1 hmember
          rw [beq_eq_false_iff_ne]
          rintro hsame
          obtain rfl := Option.some.inj hsame
          exact hnames.1 ((sublist_names_present rest).subset (List.mem_map_of_mem hfound))
        show ((((present rest).map _).find? _).map _) = none
        rw [List.find?_eq_none.2 fun member hmember => by simp [habsent member hmember]]
        rfl
    · have hother : first ≠ name := by
        rintro rfl
        exact hnames.1 (List.mem_map.2 ⟨_, hrest, rfl⟩)
      cases here with
      | none => exact ih hnames.2 hrest
      | some here =>
        have hskipped : (some first == some name) = false := by simpa using hother
        show ((((some first, here) :: (present rest).map _).find? _).map _) = value
        rw [List.find?_cons, hskipped]
        exact ih hnames.2 hrest

/-- **Records read back.** Of the members of a record those that are present are found and those
that are absent are not. -/
theorem record?_present (fields : List (String × Option JsonValue))
    (hnames : (fields.map (·.1)).Nodup) :
    (ofMembers (present fields)).record? (fields.map (·.1)) = some (fields.map (·.2)) := by
  have hnamed : ((present fields).map fun (name, value) => (some name, value)).all
      (·.1.isSome) = true := by
    simp
  have honce : (fields.map (·.1)).all (fun name =>
      ((present fields).map fun (name, value) => (some name, value)).countP
        (·.1 == some name) ≤ 1) = true := by
    refine List.all_eq_true.2 fun name _ => decide_eq_true ?_
    have hcount := List.nodup_iff_count.1 (hnames.sublist (sublist_names_present fields))
      name
    rw [List.count, List.countP_map] at hcount
    rw [List.countP_map]
    simpa [Function.comp_def] using hcount
  rw [ofMembers, record?, hnamed, honce, Bool.and_self, if_pos rfl, List.map_map]
  refine congrArg some (List.map_congr_left fun field hfield => ?_)
  exact find?_present hnames hfield

end JsonValue

end RubyIndex
