import RubyIndex.Document.Codec
import RubyIndex.Proofs.Json.RoundTrip

/-! # Documents on lines

A document that is written can be read again, whatever its strings are, as long as its offsets have
at most 32 bits. The written form has no line break in it, so a document fills one line, and several
documents that are written one after the other are told apart by the line breaks between them.

* `DocumentEntry.ofJson?_toJson` and `Document.ofJson?_toJson` are about values.
* `splitOn_lines` is about lines of text.
* `Document.read?_lines` is the result for documents in a row. -/

namespace RubyIndex

/-! ## Values of objects -/

/-- Decoding undoes encoding item by item. -/
theorem mapM_map_of_leftInverse {α β : Type} {encode : α → β} {decode : β → Option α}
    {values : List α} (hvalues : ∀ value ∈ values, decode (encode value) = some value) :
    (values.map encode).mapM decode = some values := by
  induction values with
  | nil => rfl
  | cons value rest ih =>
    rw [List.map_cons, List.mapM_cons, hvalues value List.mem_cons_self,
      ih fun later hlater => hvalues later (List.mem_cons_of_mem _ hlater)]
    rfl

namespace JsonValue

/-- A number below the limit reads back. -/
theorem natBelow?_ofNat {limit value : Nat} (hlimit : value < limit) :
    natBelow? limit (ofNat value) = some value := by
  rw [ofNat, natBelow?, digitsValue?_toDigits, Option.filter_some, if_pos (decide_eq_true hlimit)]

/-- A member that may be absent reads back, if its value does and is not `null`. -/
theorem optional?_map {α : Type} {encode : α → JsonValue} {decode : JsonValue → Option α}
    {value : Option α} (hnull : ∀ value, encode value ≠ .null)
    (hdecode : ∀ present ∈ value, decode (encode present) = some present) :
    optional? decode (value.map encode) = some value := by
  cases value with
  | none => rfl
  | some present =>
    rw [Option.map_some, optional?.eq_3 _ _ (hnull present), hdecode present rfl]
    rfl

end JsonValue

namespace DocumentEntry

open JsonValue

/-- **Offsets fit** if they have at most 32 bits. -/
def OffsetsFit (object : DocumentEntry) : Prop :=
  ∀ offset ∈ object.defStart.toList ++ object.defEnd.toList, offset < 0x100000000

instance (object : DocumentEntry) : Decidable object.OffsetsFit :=
  inferInstanceAs (Decidable (∀ offset ∈ _, offset < 0x100000000))

/-- The members of an object in their written order, present or absent. -/
def members (object : DocumentEntry) : List (String × Option JsonValue) :=
  [("name", some (ofString object.name)), ("path", some (ofString object.path)),
    ("module", some (ofString object.module)), ("kind", some (ofString object.kind)),
    ("file", some (ofString object.file)), ("exported", some (.boolean object.exported)),
    ("defStart", object.defStart.map ofNat), ("defEnd", object.defEnd.map ofNat),
    ("docstring", object.docstring.map ofString), ("signature", object.signature.map ofString)]

/-- An object is written as its members that are present. -/
theorem toJson_eq (object : DocumentEntry) :
    object.toJson = ofMembers (present object.members) := by
  obtain ⟨_, _, _, _, _, _, defStart, defEnd, docstring, signature⟩ := object
  cases defStart <;> cases defEnd <;> cases docstring <;> cases signature <;> rfl

/-- The members of an object are plain values. -/
theorem plain_toJson (object : DocumentEntry) : object.toJson.Plain := by
  rw [toJson_eq]
  refine plain_ofMembers fun member hmember => ?_
  obtain ⟨⟨name, value⟩, hfield, hpresent⟩ := List.mem_filterMap.1 hmember
  obtain ⟨value, rfl, rfl⟩ := Option.map_eq_some_iff.1 hpresent
  have hstring : ∀ text, (ofString text).Plain := fun _ => rfl
  have hnat : ∀ number, (ofNat number).Plain := fun number => ⟨number, rfl⟩
  simp only [members, List.mem_cons, List.not_mem_nil, or_false, Prod.mk.injEq,
    Option.some.injEq] at hfield
  rcases hfield with ⟨-, rfl⟩ | ⟨-, rfl⟩ | ⟨-, rfl⟩ | ⟨-, rfl⟩ | ⟨-, rfl⟩ | ⟨-, rfl⟩ | ⟨-, hvalue⟩ |
    ⟨-, hvalue⟩ | ⟨-, hvalue⟩ | ⟨-, hvalue⟩
  iterate 5 exact hstring _
  · trivial
  iterate 2
    obtain ⟨number, -, rfl⟩ := Option.map_eq_some_iff.1 hvalue.symm
    exact hnat number
  iterate 2
    obtain ⟨text, -, rfl⟩ := Option.map_eq_some_iff.1 hvalue.symm
    exact hstring text

/-- **Objects read back**, if their offsets fit. -/
theorem ofJson?_toJson {object : DocumentEntry} (hfit : object.OffsetsFit) :
    ofJson? object.toJson = some object := by
  have hnames : memberNames.Nodup := by decide
  have hrecord : object.toJson.record? memberNames = some (object.members.map (·.2)) := by
    rw [toJson_eq]
    exact record?_present object.members hnames
  -- an absent member is written as null, which is neither an offset nor a text
  have hoffset : ∀ value : Option Nat,
      (∀ offset ∈ value, offset ∈ object.defStart.toList ++ object.defEnd.toList) →
      optional? offset? (value.map ofNat) = some value := fun value hvalue =>
    optional?_map (fun _ => JsonValue.noConfusion) fun offset hoffset =>
      natBelow?_ofNat (hfit offset (hvalue offset hoffset))
  have htext : ∀ value : Option String, optional? text? (value.map ofString) = some value :=
    fun value => optional?_map (fun _ => JsonValue.noConfusion) fun _ _ => rfl
  have hstart := hoffset object.defStart fun offset hoffset =>
    List.mem_append_left _ (Option.mem_toList.2 hoffset)
  have hstop := hoffset object.defEnd fun offset hoffset =>
    List.mem_append_right _ (Option.mem_toList.2 hoffset)
  rw [ofJson?, hrecord]
  simp only [members, List.map_cons, List.map_nil, required?, Option.bind_some, ofString, text?,
    bool?, Option.bind_eq_bind]
  rw [hstart, hstop]
  have hdocstring := htext object.docstring
  have hsignature := htext object.signature
  simp only [Option.bind_some]
  rw [hdocstring, hsignature]
  rfl

end DocumentEntry

/-! ## Documents -/

namespace Document

open JsonValue

/-- **Offsets fit** in a document if they fit in its objects. -/
def OffsetsFit (document : Document) : Prop := ∀ object ∈ document.objects, object.OffsetsFit

instance (document : Document) : Decidable document.OffsetsFit :=
  inferInstanceAs (Decidable (∀ object ∈ document.objects, object.OffsetsFit))

theorem plain_toJson (document : Document) : document.toJson.Plain := by
  refine plain_ofMembers fun member hmember => ?_
  obtain rfl := List.mem_singleton.1 hmember
  refine plainItems_of_forall fun item hitem => ?_
  obtain ⟨object, -, rfl⟩ := List.mem_map.1 hitem
  exact object.plain_toJson

/-- The value of a document describes the document. -/
theorem ofJson?_toJson {document : Document} (hfit : document.OffsetsFit) :
    ofJson? document.toJson = some document := by
  have hobjects : list? DocumentEntry.ofJson? (.array (document.objects.map DocumentEntry.toJson)) =
      some document.objects :=
    mapM_map_of_leftInverse fun object hobject => DocumentEntry.ofJson?_toJson (hfit object hobject)
  have hname : ["objects"].Nodup := by decide
  have hrecord : document.toJson.record? ["objects"] =
      some [some (.array (document.objects.map DocumentEntry.toJson))] :=
    record?_present [("objects", some _)] hname
  rw [ofJson?, hrecord]
  show (required? _ (some _)).map Document.mk = _
  rw [required?, Option.bind_some, hobjects]
  rfl

/-- **Documents read back**, with blanks behind them if there are any. -/
theorem read?_render {document : Document} (hfit : document.OffsetsFit) (blanks : String)
    (hblanks : ∀ blank ∈ blanks.toList, JsonReader.isSpace blank = true) :
    read? (document.render ++ blanks) = some document := by
  rw [read?, render, JsonReader.read?_render document.plain_toJson blanks hblanks, Option.bind_some,
    ofJson?_toJson hfit]

/-- The written form of a document has no control characters in it. -/
theorem printable_render (document : Document) :
    ∀ written ∈ document.render.toList, 0x20 ≤ written.toNat := by
  rw [render, JsonValue.render, String.toList_ofList]
  exact printable_write document.plain_toJson

theorem newline_notMem_render (document : Document) : '\n' ∉ document.render.toList :=
  fun hmem => absurd (document.printable_render '\n' hmem) (by decide)

/-! ## Lines -/

/-- **Lines are told apart** by the line breaks that end them. -/
theorem splitOn_lines {lines : List (List Char)} (hlines : ∀ line ∈ lines, '\n' ∉ line) :
    (lines.flatMap (· ++ ['\n'])).splitOn '\n' = lines ++ [[]] := by
  induction lines with
  | nil => rfl
  | cons line rest ih =>
    rw [List.flatMap_cons, List.append_assoc, List.singleton_append,
      List.splitOn_append_cons_self_of_not_mem (hlines line List.mem_cons_self),
      ih fun later hlater => hlines later (List.mem_cons_of_mem _ hlater)]
    rfl

/-- The documents of a text with one document on each line. What is behind the last line break is
not read. -/
def readLines? (text : String) : Option (List Document) :=
  (text.toList.splitOn '\n').dropLast.mapM fun line => read? (String.ofList line)

/-- The lines of documents that are written one after the other. -/
theorem splitOn_renderLines (documents : List Document) :
    (String.join (documents.map renderLine)).toList.splitOn '\n' =
      documents.map (·.render.toList) ++ [[]] := by
  have htext : (String.join (documents.map renderLine)).toList =
      (documents.map (·.render.toList)).flatMap (· ++ ['\n']) := by
    simp [String.toList_join, List.flatMap_map, renderLine]
  rw [htext]
  refine splitOn_lines fun line hline => ?_
  obtain ⟨document, -, rfl⟩ := List.mem_map.1 hline
  exact document.newline_notMem_render

/-- **Documents on lines.** A document whose offsets fit reads back from its written form, which has
no control characters, and from its line, which is one line. Documents that are written one after
the other fill a line each and read back in their order. -/
theorem read?_lines {documents : List Document}
    (hfit : ∀ document ∈ documents, document.OffsetsFit) :
    (∀ document ∈ documents, read? document.render = some document ∧
        (∀ written ∈ document.render.toList, 0x20 ≤ written.toNat) ∧
        document.renderLine.toList.splitOn '\n' = [document.render.toList, []] ∧
        read? document.renderLine = some document) ∧
      (String.join (documents.map renderLine)).toList.splitOn '\n' =
        documents.map (·.render.toList) ++ [[]] ∧
      readLines? (String.join (documents.map renderLine)) = some documents := by
  have hread : ∀ document ∈ documents, read? document.render = some document := by
    intro document hdocument
    have hnone := read?_render (hfit document hdocument) "" (by simp)
    rwa [String.append_empty] at hnone
  refine ⟨fun document hdocument => ⟨hread document hdocument, document.printable_render, ?_,
    read?_render (hfit document hdocument) "\n" (by simp [JsonReader.isSpace])⟩,
    splitOn_renderLines documents, ?_⟩
  · have hline := splitOn_renderLines [document]
    simpa [String.join] using hline
  · rw [readLines?, splitOn_renderLines, List.dropLast_concat]
    exact mapM_map_of_leftInverse fun document hdocument => by
      rw [String.ofList_toList, hread document hdocument]

/-- Two documents: one with escaped and unescaped characters, an absent part and the largest offset,
and one without objects. -/
def escapedDocuments : List Document :=
  [⟨[⟨"[]=", "A#[]=", "A", "method", "a\\b \"c\".rb", true, some 0, some 0xFFFFFFFF,
    some "<p>\x00\x1f\t\r\n\x7fé😀</p>", none⟩]⟩, ⟨[]⟩]

/-- Both documents read back from their lines. -/
theorem read?_lines_escaped : (∀ document ∈ escapedDocuments, document.OffsetsFit) ∧
    readLines? (String.join (escapedDocuments.map renderLine)) = some escapedDocuments :=
  ⟨by decide, (read?_lines (by decide)).2.2⟩

end Document

end RubyIndex
