import RubyIndex.Files.Collect

/-! # Walks and paths

A walk through a directory spells a path for every file that it finds, and paths are followed
component by component, from the top or from the current directory. What is found by a walk is
opened under the name that the walk has spelled, however the path to the directory is written.

* `Entry.WellNamed` says what names the entries of a directory have.
* `FileTree.target?_joinComponent` is one step: a path with one more component.
* `FileTree.exists_file_of_mem_filesBelow` is a walk, and `FileTree.exists_file_of_mem_sources` are
  the sources of a list of paths. -/

namespace RubyIndex.Files

/-! ## Names of entries -/

/-- Whether a text can be the name of a file or directory. -/
structure IsEntryName (name : String) : Prop where
  ne_empty : name ≠ ""
  ne_dot : name ≠ "."
  ne_dots : name ≠ ".."
  not_slash : '/' ∉ name.toList

/-- **Well named** entries have names, each of its own, and so it goes on in the directories among
them. -/
inductive Entry.WellNamed : List Entry → Prop
  | intro {entries : List Entry} (hnames : ∀ entry ∈ entries, IsEntryName entry.name)
      (hdistinct : (entries.map Entry.name).Nodup)
      (hbelow : ∀ name inner, .directory name inner ∈ entries → WellNamed inner) :
      WellNamed entries

/-- Where names are distinct, an entry is found under its name. -/
theorem find?_name_of_mem {entries : List Entry} (hdistinct : (entries.map Entry.name).Nodup)
    {entry : Entry} (hmem : entry ∈ entries) :
    entries.find? (·.name == entry.name) = some entry := by
  induction entries with
  | nil => cases hmem
  | cons first rest ih =>
    rw [List.map_cons, List.nodup_cons] at hdistinct
    rcases List.mem_cons.1 hmem with rfl | hlater
    · exact List.find?_cons_of_pos (beq_self_eq_true _)
    · have hother : first.name ≠ entry.name := fun hsame =>
        hdistinct.1 (hsame ▸ List.mem_map_of_mem hlater)
      rw [List.find?_cons_of_neg (by simpa using hother)]
      exact ih hdistinct.2 hlater

/-! ## Components -/

/-- A name behind a `/` is one more component. -/
theorem components_append_name {front name : String} (hname : IsEntryName name) :
    components (front ++ "/" ++ name) = components front ++ [name] := by
  have hcounts : [name].filter (fun component => component != "" && component != ".") = [name] := by
    simp [hname.ne_empty, hname.ne_dot]
  have htext : (front ++ "/" ++ name).toList = front.toList ++ '/' :: name.toList := by
    simp
  rw [components, htext, Text.pieces_append_cons, Text.pieces_of_not_mem hname.not_slash,
    List.map_append, List.filter_append, List.map_singleton, String.ofList_toList,
    hcounts]
  rfl

/-- A `/` at the end of a path is no component. -/
theorem components_append_slash (front : String) : components (front ++ "/") = components front := by
  have htext : (front ++ "/").toList = front.toList ++ '/' :: [] := by simp
  rw [components, htext, Text.pieces_append_cons, List.map_append, List.filter_append]
  exact List.append_nil _

namespace FileTree

variable {tree : FileTree} {path name : String} {entries : List Entry}

/-- What is joined to a path is behind a `/`, which may have been there before. -/
theorem exists_joinComponent (path name : String) :
    ∃ front, joinComponent path name = front ++ "/" ++ name ∧
      (path = front ∨ path = front ++ "/") := by
  unfold joinComponent
  split
  · rename_i hslash
    obtain ⟨front, hpath⟩ := List.getLast?_eq_some_iff.1 (eq_of_beq hslash)
    have hsplit : path = String.ofList front ++ "/" := by
      rw [← String.toList_inj, hpath]
      simp
    exact ⟨String.ofList front, by rw [hsplit], .inr hsplit⟩
  · exact ⟨path, rfl, .inl rfl⟩

theorem components_joinComponent (hname : IsEntryName name) :
    components (joinComponent path name) = components path ++ [name] := by
  obtain ⟨front, hjoined, rfl | rfl⟩ := exists_joinComponent path name
  · rw [hjoined, components_append_name hname]
  · rw [hjoined, components_append_name hname, components_append_slash]

/-- A joined path starts where the path does. -/
theorem way_joinComponent (hne : path ≠ "") (hname : IsEntryName name) :
    tree.way (joinComponent path name) = tree.way path ++ [name] := by
  have habsolute : isAbsolute (joinComponent path name) = isAbsolute path := by
    obtain ⟨first, rest, hpath⟩ := List.exists_cons_of_ne_nil
      (fun hnil => hne (String.toList_eq_nil_iff.1 hnil) : path.toList ≠ [])
    unfold isAbsolute joinComponent
    split <;> simp [hpath]
  rw [way, way, habsolute, components_joinComponent hname]
  split
  · rfl
  · rw [List.append_assoc]

theorem endsAsDirectory_joinComponent (hname : IsEntryName name) :
    endsAsDirectory (joinComponent path name) = false := by
  obtain ⟨front, hjoined, -⟩ := exists_joinComponent path name
  have htext : (joinComponent path name).toList = front.toList ++ '/' :: name.toList := by
    simp [hjoined]
  have hempty : name.toList ≠ [] := fun hnil => hname.ne_empty (String.toList_eq_nil_iff.1 hnil)
  have hdot : name.toList ≠ ['.'] := fun hsame => hname.ne_dot (String.toList_inj.1 hsame)
  rw [endsAsDirectory, htext, Text.pieces_append_cons, Text.pieces_of_not_mem hname.not_slash,
    List.getLast?_concat]
  simp [hempty, hdot]

/-! ## Paths that are followed -/

/-- A component leads out of a directory, or to the entry of its name. -/
theorem descend?_cons (around : List (List Entry)) (entries : List Entry) (component : String)
    (rest : List String) :
    descend? around entries (component :: rest) =
      if component = ".." then descend? around.tail (around.head?.getD entries) rest
      else match entries.find? (·.name == component), rest with
        | some (.directory _ inner), rest => descend? (entries :: around) inner rest
        | some (.file _ content), [] => some (.file content)
        | _, _ => none := by
  rw [descend?.eq_def]
  cases around <;> rfl

/-- One component more leads to the entry of that name. -/
theorem descend?_concat {around : List (List Entry)} {inner : List Entry} {way : List String}
    (hway : descend? around entries way = some (.directory inner)) (hname : name ≠ "..") :
    descend? around entries (way ++ [name]) =
      (inner.find? (·.name == name)).map Entry.target := by
  fun_induction descend? around entries way with
  | case1 around entries =>
    obtain rfl := Target.directory.inj (Option.some.inj hway)
    rw [List.nil_append, descend?_cons, if_neg hname]
    cases entries.find? (·.name == name) with
    | none => rfl
    | some entry => cases entry <;> rfl
  | case2 entries rest ih =>
    rw [List.cons_append, descend?_cons, if_pos rfl]
    exact ih hway
  | case3 entries rest outer others ih =>
    rw [List.cons_append, descend?_cons, if_pos rfl]
    exact ih hway
  | case4 around entries component hcomponent found below rest hfound ih =>
    rw [List.cons_append, descend?_cons, if_neg hcomponent, hfound]
    exact ih hway
  | case5 => cases hway
  | case6 => cases hway

/-- The path of a directory is not empty, and its components lead there. -/
theorem descend?_of_directory? (hdirectory : tree.directory? path = some entries) :
    path ≠ "" ∧ descend? [] tree.top (tree.way path) = some (.directory entries) := by
  have htarget := directory?_eq_some_iff.1 hdirectory
  unfold target? at htarget
  split at htarget
  · cases htarget
  rename_i hempty
  refine ⟨fun hsame => hempty (hsame ▸ rfl), ?_⟩
  split at htarget
  · split at htarget <;> cases htarget
  · exact htarget

/-- **One step of a walk**: behind the path of a directory, a name leads to the entry of that
name. -/
theorem target?_joinComponent (hdirectory : tree.directory? path = some entries)
    (hname : IsEntryName name) :
    tree.target? (joinComponent path name) =
      (entries.find? (·.name == name)).map Entry.target := by
  obtain ⟨hne, hway⟩ := descend?_of_directory? hdirectory
  have hjoined : ¬ (joinComponent path name).isEmpty = true := by
    obtain ⟨front, hjoined, -⟩ := exists_joinComponent path name
    simp [hjoined]
  rw [target?, if_neg hjoined, way_joinComponent hne hname, descend?_concat hway hname.ne_dots,
    endsAsDirectory_joinComponent hname]
  cases entries.find? (·.name == name) with
  | none => rfl
  | some entry => cases entry <;> rfl

/-! ## Walks -/

/-- Directories below well-named ones are well named. -/
theorem wellNamed_of_descend? {around : List (List Entry)} {inner : List Entry}
    {way : List String} (haround : ∀ outer ∈ around, Entry.WellNamed outer)
    (hnamed : Entry.WellNamed entries)
    (hway : descend? around entries way = some (.directory inner)) : Entry.WellNamed inner := by
  fun_induction descend? around entries way with
  | case1 around entries =>
    obtain rfl := Target.directory.inj (Option.some.inj hway)
    exact hnamed
  | case2 entries rest ih => exact ih haround hnamed hway
  | case3 entries rest outer others ih =>
    obtain ⟨houter, hothers⟩ := List.forall_mem_cons.1 haround
    exact ih hothers houter hway
  | case4 around entries component hcomponent found below rest hfound ih =>
    have hinner : Entry.WellNamed below := by
      obtain ⟨-, -, hbelow⟩ := hnamed
      exact hbelow found below (List.mem_of_find?_eq_some hfound)
    exact ih (List.forall_mem_cons.2 ⟨hnamed, haround⟩) hinner hway
  | case5 => cases hway
  | case6 => cases hway

/-- The directories of a well-named tree are well named. -/
theorem wellNamed_of_directory? (hnamed : Entry.WellNamed tree.top)
    (hdirectory : tree.directory? path = some entries) : Entry.WellNamed entries :=
  wellNamed_of_descend? (List.forall_mem_nil _) hnamed (descend?_of_directory? hdirectory).2

/-- What a walk finds, it finds at one of the entries. -/
theorem mem_filesBelow_iff {file : String} :
    file ∈ filesBelow path entries ↔ ∃ entry ∈ entries, file ∈ filesOf path entry := by
  induction entries with
  | nil => simp [filesBelow]
  | cons entry rest ih => simp [filesBelow, ih]

/-- **What a walk finds is a file** under the name that the walk has spelled. -/
theorem exists_file_of_mem_filesBelow (hnamed : Entry.WellNamed entries)
    (hdirectory : tree.directory? path = some entries) {file : String}
    (hfile : file ∈ filesBelow path entries) :
    ∃ content, tree.target? file = some (.file content) := by
  -- the induction goes down the directories, with the paths that the walk has spelled for them
  induction hnamed generalizing path with
  | @intro entries hnames hdistinct hbelow ih =>
    obtain ⟨entry, hmem, hfile⟩ := mem_filesBelow_iff.1 hfile
    have hstep := target?_joinComponent hdirectory (hnames entry hmem)
    rw [find?_name_of_mem hdistinct hmem, Option.map_some] at hstep
    cases entry with
    | file name content =>
      rw [filesOf, List.mem_singleton] at hfile
      exact ⟨content, hfile ▸ hstep⟩
    | directory name inner =>
      have hbelow : tree.target? (joinComponent path name) = some (.directory inner) := hstep
      exact ih name inner hmem (directory?_eq_some_iff.2 hbelow) hfile

/-- **Sources are files.** Whatever paths are given, each of the sources that they stand for is a
file under its name, so that only its content can keep it from being read. -/
theorem exists_file_of_mem_sources (hnamed : Entry.WellNamed tree.top)
    {paths sources : List String} (hsources : tree.collectSources paths = .ok sources)
    {file : String} (hfile : file ∈ sources) :
    ∃ content, tree.target? file = some (.file content) ∧
      tree.text? file = String.fromUTF8? content := by
  have hopens : ∃ content, tree.target? file = some (.file content) := by
    obtain ⟨path, -, found, hfound, hfile⟩ := exists_path_of_mem_sources hsources hfile
    rcases sourcesAt?_eq_some_iff.1 hfound with ⟨content, htarget, rfl⟩ | ⟨entries, hentries, rfl⟩
    · exact ⟨content, List.mem_singleton.1 hfile ▸ htarget⟩
    · exact exists_file_of_mem_filesBelow (wellNamed_of_directory? hnamed hentries) hentries
        (List.mem_filter.1 hfile).1
  obtain ⟨content, htarget⟩ := hopens
  exact ⟨content, htarget, by rw [text?, htarget]⟩

end FileTree

end RubyIndex.Files
