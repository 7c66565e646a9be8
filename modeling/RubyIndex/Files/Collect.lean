import RubyIndex.Files.FileTree
import RubyIndex.Files.NameSet

/-! # Collecting files

The files that a list of paths stands for. A path to a directory stands for files below it. -/

namespace RubyIndex.Files

namespace FileTree

/-- The paths that a path stands for in a file set: all files below it if it is a directory, and
otherwise the path itself, whether it leads anywhere or not. -/
def expandPath (tree : FileTree) (path : String) : List String :=
  match tree.directory? path with
  | some entries => filesBelow path entries
  | none => [path]

/-- The file set of a list of paths. -/
def expand (tree : FileTree) (paths : List String) : NameSet :=
  .ofList (paths.flatMap tree.expandPath)

/-- The source files that a path stands for: the Ruby files below it if it is a directory, and
the path itself if it leads to a file. -/
def sourcesAt? (tree : FileTree) (path : String) : Option (List String) :=
  match tree.target? path with
  | none => none
  | some (.file _) => some [path]
  | some (.directory entries) => some ((filesBelow path entries).filter isRubyFile)

/-- A path stands for itself, or for Ruby files below it. -/
theorem sourcesAt?_eq_some_iff {tree : FileTree} {path : String} {sources : List String} :
    tree.sourcesAt? path = some sources ↔
      (∃ content, tree.target? path = some (.file content) ∧ sources = [path]) ∨
      ∃ entries, tree.directory? path = some entries ∧
        sources = (filesBelow path entries).filter isRubyFile := by
  simp only [directory?_eq_some_iff]
  unfold sourcesAt?
  cases tree.target? path with
  | none => simp
  | some target => cases target <;> simp [eq_comm]

/-- The source files of a list of paths, or the first path that leads nowhere. -/
def collectSources (tree : FileTree) : List String → Except String (List String)
  | [] => .ok []
  | path :: rest =>
      match tree.sourcesAt? path with
      | none => .error path
      | some sources => (tree.collectSources rest).map (sources ++ ·)

/-- A source is one of those that one of the paths stands for. -/
theorem exists_path_of_mem_sources {tree : FileTree} {paths sources : List String} {file : String}
    (hsources : tree.collectSources paths = .ok sources) (hfile : file ∈ sources) :
    ∃ path ∈ paths, ∃ found, tree.sourcesAt? path = some found ∧ file ∈ found := by
  induction paths generalizing sources with
  | nil =>
    obtain rfl := Except.ok.inj hsources
    cases hfile
  | cons path rest ih =>
    rw [collectSources] at hsources
    cases hfirst : tree.sourcesAt? path with
    | none =>
      rw [hfirst] at hsources
      cases hsources
    | some first =>
      rw [hfirst] at hsources
      cases hlater : tree.collectSources rest with
      | error missing =>
        rw [hlater] at hsources
        cases hsources
      | ok later =>
        rw [hlater] at hsources
        obtain rfl := Except.ok.inj hsources
        rcases List.mem_append.1 hfile with hmem | hmem
        · exact ⟨path, List.mem_cons_self, first, hfirst, hmem⟩
        · obtain ⟨other, hother, hfound⟩ := ih hlater hmem
          exact ⟨other, List.mem_cons_of_mem _ hother, hfound⟩

end FileTree

end RubyIndex.Files
