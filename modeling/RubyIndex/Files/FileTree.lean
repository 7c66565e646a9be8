import RubyIndex.Files.Name

/-! # File trees

The files and directories below a top directory, one of which is the current directory. Absolute
paths start from the top, all others from the current directory. The files below a directory are
listed in the order of their names, those of a subdirectory in its place. -/

namespace RubyIndex.Files

/-- A file or a directory with its name. -/
inductive Entry where
  | file (name : String) (content : ByteArray)
  | directory (name : String) (entries : List Entry)

/-- The files of a system, and the directory that paths start from unless they are absolute. -/
structure FileTree where
  /-- What the top directory holds, in the order of names. -/
  top : List Entry
  /-- The names of the directories that lead from the top to the current directory. -/
  current : List String := []

/-- What a path leads to. -/
inductive Target where
  | file (content : ByteArray)
  | directory (entries : List Entry)

namespace Entry

/-- The name of an entry. -/
def name : Entry → String
  | .file name _ => name
  | .directory name _ => name

/-- What an entry leads to. -/
def target : Entry → Target
  | .file _ content => .file content
  | .directory _ entries => .directory entries

end Entry

namespace FileTree

/-- The empty list stands for a system without files. -/
instance {α : Type} : CoeDep (List α) [] FileTree := ⟨{ top := [] }⟩

/-! ## Reading -/

/-- Whether a path starts from the top directory. -/
def isAbsolute (path : String) : Bool := path.toList.head? == some '/'

/-- The components that lead from the top directory to what a path names. -/
def way (tree : FileTree) (path : String) : List String :=
  if isAbsolute path then components path else tree.current ++ components path

/-- What the components of a path lead to from a directory inside others, of which the nearest
comes first. `..` leads to the nearest one, and from the top directory to itself. -/
def descend? (around : List (List Entry)) (entries : List Entry) : List String → Option Target
  | [] => some (.directory entries)
  | component :: rest =>
      if component = ".." then
        match around with
        | [] => descend? [] entries rest
        | outer :: others => descend? others outer rest
      else
        match entries.find? (·.name == component), rest with
        | some (.directory _ inner), rest => descend? (entries :: around) inner rest
        | some (.file _ content), [] => some (.file content)
        | _, _ => none

/-- Whether a path can only lead to a directory, because it ends in `/` or `/.`. -/
def endsAsDirectory (path : String) : Bool :=
  match (Text.pieces '/' path.toList).getLast? with
  | some last => last == [] || last == ['.']
  | none => false

/-- What a path leads to. The empty path leads nowhere. -/
def target? (tree : FileTree) (path : String) : Option Target :=
  if path.isEmpty then none
  else
    match descend? [] tree.top (tree.way path) with
    | some (.file content) => if endsAsDirectory path then none else some (.file content)
    | found => found

/-- Whether a path leads to a file or directory. -/
def contains (tree : FileTree) (path : String) : Bool := (tree.target? path).isSome

/-- The entries of the directory at a path. -/
def directory? (tree : FileTree) (path : String) : Option (List Entry) :=
  match tree.target? path with
  | some (.directory entries) => some entries
  | _ => none

theorem directory?_eq_some_iff {tree : FileTree} {path : String} {entries : List Entry} :
    tree.directory? path = some entries ↔ tree.target? path = some (.directory entries) := by
  unfold directory?
  split
  · rename_i found htarget
    rw [htarget, Option.some.injEq, Option.some.injEq, Target.directory.injEq]
  · rename_i hother
    exact ⟨nofun, fun htarget => absurd htarget (hother entries)⟩

/-- The text of the file at a path, if it is a file that holds UTF-8. -/
def text? (tree : FileTree) (path : String) : Option String :=
  match tree.target? path with
  | some (.file content) => String.fromUTF8? content
  | _ => none

/-! ## Listing -/

/-- A path with one more component. -/
def joinComponent (path component : String) : String :=
  if path.toList.getLast? == some '/' then path ++ component else path ++ "/" ++ component

mutual

/-- The paths of the files below some entries of the directory at a path. -/
def filesBelow (path : String) : List Entry → List String
  | [] => []
  | entry :: rest => filesOf path entry ++ filesBelow path rest

/-- The paths of the files of an entry of the directory at a path. -/
def filesOf (path : String) : Entry → List String
  | .file name _ => [joinComponent path name]
  | .directory name entries => filesBelow (joinComponent path name) entries

end

/-! ## Writing -/

/-- The entries with an entry in place of the one of its name, or at its place in the order. -/
def insertEntry (entry : Entry) : List Entry → List Entry
  | [] => [entry]
  | first :: rest =>
      if entry.name = first.name then entry :: rest
      else if entry.name < first.name then entry :: first :: rest
      else first :: insertEntry entry rest

/-- The entries of the directory of a name; there are none if there is no such directory. -/
def entriesOf (entries : List Entry) (name : String) : List Entry :=
  match entries.find? (·.name == name) with
  | some (.directory _ inner) => inner
  | _ => []

/-- The entries with a file at the end of the given components. -/
def writeBelow (content : ByteArray) (entries : List Entry) : List String → List Entry
  | [] => entries
  | [name] => insertEntry (.file name content) entries
  | name :: rest =>
      insertEntry (.directory name (writeBelow content (entriesOf entries name) rest)) entries

/-- The tree with a file at a path without `..`, and the directories that lead to it. -/
def writeFile (tree : FileTree) (path : String) (content : ByteArray) : FileTree :=
  { tree with top := writeBelow content tree.top (tree.way path) }

/-- The entries with the directories that the given components name. -/
def makeBelow (entries : List Entry) : List String → List Entry
  | [] => entries
  | name :: rest => insertEntry (.directory name (makeBelow (entriesOf entries name) rest)) entries

/-- The tree with the directories that a path without `..` names. -/
def makeDirectory (tree : FileTree) (path : String) : FileTree :=
  { tree with top := makeBelow tree.top (tree.way path) }

end FileTree

end RubyIndex.Files
