import RubyIndex.Text.Search

/-! # File names

What the spelling of a file name tells about the file. -/

namespace RubyIndex.Files

/-- Whether a file name is one that tests or specs have by convention. -/
def isTestFile (name : String) : Bool :=
  ["_test.rb", "_spec.rb", "test/", "spec/"].any fun mark =>
    Text.occursIn mark.toList name.toList

/-- The components of a path; empty ones and `.` do not count. -/
def components (path : String) : List String :=
  ((Text.pieces '/' path.toList).map String.ofList).filter fun component =>
    component != "" && component != "."

/-- The name of the file or directory that a path ends in. -/
def lastName? (path : String) : Option String :=
  (components path).getLast?.filter (· != "..")

/-- What follows the last dot of a file name, unless that dot comes first. -/
def extension? (name : String) : Option String :=
  match (Text.pieces '.' name.toList).reverse with
  | [] | [_] => none
  | [_, []] => none
  | extension :: _ => some (String.ofList extension)

/-- Whether a path ends in a Ruby file name. -/
def isRubyFile (path : String) : Bool := (lastName? path).bind extension? == some "rb"

end RubyIndex.Files
