import RubyIndex.Build.DocumentBuild
import RubyIndex.Build.GemIndexes
import RubyIndex.Graph.Codec
import RubyIndex.Syntax.Derivative
import RubyIndex.Proofs.Syntax.Lossless
import RubyIndex.Proofs.Syntax.Recursion
import RubyIndex.Proofs.Syntax.Tiling
import RubyIndex.Proofs.Indexing.Agreement
import RubyIndex.Proofs.Indexing.Built
import RubyIndex.Proofs.Indexing.Revisions
import RubyIndex.Proofs.Build.Documents
import RubyIndex.Proofs.Graph.Symbols
import RubyIndex.Proofs.Indexing.Variants
import RubyIndex.Proofs.Indexing.Repetition
import RubyIndex.Proofs.Indexing.Order
import RubyIndex.Proofs.Syntax.Progress
import RubyIndex.Proofs.Syntax.Completeness
import RubyIndex.Proofs.Syntax.LineBreaks
import RubyIndex.Proofs.Syntax.Locality
import RubyIndex.Proofs.Syntax.Concatenation
import RubyIndex.Proofs.Registry.Merging
import RubyIndex.Proofs.Document.Lines
import RubyIndex.Proofs.Syntax.Derivations
import RubyIndex.Proofs.Indexing.Scopes
import RubyIndex.Proofs.Document.Projection
import RubyIndex.Proofs.Markup.Decoding
import RubyIndex.Proofs.Registry.Permanence
import RubyIndex.Proofs.Files.Walks
import RubyIndex.Proofs.Build.GemIndexes
import RubyIndex.Proofs.Graph.LocalVariables
import RubyIndex.Proofs.Graph.DisplayPaths
import RubyIndex.Proofs.Syntax.ChildNodes
import RubyIndex.Proofs.Indexing.WrappedDefinitions
import RubyIndex.Proofs.Syntax.Openings
import RubyIndex.Proofs.Syntax.DocComments
import RubyIndex.Proofs.Syntax.Values
import RubyIndex.Proofs.Syntax.Calls
import RubyIndex.Proofs.Syntax.GreedyTokens
import RubyIndex.Proofs.Indexing.TrailingComments
import RubyIndex.Proofs.Syntax.ErrorPlaces
import RubyIndex.Proofs.Registry.Atomicity
import RubyIndex.Proofs.Registry.Resolution
import RubyIndex.Proofs.Graph.Conversion
import RubyIndex.Proofs.Graph.NormalForms
import RubyIndex.Proofs.Build.Outcomes
import RubyIndex.Proofs.Registry.HandedOutNames
import RubyIndex.Proofs.Markup.UnclosedCode
