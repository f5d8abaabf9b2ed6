import DocTools.Main
import DocTools.Proofs.Command.MirroredPages
import DocTools.Proofs.FilePattern.Literal
import DocTools.Proofs.FilePattern.Spelling
import DocTools.Proofs.FilePattern.Walk
import DocTools.Proofs.FileTree.Growth
import DocTools.Proofs.FileTree.Reading
import DocTools.Proofs.Json.ReadBack
import DocTools.Proofs.Path.Names
import DocTools.Proofs.Reference.FileNames
import DocTools.Proofs.Reference.Home
import DocTools.Proofs.Reference.Kept
import DocTools.Proofs.Reference.Provenance
import DocTools.Proofs.Reference.Passes
import DocTools.Proofs.Snippet.Accounts
import DocTools.Proofs.Snippet.Blocks
import DocTools.Proofs.Snippet.Dedent
import DocTools.Proofs.Snippet.Marker
import DocTools.Proofs.Snippet.Placed
import DocTools.Proofs.Snippet.Placeholder
import DocTools.Proofs.Snippet.Replaced
import DocTools.Proofs.Snippet.Saved
import DocTools.Proofs.Snippet.Shown
import DocTools.Proofs.Snippet.Stored
import DocTools.Proofs.Text.Lines
import DocTools.Proofs.Text.Trim
import DocTools.Proofs.Xml.Address
import DocTools.Proofs.Snippet.PlaceholderGrammar
import DocTools.Proofs.Snippet.Requests
import DocTools.Proofs.Reference.PublicView
import DocTools.Proofs.Xml.Change
import DocTools.Proofs.FilePattern.Listed
import DocTools.Proofs.Reference.HiddenMethods
import DocTools.Proofs.Snippet.Beside
import DocTools.Proofs.Snippet.Untouched
import DocTools.Proofs.Reference.Merging
import DocTools.Proofs.Reference.Splitting
import DocTools.Proofs.FilePattern.Ways
import DocTools.Proofs.FilePattern.Once
import DocTools.Proofs.Snippet.Scanned
import DocTools.Proofs.FilePattern.ByExtension
import DocTools.Proofs.Snippet.FileOrder
import DocTools.Proofs.Reference.WellFormed
import DocTools.Proofs.Reference.FrontMatter
import DocTools.Proofs.FilePattern.Arrival
import DocTools.Proofs.Reference.Surveyed
import DocTools.Proofs.Snippet.LineByLine
import DocTools.Proofs.Path.Steps
import DocTools.Proofs.FileTree.Passage
import DocTools.Proofs.FileTree.Writable
import DocTools.Proofs.FilePattern.WellFormed
import DocTools.Proofs.Command.ExtractReport
import DocTools.Proofs.Snippet.Turns
import DocTools.Proofs.Snippet.Amid
import DocTools.Proofs.Snippet.Rounds
import DocTools.Proofs.Command.InjectReport
import DocTools.Proofs.Reference.Attempts
import DocTools.Proofs.Command.ReferenceReport
import DocTools.Proofs.Target.Chosen
import DocTools.Proofs.Target.Answered
import DocTools.Proofs.Snippet.Fences
import DocTools.Proofs.Reference.ParameterTable
import DocTools.Proofs.Snippet.Layout
import DocTools.Proofs.Snippet.NormalForm
import DocTools.Proofs.Snippet.Wrapped
import DocTools.Proofs.Snippet.Finished
import DocTools.Proofs.Snippet.Extended
import DocTools.Proofs.Snippet.FenceAttributes
import DocTools.Proofs.Reference.Isolated
import DocTools.Proofs.Reference.Described
import DocTools.Proofs.Snippet.Unindented
