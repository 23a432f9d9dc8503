import Marginalia.Codec.Note
import Marginalia.Codec.Outline
import Marginalia.Codec.Report
import Marginalia.Codec.Settings
import Marginalia.Command.Request
import Marginalia.Command.Run
import Marginalia.Comment.Delimiters
import Marginalia.Comment.Gutter
import Marginalia.Comment.Scan
import Marginalia.Data.Json
import Marginalia.Data.Sorted
import Marginalia.Data.Value
import Marginalia.Dialect
import Marginalia.Dialect.Builtin
import Marginalia.Failure
import Marginalia.Finding
import Marginalia.Gather
import Marginalia.Glob
import Marginalia.Glob.Parse
import Marginalia.Link
import Marginalia.Listing.Occurrences
import Marginalia.Listing.Outline
import Marginalia.Listing.Report
import Marginalia.Listing.Sheet
import Marginalia.Main
import Marginalia.Note
import Marginalia.Note.Attributes
import Marginalia.Note.Prose
import Marginalia.Note.Read
import Marginalia.Outline
import Marginalia.Outline.Build
import Marginalia.Outline.Merge
import Marginalia.Outline.Query
import Marginalia.Output
import Marginalia.Pattern
import Marginalia.Pattern.Parse
import Marginalia.Position
import Marginalia.Report
import Marginalia.Selection
import Marginalia.Settings
import Marginalia.Sheet
import Marginalia.SourcePath
import Marginalia.Styled
import Marginalia.Survey
import Marginalia.Text.Blank
import Marginalia.Text.CaseFold
import Marginalia.Text.Cut
import Marginalia.Text.Word
import Marginalia.Toml.Document
import Marginalia.Toml.Literal
import Marginalia.Topic
import Marginalia.Workspace
import Marginalia.Proofs.Data.Arranged
import Marginalia.Proofs.Data.Lookup
import Marginalia.Proofs.Outline.Growth
import Marginalia.Proofs.Note
import Marginalia.Proofs.Outline.History
import Marginalia.Proofs.Outline.OrderIndependence
import Marginalia.Proofs.Outline.Nicknames
import Marginalia.Proofs.Text.Blank
import Marginalia.Proofs.Outline.Accounting
import Marginalia.Proofs.Comment.Automaton
import Marginalia.Proofs.Comment.Refinement
import Marginalia.Proofs.Survey
import Marginalia.Proofs.Outline.Shape
import Marginalia.Proofs.Outline.Content
import Marginalia.Proofs.Finding
import Marginalia.Proofs.Outline.Binding
import Marginalia.Proofs.Note.Attributes
import Marginalia.Proofs.Note.Prose
import Marginalia.Proofs.Note.Written
import Marginalia.Proofs.Note.Dedent
import Marginalia.Proofs.Note.WellFormed
import Marginalia.Proofs.Note.Links
import Marginalia.Proofs.Note.Indentation
import Marginalia.Proofs.Survey.Isolation
import Marginalia.Proofs.Comment.Slices
import Marginalia.Proofs.Outline.Normal
import Marginalia.Proofs.Data.Value
import Marginalia.Proofs.Codec.RoundTrip
import Marginalia.Proofs.Codec.Built
import Marginalia.Proofs.Outline.Traversal
import Marginalia.Proofs.Outline.Resolution
import Marginalia.Proofs.Comment.Code
import Marginalia.Proofs.Comment.Before
import Marginalia.Proofs.Comment.Following
import Marginalia.Proofs.Outline.References
import Marginalia.Proofs.Outline.Conflicts
import Marginalia.Proofs.Outline.Occurrences
import Marginalia.Proofs.Note.Grammar
import Marginalia.Proofs.Link.Parts
import Marginalia.Proofs.Link.OnePass
import Marginalia.Proofs.Dialect
import Marginalia.Proofs.Comment.Markers
import Marginalia.Proofs.Comment.Decoration
import Marginalia.Proofs.Topic.Text
import Marginalia.Proofs.Styled
import Marginalia.Proofs.Output
