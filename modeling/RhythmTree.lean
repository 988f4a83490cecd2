import RhythmTree.Builder.Finding
import RhythmTree.Builder.Instruction
import RhythmTree.Builder.Journal
import RhythmTree.Builder.Parse
import RhythmTree.Builder.Run
import RhythmTree.Builder.State
import RhythmTree.CommandLine.Invocation
import RhythmTree.CommandLine.Run
import RhythmTree.Component
import RhythmTree.Decimal.Binary64
import RhythmTree.Decimal.Layout
import RhythmTree.Decimal.Power
import RhythmTree.Decimal.Reader
import RhythmTree.Decimal.Shortest
import RhythmTree.Decimal.Whole
import RhythmTree.Document.Basic
import RhythmTree.Document.Inline
import RhythmTree.Document.Json.Lexeme
import RhythmTree.Document.Json.Printer
import RhythmTree.Document.Json.Reader
import RhythmTree.Document.Key
import RhythmTree.Document.Moment
import RhythmTree.Document.Yaml.Assembly
import RhythmTree.Document.Yaml.Fault
import RhythmTree.Document.Yaml.Graph
import RhythmTree.Document.Yaml.Lexeme
import RhythmTree.Document.Yaml.Literal
import RhythmTree.Document.Yaml.Mark
import RhythmTree.Document.Yaml.Merge
import RhythmTree.Document.Yaml.Number
import RhythmTree.Document.Yaml.Plain
import RhythmTree.Document.Yaml.Quoted
import RhythmTree.Document.Yaml.Reader
import RhythmTree.Document.Yaml.Scalar
import RhythmTree.Document.Yaml.Source
import RhythmTree.Document.Yaml.Tag
import RhythmTree.Document.Yaml.Timestamp
import RhythmTree.Document.Yaml.Value
import RhythmTree.Duration.Basic
import RhythmTree.Duration.Bounded
import RhythmTree.Duration.Error
import RhythmTree.Duration.Operand
import RhythmTree.Duration.Reader
import RhythmTree.Files.FileTree
import RhythmTree.Files.Path
import RhythmTree.Forest
import RhythmTree.Instrument
import RhythmTree.Keyword
import RhythmTree.Library.Basic
import RhythmTree.Library.NamedStream
import RhythmTree.Library.Packaged
import RhythmTree.Main
import RhythmTree.Report
import RhythmTree.Rose
import RhythmTree.Schema.Checked
import RhythmTree.Schema.Component
import RhythmTree.Schema.Scalar
import RhythmTree.Schema.Token
import RhythmTree.Score
import RhythmTree.Service
import RhythmTree.Span
import RhythmTree.Stack
import RhythmTree.Table
import RhythmTree.Text.Base64
import RhythmTree.Text.Basic
import RhythmTree.Text.Blank
import RhythmTree.Text.Case
import RhythmTree.Text.Digit
import RhythmTree.Text.Numeral
import RhythmTree.Text.Printable
import RhythmTree.Text.Quoted
import RhythmTree.Text.Utf8
import RhythmTree.Token
import RhythmTree.Tree.Basic
import RhythmTree.Tree.Normalize
import RhythmTree.Proofs.Times
import RhythmTree.Proofs.Timeline
import RhythmTree.Proofs.Increment
import RhythmTree.Proofs.Voice
import RhythmTree.Proofs.Layout
import RhythmTree.Proofs.SingleVoice
import RhythmTree.Proofs.Outline
import RhythmTree.Proofs.Nesting
import RhythmTree.Proofs.Addresses
import RhythmTree.Proofs.Depth
import RhythmTree.Proofs.Shares
import RhythmTree.Proofs.Growth
import RhythmTree.Proofs.Containment
import RhythmTree.Proofs.Malformed
import RhythmTree.Proofs.Parts
import RhythmTree.Proofs.Forms
import RhythmTree.Proofs.Findings
import RhythmTree.Proofs.Bare
import RhythmTree.Proofs.Prefixes
import RhythmTree.Proofs.Layers
import RhythmTree.Proofs.Barline
import RhythmTree.Proofs.BoundedTexts
import RhythmTree.Proofs.OpenNodes
import RhythmTree.Proofs.Decoration
import RhythmTree.Proofs.Totals
import RhythmTree.Proofs.Conservation
import RhythmTree.Proofs.Declarations
import RhythmTree.Proofs.Performers
import RhythmTree.Proofs.Strictness
import RhythmTree.Proofs.Markings
import RhythmTree.Proofs.Contexts
import RhythmTree.Proofs.Events
import RhythmTree.Proofs.Attribution
import RhythmTree.Proofs.Payloads
import RhythmTree.Proofs.Outcomes
import RhythmTree.Proofs.FileTrees
import RhythmTree.Proofs.Listing
import RhythmTree.Proofs.Lookup
import RhythmTree.Proofs.Unreported
import RhythmTree.Proofs.OpenChain
import RhythmTree.Proofs.Numerals
import RhythmTree.Proofs.WrittenDurations
import RhythmTree.Proofs.Dumps
import RhythmTree.Proofs.Records
import RhythmTree.Proofs.Rounding
import RhythmTree.Proofs.ShortestDecimals
import RhythmTree.Proofs.WrittenNumbers
import RhythmTree.Proofs.WrittenTexts
import RhythmTree.Proofs.WrittenDocuments
import RhythmTree.Proofs.ReadBack
import RhythmTree.Proofs.Extents
import RhythmTree.Proofs.Sounding
import RhythmTree.Proofs.Summaries
import RhythmTree.Proofs.Sessions
import RhythmTree.Proofs.SpanQueries
import RhythmTree.Proofs.Decrement
import RhythmTree.Proofs.Drops
import RhythmTree.Proofs.Renormalization
import RhythmTree.Proofs.Homogeneity
import RhythmTree.Proofs.RationalTexts
import RhythmTree.Proofs.DurationTexts
import RhythmTree.Proofs.DurationPairs
import RhythmTree.Proofs.Covers
import RhythmTree.Proofs.Metadata
import RhythmTree.Proofs.Remnants
import RhythmTree.Proofs.Links
import RhythmTree.Proofs.Places
import RhythmTree.Proofs.Arithmetic
import RhythmTree.Proofs.Calculations
