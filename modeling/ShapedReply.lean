import ShapedReply.Catalog.Archive
import ShapedReply.Catalog.Basic
import ShapedReply.Catalog.Closure
import ShapedReply.Catalog.Declare
import ShapedReply.Check
import ShapedReply.Fit
import ShapedReply.JsonSchema.Basic
import ShapedReply.JsonSchema.Reader
import ShapedReply.JsonSchema.Writer
import ShapedReply.KeyStyle
import ShapedReply.Location
import ShapedReply.Loose.Bracket
import ShapedReply.Loose.Chunk
import ShapedReply.Loose.Completion
import ShapedReply.Loose.Fence
import ShapedReply.Loose.Mend
import ShapedReply.Loose.Recovery
import ShapedReply.Number.Double
import ShapedReply.Number.Literal
import ShapedReply.Number.Shortest
import ShapedReply.Prompt.Described
import ShapedReply.Prompt.Draft
import ShapedReply.Prompt.Expression
import ShapedReply.Prompt.Instruction
import ShapedReply.Prompt.Message
import ShapedReply.Prompt.Template
import ShapedReply.Proofs.Outcome
import ShapedReply.Proofs.Schema.Walk
import ShapedReply.Reply
import ShapedReply.Schema.Basic
import ShapedReply.Schema.ClassSource
import ShapedReply.Schema.ObjectDraft
import ShapedReply.Schema.Tagged
import ShapedReply.Settings
import ShapedReply.Table
import ShapedReply.Target.Basic
import ShapedReply.Target.Decode
import ShapedReply.Target.Document
import ShapedReply.Target.Restyle
import ShapedReply.Text.Blank
import ShapedReply.Text.Casing
import ShapedReply.Text.CharRange
import ShapedReply.Text.DecimalDigit
import ShapedReply.Text.Identifier
import ShapedReply.Text.Lines
import ShapedReply.Text.Printable
import ShapedReply.Text.Surrogate
import ShapedReply.Text.Word
import ShapedReply.Value.Basic
import ShapedReply.Value.Display
import ShapedReply.Value.Fold
import ShapedReply.Value.Reader
import ShapedReply.Value.Writer
import ShapedReply.Proofs.Schema.KindAgreement
import ShapedReply.Proofs.Loose.Scanning
import ShapedReply.Proofs.Reading.Number
import ShapedReply.Proofs.Spelling.Basic
import ShapedReply.Proofs.Reading.Text
import ShapedReply.Proofs.Reading.Tree
import ShapedReply.Proofs.Reading.WrittenNumber
import ShapedReply.Proofs.Spelling.Parsing
import ShapedReply.Proofs.Spelling.Alphabet
import ShapedReply.Proofs.Mending.Strings
import ShapedReply.Proofs.Mending.Stages
import ShapedReply.Proofs.Mending.Keys
import ShapedReply.Proofs.Text.Trim
import ShapedReply.Proofs.Mending.Relaxed
import ShapedReply.Proofs.Mending.Strict
import ShapedReply.Proofs.Completion.Outline
import ShapedReply.Proofs.Completion.Cut
import ShapedReply.Proofs.Completion.Beginnings
import ShapedReply.Proofs.Completion.Unreadable
import ShapedReply.Proofs.Completion.Tokens
import ShapedReply.Proofs.Completion.Closing
import ShapedReply.Proofs.Completion.Streaming
import ShapedReply.Proofs.Mending.Comments
import ShapedReply.Proofs.Mending.Order
import ShapedReply.Proofs.Completion.Whole
import ShapedReply.Proofs.JsonSchema.RoundTrip
import ShapedReply.Proofs.JsonSchema.Canonical
import ShapedReply.Proofs.JsonSchema.Meaning
import ShapedReply.Proofs.Catalog.Steps
import ShapedReply.Proofs.Catalog.Closure
import ShapedReply.Proofs.Schema.Scope
import ShapedReply.Proofs.Catalog.Exchange
import ShapedReply.Proofs.Schema.FitFailure
import ShapedReply.Proofs.Recovery.FixedPoints
import ShapedReply.Proofs.Recovery.Prose
import ShapedReply.Proofs.Recovery.Fenced
import ShapedReply.Proofs.Reply.Failures
import ShapedReply.Proofs.Table
import ShapedReply.Proofs.Schema.Acceptance
import ShapedReply.Proofs.Reply.Categories
import ShapedReply.Proofs.Catalog.Declarations
import ShapedReply.Proofs.Catalog.Growth
import ShapedReply.Proofs.Catalog.Refusals
import ShapedReply.Proofs.Schema.Conformance
import ShapedReply.Proofs.Schema.Unions
import ShapedReply.Proofs.Target.KeyWords
import ShapedReply.Proofs.Target.Renaming
import ShapedReply.Proofs.Target.Recasing
import ShapedReply.Proofs.Reading.WrittenString
import ShapedReply.Proofs.Prompt.ReadBack
import ShapedReply.Proofs.Recursion
import ShapedReply.Proofs.Schema.Descent
import ShapedReply.Proofs.Prompt.Layout
import ShapedReply.Proofs.Catalog.Cycles
import ShapedReply.Proofs.Schema.Skeleton
import ShapedReply.Proofs.Schema.Idempotence
import ShapedReply.Proofs.Schema.Reports
import ShapedReply.Proofs.Catalog.References
import ShapedReply.Proofs.Catalog.Registration
import ShapedReply.Proofs.Reading.WrittenValue
import ShapedReply.Proofs.Prompt.Placement
import ShapedReply.Proofs.Target.Precedence
import ShapedReply.Proofs.Mending.Uncommented
import ShapedReply.Proofs.Catalog.Nullability
import ShapedReply.Proofs.Prompt.Descriptions
import ShapedReply.Proofs.Number.DecimalText
import ShapedReply.Proofs.Loose.Chunks
import ShapedReply.Proofs.Mending.BareKeys
import ShapedReply.Proofs.Mending.Boundaries
import ShapedReply.Proofs.Target.KeyStyles
