import CodeProse.Cache.Basic
import CodeProse.Cache.Exchange
import CodeProse.CommandLine.Execution
import CodeProse.CommandLine.Grammar
import CodeProse.CommandLine.Invocation
import CodeProse.CommandLine.Reading
import CodeProse.CommandLine.Report
import CodeProse.Correction.Basic
import CodeProse.Correction.Options
import CodeProse.Correction.Plan
import CodeProse.Correction.Prompt
import CodeProse.Correction.Replacement
import CodeProse.Digest.Sha256
import CodeProse.Document.Basic
import CodeProse.Document.Coordinates
import CodeProse.Document.Edit
import CodeProse.Document.Position
import CodeProse.Document.Stored
import CodeProse.Failure
import CodeProse.Files.Encoding
import CodeProse.Files.Path
import CodeProse.Files.TextFile
import CodeProse.Files.Tree
import CodeProse.Json.Basic
import CodeProse.Json.Display
import CodeProse.Json.Reader
import CodeProse.Json.Writer
import CodeProse.Language.Classification
import CodeProse.Language.Definition
import CodeProse.Language.Detection
import CodeProse.Language.FileName
import CodeProse.Language.Pattern
import CodeProse.Language.Quotation
import CodeProse.Language.Registry
import CodeProse.Log
import CodeProse.Main
import CodeProse.Numeric.Binary64
import CodeProse.Numeric.Decimal
import CodeProse.Numeric.Number
import CodeProse.Numeric.Reading
import CodeProse.Proofs.Cache.Acceptance
import CodeProse.Proofs.Cache.Calls
import CodeProse.Proofs.Cache.Counts
import CodeProse.Proofs.Cache.Digests
import CodeProse.Proofs.Cache.Entries
import CodeProse.Proofs.Cache.Eviction
import CodeProse.Proofs.Cache.Exchange
import CodeProse.Proofs.Cache.Expiry
import CodeProse.Proofs.Cache.Failures
import CodeProse.Proofs.Cache.History
import CodeProse.Proofs.Cache.Ranking
import CodeProse.Proofs.Cache.Trimming
import CodeProse.Proofs.Correction.Blocks
import CodeProse.Proofs.Correction.LineCounts
import CodeProse.Proofs.Correction.Options
import CodeProse.Proofs.Correction.Plan
import CodeProse.Proofs.Correction.Prompt
import CodeProse.Proofs.Correction.Replacement
import CodeProse.Proofs.Correction.Sweep
import CodeProse.Proofs.Document.BackToFront
import CodeProse.Proofs.Document.Batch
import CodeProse.Proofs.Document.Clamping
import CodeProse.Proofs.Document.Coordinates
import CodeProse.Proofs.Document.Edit
import CodeProse.Proofs.Document.Extent
import CodeProse.Proofs.Document.FailedSaves
import CodeProse.Proofs.Document.InverseEdits
import CodeProse.Proofs.Document.Position
import CodeProse.Proofs.Document.Restoring
import CodeProse.Proofs.Document.Saving
import CodeProse.Proofs.Files.Tree
import CodeProse.Proofs.Json.Faults
import CodeProse.Proofs.Json.Reader
import CodeProse.Proofs.Json.Values
import CodeProse.Proofs.Language.Classification
import CodeProse.Proofs.Language.Detection
import CodeProse.Proofs.Language.Quotation
import CodeProse.Proofs.Language.QuotedRegions
import CodeProse.Proofs.Language.Registration
import CodeProse.Proofs.Numeric.Binary64
import CodeProse.Proofs.Numeric.Digits
import CodeProse.Proofs.Numeric.Doubling
import CodeProse.Proofs.Numeric.Limit
import CodeProse.Proofs.Prose.Blocks
import CodeProse.Proofs.Prose.Cleaning
import CodeProse.Proofs.Prose.Closers
import CodeProse.Proofs.Prose.EmptyBlocks
import CodeProse.Proofs.Prose.Extraction
import CodeProse.Proofs.Prose.Leak
import CodeProse.Proofs.Prose.Listing
import CodeProse.Proofs.Prose.Order
import CodeProse.Proofs.Prose.Places
import CodeProse.Proofs.Prose.Scan
import CodeProse.Proofs.Prose.Selection
import CodeProse.Proofs.Prose.Sources
import CodeProse.Proofs.Prose.Stretch
import CodeProse.Proofs.Prose.Strings
import CodeProse.Proofs.Run.Accounts
import CodeProse.Proofs.Run.Apply
import CodeProse.Proofs.Run.ApplyAll
import CodeProse.Proofs.Run.Calls
import CodeProse.Proofs.Run.Cancellation
import CodeProse.Proofs.Run.Chunk
import CodeProse.Proofs.Run.Comments
import CodeProse.Proofs.Run.ConfiguredLimits
import CodeProse.Proofs.Run.Continuation
import CodeProse.Proofs.Run.Correct
import CodeProse.Proofs.Run.Detailed
import CodeProse.Proofs.Run.Echo
import CodeProse.Proofs.Run.Expectation
import CodeProse.Proofs.Run.KeptProse
import CodeProse.Proofs.Run.Limits
import CodeProse.Proofs.Run.Preview
import CodeProse.Proofs.Run.Records
import CodeProse.Proofs.Run.Reference
import CodeProse.Proofs.Run.Repetition
import CodeProse.Proofs.Run.Selection
import CodeProse.Proofs.Run.Single
import CodeProse.Proofs.Run.Undo
import CodeProse.Proofs.Run.Unwrapping
import CodeProse.Proofs.Sequence
import CodeProse.Proofs.Service.Attempts
import CodeProse.Proofs.Service.Batch
import CodeProse.Proofs.Service.Continuation
import CodeProse.Proofs.Service.Courses
import CodeProse.Proofs.Service.Detailed
import CodeProse.Proofs.Service.Exchanges
import CodeProse.Proofs.Service.Flights
import CodeProse.Proofs.Service.Models
import CodeProse.Proofs.Service.Settling
import CodeProse.Proofs.Service.Sharing
import CodeProse.Proofs.Service.Turns
import CodeProse.Proofs.Settings.Fields
import CodeProse.Proofs.Settings.Values
import CodeProse.Proofs.Text.Blank
import CodeProse.Proofs.Text.Encoding
import CodeProse.Proofs.Text.LineEnds
import CodeProse.Proofs.Text.Lines
import CodeProse.Proofs.Text.Occurrence
import CodeProse.Proofs.Text.Rows
import CodeProse.Proofs.Text.Search
import CodeProse.Proofs.Text.Surrogates
import CodeProse.Prose.Cleaning
import CodeProse.Prose.Confidence
import CodeProse.Prose.Extraction
import CodeProse.Prose.Filter
import CodeProse.Prose.Fragment
import CodeProse.Prose.Scan
import CodeProse.Prose.Span
import CodeProse.Run.Apply
import CodeProse.Run.Basic
import CodeProse.Run.Chunk
import CodeProse.Run.Correct
import CodeProse.Sequence
import CodeProse.Service.Client
import CodeProse.Service.Detailed
import CodeProse.Service.Endpoint
import CodeProse.Service.Flight
import CodeProse.Service.Retry
import CodeProse.Service.Session
import CodeProse.Settings.Basic
import CodeProse.Settings.Load
import CodeProse.Settings.Reading
import CodeProse.Text.Base64
import CodeProse.Text.Basic
import CodeProse.Text.Blank
import CodeProse.Text.CaseFolding
import CodeProse.Text.CharacterClass
import CodeProse.Text.CodePoint
import CodeProse.Text.Encoding
import CodeProse.Text.Quoted
import CodeProse.Web.Answer
import CodeProse.Web.Payload
import CodeProse.Web.Route
import CodeProse.Web.Service
import CodeProse.Yaml.Content
import CodeProse.Yaml.Cursor
import CodeProse.Yaml.Graph
import CodeProse.Yaml.Merge
import CodeProse.Yaml.Node
import CodeProse.Yaml.Resolution
import CodeProse.Yaml.Scalar
import CodeProse.Yaml.Token
import CodeProse.Yaml.Value
