import ForcingData.CommandLine.Arguments
import ForcingData.CommandLine.Invocation
import ForcingData.CommandLine.Places
import ForcingData.CommandLine.Run
import ForcingData.Compliance.Checker
import ForcingData.Compliance.Report
import ForcingData.Content
import ForcingData.Database.Basic
import ForcingData.Database.Check
import ForcingData.Database.Creation
import ForcingData.Database.Entry
import ForcingData.Dataset.Basic
import ForcingData.Dataset.Consistency
import ForcingData.Dataset.Frequency
import ForcingData.Dataset.Header
import ForcingData.Dataset.Loader
import ForcingData.Dataset.Overview
import ForcingData.Decimal.Positional
import ForcingData.Decimal.Reading
import ForcingData.Decimal.Shortest
import ForcingData.Dict
import ForcingData.Drs.Basic
import ForcingData.Drs.Pattern
import ForcingData.Drs.Render
import ForcingData.Drs.Template
import ForcingData.FileTree.Basic
import ForcingData.FileTree.Disk
import ForcingData.FileTree.Find
import ForcingData.FileTree.Layout
import ForcingData.FileTree.Work
import ForcingData.Finding
import ForcingData.Glob
import ForcingData.Hash.Sha256
import ForcingData.Json.Basic
import ForcingData.Json.Decode
import ForcingData.Json.Encode
import ForcingData.Json.Number
import ForcingData.Json.Parser
import ForcingData.Json.Printer
import ForcingData.Main
import ForcingData.Metadata.Attributes
import ForcingData.Metadata.Basic
import ForcingData.Metadata.Inference
import ForcingData.Metadata.KnownVariables
import ForcingData.Metadata.Placement
import ForcingData.Metadata.Rule
import ForcingData.Outcome
import ForcingData.Path
import ForcingData.Pool.Basic
import ForcingData.Proofs.CommandLine.Creating
import ForcingData.Proofs.Compliance.Counts
import ForcingData.Proofs.Compliance.Lines
import ForcingData.Proofs.Compliance.Streams
import ForcingData.Proofs.Database.Agreement
import ForcingData.Proofs.Database.Chain
import ForcingData.Proofs.Database.Commute
import ForcingData.Proofs.Database.Completing
import ForcingData.Proofs.Database.Confluence
import ForcingData.Proofs.Database.Convergence
import ForcingData.Proofs.Database.Interrupted
import ForcingData.Proofs.Database.Map
import ForcingData.Proofs.Database.Passed
import ForcingData.Proofs.Database.Readers
import ForcingData.Proofs.Database.Rechecking
import ForcingData.Proofs.Database.Record
import ForcingData.Proofs.Database.Revisions
import ForcingData.Proofs.Database.Spellings
import ForcingData.Proofs.Database.Store
import ForcingData.Proofs.Database.Writing
import ForcingData.Proofs.Dataset.Consistency
import ForcingData.Proofs.Dataset.Copying
import ForcingData.Proofs.Dataset.Frequency
import ForcingData.Proofs.Dataset.TimeRange
import ForcingData.Proofs.Dict
import ForcingData.Proofs.Drs.Building
import ForcingData.Proofs.Drs.Characters
import ForcingData.Proofs.Drs.Ending
import ForcingData.Proofs.Drs.FileName
import ForcingData.Proofs.Drs.Filling
import ForcingData.Proofs.Drs.Grammar
import ForcingData.Proofs.Drs.Language
import ForcingData.Proofs.Drs.MasterId
import ForcingData.Proofs.Drs.NameInPath
import ForcingData.Proofs.Drs.Reading
import ForcingData.Proofs.Drs.Rebuilding
import ForcingData.Proofs.Drs.RoundTrip
import ForcingData.Proofs.Drs.Separated
import ForcingData.Proofs.Drs.Spelling
import ForcingData.Proofs.Drs.Template
import ForcingData.Proofs.FileTree.Beside
import ForcingData.Proofs.FileTree.Confined
import ForcingData.Proofs.FileTree.DeadEnd
import ForcingData.Proofs.FileTree.Disk
import ForcingData.Proofs.FileTree.Find
import ForcingData.Proofs.FileTree.Growth
import ForcingData.Proofs.FileTree.Inside
import ForcingData.Proofs.FileTree.Interrupted
import ForcingData.Proofs.FileTree.Made
import ForcingData.Proofs.FileTree.Named
import ForcingData.Proofs.FileTree.Replace
import ForcingData.Proofs.FileTree.Rooted
import ForcingData.Proofs.FileTree.Search
import ForcingData.Proofs.FileTree.Walk
import ForcingData.Proofs.FileTree.Work
import ForcingData.Proofs.Glob
import ForcingData.Proofs.Hash.Digest
import ForcingData.Proofs.Json.Control
import ForcingData.Proofs.Json.Decode
import ForcingData.Proofs.Json.Number
import ForcingData.Proofs.Json.RoundTrip
import ForcingData.Proofs.Json.Text
import ForcingData.Proofs.Metadata.CreationDate
import ForcingData.Proofs.Metadata.Evolving
import ForcingData.Proofs.Metadata.Gates
import ForcingData.Proofs.Metadata.Growth
import ForcingData.Proofs.Metadata.Inferred
import ForcingData.Proofs.Metadata.Joining
import ForcingData.Proofs.Metadata.OwnName
import ForcingData.Proofs.Metadata.Priority
import ForcingData.Proofs.Metadata.Ranking
import ForcingData.Proofs.Metadata.Reached
import ForcingData.Proofs.Metadata.Sources
import ForcingData.Proofs.Metadata.Stamp
import ForcingData.Proofs.Metadata.Steps
import ForcingData.Proofs.Metadata.TrackingId
import ForcingData.Proofs.Path
import ForcingData.Proofs.Pool.Collect
import ForcingData.Proofs.Pool.Delivery
import ForcingData.Proofs.Pool.Trace
import ForcingData.Proofs.Results
import ForcingData.Proofs.Runs
import ForcingData.Proofs.Sharing
import ForcingData.Proofs.Text.Blank
import ForcingData.Proofs.Text.Digit
import ForcingData.Proofs.Text.Expression
import ForcingData.Proofs.Time.Calendar
import ForcingData.Proofs.Time.Instant
import ForcingData.Proofs.Time.Order
import ForcingData.Proofs.Time.Reading
import ForcingData.Proofs.Tree.Report
import ForcingData.Proofs.Uniqueness
import ForcingData.Proofs.Url.Address
import ForcingData.Proofs.Url.Authority
import ForcingData.Proofs.Url.Directory
import ForcingData.Proofs.Url.Domain
import ForcingData.Proofs.Url.Host
import ForcingData.Proofs.Url.Percent
import ForcingData.Proofs.Url.Punycode
import ForcingData.Proofs.Url.RoundTrip
import ForcingData.Proofs.Validation.Arrival
import ForcingData.Proofs.Validation.Placed
import ForcingData.Proofs.Validation.Placing
import ForcingData.Proofs.Validation.Tree
import ForcingData.Proofs.Validation.TreeRuns
import ForcingData.Proofs.Vocabulary.Cache
import ForcingData.Proofs.Vocabulary.Cross
import ForcingData.Proofs.Vocabulary.Fingerprint
import ForcingData.Proofs.Vocabulary.Loading
import ForcingData.Proofs.Vocabulary.Offline
import ForcingData.Proofs.Vocabulary.Reference
import ForcingData.Proofs.Vocabulary.SelfCheck
import ForcingData.Settings.Basic
import ForcingData.Settings.Source
import ForcingData.Text.Affix
import ForcingData.Text.Blank
import ForcingData.Text.Digit
import ForcingData.Text.Lowercase
import ForcingData.Text.Notation
import ForcingData.Text.Printable
import ForcingData.Text.Quoted
import ForcingData.Time.Date
import ForcingData.Time.Instant
import ForcingData.Time.Parser
import ForcingData.Toml.Basic
import ForcingData.Toml.Moment
import ForcingData.Tree.Report
import ForcingData.Url.Basic
import ForcingData.Url.Host
import ForcingData.Url.Percent
import ForcingData.Url.Punycode
import ForcingData.Validation.File
import ForcingData.Validation.Placing
import ForcingData.Validation.Tree
import ForcingData.Vocabulary.Basic
import ForcingData.Vocabulary.Category
import ForcingData.Vocabulary.Entry
import ForcingData.Vocabulary.Files
import ForcingData.Vocabulary.Loader
import ForcingData.Vocabulary.Overview
import ForcingData.Vocabulary.Reference
import ForcingData.Word
import ForcingData.Yaml.Alias
import ForcingData.Yaml.BlockScalar
import ForcingData.Yaml.Cursor
import ForcingData.Yaml.Node
import ForcingData.Yaml.Scalar
import ForcingData.Yaml.Value
