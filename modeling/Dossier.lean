import Dossier.Analysis.Findings
import Dossier.Analysis.Request
import Dossier.Analysis.Run
import Dossier.Analysis.Snapshot
import Dossier.AnalysisError
import Dossier.CallGraph.Basic
import Dossier.CallGraph.Json
import Dossier.CallGraph.Reach
import Dossier.CommandLine.Command
import Dossier.CommandLine.Refusal
import Dossier.CommandLine.Session
import Dossier.CommandLine.Words
import Dossier.Config.Basic
import Dossier.Config.Fault
import Dossier.Config.Json
import Dossier.Config.Loading
import Dossier.Config.Report
import Dossier.Config.Settings
import Dossier.Decimal.Binary
import Dossier.Decimal.Digits
import Dossier.Digest.Sha256
import Dossier.Files.Error
import Dossier.Files.Listing
import Dossier.Files.Tree
import Dossier.Freshness
import Dossier.Glob.Filter
import Dossier.Glob.Match
import Dossier.Glob.Pattern
import Dossier.History.Collection
import Dossier.History.Issues
import Dossier.Json.Basic
import Dossier.Json.Fields
import Dossier.Json.Parser
import Dossier.Json.Printer
import Dossier.Lexicon.Basic
import Dossier.Lexicon.Go
import Dossier.Lexicon.Java
import Dossier.Lexicon.Marked
import Dossier.Lexicon.Python
import Dossier.Lexicon.Rust
import Dossier.Main
import Dossier.Metrics
import Dossier.Order.Sorting
import Dossier.Order.Table
import Dossier.Outline.Basic
import Dossier.Outline.Go
import Dossier.Outline.Java
import Dossier.Outline.Python
import Dossier.Outline.Rust
import Dossier.Outline.Source
import Dossier.Outline.Walk
import Dossier.Record.Basic
import Dossier.Record.Commit
import Dossier.Record.Function
import Dossier.Record.Json
import Dossier.Reply
import Dossier.Report.Json
import Dossier.Report.Text
import Dossier.Source.CodeLines
import Dossier.Source.Language
import Dossier.Source.Path
import Dossier.Source.QualifiedName
import Dossier.Source.Span
import Dossier.Source.SyntaxError
import Dossier.Stability.Score
import Dossier.Stage
import Dossier.Store.Artifacts
import Dossier.Store.Directory
import Dossier.Store.Disk
import Dossier.Store.Error
import Dossier.Store.Memory
import Dossier.Store.Records
import Dossier.Store.Rows
import Dossier.Store.Saved
import Dossier.Structure.Analysis
import Dossier.Structure.NameIndex
import Dossier.Structure.Names
import Dossier.Structure.SourceTree
import Dossier.Syntax.Diagnosis
import Dossier.Syntax.Go
import Dossier.Syntax.Grammar
import Dossier.Syntax.Java
import Dossier.Syntax.Python
import Dossier.Syntax.Rust
import Dossier.Syntax.Token
import Dossier.Syntax.Tree
import Dossier.Synthesis.Prompt
import Dossier.Synthesis.Provider
import Dossier.Synthesis.Reply
import Dossier.Synthesis.Retry
import Dossier.Text.Blank
import Dossier.Text.Columns
import Dossier.Text.Hex
import Dossier.Text.Letters
import Dossier.Text.Slice
import Dossier.Text.Utf8
import Dossier.Time.Date
import Dossier.Time.Duration
import Dossier.Time.Instant
import Dossier.VersionControl.Basic
import Dossier.VersionControl.Git
import Dossier.Proofs.Analysis.Occasion
import Dossier.Proofs.Analysis.Run
import Dossier.Proofs.Analysis.Reuse
import Dossier.Proofs.Analysis.WorkingTree
import Dossier.Proofs.Analysis.Commits
import Dossier.Proofs.Analysis.Refusal
import Dossier.Proofs.Structure.Causes
import Dossier.Proofs.Analysis.Failure
import Dossier.Proofs.Analysis.Independence
import Dossier.Proofs.Order.Increasing
import Dossier.Proofs.CallGraph.Basic
import Dossier.Proofs.CallGraph.Build
import Dossier.Proofs.CallGraph.Changes
import Dossier.Proofs.CallGraph.Reach
import Dossier.Proofs.CallGraph.Neighbourhood
import Dossier.Proofs.Structure.Assembly
import Dossier.Proofs.Structure.Survey
import Dossier.Proofs.Structure.Notes
import Dossier.Proofs.Syntax.Occurrences
import Dossier.Proofs.Outline.Attribution
import Dossier.Proofs.History.Collection
import Dossier.Proofs.History.Shown
import Dossier.Proofs.Analysis.Lines
import Dossier.Proofs.Analysis.Remarks
import Dossier.Proofs.Analysis.Consistency
import Dossier.Proofs.Analysis.Silence
import Dossier.Proofs.Analysis.Identity
import Dossier.Proofs.Text.Blank
import Dossier.Proofs.Source.Path
import Dossier.Proofs.Structure.Index
import Dossier.Proofs.Structure.Resolution
import Dossier.Proofs.Decimal.Digits
import Dossier.Proofs.Decimal.Rounding
import Dossier.Proofs.Decimal.Double
import Dossier.Proofs.Decimal.Nearest
import Dossier.Proofs.Decimal.Shortest
import Dossier.Proofs.Json.Numerals
import Dossier.Proofs.Json.Reading
import Dossier.Proofs.Json.Fields
import Dossier.Proofs.Json.Floats
import Dossier.Proofs.Time.Instant
import Dossier.Proofs.Record.Json
import Dossier.Proofs.Record.Codec
import Dossier.Proofs.Record.Order
import Dossier.Proofs.Store.Agreement
import Dossier.Proofs.Store.Artifacts
import Dossier.Proofs.Store.Writers
import Dossier.Proofs.Outline.Rust
import Dossier.Proofs.Text.Slice
import Dossier.Proofs.Source.QualifiedName
import Dossier.Proofs.Lexicon.Words
import Dossier.Proofs.Outline.Names
import Dossier.Proofs.Structure.Target
import Dossier.Proofs.Analysis.Surroundings
import Dossier.Proofs.Synthesis.Retry
import Dossier.Proofs.Synthesis.Prompt
import Dossier.Proofs.Synthesis.Priority
import Dossier.Proofs.Config.Retries
import Dossier.Proofs.Json.Grammar
import Dossier.Proofs.Synthesis.Extraction
import Dossier.Proofs.Synthesis.Sections
import Dossier.Proofs.Text.Utf8
import Dossier.Proofs.VersionControl.Listing
import Dossier.Proofs.VersionControl.Log
import Dossier.Proofs.Lexicon.Blanks
import Dossier.Proofs.Lexicon.Marked
import Dossier.Proofs.Lexicon.Python
import Dossier.Proofs.Lexicon.Rust
import Dossier.Proofs.Outline.Behind
import Dossier.Proofs.Outline.RustBehind
import Dossier.Proofs.Outline.Framed
import Dossier.Proofs.Files.Names
import Dossier.Proofs.Files.Listing
import Dossier.Proofs.Files.Order
import Dossier.Proofs.Files.Following
import Dossier.Proofs.CommandLine.Within
import Dossier.Proofs.Outline.Callers
import Dossier.Proofs.Structure.Renaming
import Dossier.Proofs.Structure.Alias
import Dossier.Proofs.Structure.Spelling
import Dossier.Proofs.Source.Comments
import Dossier.Proofs.Source.CodeLines
import Dossier.Proofs.Outline.RustSpans
import Dossier.Proofs.History.Issues
import Dossier.Proofs.Stability.Score
import Dossier.Proofs.Config.Settings
import Dossier.Proofs.Config.Durations
import Dossier.Proofs.Glob.Match
import Dossier.Proofs.Glob.Filter
import Dossier.Proofs.Analysis.Paths
