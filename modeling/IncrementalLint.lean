import IncrementalLint.Cache.Decision
import IncrementalLint.Cache.Store
import IncrementalLint.CommandLine.Perform
import IncrementalLint.CommandLine.Request
import IncrementalLint.Config.Load
import IncrementalLint.Config.Settings
import IncrementalLint.Dispatch
import IncrementalLint.Files.Change
import IncrementalLint.Files.Error
import IncrementalLint.Files.Workspace
import IncrementalLint.Job
import IncrementalLint.Json.Decode
import IncrementalLint.Json.Reader
import IncrementalLint.Json.Value
import IncrementalLint.Json.Writer
import IncrementalLint.Listing
import IncrementalLint.Machine.Executable
import IncrementalLint.Machine.Host
import IncrementalLint.Machine.Kernel
import IncrementalLint.Machine.Program
import IncrementalLint.Machine.Raw
import IncrementalLint.Machine.Signal
import IncrementalLint.Machine.Watch
import IncrementalLint.Main
import IncrementalLint.Outcome
import IncrementalLint.Path
import IncrementalLint.Plan
import IncrementalLint.Project
import IncrementalLint.Proofs.Agreement
import IncrementalLint.Proofs.Batches
import IncrementalLint.Proofs.Cache.Checks
import IncrementalLint.Proofs.Cache.Decision
import IncrementalLint.Proofs.Cache.File
import IncrementalLint.Proofs.Cache.Reload
import IncrementalLint.Proofs.Cache.Saved
import IncrementalLint.Proofs.Damage
import IncrementalLint.Proofs.Effects
import IncrementalLint.Proofs.Files.Advance
import IncrementalLint.Proofs.Files.Ascent
import IncrementalLint.Proofs.Files.Contents
import IncrementalLint.Proofs.Files.Descent
import IncrementalLint.Proofs.Files.Edits
import IncrementalLint.Proofs.Files.Parents
import IncrementalLint.Proofs.Files.Paths
import IncrementalLint.Proofs.Files.SameBut
import IncrementalLint.Proofs.Files.Spelling
import IncrementalLint.Proofs.Files.Top
import IncrementalLint.Proofs.Files.Walk
import IncrementalLint.Proofs.Incremental
import IncrementalLint.Proofs.Job
import IncrementalLint.Proofs.JobLine
import IncrementalLint.Proofs.Json.RoundTrip
import IncrementalLint.Proofs.Layout
import IncrementalLint.Proofs.Multiline
import IncrementalLint.Proofs.Order
import IncrementalLint.Proofs.Outcome
import IncrementalLint.Proofs.Plan
import IncrementalLint.Proofs.Project
import IncrementalLint.Proofs.Provenance
import IncrementalLint.Proofs.Repeat
import IncrementalLint.Proofs.Report
import IncrementalLint.Proofs.Report.Shown
import IncrementalLint.Proofs.Run
import IncrementalLint.Proofs.Session.Evidence
import IncrementalLint.Proofs.Session.Invariant
import IncrementalLint.Proofs.Session.Log
import IncrementalLint.Proofs.Session.Reuse
import IncrementalLint.Proofs.Session.Steps
import IncrementalLint.Proofs.Shell.Alone
import IncrementalLint.Proofs.Shell.CommandLookahead
import IncrementalLint.Proofs.Shell.Literal
import IncrementalLint.Proofs.Shell.Quoted
import IncrementalLint.Proofs.Shell.Text
import IncrementalLint.Proofs.SortedMap
import IncrementalLint.Proofs.Source
import IncrementalLint.Proofs.Template
import IncrementalLint.Proofs.Touch
import IncrementalLint.Proofs.TwoRuns
import IncrementalLint.Proofs.Units.Entries
import IncrementalLint.Proofs.Units.Names
import IncrementalLint.Proofs.Units.Places
import IncrementalLint.Proofs.Units.Selection
import IncrementalLint.Proofs.Verdict
import IncrementalLint.Report
import IncrementalLint.Run
import IncrementalLint.Shell.Arithmetic
import IncrementalLint.Shell.Builtins
import IncrementalLint.Shell.Child
import IncrementalLint.Shell.Command
import IncrementalLint.Shell.Condition
import IncrementalLint.Shell.Evaluation
import IncrementalLint.Shell.Expansion
import IncrementalLint.Shell.Field
import IncrementalLint.Shell.FileNames
import IncrementalLint.Shell.Format
import IncrementalLint.Shell.Pattern
import IncrementalLint.Shell.Quote
import IncrementalLint.Shell.Reader
import IncrementalLint.Shell.Redirection
import IncrementalLint.Shell.Session
import IncrementalLint.Shell.Start
import IncrementalLint.SortedMap
import IncrementalLint.Text.Blank
import IncrementalLint.Text.Replace
import IncrementalLint.Text.Utf8
import IncrementalLint.Toml.Decode
import IncrementalLint.Toml.Number
import IncrementalLint.Toml.Reader
import IncrementalLint.Toml.Text
import IncrementalLint.Toml.Value
import IncrementalLint.Tool.Basic
import IncrementalLint.Tool.Expression
import IncrementalLint.Tool.Lines
import IncrementalLint.Tool.Plain
import IncrementalLint.Tool.Streams
import IncrementalLint.Tool.Table
import IncrementalLint.Tool.Tree
import IncrementalLint.Units
