import WebLint.Checker
import WebLint.CommandLine.Arguments
import WebLint.CommandLine.LogFilter
import WebLint.CommandLine.Run
import WebLint.CommandLine.Usage
import WebLint.Discovery
import WebLint.Discovery.Ignore
import WebLint.Document
import WebLint.Fixing
import WebLint.Json
import WebLint.Json.Printer
import WebLint.Json.Reader
import WebLint.Main
import WebLint.Preset.Toml
import WebLint.Proofs.Checker
import WebLint.Proofs.Checker.AllOrNothing
import WebLint.Proofs.Checker.Failing
import WebLint.Proofs.Checker.History
import WebLint.Proofs.Checker.Idempotence
import WebLint.Proofs.Checker.Independence
import WebLint.Proofs.Checker.Order
import WebLint.Proofs.Checker.Rerun
import WebLint.Proofs.Checker.Rounds
import WebLint.Proofs.Checker.Run
import WebLint.Proofs.Checker.SideBySide
import WebLint.Proofs.Checker.Writes
import WebLint.Proofs.Diagnostic
import WebLint.Proofs.Discovery.Globs
import WebLint.Proofs.Discovery.Ignored
import WebLint.Proofs.Discovery.Order
import WebLint.Proofs.Document
import WebLint.Proofs.Document.Regions
import WebLint.Proofs.Fixing.Layout
import WebLint.Proofs.Fixing.Moves
import WebLint.Proofs.Fixing.Permutation
import WebLint.Proofs.Fixing.Regions
import WebLint.Proofs.Fixing.Reindent
import WebLint.Proofs.Fixing.Selection
import WebLint.Proofs.Overflow
import WebLint.Proofs.Path.Names
import WebLint.Proofs.Path.Relative
import WebLint.Proofs.Preset
import WebLint.Proofs.Report
import WebLint.Proofs.Report.Json
import WebLint.Proofs.Report.Lines
import WebLint.Proofs.Script.Comparison
import WebLint.Proofs.Script.Convergence
import WebLint.Proofs.Script.Layout
import WebLint.Proofs.Script.Repairs
import WebLint.Proofs.Script.Semicolon
import WebLint.Proofs.Style.Convergence
import WebLint.Proofs.Style.Coverage
import WebLint.Proofs.Style.Declaration
import WebLint.Proofs.Style.Duplicates
import WebLint.Proofs.Style.Indentation
import WebLint.Proofs.Style.Layout
import WebLint.Proofs.Style.Prefixes
import WebLint.Proofs.Style.Quotes
import WebLint.Proofs.Style.Repairs
import WebLint.Proofs.Style.Selector
import WebLint.Proofs.Style.Sheet
import WebLint.Proofs.Style.Statements
import WebLint.Proofs.Style.States
import WebLint.Proofs.Text.Lines
import WebLint.Proofs.Tree.Constructs
import WebLint.Proofs.Tree.NextToken
import WebLint.Proofs.Tree.Places
import WebLint.Proofs.Tree.Surroundings
import WebLint.Report.Format
import WebLint.Script.Check
import WebLint.Style.Check
import WebLint.Text.Location
import WebLint.Tree.Cursor
import WebLint.Tree.Table
