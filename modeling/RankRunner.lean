import RankRunner.Number.Rounding
import RankRunner.Number.Binary64
import RankRunner.Text.Runs
import RankRunner.Text.Printable
import RankRunner.Text.Alphanumeric
import RankRunner.Text.Classes
import RankRunner.Text.Literal
import RankRunner.Text.Lines
import RankRunner.Number.Numeral
import RankRunner.Number.Spelling
import RankRunner.Value
import RankRunner.Value.Json
import RankRunner.Raised.Basic
import RankRunner.Raised.SystemError
import RankRunner.Raised.Located
import RankRunner.Raised.Coding
import RankRunner.Raised
import RankRunner.Fault
import RankRunner.Failure
import RankRunner.Value.Integer
import RankRunner.Status
import RankRunner.Synopsis
import RankRunner.Time
import RankRunner.Time.Calendar
import RankRunner.Usage
import RankRunner.Interruption
import RankRunner.Action
import RankRunner.Item
import RankRunner.Siblings
import RankRunner.Run
import RankRunner.Declaration
import RankRunner.Text.Order
import RankRunner.Sequence
import RankRunner.Selection
import RankRunner.Report.Basic
import RankRunner.Report.Text
import RankRunner.Report.Xml
import RankRunner.Report
import RankRunner.Console
import RankRunner.Completion
import RankRunner.Effect
import RankRunner.Host
import RankRunner.Call
import RankRunner.Launcher
import RankRunner.Launcher.InProcess
import RankRunner.Launcher.Scripted
import RankRunner.Launcher.Forked
import RankRunner.Schedule.Scope
import RankRunner.Schedule.Inline
import RankRunner.Schedule.Launch
import RankRunner.Schedule.Reap
import RankRunner.Schedule.BailOut
import RankRunner.Schedule.Ranks
import RankRunner.Schedule.Chunks
import RankRunner.Execution
import RankRunner.Config.Reading
import RankRunner.Config
import RankRunner.Value.Fields
import RankRunner.SuiteFile
import RankRunner.SuiteFile.Reading
import RankRunner.Path
import RankRunner.Files
import RankRunner.Text.Similarity
import RankRunner.Text.Wrap
import RankRunner.Text.Paragraphs
import RankRunner.Text.Escapes
import RankRunner.CommandLine.Options
import RankRunner.CommandLine.Arguments
import RankRunner.CommandLine.Help
import RankRunner.CommandLine
import RankRunner.Main
import RankRunner.Proofs.Ensures
import RankRunner.Proofs.Siblings.Fresh
import RankRunner.Proofs.Siblings.Ranked
import RankRunner.Proofs.Siblings.Graph
import RankRunner.Proofs.Siblings.Layers
import RankRunner.Proofs.Siblings.Levels
import RankRunner.Proofs.Schedule.Loops
import RankRunner.Proofs.Schedule.Upto
import RankRunner.Proofs.Launcher.Journal
import RankRunner.Proofs.Schedule.Children
import RankRunner.Proofs.Schedule.Underway
import RankRunner.Proofs.Schedule.InOrder
import RankRunner.Proofs.Launcher.Forked
import RankRunner.Proofs.Schedule.Bounds
import RankRunner.Proofs.Execution.Rules
import RankRunner.Proofs.Siblings.Groups
import RankRunner.Proofs.Execution.Green
import RankRunner.Proofs.Expected
import RankRunner.Proofs.Schedule.Settled
import RankRunner.Proofs.Schedule.Simple
import RankRunner.Proofs.Execution.Reference
import RankRunner.Proofs.Execution.Simple
import RankRunner.Proofs.Launcher.Faithful
import RankRunner.Proofs.Schedule.Tended
import RankRunner.Proofs.Launcher.InProcessFaithful
import RankRunner.Proofs.Launcher.ForkedFaithful
import RankRunner.Proofs.Execution.Backends
import RankRunner.Proofs.Execution.Follows
import RankRunner.Proofs.Launcher.Plain
import RankRunner.Proofs.Launcher.Flag
import RankRunner.Proofs.Execution.Flag
import RankRunner.Proofs.Launcher.Yielding
import RankRunner.Proofs.Launcher.ForkedYielding
import RankRunner.Proofs.Launcher.InProcessYielding
import RankRunner.Proofs.Schedule.BailOut
import RankRunner.Proofs.Schedule.Flat
import RankRunner.Proofs.Schedule.Fates
import RankRunner.Proofs.Execution.Cancelled
import RankRunner.Proofs.Siblings.Again
import RankRunner.Proofs.Execution.Again
import RankRunner.Proofs.Launcher.Scripted
import RankRunner.Proofs.Schedule.Counted
import RankRunner.Proofs.Schedule.Left
import RankRunner.Proofs.Schedule.Returned
import RankRunner.Proofs.Schedule.Credited
import RankRunner.Proofs.Siblings.Closed
import RankRunner.Proofs.Selection
import RankRunner.Proofs.Accounting
import RankRunner.Proofs.Execution.Restricted
import RankRunner.Proofs.Execution.Credited
import RankRunner.Proofs.Siblings.Diagnosed
import RankRunner.Proofs.Execution.Refused
import RankRunner.Proofs.Preserves
import RankRunner.Proofs.Execution.Caught
import RankRunner.Proofs.CommandLine.Delivery
import RankRunner.Proofs.Config
import RankRunner.Proofs.CommandLine.Exit
import RankRunner.Proofs.Report.Markup
import RankRunner.Proofs.Report.Elements
import RankRunner.Proofs.Report.Record
import RankRunner.Proofs.Report.Plain
import RankRunner.Proofs.Report.RoundTrip
import RankRunner.Proofs.Report.Scan
import RankRunner.Proofs.Report.Tally
import RankRunner.Proofs.Report.TallyReading
import RankRunner.Proofs.Siblings.History
import RankRunner.Proofs.Schedule.CleanUp
import RankRunner.Proofs.Schedule.AnyOrder
import RankRunner.Proofs.Launcher.Dutiful
import RankRunner.Proofs.Launcher.ForkedDutiful
import RankRunner.Proofs.Schedule.Dispatch
import RankRunner.Proofs.Schedule.Rounds
import RankRunner.Proofs.Launcher.ForkedLossless
import RankRunner.Proofs.Launcher.InProcessLossless
import RankRunner.Proofs.Schedule.Lossless
import RankRunner.Proofs.Clock
import RankRunner.Proofs.Launcher.Timely
import RankRunner.Proofs.Schedule.Timed
import RankRunner.Proofs.Schedule.TimedChunks
import RankRunner.Proofs.Execution.Timed
import RankRunner.Proofs.Declaration.Needs
import RankRunner.Proofs.Declaration.Styles
import RankRunner.Proofs.Declaration.Pool
import RankRunner.Proofs.Declaration.Workbench
