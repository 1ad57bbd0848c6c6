import RcppDeepState.Library.Text
import RcppDeepState.Library.Regex
import RcppDeepState.Library.Command
import RcppDeepState.Library.FileSystem
import RcppDeepState.Exports.Details
import RcppDeepState.Exports.Writer
import RcppDeepState.Exports.Lemmas.Block
import RcppDeepState.Exports.Lemmas.Parse
import RcppDeepState.Exports.Lemmas.Arguments
import RcppDeepState.Exports.RoundTrip
import RcppDeepState.Library.Matches
import RcppDeepState.Exports.Blocks
import RcppDeepState.Exports.Tables
import RcppDeepState.Library.Outline
import RcppDeepState.Library.Yaml
import RcppDeepState.Package.CiSetup
import RcppDeepState.Package.World
import RcppDeepState.Harness.Types
import RcppDeepState.Harness.Text
import RcppDeepState.Package.Makefile
import RcppDeepState.Package.FunCreate
import RcppDeepState.Package.PkgCreate
import RcppDeepState.Package.Build
import RcppDeepState.Package.Lemmas.Names
import RcppDeepState.Package.Lemmas.Frames
import RcppDeepState.Package.Lemmas.Clean
import RcppDeepState.Package.Lemmas.FunCreate
import RcppDeepState.Package.Atomicity
import RcppDeepState.Package.Lemmas.Makefiles
import RcppDeepState.Package.Lemmas.PkgCreate
import RcppDeepState.Package.Accounting
import RcppDeepState.Package.Lemmas.Created
import RcppDeepState.Library.Xml
import RcppDeepState.Library.Ere
import RcppDeepState.Valgrind.Reader
import RcppDeepState.Valgrind.Lemmas.Rows
import RcppDeepState.Valgrind.Closing
import RcppDeepState.Valgrind.Tables
import RcppDeepState.Valgrind.Lemmas.Relocate
import RcppDeepState.Valgrind.Relocation
import RcppDeepState.Analysis.Analyze
import RcppDeepState.Analysis.FuzzAnalyze
import RcppDeepState.Package.Lemmas.Build
import RcppDeepState.Package.Variants
import RcppDeepState.Analysis.Lemmas.Frames
import RcppDeepState.Analysis.Lemmas.Replays
import RcppDeepState.Library.Run
import RcppDeepState.Library.Overlay
import RcppDeepState.Library.Cpp
import RcppDeepState.Runs.Operations
import RcppDeepState.Runs.Harnesses
import RcppDeepState.Runs.Staleness
import RcppDeepState.Runs.Lemmas.FuzzLoop
import RcppDeepState.Runs.Leftovers
import RcppDeepState.Runs.Report
import RcppDeepState.Harness.Lemmas.Lines
import RcppDeepState.Harness.TestNames
import RcppDeepState.Harness.Lemmas.Pieces
import RcppDeepState.Harness.Scoping
import RcppDeepState.Analysis.Executable
import RcppDeepState.Analysis.Inputs
import RcppDeepState.Analysis.ReadBack
import RcppDeepState.Analysis.RunnerTest
import RcppDeepState.Analysis.Repeat
import RcppDeepState.Analysis.Selection
import RcppDeepState.Generators.Range
import RcppDeepState.Generators.Containers
import RcppDeepState.Generators.Lemmas.Writes
import RcppDeepState.Generators.Lemmas.Shapes
import RcppDeepState.Generators.Bounds
import RcppDeepState.Generators.Coverage
import RcppDeepState.Generators.Ranges
import RcppDeepState.Exports.Prototypes
import RcppDeepState.Analysis.FirstRun
import RcppDeepState.Library.Scope
import RcppDeepState.Analysis.Editable
import RcppDeepState.Analysis.Globals
import RcppDeepState.Harness.EditedLines
import RcppDeepState.Analysis.Lemmas.RangeCalls
import RcppDeepState.Analysis.Lemmas.RangeLines
import RcppDeepState.Analysis.Lemmas.RangeFile
import RcppDeepState.Analysis.RangeReports
import RcppDeepState.Runs.Makevars
import RcppDeepState.Package.DerivedMakefile
import RcppDeepState.Library.Shell
import RcppDeepState.Analysis.CommandLines
import RcppDeepState.Analysis.TimeLimit
import RcppDeepState.Package.Listings
import RcppDeepState.Library.Dedup
import RcppDeepState.Valgrind.Memcheck
import RcppDeepState.Valgrind.Attribution
import RcppDeepState.Library.Relational
import RcppDeepState.Library.Glob
import RcppDeepState.Runtime.Runner
import RcppDeepState.Runtime.Lemmas.Cases
import RcppDeepState.Runtime.Hermetic
import RcppDeepState.Runtime.NoFork
import RcppDeepState.Runtime.Lemmas.Traces
import RcppDeepState.Runtime.AllTests
import RcppDeepState.Runtime.Replays
import RcppDeepState.Library.IntType
import RcppDeepState.Generators.SymbolicRange
import RcppDeepState.Generators.Strings
import RcppDeepState.Library.TreeView
import RcppDeepState.Library.Unwinding
import RcppDeepState.Runs.Lemmas.Views
import RcppDeepState.Runs.Footprint
import RcppDeepState.Runs.Isolation
import RcppDeepState.Package.Lemmas.Recreate
import RcppDeepState.Package.Convergence
