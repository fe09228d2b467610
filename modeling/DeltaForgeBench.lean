import DeltaForgeBench.Base.Text
import DeltaForgeBench.Base.Lines
import DeltaForgeBench.Base.Sorted
import DeltaForgeBench.Base.Quantile
import DeltaForgeBench.Base.Tables
import DeltaForgeBench.Base.RowWise
import DeltaForgeBench.Base.Calendar
import DeltaForgeBench.Base.CommandLine
import DeltaForgeBench.Base.Joins
import DeltaForgeBench.Base.Hashing
import DeltaForgeBench.Base.Dict
import DeltaForgeBench.Base.Thresholds
import DeltaForgeBench.Base.Numeral
import DeltaForgeBench.Base.Interrupt
import DeltaForgeBench.Base.Runs
import DeltaForgeBench.Base.Handles
import DeltaForgeBench.Base.JsonText
import DeltaForgeBench.Base.JsonGrammar
import DeltaForgeBench.Base.JsonPretty
import DeltaForgeBench.Base.TextFiles
import DeltaForgeBench.Base.JsonCompact
import DeltaForgeBench.Base.JsonDense
import DeltaForgeBench.Engines.Base
import DeltaForgeBench.Engines.ShowStats
import DeltaForgeBench.Engines.Metrics
import DeltaForgeBench.Engines.SqlQuery
import DeltaForgeBench.Engines.CliJson
import DeltaForgeBench.Engines.SplitStatements
import DeltaForgeBench.Engines.StatementBoundaries
import DeltaForgeBench.Workloads.Spec
import DeltaForgeBench.Workloads.DfCatalog
import DeltaForgeBench.Engines.Scripts
import DeltaForgeBench.Workloads.SqlGrammar
import DeltaForgeBench.Workloads.FromContext
import DeltaForgeBench.Workloads.Scope
import DeltaForgeBench.Workloads.Layouts
import DeltaForgeBench.Workloads.Qualify
import DeltaForgeBench.Workloads.Lossless
import DeltaForgeBench.Workloads.Shadowing
import DeltaForgeBench.Workloads.Positions
import DeltaForgeBench.Workloads.Seams
import DeltaForgeBench.Workloads.Comments
import DeltaForgeBench.Workloads.References
import DeltaForgeBench.Workloads.JoinSpelling
import DeltaForgeBench.Workloads.ReadDelta
import DeltaForgeBench.Workloads.Crud
import DeltaForgeBench.Workloads.LineitemWrites
import DeltaForgeBench.Workloads.CdcMerge
import DeltaForgeBench.DataGen.SsbDelta
import DeltaForgeBench.DataGen.Star
import DeltaForgeBench.Workloads.SsbQueries
import DeltaForgeBench.DataGen.Fixtures
import DeltaForgeBench.Runner.Selection
import DeltaForgeBench.Runner.ChildCommand
import DeltaForgeBench.Runner.Recovery
import DeltaForgeBench.Runner.Resolve
import DeltaForgeBench.Runner.Preflight
import DeltaForgeBench.Runner.RunWorkload
import DeltaForgeBench.Runner.Schedule
import DeltaForgeBench.Runner.Measured
import DeltaForgeBench.Runner.DataHash
import DeltaForgeBench.Reports.GenerateReport
import DeltaForgeBench.Reports.ColdAggregates
import DeltaForgeBench.Reports.Verdict
import DeltaForgeBench.Reports.BuildPublished
import DeltaForgeBench.Reports.HonestLosses
import DeltaForgeBench.Reports.Isolation
import DeltaForgeBench.Reports.MeasurementBasis
import DeltaForgeBench.ScaleOut.Aggregate
import DeltaForgeBench.ScaleOut.Curve
import DeltaForgeBench.Reports.Percentile
import DeltaForgeBench.ScaleOut.Laws
import DeltaForgeBench.ScaleOut.Summary
import DeltaForgeBench.ScaleOut.Orchestrate
import DeltaForgeBench.ScaleOut.Phases
import DeltaForgeBench.ScaleOut.Matrix
import DeltaForgeBench.ScaleOut.StreamDirs
import DeltaForgeBench.ScaleOut.Discovery
import DeltaForgeBench.ScaleOut.StreamOrder
import DeltaForgeBench.ScaleOut.Offenders
import DeltaForgeBench.Runner.PartialFiles
import DeltaForgeBench.Runner.Children
import DeltaForgeBench.Runner.Parent
import DeltaForgeBench.Drivers.Timings
import DeltaForgeBench.Drivers.Odbc
import DeltaForgeBench.Drivers.OdbcRuns
import DeltaForgeBench.Drivers.Adbc
import DeltaForgeBench.Drivers.AdbcRuns
import DeltaForgeBench.Drivers.Discipline
import DeltaForgeBench.Drivers.Reported
import DeltaForgeBench.Drivers.WarmMedian
import DeltaForgeBench.Drivers.Report
import DeltaForgeBench.Workloads.GraphEdges
import DeltaForgeBench.Workloads.GraphSteps
import DeltaForgeBench.Reports.GraphReport
import DeltaForgeBench.Reports.Crossover
import DeltaForgeBench.Reports.Summarizers
import DeltaForgeBench.Reports.WriteTails
import DeltaForgeBench.Reports.Cells
import DeltaForgeBench.Reports.WarmMedians
import DeltaForgeBench.ScaleOut.QueryTimings
import DeltaForgeBench.Launcher.Script
import DeltaForgeBench.Launcher.Teardown
import DeltaForgeBench.Launcher.Course
import DeltaForgeBench.Reports.RunTable
import DeltaForgeBench.Base.Disposal
import DeltaForgeBench.Drivers.DotnetPaths
import DeltaForgeBench.Drivers.DotnetRuns
import DeltaForgeBench.Drivers.DotnetIterations
import DeltaForgeBench.Drivers.DotnetHarness
