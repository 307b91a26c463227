import PerfCounters.Expr.Printer
import PerfCounters.Main
import PerfCounters.Proofs.Buffering.Closing
import PerfCounters.Proofs.Buffering.Errors
import PerfCounters.Proofs.Buffering.Exclusion
import PerfCounters.Proofs.Buffering.Headers
import PerfCounters.Proofs.Buffering.Payloads
import PerfCounters.Proofs.Buffering.Quota
import PerfCounters.Proofs.Buffering.Series
import PerfCounters.Proofs.Buffering.Waiting
import PerfCounters.Proofs.Catalog.Histories
import PerfCounters.Proofs.CommandLine.Evaluations
import PerfCounters.Proofs.Configurations.Resolving
import PerfCounters.Proofs.Documents.Accumulation
import PerfCounters.Proofs.Documents.Cycles
import PerfCounters.Proofs.Documents.Extents
import PerfCounters.Proofs.Documents.Loading
import PerfCounters.Proofs.Documents.Positions
import PerfCounters.Proofs.Documents.Registration
import PerfCounters.Proofs.Documents.Sizes
import PerfCounters.Proofs.Expressions.Levels
import PerfCounters.Proofs.Expressions.Locations
import PerfCounters.Proofs.Expressions.Nesting
import PerfCounters.Proofs.Expressions.Printing
import PerfCounters.Proofs.Instances.Codec
import PerfCounters.Proofs.Instances.Fields
import PerfCounters.Proofs.Instances.Grid
import PerfCounters.Proofs.Instances.Layouts
import PerfCounters.Proofs.Instances.Rows
import PerfCounters.Proofs.Instances.Spilling
import PerfCounters.Proofs.Rings.Queue
import PerfCounters.Proofs.Rings.Vacancy
import PerfCounters.Proofs.Rings.Window
import PerfCounters.Proofs.Trees.Attribution
import PerfCounters.Proofs.Trees.Caching
import PerfCounters.Proofs.Trees.Collapsing
import PerfCounters.Proofs.Trees.Coverage
import PerfCounters.Proofs.Trees.Expanders
import PerfCounters.Proofs.Trees.Failures
import PerfCounters.Proofs.Trees.Filling
import PerfCounters.Proofs.Trees.Grouping
import PerfCounters.Proofs.Trees.Inference
import PerfCounters.Proofs.Trees.Kept
import PerfCounters.Proofs.Trees.Shape
import PerfCounters.Proofs.Trees.Staging
import PerfCounters.Ring.Arena
