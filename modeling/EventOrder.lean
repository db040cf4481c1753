import EventOrder.Footprint.Conflict
import EventOrder.Decision.Point
import EventOrder.Decision.Schedule
import EventOrder.Trace.Execution
import EventOrder.Trace.Predecessors
import EventOrder.Trace.Reachability
import EventOrder.Race.Summary
import EventOrder.Race.Backlog
import EventOrder.Access.Filter
import EventOrder.Statistics
import EventOrder.Race.Walk
import EventOrder.Explorer.Observation
import EventOrder.Explorer.Decision
import EventOrder.Files
import EventOrder.Program.Check
import EventOrder.Number.Shortest
import EventOrder.Text.Quoted
import EventOrder.Json.Text
import EventOrder.Json.Value
import EventOrder.Json.Record
import EventOrder.Program.Reader
import EventOrder.Program.Printer
import EventOrder.Search.Run
import EventOrder.Main
import EventOrder.Proofs.Explorer.Poised
import EventOrder.Proofs.Search.Answers
import EventOrder.Proofs.Search.Coverage
import EventOrder.Proofs.Search.Dependence
import EventOrder.Proofs.Search.Exhaustion
import EventOrder.Proofs.Search.Paths
import EventOrder.Proofs.Search.Sources
import EventOrder.Proofs.Search.Retention
import EventOrder.Proofs.Program.Flat
import EventOrder.Proofs.Search.Nesting
import EventOrder.Proofs.Json.Reads
import EventOrder.Proofs.Json.Scalars
import EventOrder.Proofs.Json.Takes
import EventOrder.Proofs.Json.Trees
import EventOrder.Proofs.Json.Records
import EventOrder.Proofs.Json.Yields
import EventOrder.Proofs.Program.Operations
import EventOrder.Proofs.Program.Format
import EventOrder.Proofs.Race.Accumulation
import EventOrder.Proofs.Search.Truncation
import EventOrder.Proofs.Explorer.Fairness
import EventOrder.Proofs.Explorer.Whereabouts
import EventOrder.Proofs.Race.Recursion
import EventOrder.Proofs.Race.Justification
import EventOrder.Proofs.Search.Safety
import EventOrder.Proofs.Explorer.Covering
import EventOrder.Proofs.Access.Decisions
import EventOrder.Proofs.Race.Roster
import EventOrder.Proofs.Race.Nearest
import EventOrder.Proofs.Program.Violations
import EventOrder.Proofs.Explorer.Attribution
import EventOrder.Proofs.Explorer.Protocol
import EventOrder.Proofs.Search.DepthBound
import EventOrder.Proofs.Footprint.Reports
import EventOrder.Proofs.Explorer.Passthrough
import EventOrder.Proofs.Search.Indexes
import EventOrder.Proofs.Race.Expansion
import EventOrder.Proofs.Race.Difference
import EventOrder.Proofs.Decision.Deliveries
import EventOrder.Proofs.Search.Interning
import EventOrder.Proofs.CommandLine.Offsets
