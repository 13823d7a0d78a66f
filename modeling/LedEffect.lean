import LedEffect.Files.Disk
import LedEffect.Main
import LedEffect.Proofs.Graph.Cycle
import LedEffect.Proofs.Graph.Order
import LedEffect.Proofs.Graph.Stall
import LedEffect.Proofs.Graph.Acyclic
import LedEffect.Proofs.Graph.CountingSort
import LedEffect.Proofs.Graph.EdgeList
import LedEffect.Proofs.Effect.Parameters
import LedEffect.Proofs.Effect.Numbers
import LedEffect.Proofs.Effect.Checked
import LedEffect.Proofs.Effect.Dependencies
import LedEffect.Proofs.Effect.Resolve
import LedEffect.Proofs.Effect.WellFormed
import LedEffect.Proofs.Effect.Ranges
import LedEffect.Proofs.Effect.Reports
import LedEffect.Proofs.Effect.Renaming
import LedEffect.Proofs.Program.Liveness
import LedEffect.Proofs.Program.Form
import LedEffect.Proofs.Program.Lowered
import LedEffect.Proofs.Effect.Palettes
import LedEffect.Proofs.Program.Coded
import LedEffect.Proofs.Program.Total
import LedEffect.Proofs.Program.Comments
import LedEffect.Proofs.Program.Renaming
import LedEffect.Proofs.Program.Names
import LedEffect.Proofs.Program.Execution
import LedEffect.Proofs.Program.Meaning
import LedEffect.Proofs.Program.Blocks
import LedEffect.Proofs.Program.Preservation
import LedEffect.Proofs.Program.Scoping
import LedEffect.Proofs.Program.Placement
import LedEffect.Proofs.Tables
import LedEffect.Proofs.Program.Hygiene
import LedEffect.Proofs.Program.Exact
import LedEffect.Proofs.Program.Visits
import LedEffect.Proofs.Program.Bounds
import LedEffect.Proofs.Program.Pixels
import LedEffect.Proofs.Program.Renumbering
import LedEffect.Proofs.Program.Embedding
import LedEffect.Proofs.Effect.Permutation
import LedEffect.Proofs.Program.Counters
import LedEffect.Proofs.Program.Orders
import LedEffect.Proofs.Program.Containment
import LedEffect.Proofs.Program.Reordering
import LedEffect.Proofs.Graph.Extension
import LedEffect.Proofs.Effect.Extension
import LedEffect.Proofs.Program.Extension
import LedEffect.Proofs.Graph.DepthFirst
import LedEffect.Proofs.Graph.BreadthFirst
import LedEffect.Proofs.Graph.Heap
import LedEffect.Proofs.Graph.ShortestPath
import LedEffect.Proofs.Graph.Sentinels
import LedEffect.Proofs.Json.Literals
import LedEffect.Proofs.Json.Printed
import LedEffect.Proofs.Json.Values
import LedEffect.Proofs.Graph.RoundTrip
import LedEffect.Proofs.Json.Doubles
import LedEffect.Proofs.Json.Short
import LedEffect.Proofs.Graph.Levels
import LedEffect.Proofs.Command.Report
import LedEffect.Proofs.Effect.Rewiring
import LedEffect.Proofs.Files.Disk
import LedEffect.Proofs.Files.Paths
import LedEffect.Proofs.Number.Whole
import LedEffect.Proofs.Settings.Reloading
import LedEffect.Proofs.Graph.Preorder
import LedEffect.Proofs.Graph.Hops
import LedEffect.Proofs.Graph.Optimality
import LedEffect.Proofs.Graph.Blame
import LedEffect.Proofs.Graph.Answers
import LedEffect.Proofs.Graph.IndexSpace
import LedEffect.Proofs.Effect.Culprit
import LedEffect.Proofs.Program.Sharing
import LedEffect.Proofs.Cost.Estimates
import LedEffect.Proofs.Effect.Canonical
import LedEffect.Proofs.Effect.Phases
import LedEffect.Proofs.Program.Accounts
import LedEffect.Proofs.Cost.Layers
import LedEffect.Proofs.Cost.Calibration
import LedEffect.Proofs.Number.Accuracy
import LedEffect.Proofs.Number.Sums
import LedEffect.Proofs.Cost.SampleOrder
import LedEffect.Proofs.Json.Records
import LedEffect.Proofs.Number.Overflow
import LedEffect.Proofs.Cost.Printed
import LedEffect.Proofs.Cost.RoundTrip
import LedEffect.Proofs.Effect.RoundTrip
import LedEffect.Proofs.Effect.Keyframes
import LedEffect.Proofs.Program.ColourTables
import LedEffect.Proofs.Settings.Overrides
import LedEffect.Proofs.Program.Precedence
import LedEffect.Proofs.Catalog.Retraction
