import LedEffect.Command.Outcome
import LedEffect.Graph.Health
import LedEffect.Graph.Json
import LedEffect.Graph.Search
import LedEffect.Graph.ShortestPath

/-!
# Inspecting graphs

The summary of a graph in a file, and the analysis of a graph from a source node.
-/

namespace LedEffect.Command

variable {m : Type → Type} [Monad m] [FileAccess m]

/-- A JSON value as output. -/
def printedJson (value : Json) : Outcome := .printed (value.pretty ++ "\n")

/-- The graph in a file. -/
def readGraph (path : String) : Attempt m Graph := do
  Attempt.ofExcept (.invalidGraph path) (Graph.ofJson (← Attempt.readInput path))

/-! ## Summary -/

def yesNo (b : Bool) : String := if b then "yes" else "no"

/-- The line on cycles. -/
def acyclicLines (g : Graph) (h : GraphHealth) : List String :=
  if h.isDag then ["  acyclic:     yes"]
  else match g.topoSort with
    | .error e => [s!"  acyclic:     no ({e.message})"]
    | .ok _ => []

/-- The summary of a graph as text. -/
def healthText (path : String) (g : Graph) (h : GraphHealth) : String :=
  unlines ([s!"Graph: {path}",
    s!"  nodes:       {h.nodeCount}",
    s!"  edges:       {h.edgeCount}",
    s!"  out-degree:  min {h.minOutDegree}, max {h.maxOutDegree}, " ++
      s!"avg {h.avgOutDegree.fixed 2}",
    s!"  weighted:    {yesNo g.weights.isSome}"] ++ acyclicLines g h)

/-- Checks a graph and shows its summary. -/
def check (path : String) (json : Bool) : Attempt m Outcome := do
  let g ← readGraph path
  let h ← Attempt.ofExcept .graph g.health
  return if json then printedJson h.toValue else .printed (healthText path g h)

/-! ## Analysis -/

/-- What the searches from a source say, nodes out of reach having neither hops nor distance. -/
structure Analysis where
  source : Nat
  hops : List (Option Nat)
  preorder : List Nat
  distances : List (Option Binary64)
  order : Except GraphError (List Nat)

namespace Analysis

/-- The analysis of a graph. -/
def ofGraph (g : Graph) (source : Nat) : Except GraphError Analysis := do
  let hops ← g.bfs source
  let preorder ← g.dfs source
  let distances ← g.dijkstra source
  return {
    source := source
    hops := hops.toList.map fun d => if d = Graph.unreachable then none else some d
    preorder := preorder.toList
    distances := distances.toList.map fun d => if d.isFinite then some d else none
    order := g.topoSort.map Array.toList }

/-- An optional value, null where there is none. -/
def nullable {α : Type} (toValue : α → Json) : Option α → Json
  | none => .null
  | some x => toValue x

def naturals (ns : List Nat) : Json := .array (ns.map .natural)

def toValue (a : Analysis) : Json :=
  .object [("source", .natural a.source),
    ("bfsLevels", .array (a.hops.map (nullable .natural))),
    ("dfsOrder", naturals a.preorder),
    ("distances", .array (a.distances.map (nullable .double))),
    ("topoOrder", match a.order with | .ok order => naturals order | .error _ => .null),
    ("cycle", match a.order with | .ok _ => .null | .error e => .string e.message)]

/-- Node numbers with blanks between them. -/
def joined (ns : List Nat) : String := " ".intercalate (ns.map toString)

/-- A row of the table of nodes. -/
def row (node hops distance : String) : String :=
  s!"  {padLeft 6 node}  {padLeft 6 hops}  {padLeft 12 distance}"

/-- The analysis as text. -/
def text (a : Analysis) : String :=
  let rows := (a.hops.zip a.distances).zipIdx.map fun ((hops, distance), node) =>
    row (toString node) ((hops.map toString).getD "-") ((distance.map (·.fixed 3)).getD "-")
  let order := match a.order with
    | .ok order => s!"Topological order: {joined order}"
    | .error e => s!"Topological order: none ({e.message})"
  unlines ([s!"Source node {a.source}", "", row "node" "hops" "distance"] ++ rows ++
    ["", s!"DFS preorder: {joined a.preorder}", order])

end Analysis

/-- Analyzes a graph from a source. -/
def analyze (path : String) (source : Nat) (json : Bool) : Attempt m Outcome := do
  let g ← readGraph path
  let a ← Attempt.ofExcept .graph (Analysis.ofGraph g source)
  return if json then printedJson a.toValue else .printed a.text

end LedEffect.Command
