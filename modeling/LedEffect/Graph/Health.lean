import LedEffect.Graph.Cycle
import LedEffect.Json.Decode

/-!
# Graph health

Counts, the spread of out-degrees and acyclicity, as one record with a JSON form.
-/

namespace LedEffect

/-- A structural summary of a graph. -/
structure GraphHealth where
  nodeCount : Nat
  edgeCount : Nat
  minOutDegree : Nat
  maxOutDegree : Nat
  avgOutDegree : Binary64
  isDag : Bool

namespace Graph

/-- The out-degrees of all nodes. -/
def outDegrees (g : Graph) : List Nat :=
  (g.offsets.toList.zip (g.offsets.toList.drop 1)).map fun (first, last) =>
    last.toNat - first.toNat

/-- The summary of a graph; the degrees of an empty graph are zero. -/
def health (g : Graph) : Except GraphError GraphHealth := do
  let degrees := g.outDegrees
  return {
    nodeCount := g.nodeCount
    edgeCount := g.edgeCount
    minOutDegree := degrees.min?.getD 0
    maxOutDegree := degrees.max?.getD 0
    avgOutDegree :=
      if g.nodeCount = 0 then 0 else Binary64.ofNat g.edgeCount / Binary64.ofNat g.nodeCount
    isDag := ← g.isDag }

end Graph

namespace GraphHealth

def toValue (h : GraphHealth) : Json :=
  .object [("nodeCount", .natural h.nodeCount), ("edgeCount", .natural h.edgeCount),
    ("minOutDegree", .natural h.minOutDegree), ("maxOutDegree", .natural h.maxOutDegree),
    ("avgOutDegree", .double h.avgOutDegree), ("isDag", .bool h.isDag)]

open Json.Document in
/-- The summary that a document describes; all fields are required. -/
def ofDocument? (d : Json.Document) : Option GraphHealth := do
  let fields ← d.record? ["nodeCount", "edgeCount", "minOutDegree", "maxOutDegree",
    "avgOutDegree", "isDag"]
  return {
    nodeCount := ← required? fields "nodeCount" (natural? Json.wordLimit)
    edgeCount := ← required? fields "edgeCount" (natural? Json.wordLimit)
    minOutDegree := ← required? fields "minOutDegree" (natural? Json.wordLimit)
    maxOutDegree := ← required? fields "maxOutDegree" (natural? Json.wordLimit)
    avgOutDegree := ← required? fields "avgOutDegree" double?
    isDag := ← required? fields "isDag" bool? }

end GraphHealth

end LedEffect
