import LedEffect.Graph.Basic

/-!
# Graphs from edge lists

A counting sort groups the edges by their source, once their ends are known to be nodes. One pass
counts the edges of every source, sums of the counts give the offsets of the rows, and a second pass
puts each edge at the cursor of its row and moves the cursor on. Within a row the edges keep the order
of the list. Counters are 32-bit words, and every index is checked.
-/

namespace LedEffect

/-- An edge with its weight. -/
structure Edge where
  source : UInt32
  target : UInt32
  weight : Binary64

namespace Graph

/-- The flat arrays of a graph. -/
structure Flat where
  offsets : Array UInt32
  edges : Array UInt32
  weights : Array Binary64

/-- Whether an end of an edge is no node. -/
def isOutside (nodes : Nat) (e : Edge) : Bool :=
  nodes ≤ e.source.toNat || nodes ≤ e.target.toNat

/-- Counts an edge one place behind that of its source. -/
def countEdge? (counts : Array Nat) (e : Edge) : Option (Array Nat) :=
  bump? counts (e.source.toNat + 1)

/-- Adds the counter at an index to the one behind it. -/
def carry? (counts : Array Nat) (index : Nat) : Option (Array Nat) := do
  let before ← counts[index]?
  let here ← counts[index + 1]?
  if here + before ≤ counterLimit then some (counts.set! (index + 1) (here + before)) else none

/-- The flat arrays while edges are put into them, and for every row the slot of its next edge. -/
structure Filling where
  cursors : Array Nat
  edges : Array UInt32
  weights : Array Binary64

/-- Puts an edge at the cursor of its row and moves the cursor on. -/
def Filling.put? (f : Filling) (e : Edge) : Option Filling := do
  let slot ← f.cursors[e.source.toNat]?
  if slot < f.edges.size ∧ slot < f.weights.size then
    let cursors ← bump? f.cursors e.source.toNat
    some ⟨cursors, f.edges.set! slot e.target, f.weights.set! slot e.weight⟩
  else none

/-- The edges between `nodes` nodes in flat arrays. -/
def arrange? (nodes : Nat) (edges : List Edge) : Option Flat := do
  let counts ← edges.foldlM countEdge? (Array.replicate (nodes + 1) 0)
  let offsets ← (List.range nodes).foldlM carry? counts
  let blank : Filling := ⟨offsets.extract 0 nodes, Array.replicate edges.length 0,
    Array.replicate edges.length .zero⟩
  let filled ← edges.foldlM Filling.put? blank
  some ⟨offsets.map UInt32.ofNat, filled.edges, filled.weights⟩

/-- The flat arrays of an edge list: both counts must fit 32 bits and every endpoint must be a
node. -/
def flatten (nodes : Nat) (edges : List Edge) : Except GraphError Flat :=
  if counterLimit < edges.length ∨ counterLimit < nodes then .error (.invalid .tooLarge)
  else
    match edges.find? (isOutside nodes) with
    | some e => .error (.invalid (.endpointOutOfRange e.source e.target nodes))
    | none => inBounds (arrange? nodes edges)

/-- The unweighted graph of a list of edges. -/
def ofEdges (nodes : Nat) (edges : List (UInt32 × UInt32)) : Except GraphError Graph := do
  let flat ← flatten nodes (edges.map fun (u, v) => ⟨u, v, 1⟩)
  ofRows true flat.offsets flat.edges none

/-- The weighted graph of a list of edges. -/
def ofWeightedEdges (nodes : Nat) (edges : List Edge) : Except GraphError Graph := do
  let flat ← flatten nodes edges
  ofRows true flat.offsets flat.edges (some flat.weights)

end Graph

end LedEffect
