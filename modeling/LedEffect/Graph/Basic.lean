import LedEffect.Graph.Error

/-!
# Graphs in compressed rows

A graph is two flat arrays: the edges' targets grouped by source, and for each node the offset at
which its group starts. Node `u` reads its targets between `offsets[u]` and `offsets[u + 1]`.
Weights, when there are any, run parallel to the targets. A `Graph` carries the evidence that its
arrays were checked. Accessors answer nothing for an index outside the arrays.
-/

namespace LedEffect

-- Powers are those of the core library, whatever else is in scope.
attribute [local instance (2000)] instPowNat

namespace Rows

/-- The first offset below the one before it, with its index. -/
def decreasing? (index : Nat) (previous : UInt32) : List UInt32 → Option GraphFault
  | [] => none
  | offset :: rest =>
    if offset < previous then some (.decreasing index offset previous)
    else decreasing? (index + 1) offset rest

/-- The first element of a list with a property, with its index. -/
def findIndexed? {α : Type} (p : α → Bool) (index : Nat) : List α → Option (Nat × α)
  | [] => none
  | x :: xs => if p x then some (index, x) else findIndexed? p (index + 1) xs

/-- The first fault of the weights of a graph with `count` edges. -/
def weightFault? (weights : Array Binary64) (count : Nat) : Option GraphFault :=
  if weights.size ≠ count then some (.weightCount weights.size count)
  else
    (findIndexed? (fun x => !x.isFinite || x.lt .zero) 0 weights.toList).map fun (i, x) =>
      .badWeight i x

/-- The first fault of the three arrays of a graph: offsets that do not start at zero, decrease or
do not end at the number of edges, a target that is no node, or bad weights. -/
def fault? (offsets edges : Array UInt32) (weights : Option (Array Binary64)) :
    Option GraphFault :=
  match offsets.toList with
  | [] => some .noOffsets
  | first :: rest =>
    if first ≠ 0 then some (.firstOffset first)
    else
      match decreasing? 0 first rest with
      | some fault => some fault
      | none =>
        let last := rest.getLastD first
        if last.toNat ≠ edges.size then some (.lastOffset last edges.size)
        else
          let nodes := rest.length
          match findIndexed? (fun v => nodes ≤ v.toNat) 0 edges.toList with
          | some (i, v) => some (.targetOutOfRange i v nodes)
          | none => weights.bind (weightFault? · edges.size)

end Rows

/-- A directed graph in compressed rows. -/
structure Graph where
  directed : Bool
  offsets : Array UInt32
  edges : Array UInt32
  weights : Option (Array Binary64)
  checked : Rows.fault? offsets edges weights = none

namespace Graph

/-- The graph of three arrays, if they have no fault. -/
def ofRows (directed : Bool) (offsets edges : Array UInt32) (weights : Option (Array Binary64)) :
    Except GraphError Graph :=
  match h : Rows.fault? offsets edges weights with
  | none => .ok ⟨directed, offsets, edges, weights, h⟩
  | some fault => .error (.invalid fault)

variable (g : Graph)

def nodeCount : Nat := g.offsets.size - 1

def edgeCount : Nat := g.edges.size

/-- The indices of a node's edges in the flat arrays: the first, and the one after the last. -/
def edgeRange? (node : Nat) : Option (Nat × Nat) := do
  let first ← g.offsets[node]?
  let last ← g.offsets[node + 1]?
  some (first.toNat, last.toNat)

/-- The part of an array between two indices. -/
def slice? {α : Type} (a : Array α) (range : Nat × Nat) : Option (List α) :=
  if range.1 ≤ range.2 ∧ range.2 ≤ a.size then some (a.extract range.1 range.2).toList else none

/-- The targets of a node's edges, in their stored order. -/
def neighbors? (node : Nat) : Option (List Nat) := do
  let targets ← slice? g.edges (← g.edgeRange? node)
  some (targets.map UInt32.toNat)

def outDegree? (node : Nat) : Option Nat := do
  let (first, last) ← g.edgeRange? node
  if first ≤ last then some (last - first) else none

/-- The weight of the edge at an index; edges without weights weigh one. -/
def weightAt? (edge : Nat) : Option Binary64 :=
  match g.weights with
  | none => some 1
  | some weights => weights[edge]?

/-- The weights of a node's edges, if the graph has weights. -/
def edgeWeights? (node : Nat) : Option (Option (List Binary64)) := do
  let range ← g.edgeRange? node
  match g.weights with
  | none => some none
  | some weights => (slice? weights range).map some

/-- The greatest number that fits a 32-bit counter. -/
def counterLimit : Nat := 2 ^ (32 : Nat) - 1

/-- A 32-bit counter raised by one. -/
def increment? (counter : Nat) : Option Nat :=
  if counter < counterLimit then some (counter + 1) else none

/-- The counters with the one at an index raised by one. -/
def bump? (counters : Array Nat) (index : Nat) : Option (Array Nat) := do
  let counter ← counters[index]?
  let raised ← increment? counter
  some (counters.set! index raised)

/-- The number of edges into every node, or nothing if a counter overflows. -/
def inDegrees? : Option (Array Nat) :=
  g.edges.toList.foldlM (fun counters v => bump? counters v.toNat) (Array.replicate g.nodeCount 0)

/-- An answer that is missing only when an index left its array. -/
def inBounds {α : Type} : Option α → Except GraphError α
  | some x => .ok x
  | none => .error .outOfBounds

/-- Refuses a source that is no node. -/
def checkSource (source : Nat) : Except GraphError Unit :=
  if source < g.nodeCount then .ok () else .error (.sourceOutOfRange source g.nodeCount)

/-- Whether two graphs have the same arrays, weights compared as numbers. -/
def same (g h : Graph) : Bool :=
  g.directed == h.directed && g.offsets == h.offsets && g.edges == h.edges &&
    match g.weights, h.weights with
    | none, none => true
    | some a, some b => a.size == b.size && (a.zip b).all fun (x, y) => x.eq y
    | _, _ => false

end Graph

end LedEffect
