import LedEffect.Graph.Basic
import LedEffect.Graph.Heap

/-!
# Shortest paths

Dijkstra's search for non-negative weights, which are added up by `sum`. An improved distance enters
the heap beside the old one; an entry of a node that was settled before is discarded.
-/

namespace LedEffect.Graph

/-- Distances so far, the settled nodes, and the entries still to be settled. -/
structure Settling where
  distances : Array Binary64
  settled : Array Bool
  heap : Heap

variable (g : Graph) (sum : Binary64 → Binary64 → Binary64)

/-- Offers the target of an edge the distance by way of the edge. -/
def Settling.relax? (distance : Binary64) (s : Settling) (edge : Nat) : Option Settling := do
  let target ← (g.edges[edge]?).map UInt32.toNat
  let candidate := sum distance (← g.weightAt? edge)
  let known ← s.distances[target]?
  if candidate.lt known then
    some { s with
      distances := s.distances.set! target candidate
      heap := s.heap.insert ⟨candidate, target⟩ }
  else some s

/-- Settles the entries of the heap in their order. -/
def settle? : Nat → Settling → Option (Array Binary64)
  | fuel, s =>
    match s.heap.pop? with
    | none => some s.distances
    | some (entry, heap) =>
      match fuel with
      | 0 => none
      | fuel + 1 => do
        let s := { s with heap := heap }
        let done ← s.settled[entry.node]?
        if done then settle? fuel s
        else
          let s := { s with settled := s.settled.set! entry.node true }
          let (first, last) ← g.edgeRange? entry.node
          let s ← (List.range' first (last - first)).foldlM (Settling.relax? g sum entry.distance) s
          settle? fuel s

/-- The least sum of weights from a node to every node. Each edge enters at most one entry. -/
def distances? (source : Nat) : Option (Array Binary64) := do
  let blank := Array.replicate g.nodeCount (Binary64.infinite false)
  if source < g.nodeCount then
    settle? g sum (g.edgeCount + 1)
      ⟨blank.set! source .zero, Array.replicate g.nodeCount false,
        Heap.leaf.insert ⟨.zero, source⟩⟩
  else none

/-- Shortest distances from a source, for a way to add weights up; infinity for nodes out of reach. -/
def dijkstraBy (source : Nat) : Except GraphError (Array Binary64) := do
  g.checkSource source
  inBounds (g.distances? sum source)

/-- Shortest distances from a source, with the weights added up as numbers. -/
def dijkstra (source : Nat) : Except GraphError (Array Binary64) := g.dijkstraBy (· + ·) source

end LedEffect.Graph
