import LedEffect.Graph.Basic

/-!
# Topological order

Kahn's algorithm: nodes without unprocessed predecessors are taken in first-in first-out order,
seeded in ascending order. When it stalls, every node left over has a predecessor among the
leftovers, so walking backwards from one of them ends on a cycle, and the least node of that cycle
is named.
-/

namespace LedEffect.Graph

-- Powers are those of the core library, whatever else is in scope.
attribute [local instance (2000)] instPowNat

/-- Unprocessed incoming edges of every node, and the nodes in the order they became free. -/
structure Kahn where
  degrees : Array Nat
  queue : Array Nat

/-- Puts a free node into a queue of `capacity` places. -/
def Kahn.push? (capacity : Nat) (k : Kahn) (node : Nat) : Option Kahn :=
  if k.queue.size < capacity then some { k with queue := k.queue.push node } else none

/-- Takes one incoming edge off a node, which is free when it was the last. -/
def Kahn.release? (capacity : Nat) (k : Kahn) (node : Nat) : Option Kahn := do
  let degree ← k.degrees[node]?
  if degree = 0 then none
  else
    let k := { k with degrees := k.degrees.set! node (degree - 1) }
    if degree = 1 then k.push? capacity node else some k

/-- Takes the node at a place of the queue and releases its neighbours; a place that was never
filled changes nothing. -/
def Kahn.process? (g : Graph) (k : Kahn) (head : Nat) : Option Kahn :=
  match k.queue[head]? with
  | none => some k
  | some node => do (← g.neighbors? node).foldlM (Kahn.release? g.nodeCount) k

/-- Node numbers are 32-bit words. -/
def nodeWord (index : Nat) : Nat := index % 2 ^ (32 : Nat)

/-- The state in which the algorithm stops. -/
def kahn? (g : Graph) : Option Kahn := do
  let degrees ← g.inDegrees?
  let free := (List.range g.nodeCount).filter fun u => degrees[u]? == some 0
  let start ← free.foldlM (fun k u => k.push? g.nodeCount (nodeWord u)) ⟨degrees, #[]⟩
  (List.range g.nodeCount).foldlM (Kahn.process? g) start

/-! ## Blame for a stall -/

/-- Whether a node is left over. -/
def isStuck (degrees : Array Nat) (node : Nat) : Bool := 0 < degrees.getD node 0

/-- For every leftover node its first leftover predecessor. -/
def predecessors? (g : Graph) (degrees : Array Nat) : Option (Array (Option Nat)) :=
  ((List.range g.nodeCount).filter (isStuck degrees)).foldlM
    (fun known u => do
      (← g.neighbors? u).foldlM
        (fun known v => do
          let entry ← known[v]?
          some (if isStuck degrees v ∧ entry = none then known.set! v (some u) else known))
        known)
    (Array.replicate g.nodeCount none)

/-- One step backwards; a node without a predecessor has none. -/
def stepBack? (predecessors : Array (Option Nat)) (node : Nat) : Option Nat :=
  (predecessors[node]?).join

/-- Walks backwards to the first node that is met again. -/
def revisited? (predecessors : Array (Option Nat)) : Nat → Array Bool → Nat → Option Nat
  | 0, _, _ => none
  | fuel + 1, seen, node => do
    if ← seen[node]? then some node
    else revisited? predecessors fuel (seen.set! node true) (← stepBack? predecessors node)

/-- The least node on the way backwards from `node` to `goal`. -/
def lowestUntil? (predecessors : Array (Option Nat)) (goal : Nat) :
    Nat → Nat → Nat → Option Nat
  | 0, _, _ => none
  | fuel + 1, lowest, node => do
    if node = goal then some lowest
    else
      lowestUntil? predecessors goal fuel (min lowest node) (← stepBack? predecessors node)

/-- The least node of a cycle among the leftovers. -/
def cycleNode? (g : Graph) (degrees : Array Nat) : Option Nat :=
  match (List.range g.nodeCount).find? (isStuck degrees) with
  | none => some 0
  | some start => do
    let predecessors ← g.predecessors? degrees
    let turns := g.nodeCount + 1
    let node ← revisited? predecessors turns (Array.replicate g.nodeCount false) (nodeWord start)
    lowestUntil? predecessors node turns node (← stepBack? predecessors node)

/-- The nodes in an order that puts every edge's source before its target, or the cycle that
prevents it. -/
def topoSort (g : Graph) : Except GraphError (Array Nat) := do
  let final ← inBounds g.kahn?
  if final.queue.size < g.nodeCount then
    let node ← inBounds (g.cycleNode? final.degrees)
    .error (.cycle final.queue.size g.nodeCount node)
  else .ok final.queue

end LedEffect.Graph
