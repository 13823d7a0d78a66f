import LedEffect.Graph.Basic

/-!
# Breadth-first and depth-first search

Both searches work on an explicit queue or stack and check every index they use. The queue has room
for each node once; the stack is bounded by the edges, because a node pushes its neighbours only on
its first visit.
-/

namespace LedEffect.Graph

/-- The distance of a node that the source does not reach. -/
def unreachable : Nat := counterLimit

/-! ## Breadth-first search -/

/-- Distances so far, and the nodes reached in the order of their discovery. -/
structure Frontier where
  distances : Array Nat
  queue : Array Nat

/-- Enters a node at a distance unless it was reached before. A queue of `capacity` places must not
overflow. -/
def Frontier.reach? (capacity distance : Nat) (f : Frontier) (node : Nat) : Option Frontier := do
  let known ← f.distances[node]?
  if known = unreachable then
    if f.queue.size < capacity then
      some ⟨f.distances.set! node distance, f.queue.push node⟩
    else none
  else some f

/-- Takes the node at a place of the queue and reaches its neighbours; a place that was never
filled changes nothing. -/
def Frontier.expand? (g : Graph) (f : Frontier) (head : Nat) : Option Frontier :=
  match f.queue[head]? with
  | none => some f
  | some node => do
    let distance ← f.distances[node]?
    let next ← increment? distance
    (← g.neighbors? node).foldlM (Frontier.reach? g.nodeCount next) f

/-- The least number of edges from a node to every node. -/
def hops? (g : Graph) (source : Nat) : Option (Array Nat) := do
  let blank : Frontier := ⟨Array.replicate g.nodeCount unreachable, #[]⟩
  let start ← blank.reach? g.nodeCount 0 source
  let final ← (List.range g.nodeCount).foldlM (Frontier.expand? g) start
  some final.distances

/-- Breadth-first distances from a source, counted in edges. -/
def bfs (g : Graph) (source : Nat) : Except GraphError (Array Nat) := do
  g.checkSource source
  inBounds (g.hops? source)

/-! ## Depth-first search -/

/-- Visits the nodes of a stack, each on its first turn, with the neighbours of a visited node put
on top in their stored order. -/
def visit? (g : Graph) : Nat → List Nat → Array Bool → Array Nat → Option (Array Nat)
  | _, [], _, order => some order
  | 0, _ :: _, _, _ => none
  | fuel + 1, node :: stack, visited, order => do
    let seen ← visited[node]?
    if seen then visit? g fuel stack visited order
    else
      let visited := visited.set! node true
      let fresh ← (← g.neighbors? node).filterM fun v => visited[v]?.map (!·)
      visit? g fuel (fresh ++ stack) visited (order.push node)

/-- The nodes in the order of their first visit. Each edge puts at most one node on the stack. -/
def preorder? (g : Graph) (source : Nat) : Option (Array Nat) :=
  g.visit? (g.edgeCount + 1) [source] (Array.replicate g.nodeCount false) #[]

/-- Depth-first preorder from a source. -/
def dfs (g : Graph) (source : Nat) : Except GraphError (Array Nat) := do
  g.checkSource source
  inBounds (g.preorder? source)

end LedEffect.Graph
