import LedEffect.Graph.Order

/-!
# Cycles

A depth-first search with three colours. A node is gray from its entry until all nodes reached from
it are done; an edge to a gray node closes a cycle. The stack holds an exit mark below the entries
of a node's neighbours.
-/

namespace LedEffect.Graph

inductive Colour
  | white
  | gray
  | black
deriving DecidableEq

/-- What is still to be done: enter a node, or leave it after its neighbours. -/
inductive Task
  | enter (node : Nat)
  | exit (node : Nat)

/-- The tasks of the white neighbours among `nodes` on top of a stack, or nothing when one of them
is gray. The last neighbour is looked at first. -/
def pushNeighbours? (colours : Array Colour) (stack : List Task) :
    List Nat → Option (Option (List Task))
  | [] => some (some stack)
  | v :: reversed => do
    match ← colours[v]? with
    | .gray => some none
    | .white => pushNeighbours? colours (.enter v :: stack) reversed
    | .black => pushNeighbours? colours stack reversed

/-- Works off a stack of tasks. The answer is nothing when an edge closes a cycle, and the colours
at the end otherwise. -/
def explore? (g : Graph) : Nat → List Task → Array Colour → Option (Option (Array Colour))
  | _, [], colours => some (some colours)
  | 0, _ :: _, _ => none
  | fuel + 1, .exit u :: stack, colours =>
    if u < colours.size then explore? g fuel stack (colours.set! u .black) else none
  | fuel + 1, .enter u :: stack, colours => do
    if (← colours[u]?) ≠ .white then explore? g fuel stack colours
    else
      let colours := colours.set! u .gray
      match ← pushNeighbours? colours (.exit u :: stack) (← g.neighbors? u).reverse with
      | none => some none
      | some stack => explore? g fuel stack colours

/-- Explores from every node of a list that is still white; tells whether a cycle was found. -/
def exploreAll? (g : Graph) (colours : Array Colour) : List Nat → Option Bool
  | [] => some false
  | root :: roots => do
    if (← colours[root]?) ≠ .white then exploreAll? g colours roots
    else
      match ← g.explore? (2 * g.nodeCount + g.edgeCount + 1) [.enter root] colours with
      | none => some true
      | some colours => exploreAll? g colours roots

/-- Whether the graph has a directed cycle, or nothing when an index left its array. -/
def cyclic? (g : Graph) : Option Bool :=
  g.exploreAll? (Array.replicate g.nodeCount .white) (List.range (nodeWord g.nodeCount))

/-- Whether the graph has a directed cycle. A node with an edge to itself is one. -/
def hasCycle (g : Graph) : Except GraphError Bool := inBounds g.cyclic?

def isDag (g : Graph) : Except GraphError Bool := do return !(← g.hasCycle)

end LedEffect.Graph
