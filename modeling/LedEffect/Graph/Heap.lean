import LedEffect.Number.Binary64

/-!
# A heap of tentative distances

A leftist heap: the entry at a root precedes all entries below it, and the path down the right side
is the shortest one, so that merging two heaps walks short paths.
-/

namespace LedEffect.Graph

/-- A node with a tentative distance. -/
structure Tentative where
  distance : Binary64
  node : Nat

/-- Nearer entries precede; of two equally near ones the lower node does. -/
def Tentative.precedes (a b : Tentative) : Bool :=
  match a.distance.totalCompare b.distance with
  | .lt => true
  | .gt => false
  | .eq => a.node ≤ b.node

/-- A heap of tentative distances; `rank` is the length of the path down the right side. -/
inductive Heap
  | leaf
  | node (rank : Nat) (entry : Tentative) (left right : Heap)

namespace Heap

def rank : Heap → Nat
  | leaf => 0
  | node rank .. => rank

/-- The number of entries. -/
def size : Heap → Nat
  | leaf => 0
  | node _ _ left right => left.size + right.size + 1

/-- A heap of an entry and two heaps whose entries it precedes. -/
def join (entry : Tentative) (a b : Heap) : Heap :=
  if b.rank ≤ a.rank then node (b.rank + 1) entry a b else node (a.rank + 1) entry b a

/-- The entries of two heaps. -/
def merge : Heap → Heap → Heap
  | leaf, b => b
  | a, leaf => a
  | node r x left right, node s y left' right' =>
    if x.precedes y then join x left (merge right (node s y left' right'))
    else join y left' (merge (node r x left right) right')
termination_by a b => a.size + b.size
decreasing_by all_goals simp only [size]; omega

def insert (entry : Tentative) (h : Heap) : Heap := merge (node 1 entry leaf leaf) h

/-- The first entry and the heap of the others. -/
def pop? : Heap → Option (Tentative × Heap)
  | leaf => none
  | node _ entry left right => some (entry, merge left right)

end Heap

end LedEffect.Graph
