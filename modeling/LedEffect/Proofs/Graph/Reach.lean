import LedEffect.Proofs.Graph.Cycle

/-!
# Reachability

What searches of a graph look for (`Graph.Reaches`), and what bounds their work: a node hands its
edges on once, when it is marked (`pending_mark`).
-/

namespace LedEffect.Graph

variable {g : Graph} {marks : Array Bool} {u v : Nat}

/-- Whether a node reaches another one along edges. -/
def Reaches (g : Graph) : Nat → Nat → Prop := Relation.ReflTransGen g.Adjacent

/-- The number of edges that leave unmarked nodes. -/
def pending (g : Graph) (marks : Array Bool) : Nat :=
  ∑ u ∈ (Finset.range g.nodeCount).filter (marks[·]? = some false), (g.row u).length

lemma pending_blank (g : Graph) : g.pending (Array.replicate g.nodeCount false) = g.edgeCount := by
  have all : (Finset.range g.nodeCount).filter
      ((Array.replicate g.nodeCount false)[·]? = some false) = Finset.range g.nodeCount := by
    refine Finset.filter_true_of_mem fun u mem => ?_
    rw [Array.getElem?_replicate, if_pos (Finset.mem_range.1 mem)]
  rw [pending, all, sum_length_row (Nat.le_refl _), start_nodeCount]

/-- Marking a node takes its edges off the pending ones. -/
lemma pending_mark (node : u < g.nodeCount) (fresh : marks[u]? = some false) :
    g.pending (marks.set! u true) + (g.row u).length = g.pending marks := by
  have mem : u ∈ (Finset.range g.nodeCount).filter (marks[·]? = some false) := by
    simp [node, fresh]
  rw [pending, filter_set!_eq_erase (by decide), pending, Finset.sum_erase_add _ _ mem]

end LedEffect.Graph
