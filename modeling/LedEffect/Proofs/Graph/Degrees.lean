import LedEffect.Proofs.Graph.Acyclic
import Mathlib.Algebra.Order.BigOperators.Group.List
import Mathlib.Order.Bounds.Basic

/-!
# Out-degrees

The out-degrees of all nodes add up to the number of edges, so the number of edges lies between the
products of the number of nodes with the least and the greatest of them. What the summary of a graph
with nodes says is `Summarizes`.
-/

namespace LedEffect.Graph

variable {g : Graph} {h : GraphHealth} {u : Nat}

/-- The out-degrees that occur in a graph. -/
def Degrees (g : Graph) : Set Nat := {d | ∃ u, g.outDegree? u = some d}

lemma outDegree?_eq_none (outside : g.nodeCount ≤ u) : g.outDegree? u = none := by
  have size := g.size_offsets
  have missing : g.offsets[u + 1]? = none := Array.getElem?_eq_none (by omega)
  simp [outDegree?, edgeRange?, missing]

lemma outDegrees_eq (g : Graph) :
    g.outDegrees = (List.range g.nodeCount).map fun u => (g.row u).length := by
  have size := g.size_offsets
  refine List.ext_getElem (by simp [outDegrees, size]) fun u listed _ => ?_
  have node : u < g.nodeCount := by simpa [outDegrees, size] using listed
  have bound : u < g.offsets.size := by omega
  have bound' : u + 1 < g.offsets.size := by omega
  simp [outDegrees, length_row node, start, bound, bound']

lemma mem_outDegrees {d : Nat} : d ∈ g.outDegrees ↔ d ∈ g.Degrees := by
  rw [outDegrees_eq, List.mem_map]
  constructor
  · rintro ⟨u, node, rfl⟩
    exact ⟨u, outDegree?_eq (List.mem_range.1 node)⟩
  · rintro ⟨u, degree⟩
    rcases Nat.lt_or_ge u g.nodeCount with node | outside
    · rw [outDegree?_eq node] at degree
      exact ⟨u, List.mem_range.2 node, Option.some_inj.1 degree⟩
    · rw [outDegree?_eq_none outside] at degree
      cases degree

@[simp] lemma length_outDegrees (g : Graph) : g.outDegrees.length = g.nodeCount := by
  rw [outDegrees_eq, List.length_map, List.length_range]

/-- Every edge leaves one node. -/
lemma sum_outDegrees (g : Graph) : g.outDegrees.sum = g.edgeCount := by
  have flat := congrArg List.length g.flatMap_row
  rwa [List.length_flatMap, List.length_map, Array.length_toList, ← outDegrees_eq] at flat

lemma least_mul_le {d : Nat} (least : IsLeast g.Degrees d) : d * g.nodeCount ≤ g.edgeCount := by
  have each := List.card_nsmul_le_sum g.outDegrees d fun x mem => least.2 (mem_outDegrees.1 mem)
  rwa [sum_outDegrees, length_outDegrees, smul_eq_mul, Nat.mul_comm] at each

lemma le_greatest_mul {d : Nat} (greatest : IsGreatest g.Degrees d) :
    g.edgeCount ≤ d * g.nodeCount := by
  have each := List.sum_le_card_nsmul g.outDegrees d fun x mem => greatest.2 (mem_outDegrees.1 mem)
  rwa [sum_outDegrees, length_outDegrees, smul_eq_mul, Nat.mul_comm] at each

/-! ## Summaries -/

/-- What the summary of a graph with nodes says about it. -/
structure Summarizes (h : GraphHealth) (g : Graph) : Prop where
  nodeCount : h.nodeCount = g.nodeCount
  edgeCount : h.edgeCount = g.edgeCount
  least : IsLeast g.Degrees h.minOutDegree
  greatest : IsGreatest g.Degrees h.maxOutDegree
  isDag : h.isDag = true ↔ ¬ g.Cyclic

/-- Every graph has a summary. -/
lemma exists_health (small : g.nodeCount < 2 ^ 32) : ∃ h, g.health = .ok h := by
  classical
  exact ⟨_, bind_eq_ok.2 ⟨_, isDag_eq small, rfl⟩⟩

/-- The summary of a graph with nodes tells its size, its extreme degrees and whether it has cycles. -/
theorem summarizes_of_health (small : g.nodeCount < 2 ^ 32) (nodes : 0 < g.nodeCount)
    (run : g.health = .ok h) : Summarizes h g := by
  classical
  obtain ⟨dag, isDag, eq⟩ := bind_eq_ok.1 run
  obtain rfl := pure_eq_ok.1 eq
  have some_degree : g.outDegrees ≠ [] := fun none => by
    rw [← length_outDegrees, none] at nodes
    exact Nat.lt_irrefl _ nodes
  refine ⟨rfl, rfl, ?_, ?_, ?_⟩
  · obtain ⟨d, least⟩ := Option.ne_none_iff_exists'.1 (mt List.min?_eq_none_iff.1 some_degree)
    obtain ⟨occurs, bound⟩ := List.min?_eq_some_iff.1 least
    simp only [least, Option.getD_some]
    exact ⟨mem_outDegrees.1 occurs, fun x mem => bound x (mem_outDegrees.2 mem)⟩
  · obtain ⟨d, greatest⟩ := Option.ne_none_iff_exists'.1 (mt List.max?_eq_none_iff.1 some_degree)
    obtain ⟨occurs, bound⟩ := List.max?_eq_some_iff.1 greatest
    simp only [greatest, Option.getD_some]
    exact ⟨mem_outDegrees.1 occurs, fun x mem => bound x (mem_outDegrees.2 mem)⟩
  · rw [isDag_eq small] at isDag
    obtain rfl := Except.ok.inj isDag
    simp

end LedEffect.Graph
