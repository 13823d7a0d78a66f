import LedEffect.Proofs.Graph.BreadthFirst
import LedEffect.Proofs.Graph.Degrees
import LedEffect.Proofs.Graph.DepthFirst
import LedEffect.Proofs.Graph.Described
import LedEffect.Proofs.Graph.ShortestPath

/-!
# Answers of a graph

The checks that a graph has passed are enough for all that is asked of it later: with fewer than 2^32
nodes no index leaves its array and no counter its word (`Answers`). So a JSON value is either refused
or read as a graph that answers (`ofValue_accepts`).
-/

namespace LedEffect.Graph

variable {g : Graph}

/-- What a graph answers when every index stays in its array and every counter in its word. -/
structure Answers (g : Graph) : Prop where
  node : ∀ u < g.nodeCount, ∃ first last, g.edgeRange? u = some (first, last) ∧ first ≤ last ∧
    last ≤ g.edgeCount ∧ g.outDegree? u = some (last - first) ∧
    (∃ targets, g.neighbors? u = some targets ∧ ∀ v ∈ targets, v < g.nodeCount) ∧
    ∃ weights, g.edgeWeights? u = some weights
  edge : ∀ edge < g.edgeCount, ∃ w, g.weightAt? edge = some w
  inDegrees : ∃ degrees, g.inDegrees? = some degrees
  searches : ∀ source < g.nodeCount, (∃ hops, g.bfs source = .ok hops) ∧
    (∃ order, g.dfs source = .ok order) ∧ ∃ distances, g.dijkstra source = .ok distances
  outside : ∀ source, g.nodeCount ≤ source →
    g.bfs source = .error (.sourceOutOfRange source g.nodeCount) ∧
    g.dfs source = .error (.sourceOutOfRange source g.nodeCount) ∧
    g.dijkstra source = .error (.sourceOutOfRange source g.nodeCount)
  topoSort : (∃ order, g.topoSort = .ok order) ∨
    ∃ sorted node, g.topoSort = .error (.cycle sorted g.nodeCount node)
  hasCycle : ∃ found, g.hasCycle = .ok found
  health : (∃ summary, g.health = .ok summary) ∧
    g.outDegrees.map some = (List.range g.nodeCount).map g.outDegree?

lemma exists_edgeWeights? {u : Nat} (node : u < g.nodeCount) :
    ∃ weights, g.edgeWeights? u = some weights := by
  have le : g.start u ≤ g.start (u + 1) := start_mono node (Nat.le_succ u)
  have bound : g.start (u + 1) ≤ g.edgeCount := start_le_edgeCount node
  rw [edgeWeights?, edgeRange?_eq node]
  cases weighted : g.weights with
  | none => exact ⟨_, rfl⟩
  | some ws =>
    obtain ⟨size, -⟩ := weights_sound weighted
    simp [slice?, le, size, bound]

lemma searches_outside {source : Nat} (outside : g.nodeCount ≤ source) :
    g.bfs source = .error (.sourceOutOfRange source g.nodeCount) ∧
      g.dfs source = .error (.sourceOutOfRange source g.nodeCount) ∧
      g.dijkstra source = .error (.sourceOutOfRange source g.nodeCount) := by
  have refused : g.checkSource source = .error (.sourceOutOfRange source g.nodeCount) :=
    if_neg (Nat.not_lt.2 outside)
  rw [bfs, dfs, dijkstra, dijkstraBy, refused]
  exact ⟨rfl, rfl, rfl⟩

/-- A graph of fewer than 2^32 nodes answers whatever is asked of it. -/
lemma answers (small : g.nodeCount < 2 ^ 32) : Answers g := by
  classical
  refine ⟨fun u node => ?_, fun edge bound => ?_, ?_, fun source node => ⟨?_, ?_, ?_⟩,
    fun source => searches_outside, ?_, ⟨_, hasCycle_eq small⟩,
    ⟨_, bind_eq_ok.2 ⟨_, isDag_eq small, rfl⟩⟩, ?_⟩
  · refine ⟨_, _, edgeRange?_eq node, start_mono node (Nat.le_succ u), start_le_edgeCount node, ?_,
      ⟨_, neighbors?_eq_row node, fun v mem => Adjacent.target mem⟩, exists_edgeWeights? node⟩
    rw [outDegree?_eq node, length_row node]
  · obtain ⟨w, weight, -⟩ := exists_weightAt? bound
    exact ⟨w, weight⟩
  · obtain ⟨degrees, run, -⟩ := g.inDegrees?_eq
    exact ⟨degrees, run⟩
  · obtain ⟨hops, run, -⟩ := bfs_spec small node
    exact ⟨hops, run⟩
  · obtain ⟨order, run, -⟩ := dfs_spec node
    exact ⟨order, run⟩
  · obtain ⟨distances, run, -⟩ := dijkstra_spec node
    exact ⟨distances, run⟩
  · rcases topoSort_spec small with ⟨order, run, -⟩ | ⟨k, least, -, run, -⟩
    · exact .inl ⟨order, run⟩
    · exact .inr ⟨_, least, run⟩
  · rw [outDegrees_eq, List.map_map]
    exact List.map_congr_left fun u mem => (outDegree?_eq (List.mem_range.1 mem)).symm

/-- A value is read as a graph just when its members describe arrays that fit together. The graph
holds exactly those, and with fewer than 2^32 nodes it answers whatever is asked of it. -/
theorem ofValue_accepts (value : Json) :
    ((∃ g, ofValue value = .ok g) ↔ ∃ members directed offsets edges weights,
      value = .object members ∧ Describes members directed offsets edges weights ∧
      Consistent offsets edges weights) ∧
    ∀ g, ofValue value = .ok g →
      (∃ members, value = .object members ∧
        Describes members g.directed g.offsets g.edges g.weights) ∧
      (g.nodeCount < 2 ^ 32 → Answers g) := by
  refine ⟨⟨?_, ?_⟩, fun g read => ⟨ofValue_eq_ok.1 read, answers⟩⟩
  · rintro ⟨g, read⟩
    obtain ⟨members, object, described⟩ := ofValue_eq_ok.1 read
    exact ⟨members, _, _, _, _, object, described, fault?_eq_none_iff.1 g.checked⟩
  · rintro ⟨members, directed, offsets, edges, weights, object, described, consistent⟩
    obtain ⟨g, made⟩ := (exists_ofRows_iff directed).2 consistent
    obtain ⟨rfl, rfl, rfl, rfl⟩ := ofRows_eq_ok.1 made
    exact ⟨g, ofValue_eq_ok.2 ⟨members, object, described⟩⟩

/-- The description of a ring of three nodes, its weights null. -/
def ring : Json :=
  .object [("weights", .null), ("edges", .array [.integer 1, .integer 2, .integer 0]),
    ("offsets", .array [.integer 0, .integer 1, .integer 2, .integer 3]), ("directed", .bool true)]

/-- The ring is accepted with the arrays of its description, and answers. -/
theorem ring_accepted : ∃ g, ofValue ring = .ok g ∧ g.nodeCount < 2 ^ 32 ∧ g.nodeCount = 3 ∧
    (∃ members, ring = .object members ∧
      Describes members g.directed g.offsets g.edges g.weights) ∧ Answers g := by
  obtain ⟨g, read, nodes⟩ := exists_of_any (x := ofValue ring) (p := fun g => g.nodeCount = 3)
    (by decide)
  have nodes := of_decide_eq_true nodes
  have small : g.nodeCount < 2 ^ 32 := by omega
  obtain ⟨described, answers⟩ := (ofValue_accepts ring).2 g read
  exact ⟨g, read, small, nodes, described, answers small⟩

end LedEffect.Graph
