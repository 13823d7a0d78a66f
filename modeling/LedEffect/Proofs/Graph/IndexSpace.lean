import LedEffect.Proofs.Graph.Cycle
import LedEffect.Proofs.Graph.EdgeList
import LedEffect.Proofs.Graph.RoundTrip

/-!
# Node numbers and words

Node numbers are 32-bit words, and the search for a cycle truncates the node count to one. Edges always
fit, because the last offset counts them. Nodes are counted in edge lists only, which may have as many as
the greatest word says; arrays may have any number (`nodeCount_unbounded`). With more nodes than that the
search starts from too few of them (`hasCycle_eq_roots`).
-/

namespace LedEffect.Graph

variable {g : Graph} {n u : Nat} {w : UInt32}

lemma nodeWord_eq_self_iff : nodeWord u = u ↔ u ≤ counterLimit := by
  have size : 2 ^ 32 = counterLimit + 1 := rfl
  rw [nodeWord, size, Nat.mod_eq_iff_lt (Nat.succ_ne_zero _), Nat.lt_succ_iff]

/-- The search for a cycle tells whether one of the nodes below the truncated node count leads to
one. -/
lemma hasCycle_eq_roots : ∃ found, g.hasCycle = .ok found ∧
    (found = true ↔ ∃ root < nodeWord g.nodeCount, g.LeadsToCycle root) := by
  classical
  exact ⟨_, by rw [hasCycle, cyclic?_eq_roots]; rfl, decide_eq_true_iff⟩

/-- How the numbers of a graph fit words, and which nodes the search for a cycle starts from. -/
structure WordSized (g : Graph) : Prop where
  edges : g.edgeCount ≤ counterLimit
  count : nodeWord g.nodeCount = g.nodeCount ↔ g.nodeCount ≤ counterLimit
  nodes : (∀ u < g.nodeCount, nodeWord u = u) ↔ g.nodeCount ≤ counterLimit + 1
  roots : ∃ found, g.hasCycle = .ok found ∧
    (found = true ↔ ∃ root < nodeWord g.nodeCount, g.LeadsToCycle root)

lemma wordSized (g : Graph) : WordSized g := by
  refine ⟨g.edgeCount_le, nodeWord_eq_self_iff, ⟨fun fits => ?_, fun small u node => ?_⟩,
    hasCycle_eq_roots⟩
  · by_contra large
    have last := nodeWord_eq_self_iff.1 (fits (counterLimit + 1) (Nat.lt_of_not_le large))
    omega
  · exact nodeWord_eq_self_iff.2 (Nat.lt_succ_iff.1 (node.trans_le small))

/-! ## Graphs with many nodes -/

/-- Arrays of `n` nodes, the first with edges to itself. -/
lemma wellFormed_loops (node : w = 0 ∨ 0 < n) :
    Rows.WellFormed (0 :: List.replicate n w).toArray (Array.replicate w.toNat 0) := by
  refine ⟨by simp, by simp, ?_, ?_, fun v mem => ?_⟩
  · rw [List.toList_toArray, List.pairwise_cons]
    refine ⟨fun _ _ => by simp [UInt32.le_iff_toNat_le], List.pairwise_replicate.2 (.inr ?_)⟩
    exact UInt32.le_refl w
  · cases n with
    | zero =>
      obtain rfl : w = 0 := by simpa using node
      simp
    | succ n => simp
  · rw [Array.toList_replicate, List.mem_replicate] at mem
    obtain ⟨some, rfl⟩ := mem
    rcases node with rfl | node
    · simp at some
    · simpa using node

/-- The graph of `n` nodes of which the first has edges to itself. -/
lemma exists_loops (node : w = 0 ∨ 0 < n) :
    ∃ g, ofRows true (0 :: List.replicate n w).toArray (Array.replicate w.toNat 0) none = .ok g ∧
      g.nodeCount = n ∧ g.weights = none := by
  have fits : Consistent (0 :: List.replicate n w).toArray (Array.replicate w.toNat 0) none :=
    ⟨wellFormed_loops node, nofun⟩
  obtain ⟨g, made⟩ := (exists_ofRows_iff true).2 fits
  obtain ⟨-, offsets, -, weights⟩ := ofRows_eq_ok.1 made
  exact ⟨g, made, by simp [nodeCount, offsets], weights⟩

/-- An edge of the first node to itself is a cycle. -/
lemma adjacent_loop (made : ofRows true (0 :: List.replicate (n + 1) 1).toArray #[0] none = .ok g) :
    g.Adjacent 0 0 := by
  obtain ⟨-, offsets, edges, -⟩ := ofRows_eq_ok.1 made
  have row : g.neighbors? 0 = some [0] := by
    simp [neighbors?, edgeRange?, offsets, edges, slice?]
  rw [Adjacent, Graph.row, row]
  exact List.mem_singleton.2 rfl

/-- A cycle is not noticed when the node count is truncated to nothing. -/
lemma exists_unnoticed (truncated : nodeWord (n + 1) = 0) :
    ∃ g, ofRows true (0 :: List.replicate (n + 1) 1).toArray #[0] none = .ok g ∧
      g.nodeCount = n + 1 ∧ g.Cyclic ∧ g.hasCycle = .ok false := by
  obtain ⟨g, made, nodes, -⟩ := exists_loops (w := 1) (.inr (Nat.succ_pos n))
  obtain ⟨found, run, iff⟩ := @hasCycle_eq_roots g
  have none : found = false := by
    refine Bool.eq_false_iff.2 fun found => ?_
    obtain ⟨root, small, -⟩ := iff.1 found
    rw [nodes, truncated] at small
    cases small
  exact ⟨g, made, nodes, ⟨0, .single (adjacent_loop made)⟩, none ▸ run⟩

/-- A graph of `n` nodes has at most as many edges as the greatest word says. Edge lists make such a graph
just when `n` is at most that, whereas arrays and their descriptions always do. Truncation keeps the node
count just up to the greatest word and the nodes just up to one more, and the search for a cycle starts
from the nodes below the truncated count. -/
theorem nodeCount_unbounded (n : Nat) :
    (∀ g, g.nodeCount = n → WordSized g) ∧
    (∀ pairs g, ofEdges n pairs = .ok g → g.nodeCount = n) ∧
    (∀ edges g, ofWeightedEdges n edges = .ok g → g.nodeCount = n) ∧
    ((∃ pairs g, ofEdges n pairs = .ok g) ↔ n ≤ counterLimit) ∧
    ((∃ edges g, ofWeightedEdges n edges = .ok g) ↔ n ≤ counterLimit) ∧
    ∃ g, g.nodeCount = n ∧ ofRows g.directed g.offsets g.edges g.weights = .ok g ∧
      ofValue g.toValue = .ok g ∧ ofJson g.toJson = .ok g := by
  refine ⟨fun g _ => wordSized g, fun pairs g made => (groups_of_ofEdges made).1.nodeCount,
    fun edges g made => (groups_of_ofWeightedEdges made).1.nodeCount, ⟨?_, fun small => ⟨[], ?_⟩⟩,
    ⟨?_, fun small => ⟨[], ?_⟩⟩, ?_⟩
  · rintro ⟨pairs, g, made⟩
    exact (exists_ofEdges_iff.1 ⟨g, made⟩).2.1
  · exact exists_ofEdges_iff.2 ⟨Nat.zero_le _, small, List.forall_mem_nil _⟩
  · rintro ⟨edges, g, made⟩
    exact (exists_ofWeightedEdges_iff.1 ⟨g, made⟩).2.1
  · exact exists_ofWeightedEdges_iff.2 ⟨Nat.zero_le _, small, by simp [Inside], by simp⟩
  · obtain ⟨g, -, nodes, unweighted⟩ := exists_loops (n := n) (w := 0) (.inl rfl)
    exact ⟨g, nodes, ofRows_self g, ofValue_toValue_of_unweighted unweighted,
      ofJson_toJson_of_unweighted unweighted⟩

/-- The cycle of two nodes is found. -/
theorem nodeCount_pair : ∃ g, ofEdges 2 [(0, 1), (1, 0)] = .ok g ∧ g.nodeCount = 2 ∧
    nodeWord g.nodeCount = g.nodeCount ∧ g.hasCycle = .ok true := by
  obtain ⟨g, made, found⟩ := exists_of_any (x := ofEdges 2 [(0, 1), (1, 0)])
    (p := fun g => g.hasCycle.toOption = some true) (by decide +kernel)
  obtain ⟨sized, lists, -⟩ := nodeCount_unbounded 2
  have nodes := lists _ g made
  have sized := sized g nodes
  have fits : nodeWord g.nodeCount = g.nodeCount := sized.count.2 (by rw [nodes]; decide)
  obtain ⟨answer, run, -⟩ := sized.roots
  rw [run] at found
  exact ⟨g, made, nodes, fits, by simpa [Except.toOption, run] using found⟩

/-- An edge list without edges makes a graph of 2^32 - 1 nodes, and one whose first edge leaves these
nodes is blamed for the edge. Arrays make a graph of 2^32 nodes, and its cycle is not found. -/
theorem nodes_past_limit :
    (∃ g, ofEdges counterLimit [] = .ok g ∧ ¬ g.nodeCount ≤ counterLimit - 1) ∧
    ofEdges counterLimit [(4294967295, 0)] =
      .error (.invalid (.endpointOutOfRange 4294967295 0 counterLimit)) ∧
    ∃ g, ofRows true (0 :: List.replicate (counterLimit + 1) 1).toArray #[0] none = .ok g ∧
      ¬ g.nodeCount ≤ counterLimit - 1 ∧ g.Cyclic ∧ g.hasCycle = .ok false := by
  refine ⟨?_, ?_, ?_⟩
  · obtain ⟨g, made⟩ := exists_ofEdges_iff.2
      ⟨Nat.zero_le _, Nat.le_refl counterLimit, List.forall_mem_nil _⟩
    have nodes := (groups_of_ofEdges made).1.nodeCount
    exact ⟨g, made, by rw [nodes]; decide⟩
  · rfl
  · obtain ⟨g, made, nodes, cyclic, unnoticed⟩ := exists_unnoticed (n := counterLimit) (by decide)
    exact ⟨g, made, by rw [nodes]; omega, cyclic, unnoticed⟩

end LedEffect.Graph
