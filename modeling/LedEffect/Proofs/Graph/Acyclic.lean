import LedEffect.Graph.Health
import LedEffect.Proofs.Graph.Cycle
import LedEffect.Proofs.Graph.Stall

/-!
# The two acyclicity checks

Kahn's algorithm returns a topological order or blames a cycle (`topoSort_spec`), and never anything
else. Together with the search this makes the two checks, which share no code, answer alike.
-/

namespace LedEffect.Graph

variable {g : Graph}

/-- A topological order leaves no room for a cycle. -/
lemma TopologicalOrder.acyclic {order : List Nat} (sorted : TopologicalOrder g order) :
    ¬ g.Cyclic := by
  have forward : ∀ u v, Relation.TransGen g.Adjacent u v → order.idxOf u < order.idxOf v := by
    intro u v path
    induction path with
    | single edge => exact sorted.forward _ _ edge
    | tail _ edge ih => exact ih.trans (sorted.forward _ _ edge)
  rintro ⟨u, cycle⟩
  exact Nat.lt_irrefl _ (forward u u cycle)

/-- Sorting ends in a topological order, or names the least node of a cycle. -/
lemma topoSort_spec (small : g.nodeCount < 2 ^ 32) :
    (∃ order, g.topoSort = .ok order ∧ TopologicalOrder g order.toList) ∨
      ∃ k least, Sorting g k.queue.toList [] k ∧
        g.topoSort = .error (.cycle k.queue.size g.nodeCount least) ∧
        Relation.TransGen (g.LeftoverEdge k.degrees least) least least := by
  obtain ⟨k, run, inv⟩ := kahn?_spec small
  rcases Nat.lt_or_ge k.queue.size g.nodeCount with short | full
  · obtain ⟨least, stop, cycle⟩ := inv.stalled small run short
    exact .inr ⟨k, least, inv, stop, cycle⟩
  · left
    refine ⟨k.queue, ?_, inv.topologicalOrder full⟩
    simp [topoSort, run, inBounds, Nat.not_lt.2 full, bind, Except.bind]

lemma cyclic_of_leftover {degrees : Array Nat} {least : Nat}
    (cycle : Relation.TransGen (g.LeftoverEdge degrees least) least least) : g.Cyclic :=
  ⟨least, cycle.lift id fun _ _ edge => edge.1⟩

/-- The order that sorting returns is topological. -/
lemma TopologicalOrder.of_topoSort {order : Array Nat} (small : g.nodeCount < 2 ^ 32)
    (run : g.topoSort = .ok order) : TopologicalOrder g order.toList := by
  rcases topoSort_spec small with ⟨order', run', sorted⟩ | ⟨k, least, -, run', -⟩
  · obtain rfl := Except.ok.inj (run.symm.trans run')
    exact sorted
  · cases run.symm.trans run'

lemma exists_topoSort (small : g.nodeCount < 2 ^ 32) (acyclic : ¬ g.Cyclic) :
    ∃ order, g.topoSort = .ok order := by
  rcases topoSort_spec small with ⟨order, run, -⟩ | ⟨k, least, -, -, cycle⟩
  · exact ⟨order, run⟩
  · exact absurd (cyclic_of_leftover cycle) acyclic

open Classical in
/-- The search tells whether there is a cycle. -/
lemma hasCycle_eq (small : g.nodeCount < 2 ^ 32) : g.hasCycle = .ok (decide g.Cyclic) := by
  simp [hasCycle, cyclic?_eq small, inBounds]

open Classical in
lemma isDag_eq (small : g.nodeCount < 2 ^ 32) : g.isDag = .ok (!decide g.Cyclic) := by
  simp [isDag, hasCycle_eq small, bind, Except.bind, pure, Except.pure]

/-- The depth-first search finds a cycle exactly when there is one, and exactly when sorting reports
one; the answers of both checks and of the health summary are the same. -/
theorem hasCycle_iff_topoSort_fails (g : Graph) (small : g.nodeCount < 2 ^ 32) :
    (g.hasCycle = .ok true ↔ g.Cyclic) ∧
      (g.Cyclic ↔ ∃ sorted total node, g.topoSort = .error (.cycle sorted total node)) ∧
      ∃ dag : Bool, g.hasCycle = .ok (!dag) ∧ g.isDag = .ok dag ∧
        g.health.map GraphHealth.isDag = .ok dag ∧ g.topoSort.isOk = dag := by
  classical
  have found := hasCycle_eq small
  have dag := isDag_eq small
  have health : g.health.map GraphHealth.isDag = .ok (!decide g.Cyclic) := by
    simp [health, dag, bind, Except.bind, pure, Except.pure, Except.map]
  have sort : (¬ g.Cyclic ∧ ∃ order, g.topoSort = .ok order) ∨
      g.Cyclic ∧ ∃ sorted total node, g.topoSort = .error (.cycle sorted total node) := by
    rcases topoSort_spec small with ⟨order, run, sorted⟩ | ⟨k, least, -, run, cycle⟩
    · exact .inl ⟨sorted.acyclic, order, run⟩
    · exact .inr ⟨cyclic_of_leftover cycle, _, _, least, run⟩
  refine ⟨by simp [found], ?_, !decide g.Cyclic, by simp [found], dag, health, ?_⟩
  · rcases sort with ⟨acyclic, order, run⟩ | ⟨cyclic, fails⟩
    · simp [acyclic, run]
    · exact ⟨fun _ => fails, fun _ => cyclic⟩
  · rcases sort with ⟨acyclic, order, run⟩ | ⟨cyclic, _, _, _, run⟩
    · simp [acyclic, run, Except.isOk, Except.toBool]
    · simp [cyclic, run, Except.isOk, Except.toBool]

/-- A node that leads into a cycle of two. -/
def looped : Graph := ⟨true, #[0, 1, 2, 3], #[1, 2, 1], none, by decide⟩

/-- Both checks see the cycle behind the first node. -/
theorem hasCycle_looped :
    looped.nodeCount < 2 ^ 32 ∧ looped.hasCycle = .ok true ∧ looped.Cyclic ∧
      ∃ sorted total node, looped.topoSort = .error (.cycle sorted total node) := by
  have agree := hasCycle_iff_topoSort_fails looped (by decide)
  have found : looped.hasCycle = .ok true := by rfl
  exact ⟨by decide, found, agree.1.1 found, agree.2.1.1 (agree.1.1 found)⟩

end LedEffect.Graph
