import LedEffect.Proofs.Graph.Acyclic
import LedEffect.Proofs.Graph.BreadthFirst
import Mathlib.Order.Lattice.Nat

/-!
# Levels of a topological order

The depth of a node is the length of the longest walk into it. Sorting takes nodes first in, first out,
so along its queue the depths ascend, and none is more than one above that of the node whose turn it is
(`Levelled`): a node is released by the last of its predecessors, which is the deepest. The order
therefore lists the nodes level by level, first those without predecessors (`topoSort_level_ordered`).
-/

namespace LedEffect.Graph

variable {g : Graph} {order done part rest : List Nat} {k k' : Kahn} {head u v : Nat}

/-! ## Depths -/

/-- The number of edges of the longest walk into a node. -/
noncomputable def depth (g : Graph) (v : Nat) : Nat := sSup {k | ∃ u, Hops g u v k}

/-- The nodes into which no edge leads, in ascending order. -/
def sources (g : Graph) : List Nat :=
  (List.range g.nodeCount).filter fun v => ∀ u < g.nodeCount, v ∉ g.row u

lemma mem_sources : v ∈ g.sources ↔ v < g.nodeCount ∧ ∀ u, ¬ g.Adjacent u v := by
  rw [sources, List.mem_filter, List.mem_range, decide_eq_true_eq]
  exact and_congr_right fun _ =>
    ⟨fun free u edge => free u edge.source edge, fun free u _ => free u⟩

/-- A walk has no more edges than places of a topological order before its end. -/
lemma TopologicalOrder.hops_le (sorted : TopologicalOrder g order) {n : Nat} (walk : Hops g u v n) :
    n ≤ order.idxOf v := by
  induction walk with
  | start => exact Nat.zero_le _
  | step _ edge ih => exact ih.trans_lt (sorted.forward _ _ edge)

lemma TopologicalOrder.isGreatest_depth (sorted : TopologicalOrder g order) (v : Nat) :
    IsGreatest {k | ∃ u, Hops g u v k} (g.depth v) := by
  have bounded : BddAbove {k | ∃ u, Hops g u v k} :=
    ⟨order.idxOf v, fun _ ⟨_, walk⟩ => sorted.hops_le walk⟩
  exact ⟨Nat.sSup_mem ⟨0, v, .start⟩ bounded, fun _ walk => le_csSup bounded walk⟩

/-- A node without predecessors has depth zero. -/
lemma TopologicalOrder.depth_eq_zero (sorted : TopologicalOrder g order)
    (free : ∀ u, ¬ g.Adjacent u v) : g.depth v = 0 := by
  obtain ⟨⟨u, walk⟩, -⟩ := sorted.isGreatest_depth v
  generalize g.depth v = n at walk
  cases walk with
  | start => rfl
  | step _ edge => exact absurd edge (free _)

/-- A node lies one level below the deepest of its predecessors. -/
lemma TopologicalOrder.depth_eq_succ (sorted : TopologicalOrder g order) (edge : g.Adjacent u v)
    (deepest : ∀ w, g.Adjacent w v → g.depth w ≤ g.depth u) : g.depth v = g.depth u + 1 := by
  apply le_antisymm
  · obtain ⟨⟨w, walk⟩, -⟩ := sorted.isGreatest_depth v
    generalize g.depth v = n at walk
    cases walk with
    | start => exact Nat.zero_le _
    | step walk last =>
      have le := (sorted.isGreatest_depth _).2 ⟨_, walk⟩
      exact Nat.succ_le_succ (le.trans (deepest _ last))
  · obtain ⟨⟨w, walk⟩, -⟩ := sorted.isGreatest_depth u
    exact (sorted.isGreatest_depth v).2 ⟨w, walk.step edge⟩

/-! ## The queue by levels -/

/-- Whether the depths ascend along a queue and none is above a bound. -/
structure Ascending (g : Graph) (bound : Nat) (queue : List Nat) : Prop where
  ascending : queue.Pairwise fun u v => g.depth u ≤ g.depth v
  bounded : ∀ v ∈ queue, g.depth v ≤ bound

/-- A node at the bound may come to the end. -/
lemma Ascending.snoc {bound : Nat} {queue : List Nat} (levels : g.Ascending bound queue)
    (last : g.depth v = bound) : g.Ascending bound (queue ++ [v]) where
  ascending := by
    refine List.pairwise_append.2 ⟨levels.ascending, List.pairwise_singleton _ _, fun u mem w single => ?_⟩
    rw [List.mem_singleton.1 single, last]
    exact levels.bounded u mem
  bounded := by
    intro w mem
    rcases List.mem_append.1 mem with mem | single
    · exact levels.bounded w mem
    · rw [List.mem_singleton.1 single, last]

/-- The nodes that a node releases lie one level below it, at the end of the queue. -/
lemma Sorting.ascending_row (sorted : TopologicalOrder g order) (inv : Sorting g done part k)
    (nodup : (done ++ [u]).Nodup) (queued : ∀ w ∈ done ++ [u], w ∈ k.queue.toList)
    (split : g.row u = part ++ rest) (before : ∀ w ∈ done, g.depth w ≤ g.depth u)
    (levels : g.Ascending (g.depth u + 1) k.queue.toList)
    (run : rest.foldlM (Kahn.release? g.nodeCount) k = some k') :
    g.Ascending (g.depth u + 1) k'.queue.toList := by
  induction rest generalizing part k with
  | nil =>
    obtain rfl := Option.some_inj.1 run
    exact levels
  | cons v rest ih =>
    obtain ⟨l, step, inv', grows⟩ := inv.release nodup queued split
    rw [List.foldlM_cons, step, Option.bind_eq_bind, Option.bind_some] at run
    refine ih inv' (fun w mem => grows.subset (queued w mem)) (by simpa using split) ?_ run
    obtain ⟨d, known, -, queue⟩ := release?_eq_some step
    rw [queue]
    cases d with
    | succ d => simpa using levels
    | zero =>
      -- The last edge into `v` comes from `u`, the deepest of the processed nodes.
      have edge : g.Adjacent u v := by
        rw [Adjacent, split]
        exact List.mem_append_right _ List.mem_cons_self
      apply levels.snoc
      apply sorted.depth_eq_succ edge
      intro w pred
      rcases List.mem_append.1 (inv.complete nodup queued split known w pred) with mem | single
      · exact before w mem
      · rw [List.mem_singleton.1 single]

/-- What holds when the first `head` places of the queue are processed: the depths ascend, and none is
more than one above that of the node whose turn it is. -/
structure Levelled (g : Graph) (head : Nat) (k : Kahn) : Prop where
  sorting : Sorting g (k.queue.toList.take head) [] k
  first : g.sources <+: k.queue.toList
  ascending : k.queue.toList.Pairwise fun u v => g.depth u ≤ g.depth v
  level : ∀ u, k.queue.toList[head]? = some u → ∀ v ∈ k.queue.toList, g.depth v ≤ g.depth u + 1

/-- The processed nodes are no deeper than the one whose turn it is. -/
lemma Levelled.depth_le (inv : Levelled g head k) (turn : k.queue.toList[head]? = some u) :
    ∀ w ∈ k.queue.toList.take head, g.depth w ≤ g.depth u := by
  intro w mem
  obtain ⟨long, here⟩ := List.getElem?_eq_some_iff.1 turn
  have split := List.take_append_drop head k.queue.toList
  rw [List.drop_eq_getElem_cons long, here] at split
  have pairs := inv.ascending
  rw [← split, List.pairwise_append] at pairs
  exact pairs.2.2 w mem u List.mem_cons_self

lemma Levelled.process (sorted : TopologicalOrder g order) (inv : Levelled g head k) :
    ∃ k', k.process? g head = some k' ∧ Levelled g (head + 1) k' := by
  obtain ⟨k', step, sorting, grows⟩ := inv.sorting.process
  refine ⟨k', step, ?_⟩
  cases turn : k.queue.toList[head]? with
  | none =>
    have place : k.queue[head]? = none := by rwa [Array.getElem?_toList] at turn
    rw [Kahn.process?, place] at step
    obtain rfl := Option.some_inj.1 step
    refine ⟨sorting, inv.first, inv.ascending, fun u next => ?_⟩
    have short := List.getElem?_eq_none_iff.1 turn
    rw [List.getElem?_eq_none (Nat.le_succ_of_le short)] at next
    cases next
  | some u =>
    obtain ⟨long, here⟩ := List.getElem?_eq_some_iff.1 turn
    have place : k.queue[head]? = some u := by rwa [Array.getElem?_toList] at turn
    have node : u < g.nodeCount := inv.sorting.nodes u (List.mem_of_getElem? turn)
    rw [Kahn.process?, place] at step
    simp only [neighbors?_eq_row node, Option.bind_eq_bind, Option.bind_some] at step
    have next : k.queue.toList.take (head + 1) = k.queue.toList.take head ++ [u] := by
      rw [List.take_add_one, turn]
      rfl
    have levels := inv.sorting.ascending_row sorted
      (next ▸ inv.sorting.nodup.sublist (List.take_sublist _ _))
      (fun w mem => List.mem_of_mem_take (next ▸ mem)) (List.nil_append _).symm
      (inv.depth_le turn) ⟨inv.ascending, inv.level u turn⟩ step
    refine ⟨sorting, inv.first.trans grows, levels.ascending, fun w after v mem => ?_⟩
    -- The next node is no less deep than this one.
    have le : g.depth u ≤ g.depth w := by
      obtain ⟨bound, there⟩ := List.getElem?_eq_some_iff.1 after
      have same := grows.getElem long
      rw [here] at same
      rw [← there, same]
      exact List.pairwise_iff_getElem.1 levels.ascending head (head + 1) _ bound (Nat.lt_succ_self _)
    exact (levels.bounded v mem).trans (Nat.succ_le_succ le)

lemma Levelled.processAll (sorted : TopologicalOrder g order) (turns : Nat)
    (inv : Levelled g head k) :
    ∃ k', (List.range' head turns).foldlM (Kahn.process? g) k = some k' ∧
      Levelled g (head + turns) k' :=
  exists_turns (fun _ _ inv => inv.process sorted) inv turns

/-- At the start the queue holds the nodes without predecessors. -/
lemma Sorting.levelled (sorted : TopologicalOrder g order) (inv : Sorting g [] [] k)
    (queue : k.queue.toList = (List.range g.nodeCount).filter fun u => k.degrees[u]? == some 0) :
    Levelled g 0 k := by
  have same : k.queue.toList = g.sources := by
    rw [queue, sources]
    refine List.filter_congr fun v mem => ?_
    obtain ⟨d, known, sum⟩ := inv.counts.degree v (List.mem_range.1 mem)
    rw [released, List.flatMap_nil, List.append_nil, List.count_nil, Nat.add_zero] at sum
    have free : g.targets.count v = 0 ↔ ∀ u < g.nodeCount, v ∉ g.row u := by
      simp [targets, List.count_eq_zero]
    rw [known, sum, Bool.eq_iff_iff, decide_eq_true_eq, ← free]
    simp
  have flat : ∀ v ∈ k.queue.toList, g.depth v = 0 := by
    intro v mem
    rw [same] at mem
    exact sorted.depth_eq_zero (mem_sources.1 mem).2
  refine ⟨by simpa using inv, same ▸ List.prefix_refl _, ?_, fun u _ v mem => ?_⟩
  · refine List.Pairwise.imp_of_mem (fun mem _ _ => ?_) inv.nodup
    rw [flat _ mem]
    exact Nat.zero_le _
  · rw [flat v mem]
    exact Nat.zero_le _

/-! ## The order by levels -/

/-- Sorting returns a topological order in which the lengths of the longest walks into the nodes
ascend, and which begins with the nodes without predecessors in ascending order. -/
theorem topoSort_level_ordered (g : Graph) (small : g.nodeCount < 2 ^ 32) {order : Array Nat}
    (run : g.topoSort = .ok order) :
    TopologicalOrder g order.toList ∧
      (∀ v, IsGreatest {k | ∃ u, Hops g u v k} (g.depth v)) ∧
      (order.toList.Pairwise fun u v => g.depth u ≤ g.depth v) ∧
      g.sources <+: order.toList := by
  have sorted := TopologicalOrder.of_topoSort small run
  obtain ⟨degrees, start, counted, pushed, inv, queue⟩ := Sorting.initial g small
  obtain ⟨k, turns, final⟩ := (inv.levelled sorted queue).processAll sorted g.nodeCount
  have stop : g.kahn? = some k := by
    rw [kahn?, counted, Option.bind_eq_bind, Option.bind_some]
    dsimp only
    rw [pushed, Option.bind_eq_bind, Option.bind_some, List.range_eq_range']
    exact turns
  obtain ⟨l, stop', rfl⟩ := queue_of_topoSort run
  obtain rfl := Option.some_inj.1 (stop.symm.trans stop')
  exact ⟨sorted, sorted.isGreatest_depth, final.ascending, final.first⟩

/-- Two sources, one of them over two parallel edges, a node below both and a node below that. -/
def forked : Graph := ⟨true, #[0, 0, 2, 4, 5], #[3, 3, 3, 0, 0], none, by decide⟩

/-- The node at the end of the longest walk comes last. -/
theorem topoSort_forked :
    forked.nodeCount < 2 ^ 32 ∧ forked.topoSort = .ok #[1, 2, 3, 0] ∧
      TopologicalOrder forked [1, 2, 3, 0] ∧
      ([1, 2, 3, 0].Pairwise fun u v => forked.depth u ≤ forked.depth v) ∧
      forked.sources = [1, 2] := by
  have seen : forked.topoSort.toOption.any (· == #[1, 2, 3, 0]) = true := by decide +kernel
  obtain ⟨order, run, same⟩ := exists_of_any seen
  obtain rfl := eq_of_beq same
  obtain ⟨sorted, -, ascending, -⟩ := topoSort_level_ordered forked (by decide) run
  exact ⟨by decide, run, sorted, ascending, by decide⟩

end LedEffect.Graph
