import LedEffect.Proofs.Graph.Order
import LedEffect.Proofs.Traversal
import Mathlib.Algebra.BigOperators.Group.List.Basic

/-!
# Orders of extended graphs

When nodes are added to a graph behind the old ones, with edges from old nodes and among themselves
only (`Graph.Extends`), the old nodes keep their order (`Extends.filter_order`). The sort of the larger
graph runs like that of the smaller one, but for turns in which an added node is taken
(`Following.step`).
-/

namespace LedEffect.Graph

variable {g g' : Graph} {k k' l l' : Kahn} {head head' u v : Nat}

/-- Whether a graph is a larger one without the nodes behind its own, and has all edges into its
nodes. -/
structure Extends (g g' : Graph) : Prop where
  nodes : g.nodeCount ≤ g'.nodeCount
  row : ∀ u < g.nodeCount, (g'.row u).filter (· < g.nodeCount) = g.row u
  added : ∀ u, g.nodeCount ≤ u → ∀ v ∈ g'.row u, g.nodeCount ≤ v

/-- As many edges lead into an old node. -/
lemma Extends.count_targets (ext : g.Extends g') (node : v < g.nodeCount) :
    g'.targets.count v = g.targets.count v := by
  obtain ⟨more, size⟩ := Nat.exists_eq_add_of_le ext.nodes
  have old : (List.range g.nodeCount).map (List.count v ∘ g'.row) =
      (List.range g.nodeCount).map (List.count v ∘ g.row) := by
    refine List.map_congr_left fun u mem => ?_
    rw [Function.comp_apply, Function.comp_apply, ← ext.row u (List.mem_range.1 mem),
      List.count_filter (by simpa using node)]
  have new : (((List.range more).map (g.nodeCount + ·)).map (List.count v ∘ g'.row)).sum = 0 := by
    refine List.sum_eq_zero fun count mem => ?_
    obtain ⟨u, listed, rfl⟩ := List.mem_map.1 mem
    obtain ⟨i, -, rfl⟩ := List.mem_map.1 listed
    refine List.count_eq_zero.2 fun edge => ?_
    have behind := ext.added _ (Nat.le_add_right _ _) v edge
    omega
  rw [targets, targets, size, List.range_add, List.flatMap_append, List.count_append,
    List.count_flatMap, List.count_flatMap, List.count_flatMap, old, new, Nat.add_zero]

/-! ## One turn -/

/-- Whether one state of the sort is another one without the nodes from `n` on. -/
structure Restricts (n : Nat) (k k' : Kahn) : Prop where
  degrees : ∀ v < n, k'.degrees[v]? = k.degrees[v]?
  queue : k'.queue.toList.filter (· < n) = k.queue.toList

/-- Releasing the same old node keeps the states alike. -/
lemma Restricts.release {n capacity capacity' : Nat} (alike : Restricts n k k') (small : v < n)
    (step : k.release? capacity v = some l) (step' : k'.release? capacity' v = some l') :
    Restricts n l l' := by
  obtain ⟨d, known, degrees, queue⟩ := release?_eq_some step
  obtain ⟨d', known', degrees', queue'⟩ := release?_eq_some step'
  rw [alike.degrees v small, known, Option.some_inj, Nat.add_right_cancel_iff] at known'
  subst known'
  refine ⟨fun w lt => ?_, ?_⟩
  · have same := alike.degrees w lt
    rw [degrees, degrees']
    rcases eq_or_ne v w with rfl | differ
    · have bound := (Array.getElem?_eq_some_iff.1 known).1
      have bound' := (Array.getElem?_eq_some_iff.1 ((alike.degrees v small).trans known)).1
      simp [bound, bound']
    · simpa [differ] using same
  · rw [queue, queue', List.filter_append, alike.queue]
    split <;> simp [small]

/-- Releasing an added node changes nothing for the old ones. -/
lemma Restricts.skip {n capacity' : Nat} (alike : Restricts n k k') (large : n ≤ v)
    (step' : k'.release? capacity' v = some l') : Restricts n k l' := by
  obtain ⟨d, known, degrees, queue⟩ := release?_eq_some step'
  refine ⟨fun w lt => ?_, ?_⟩
  · rw [degrees, ← alike.degrees w lt]
    simp [show v ≠ w by omega]
  · rw [queue, List.filter_append, alike.queue]
    split <;> simp [large]

/-- Releasing the nodes of a row keeps the states alike. -/
lemma Restricts.row {n capacity capacity' : Nat} {vs : List Nat} (alike : Restricts n k k')
    (run : (vs.filter (· < n)).foldlM (Kahn.release? capacity) k = some l)
    (run' : vs.foldlM (Kahn.release? capacity') k' = some l') : Restricts n l l' := by
  induction vs generalizing k k' with
  | nil =>
    obtain rfl := Option.some_inj.1 run
    obtain rfl := Option.some_inj.1 run'
    exact alike
  | cons v vs ih =>
    obtain ⟨m', step', run'⟩ := Option.bind_eq_some_iff.1 run'
    rcases Nat.lt_or_ge v n with small | large
    · rw [List.filter_cons_of_pos (by simpa using small)] at run
      obtain ⟨m, step, run⟩ := Option.bind_eq_some_iff.1 run
      exact ih (alike.release small step step') run run'
    · rw [List.filter_cons_of_neg (by simpa using large)] at run
      exact ih (alike.skip large step') run run'

/-! ## The run -/

/-- What holds while the first `head` places of one queue and the first `head'` of the other are
processed: both sorts are sound, their states are alike, and as many old nodes are processed. -/
structure Following (g g' : Graph) (head head' : Nat) (k k' : Kahn) : Prop where
  sorting : Sorting g (k.queue.toList.take head) [] k
  sorting' : Sorting g' (k'.queue.toList.take head') [] k'
  alike : Restricts g.nodeCount k k'
  place : ((k'.queue.toList.take head').filter (· < g.nodeCount)).length = head

/-- A turn of the larger sort is a turn of the smaller one, or none. -/
lemma Following.step (ext : g.Extends g') (inv : Following g g' head head' k k') :
    ∃ l', k'.process? g' head' = some l' ∧
      (Following g g' head (head' + 1) k l' ∨
        ∃ l, k.process? g head = some l ∧ Following g g' (head + 1) (head' + 1) l l') := by
  obtain ⟨l', step', sorted', grows'⟩ := inv.sorting'.process
  obtain ⟨l, step, sorted, -⟩ := inv.sorting.process
  refine ⟨l', step', ?_⟩
  cases turn : k'.queue.toList[head']? with
  | none =>
    have turn' : k'.queue[head']? = none := by rwa [Array.getElem?_toList] at turn
    rw [Kahn.process?, turn'] at step'
    obtain rfl := Option.some_inj.1 step'
    have short := List.getElem?_eq_none_iff.1 turn
    refine .inl ⟨inv.sorting, sorted', inv.alike, ?_⟩
    rw [List.take_of_length_le (Nat.le_succ_of_le short), ← List.take_of_length_le short]
    exact inv.place
  | some w =>
    have turn' : k'.queue[head']? = some w := by rwa [Array.getElem?_toList] at turn
    have node' : w < g'.nodeCount := inv.sorting'.nodes w (List.mem_of_getElem? turn)
    rw [Kahn.process?, turn'] at step'
    simp only [neighbors?_eq_row node', Option.bind_eq_bind, Option.bind_some] at step'
    -- The queue only grows at its end, so the node stays in its place.
    have next : l'.queue.toList.take (head' + 1) = k'.queue.toList.take head' ++ [w] := by
      obtain ⟨fresh, eq⟩ := grows'
      have long := (List.getElem?_eq_some_iff.1 turn).1
      rw [← eq, List.take_append_of_le_length long, List.take_add_one, turn]
      rfl
    rcases Nat.lt_or_ge w g.nodeCount with old | added
    · have place : k.queue[head]? = some w := by
        obtain ⟨rest, split⟩ : ∃ rest, k'.queue.toList = k'.queue.toList.take head' ++ w :: rest := by
          obtain ⟨bound, here⟩ := List.getElem?_eq_some_iff.1 turn
          refine ⟨k'.queue.toList.drop (head' + 1), ?_⟩
          rw [← here, ← List.drop_eq_getElem_cons bound, List.take_append_drop]
        have queue := inv.alike.queue
        rw [split, List.filter_append, List.filter_cons_of_pos (by simpa using old)] at queue
        rw [← Array.getElem?_toList, ← queue, ← inv.place]
        simp
      rw [Kahn.process?, place] at step
      simp only [neighbors?_eq_row old, Option.bind_eq_bind, Option.bind_some] at step
      rw [← ext.row w old] at step
      refine .inr ⟨l, ?_, sorted, sorted', inv.alike.row step step', ?_⟩
      · rw [Kahn.process?, place]
        simp only [neighbors?_eq_row old, Option.bind_eq_bind, Option.bind_some]
        rw [← ext.row w old]
        exact step
      · rw [next, List.filter_append, List.length_append, inv.place]
        simp [old]
    · have none : (g'.row w).filter (· < g.nodeCount) = [] := by
        refine List.filter_eq_nil_iff.2 fun v mem => ?_
        simpa using ext.added w added v mem
      have unmoved : ((g'.row w).filter (· < g.nodeCount)).foldlM (Kahn.release? g.nodeCount) k =
          some k := by
        rw [none]
        rfl
      have alike : Restricts g.nodeCount k l' := inv.alike.row unmoved step'
      refine .inl ⟨inv.sorting, sorted', alike, ?_⟩
      rw [next, List.filter_append, List.length_append, inv.place]
      simp [added]

/-- However many turns the larger sort takes, the smaller one takes some that follow it. -/
lemma Following.run (ext : g.Extends g') (inv : Following g g' 0 0 k k') (turns : Nat) :
    ∃ head l l', (List.range head).foldlM (Kahn.process? g) k = some l ∧
      (List.range turns).foldlM (Kahn.process? g') k' = some l' ∧ Following g g' head turns l l' := by
  induction turns with
  | zero => exact ⟨0, k, k', rfl, rfl, inv⟩
  | succ turns ih =>
    obtain ⟨head, l, l', run, run', inv⟩ := ih
    obtain ⟨m', step', turn⟩ := inv.step ext
    have run' : (List.range (turns + 1)).foldlM (Kahn.process? g') k' = some m' := by
      rw [List.range_succ, List.foldlM_append, run']
      simpa using step'
    rcases turn with inv | ⟨m, step, inv⟩
    · exact ⟨head, l, m', run, run', inv⟩
    · refine ⟨head + 1, m, m', ?_, run', inv⟩
      rw [List.range_succ, List.foldlM_append, run]
      simpa using step

/-- Turns behind the end of the queue change nothing. -/
lemma process?_behind {places : List Nat} (behind : ∀ place ∈ places, k.queue.size ≤ place) :
    places.foldlM (Kahn.process? g) k = some k := by
  induction places with
  | nil => rfl
  | cons place places ih =>
    obtain ⟨here, rest⟩ := List.forall_mem_cons.1 behind
    have step : k.process? g place = some k := by
      rw [Kahn.process?, Array.getElem?_eq_none here]
    rw [List.foldlM_cons, step]
    exact ih rest

/-- Both sorts start alike. -/
lemma Extends.initial (ext : g.Extends g') (sorting : Sorting g [] [] k)
    (queue : k.queue.toList = (List.range g.nodeCount).filter fun u => k.degrees[u]? == some 0)
    (sorting' : Sorting g' [] [] k')
    (queue' : k'.queue.toList = (List.range g'.nodeCount).filter fun u => k'.degrees[u]? == some 0) :
    Following g g' 0 0 k k' := by
  have degrees : ∀ v < g.nodeCount, k'.degrees[v]? = k.degrees[v]? := by
    intro v node
    obtain ⟨d, known, sum⟩ := sorting.counts.degree v node
    obtain ⟨d', known', sum'⟩ := sorting'.counts.degree v (Nat.lt_of_lt_of_le node ext.nodes)
    rw [ext.count_targets node] at sum'
    simp only [released, List.flatMap_nil, List.nil_append, List.count_nil, Nat.add_zero] at sum sum'
    rw [known, known', sum, sum']
  refine ⟨by simpa using sorting, by simpa using sorting', ⟨degrees, ?_⟩, rfl⟩
  obtain ⟨more, size⟩ := Nat.exists_eq_add_of_le ext.nodes
  have new : (((List.range more).map (g.nodeCount + ·)).filter fun u => decide (u < g.nodeCount) &&
      k'.degrees[u]? == some 0) = [] := by
    refine List.filter_eq_nil_iff.2 fun u mem => ?_
    obtain ⟨i, -, rfl⟩ := List.mem_map.1 mem
    simp
  rw [queue, queue', List.filter_filter, size, List.range_add, List.filter_append, new,
    List.append_nil]
  refine List.filter_congr fun u mem => ?_
  have node := List.mem_range.1 mem
  simp [node, degrees u node]

/-- Old nodes keep their order when a graph is extended. -/
lemma Extends.filter_order (ext : g.Extends g') (small' : g'.nodeCount < 2 ^ 32)
    {order order' : Array Nat} (run : g.topoSort = .ok order) (run' : g'.topoSort = .ok order') :
    order'.toList.filter (· < g.nodeCount) = order.toList := by
  have small := Nat.lt_of_le_of_lt ext.nodes small'
  obtain ⟨degrees, start, counted, pushed, sorting, queue⟩ := Sorting.initial g small
  obtain ⟨degrees', start', counted', pushed', sorting', queue'⟩ := Sorting.initial g' small'
  obtain ⟨head, k, k', turns, turns', inv⟩ :=
    (ext.initial sorting queue sorting' queue').run ext g'.nodeCount
  -- By now all old nodes of the queue are processed.
  have last : k.queue.size = head := by
    have place := inv.place
    rw [List.take_of_length_le (by simpa using inv.sorting'.size_le), inv.alike.queue] at place
    simpa using place
  have final : g.kahn? = some k := by
    obtain ⟨more, size⟩ := Nat.exists_eq_add_of_le (last ▸ inv.sorting.size_le)
    rw [kahn?, counted, Option.bind_eq_bind, Option.bind_some]
    dsimp only
    rw [pushed, Option.bind_eq_bind, Option.bind_some, size, List.range_add, List.foldlM_append,
      turns, Option.bind_eq_bind, Option.bind_some]
    refine process?_behind fun place mem => ?_
    obtain ⟨i, -, rfl⟩ := List.mem_map.1 mem
    omega
  have final' : g'.kahn? = some k' := by
    rw [kahn?, counted', Option.bind_eq_bind, Option.bind_some]
    dsimp only
    rw [pushed', Option.bind_eq_bind, Option.bind_some]
    exact turns'
  obtain ⟨l, stop, rfl⟩ := queue_of_topoSort run
  obtain ⟨l', stop', rfl⟩ := queue_of_topoSort run'
  obtain rfl := Option.some_inj.1 (final.symm.trans stop)
  obtain rfl := Option.some_inj.1 (final'.symm.trans stop')
  exact inv.alike.queue

end LedEffect.Graph
