import LedEffect.Graph.Order
import LedEffect.Proofs.Graph.Rows
import LedEffect.Proofs.Tables
import LedEffect.Proofs.Traversal
import Mathlib.Data.List.Nodup
import Mathlib.Data.List.Perm.Subperm

/-!
# Kahn's algorithm

The invariant (`Sorting`) says what the counters mean: the degree of a node is the number of edges
into it that no processed node has released, the nodes of the queue are those of degree zero, and
each came into the queue after all its predecessors. At the end every node of the queue has been
processed, so a node that is left over has a predecessor that is left over (`Sorted.stuck`). The
queue therefore holds all nodes exactly when the graph has no cycle.
-/

namespace LedEffect.Graph

variable {g : Graph} {done part : List Nat} {k l : Kahn} {u v : Nat}

def targets (g : Graph) : List Nat := (List.range g.nodeCount).flatMap g.row

lemma length_targets (g : Graph) : g.targets.length = g.edgeCount := by
  rw [targets, flatMap_row]
  simp [edgeCount]

/-! ## Incoming edges -/

/-- Counting the targets of a list raises every counter to the occurrences of its index. -/
lemma foldlM_bump? {nodes : List Nat} {counters : Array Nat}
    (inside : ∀ v ∈ nodes, v < counters.size) (blank : ∀ v < counters.size, counters[v]? = some 0)
    (few : nodes.length ≤ counterLimit) :
    ∃ final, nodes.foldlM bump? counters = some final ∧ final.size = counters.size ∧
      ∀ v < counters.size, final[v]? = some (nodes.count v) := by
  refine exists_foldlM (I := fun counted final => final.size = counters.size ∧
    ∀ v < counters.size, final[v]? = some (counted.count v)) nodes ?_ ⟨rfl, blank⟩
  rintro counted w rest final split ⟨size, counts⟩
  have bound : w < counters.size := inside w (by simp [split])
  have room : counted.count w < counterLimit := by
    have le : counted.count w ≤ counted.length := List.count_le_length
    rw [split, List.length_append, List.length_cons] at few
    omega
  refine ⟨final.set! w (counted.count w + 1), ?_, by simpa using size, ?_⟩
  · simp [bump?, counts w bound, increment?, room]
  · rw [← size] at counts ⊢
    exact getElem?_set!_count counts w

/-- The counters at the start: how many edges lead into each node. -/
lemma inDegrees?_eq (g : Graph) :
    ∃ degrees, g.inDegrees? = some degrees ∧ degrees.size = g.nodeCount ∧
      ∀ v < g.nodeCount, degrees[v]? = some (g.targets.count v) := by
  have inside : ∀ v ∈ g.targets, v < (Array.replicate g.nodeCount 0).size := by
    intro v mem
    obtain ⟨u, -, edge⟩ := List.mem_flatMap.1 mem
    simpa using Adjacent.target edge
  obtain ⟨degrees, run, size, counts⟩ := @foldlM_bump? g.targets (Array.replicate g.nodeCount 0)
    inside (by simp +contextual) (by simpa [length_targets] using g.edgeCount_le)
  refine ⟨degrees, ?_, by simpa using size, by simpa using counts⟩
  rw [inDegrees?, ← run, targets, flatMap_row, List.foldlM_map]

/-! ## The invariant -/

/-- The edges that processed nodes have released, with those of a row in progress. -/
def released (g : Graph) (done part : List Nat) : List Nat := done.flatMap g.row ++ part

/-- What the counters say: how many edges into a node have not been released. -/
structure Counting (g : Graph) (done part : List Nat) (degrees : Array Nat) : Prop where
  size : degrees.size = g.nodeCount
  degree : ∀ v < g.nodeCount, ∃ d, degrees[v]? = some d ∧
    d + (g.released done part).count v = g.targets.count v

/-- What holds while the nodes `done` are processed and `part` of the row of the next one. -/
structure Sorting (g : Graph) (done part : List Nat) (k : Kahn) : Prop where
  counts : Counting g done part k.degrees
  nodup : k.queue.toList.Nodup
  nodes : ∀ v ∈ k.queue.toList, v < g.nodeCount
  free : ∀ v < g.nodeCount, v ∈ k.queue.toList ↔ k.degrees[v]? = some 0
  order : ∀ before v after, k.queue.toList = before ++ v :: after →
    ∀ u, g.Adjacent u v → u ∈ before

/-- The rows of distinct nodes are among the rows of all nodes. -/
lemma targets_perm (nodup : done.Nodup) (nodes : ∀ u ∈ done, u < g.nodeCount) :
    ∃ rest : List Nat, g.targets.Perm (done.flatMap g.row ++ rest.flatMap g.row) ∧
      (∀ u, u ∈ rest ↔ u < g.nodeCount ∧ u ∉ done) := by
  have sub := subperm_range nodup nodes
  have perm := List.subperm_append_diff_self_of_count_le fun u _ => sub.count_le u
  refine ⟨(List.range g.nodeCount).diff done, ?_, fun u => ?_⟩
  · rw [← List.flatMap_append]
    exact (perm.flatMap_right g.row).symm
  · rw [List.Nodup.mem_sdiff_iff List.nodup_range, List.mem_range]

lemma count_flatMap_le (nodup : done.Nodup) (nodes : ∀ u ∈ done, u < g.nodeCount) (v : Nat) :
    (done.flatMap g.row).count v ≤ g.targets.count v := by
  obtain ⟨rest, perm, -⟩ := g.targets_perm nodup nodes
  rw [perm.count_eq, List.count_append]
  exact Nat.le_add_right _ _

/-- An unprocessed predecessor has not released its edge. -/
lemma count_flatMap_lt (nodup : done.Nodup) (nodes : ∀ u ∈ done, u < g.nodeCount)
    (edge : g.Adjacent u v) (fresh : u ∉ done) :
    (done.flatMap g.row).count v < g.targets.count v := by
  obtain ⟨rest, perm, mem⟩ := g.targets_perm nodup nodes
  have waiting : v ∈ rest.flatMap g.row :=
    List.mem_flatMap.2 ⟨u, (mem u).2 ⟨edge.source, fresh⟩, edge⟩
  rw [perm.count_eq, List.count_append]
  exact Nat.lt_add_of_pos_right (List.count_pos_iff.2 waiting)

/-- A node with an unreleased edge has an unprocessed predecessor. -/
lemma exists_waiting (nodup : done.Nodup) (nodes : ∀ u ∈ done, u < g.nodeCount)
    (more : (done.flatMap g.row).count v < g.targets.count v) :
    ∃ u, g.Adjacent u v ∧ u ∉ done := by
  obtain ⟨rest, perm, mem⟩ := g.targets_perm nodup nodes
  rw [perm.count_eq, List.count_append] at more
  have waiting : v ∈ rest.flatMap g.row := List.count_pos_iff.1 (by omega)
  obtain ⟨u, fresh, edge⟩ := List.mem_flatMap.1 waiting
  exact ⟨u, edge, ((mem u).1 fresh).2⟩

/-! ## Steps -/

/-- A queue of distinct nodes without one of them has room for it. -/
lemma Sorting.room (inv : Sorting g done part k) (node : v < g.nodeCount)
    (fresh : v ∉ k.queue.toList) : k.queue.size < g.nodeCount :=
  length_lt_of_nodup inv.nodup inv.nodes node fresh

/-- Taking one off a counter releases one edge into its node. -/
lemma Counting.release {degrees : Array Nat} {d : Nat} (counts : Counting g done part degrees)
    (known : degrees[v]? = some (d + 1)) :
    Counting g done (part ++ [v]) (degrees.set! v d) := by
  refine ⟨by simpa using counts.size, fun w small => ?_⟩
  obtain ⟨d', known', sum⟩ := counts.degree w small
  have more : (g.released done (part ++ [v])).count w =
      (g.released done part).count w + [v].count w := by
    simp only [released, List.count_append]
    omega
  rw [Array.set!_eq_setIfInBounds, Array.getElem?_setIfInBounds, more]
  split
  next same =>
    subst same
    have bound : v < degrees.size := by
      rw [counts.size]
      exact small
    rw [known] at known'
    cases known'
    refine ⟨d, by simp [bound], ?_⟩
    rw [List.count_singleton_self]
    omega
  next differ =>
    refine ⟨d', known', ?_⟩
    rw [List.count_singleton, if_neg (by simpa using differ)]
    exact sum

/-- A node at the next edge of the row in progress still counts that edge. -/
lemma Sorting.positive {rest : List Nat} (inv : Sorting g done part k)
    (nodup : (done ++ [u]).Nodup) (queued : ∀ w ∈ done ++ [u], w ∈ k.queue.toList)
    (split : g.row u = part ++ v :: rest) (node : v < g.nodeCount) :
    ∃ d, k.degrees[v]? = some (d + 1) := by
  obtain ⟨d, known, sum⟩ := inv.counts.degree v node
  have le := count_flatMap_le nodup (fun w mem => inv.nodes w (queued w mem)) v
  rw [List.flatMap_append, List.flatMap_singleton, split, ← List.append_assoc, ← released,
    List.count_append, List.count_cons_self] at le
  obtain ⟨d, rfl⟩ : ∃ d', d = d' + 1 := ⟨d - 1, by omega⟩
  exact ⟨d, known⟩

/-- When the last edge into a node is released, all its predecessors are processed or in progress. -/
lemma Sorting.complete {rest : List Nat} (inv : Sorting g done part k)
    (nodup : (done ++ [u]).Nodup) (queued : ∀ w ∈ done ++ [u], w ∈ k.queue.toList)
    (split : g.row u = part ++ v :: rest) (last : k.degrees[v]? = some 1) :
    ∀ w, g.Adjacent w v → w ∈ done ++ [u] := by
  -- An unprocessed predecessor would still hold an edge, for which the counter has no room.
  intro w edge
  by_contra waiting
  obtain ⟨d, known, sum⟩ := inv.counts.degree v edge.target
  have lt := count_flatMap_lt nodup (fun w mem => inv.nodes w (queued w mem)) edge waiting
  rw [List.flatMap_append, List.flatMap_singleton, split, ← List.append_assoc, ← released,
    List.count_append, List.count_cons_self] at lt
  rw [last] at known
  cases known
  omega

/-- Appending a node after all its predecessors keeps the order. -/
lemma order_snoc {queue : List Nat}
    (order : ∀ before v after, queue = before ++ v :: after → ∀ u, g.Adjacent u v → u ∈ before)
    (complete : ∀ u, g.Adjacent u v → u ∈ queue) :
    ∀ before w after, queue ++ [v] = before ++ w :: after → ∀ u, g.Adjacent u w → u ∈ before := by
  intro before w after eq u edge
  rcases List.eq_nil_or_concat after with rfl | ⟨after, x, rfl⟩
  · obtain ⟨rfl, last⟩ := List.append_inj' eq rfl
    cases last
    exact complete u edge
  · have eq : queue ++ [v] = (before ++ w :: after) ++ [x] := by simpa using eq
    exact order before w after (List.append_inj' eq rfl).1 u edge

/-- Releasing a node, with its counter: it comes into the queue when the counter was one. -/
lemma release?_eq_some {capacity : Nat} (step : k.release? capacity v = some l) :
    ∃ d, k.degrees[v]? = some (d + 1) ∧ l.degrees = k.degrees.set! v d ∧
      l.queue.toList = k.queue.toList ++ if d = 0 then [v] else [] := by
  obtain ⟨degree, known, step⟩ := Option.bind_eq_some_iff.1 step
  cases degree with
  | zero => cases step
  | succ d =>
    refine ⟨d, known, ?_⟩
    rw [if_neg (Nat.succ_ne_zero d), Nat.add_sub_cancel] at step
    cases d with
    | zero =>
      rw [if_pos rfl, Kahn.push?] at step
      split at step
      · cases step
        exact ⟨rfl, by simp⟩
      · cases step
    | succ d =>
      rw [if_neg (by omega)] at step
      cases step
      exact ⟨rfl, by simp⟩

lemma Sorting.release {rest : List Nat} (inv : Sorting g done part k)
    (nodup : (done ++ [u]).Nodup) (queued : ∀ w ∈ done ++ [u], w ∈ k.queue.toList)
    (split : g.row u = part ++ v :: rest) :
    ∃ k', k.release? g.nodeCount v = some k' ∧ Sorting g done (part ++ [v]) k' ∧
      k.queue.toList <+: k'.queue.toList := by
  have edge : g.Adjacent u v := by
    rw [Adjacent, split]
    simp
  have node : v < g.nodeCount := edge.target
  obtain ⟨d, known⟩ := inv.positive nodup queued split node
  have bound : v < k.degrees.size := by
    rw [inv.counts.size]
    exact node
  have unqueued : v ∉ k.queue.toList := by
    rw [inv.free v node, known]
    simp
  have counts := inv.counts.release known
  have free : ∀ w < g.nodeCount, w ≠ v →
      (w ∈ k.queue.toList ↔ (k.degrees.set! v d)[w]? = some 0) := by
    intro w small differ
    rw [inv.free w small]
    simp [differ.symm]
  -- The node joins the queue when this was the last edge into it.
  cases d with
  | zero =>
    have room := inv.room node unqueued
    refine ⟨⟨k.degrees.set! v 0, k.queue.push v⟩, by simp [Kahn.release?, known, Kahn.push?, room],
      ⟨counts, ?_, ?_, ?_, ?_⟩, by simp⟩
    · rw [Array.toList_push]
      exact List.nodup_append.2 ⟨inv.nodup, List.nodup_singleton v, by
        rintro w mem x single rfl
        exact unqueued (List.mem_singleton.1 single ▸ mem)⟩
    · intro w mem
      rw [Array.toList_push, List.mem_append, List.mem_singleton] at mem
      rcases mem with mem | rfl
      · exact inv.nodes w mem
      · exact node
    · intro w small
      rw [Array.toList_push, List.mem_append, List.mem_singleton]
      rcases eq_or_ne w v with rfl | differ
      · simp [bound]
      · rw [free w small differ]
        simp [differ]
    · rw [Array.toList_push]
      exact order_snoc inv.order fun w edge =>
        queued w (inv.complete nodup queued split known w edge)
  | succ d =>
    refine ⟨⟨k.degrees.set! v (d + 1), k.queue⟩, by simp [Kahn.release?, known],
      ⟨counts, inv.nodup, inv.nodes, ?_, inv.order⟩, List.prefix_refl _⟩
    intro w small
    rcases eq_or_ne w v with rfl | differ
    · simpa [bound] using unqueued
    · exact free w small differ

/-- Releasing the whole row of a node. -/
lemma Sorting.row (inv : Sorting g done [] k) (nodup : (done ++ [u]).Nodup)
    (queued : ∀ w ∈ done ++ [u], w ∈ k.queue.toList) :
    ∃ k', (g.row u).foldlM (Kahn.release? g.nodeCount) k = some k' ∧
      Sorting g done (g.row u) k' ∧ k.queue.toList <+: k'.queue.toList := by
  refine exists_foldlM (I := fun part k' => Sorting g done part k' ∧
    k.queue.toList <+: k'.queue.toList) (g.row u) ?_ ⟨inv, List.prefix_refl _⟩
  rintro part v rest k₁ split ⟨inv₁, grows₁⟩
  obtain ⟨k₂, step, inv₂, grows₂⟩ :=
    inv₁.release nodup (fun w mem => grows₁.subset (queued w mem)) split
  exact ⟨k₂, step, inv₂, grows₁.trans grows₂⟩

/-- Processing the place of the queue behind the processed ones. -/
lemma Sorting.process {head : Nat} (inv : Sorting g (k.queue.toList.take head) [] k) :
    ∃ k', k.process? g head = some k' ∧ Sorting g (k'.queue.toList.take (head + 1)) [] k' ∧
      k.queue.toList <+: k'.queue.toList := by
  unfold Kahn.process?
  cases place : k.queue[head]? with
  | none =>
    have short : k.queue.toList.length ≤ head := by simpa using place
    refine ⟨k, rfl, ?_, List.prefix_refl _⟩
    rwa [List.take_of_length_le (Nat.le_succ_of_le short), ← List.take_of_length_le short]
  | some u =>
    have place : k.queue.toList[head]? = some u := by simpa using place
    have next : k.queue.toList.take (head + 1) = k.queue.toList.take head ++ [u] := by
      rw [List.take_add_one, place]
      rfl
    have nodup : (k.queue.toList.take head ++ [u]).Nodup := by
      rw [← next]
      exact inv.nodup.sublist (List.take_sublist _ _)
    have queued : ∀ w ∈ k.queue.toList.take head ++ [u], w ∈ k.queue.toList := by
      intro w mem
      rw [← next] at mem
      exact List.mem_of_mem_take mem
    have node : u < g.nodeCount := inv.nodes u (queued u (by simp))
    obtain ⟨k', run, inv', grows⟩ := inv.row nodup queued
    refine ⟨k', by simpa [neighbors?_eq_row node] using run, ?_, grows⟩
    -- The queue only grows at its end, so the processed part stays.
    have same : k'.queue.toList.take (head + 1) = k.queue.toList.take head ++ [u] := by
      obtain ⟨fresh, eq⟩ := grows
      have long : head + 1 ≤ k.queue.toList.length := (List.getElem?_eq_some_iff.1 place).1
      rw [← eq, List.take_append_of_le_length long, next]
    have released : g.released (k.queue.toList.take head ++ [u]) [] =
        g.released (k.queue.toList.take head) (g.row u) := by
      simp [Graph.released]
    refine ⟨⟨inv'.counts.size, ?_⟩, inv'.nodup, inv'.nodes, inv'.free, inv'.order⟩
    rw [same, released]
    exact inv'.counts.degree

/-! ## The run -/

lemma foldlM_push? {nodes : List Nat} (room : k.queue.size + nodes.length ≤ g.nodeCount)
    (small : ∀ v ∈ nodes, v < 2 ^ 32) :
    ∃ k', nodes.foldlM (fun k u => k.push? g.nodeCount (nodeWord u)) k = some k' ∧
      k'.degrees = k.degrees ∧ k'.queue.toList = k.queue.toList ++ nodes := by
  refine exists_foldlM (I := fun pushed (k' : Kahn) => k'.degrees = k.degrees ∧
    k'.queue.toList = k.queue.toList ++ pushed) nodes ?_ ⟨rfl, (List.append_nil _).symm⟩
  rintro pushed v rest k' split ⟨degrees, queue⟩
  have word : nodeWord v = v := Nat.mod_eq_of_lt (small v (by simp [split]))
  have free : k'.queue.size < g.nodeCount := by
    rw [← Array.length_toList, queue, List.length_append, Array.length_toList]
    rw [split, List.length_append, List.length_cons] at room
    omega
  refine ⟨{ k' with queue := k'.queue.push v }, ?_, degrees, by simp [queue]⟩
  rw [word, Kahn.push?, if_pos free]

lemma Sorting.initial (g : Graph) (small : g.nodeCount < 2 ^ 32) :
    ∃ degrees k, g.inDegrees? = some degrees ∧
      ((List.range g.nodeCount).filter fun u => degrees[u]? == some 0).foldlM
        (fun k u => k.push? g.nodeCount (nodeWord u)) ⟨degrees, #[]⟩ = some k ∧
      Sorting g [] [] k ∧
      k.queue.toList = (List.range g.nodeCount).filter fun u => k.degrees[u]? == some 0 := by
  obtain ⟨degrees, run, size, counts⟩ := g.inDegrees?_eq
  have few := List.length_filter_le (fun u => degrees[u]? == some 0) (List.range g.nodeCount)
  rw [List.length_range] at few
  obtain ⟨k, start, same, queue⟩ := @foldlM_push? g ⟨degrees, #[]⟩
    ((List.range g.nodeCount).filter fun u => degrees[u]? == some 0)
    (by simpa using few) (by
      intro v mem
      have node := List.mem_range.1 (List.mem_of_mem_filter mem)
      omega)
  dsimp only at same queue
  rw [List.nil_append] at queue
  refine ⟨degrees, k, run, start, ⟨⟨by rw [same]; exact size, ?_⟩, ?_, ?_, ?_, ?_⟩, same ▸ queue⟩
  · intro v node
    exact ⟨_, by rw [same]; exact counts v node, by simp [released]⟩
  · rw [queue]
    exact List.nodup_range.filter _
  · intro v mem
    rw [queue] at mem
    exact List.mem_range.1 (List.mem_of_mem_filter mem)
  · intro v node
    rw [queue, same]
    simp [node]
  · intro before v after eq u edge
    -- A node without incoming edges has no predecessor.
    have mem : v ∈ k.queue.toList := by simp [eq]
    rw [queue] at mem
    obtain ⟨node, free⟩ := List.mem_filter.1 mem
    rw [counts v (List.mem_range.1 node)] at free
    have pos : 0 < g.targets.count v := List.count_pos_iff.2
      (List.mem_flatMap.2 ⟨u, List.mem_range.2 edge.source, edge⟩)
    simp at free
    omega

lemma Sorting.processAll {head : Nat} (count : Nat)
    (inv : Sorting g (k.queue.toList.take head) [] k) :
    ∃ k', (List.range' head count).foldlM (Kahn.process? g) k = some k' ∧
      Sorting g (k'.queue.toList.take (head + count)) [] k' := by
  refine exists_turns (I := fun head k => Sorting g (k.queue.toList.take head) [] k)
    (fun head k inv => ?_) inv count
  obtain ⟨k', step, inv', -⟩ := inv.process
  exact ⟨k', step, inv'⟩

lemma Sorting.size_le (inv : Sorting g done part k) : k.queue.size ≤ g.nodeCount :=
  length_le_of_nodup inv.nodup inv.nodes

/-- The algorithm ends with every node of its queue processed. -/
lemma kahn?_spec (small : g.nodeCount < 2 ^ 32) :
    ∃ k, g.kahn? = some k ∧ Sorting g k.queue.toList [] k := by
  obtain ⟨degrees, start, counted, pushed, inv, -⟩ := Sorting.initial g small
  obtain ⟨k, run, final⟩ := @Sorting.processAll g start 0 g.nodeCount (by simpa using inv)
  have size := final.size_le
  rw [Nat.zero_add, List.take_of_length_le (by simpa using size)] at final
  refine ⟨k, ?_, final⟩
  rw [kahn?, counted, Option.bind_eq_bind, Option.bind_some]
  dsimp only
  rw [pushed, Option.bind_eq_bind, Option.bind_some, List.range_eq_range']
  exact run

/-- The order that sorting returns is the queue at its end. -/
lemma queue_of_topoSort {order : Array Nat} (run : g.topoSort = .ok order) :
    ∃ k, g.kahn? = some k ∧ k.queue = order := by
  obtain ⟨k, final, run⟩ := bind_eq_ok.1 run
  have final : g.kahn? = some k := by
    cases stop : g.kahn? with
    | none => simp [stop, inBounds] at final
    | some k' => simpa [stop, inBounds] using final
  refine ⟨k, final, ?_⟩
  split at run
  · obtain ⟨node, -, fault⟩ := bind_eq_ok.1 run
    cases fault
  · exact Except.ok.inj run

lemma Sorting.exists_stuck (inv : Sorting g k.queue.toList [] k) (node : v < g.nodeCount)
    (left : v ∉ k.queue.toList) : ∃ u, g.Adjacent u v ∧ u ∉ k.queue.toList := by
  obtain ⟨d, known, sum⟩ := inv.counts.degree v node
  have positive : d ≠ 0 := by
    rintro rfl
    exact left ((inv.free v node).2 known)
  rw [released, List.append_nil] at sum
  exact exists_waiting inv.nodup inv.nodes (by omega)

/-- Nodes of the queue have their predecessors before them. -/
lemma Sorting.idxOf_lt (inv : Sorting g done part k) (mem : v ∈ k.queue.toList)
    (edge : g.Adjacent u v) :
    u ∈ k.queue.toList ∧ k.queue.toList.idxOf u < k.queue.toList.idxOf v := by
  obtain ⟨before, after, eq⟩ := List.append_of_mem mem
  have earlier := inv.order before v after eq u edge
  have later : v ∉ before := by
    have nodup := inv.nodup
    rw [eq, List.nodup_middle] at nodup
    exact fun mem => (List.nodup_cons.1 nodup).1 (List.mem_append_left _ mem)
  rw [eq, List.idxOf_append_of_mem earlier, List.idxOf_append_of_notMem later]
  refine ⟨List.mem_append_left _ earlier, ?_⟩
  have lt := List.idxOf_lt_length_iff.2 earlier
  omega

/-! ## Topological orders -/

/-- All nodes, each once, with the source of every edge before its target. -/
structure TopologicalOrder (g : Graph) (order : List Nat) : Prop where
  perm : order.Perm (List.range g.nodeCount)
  forward : ∀ u v, g.Adjacent u v → order.idxOf u < order.idxOf v

lemma Sorting.topologicalOrder (inv : Sorting g done part k) (full : g.nodeCount ≤ k.queue.size) :
    TopologicalOrder g k.queue.toList := by
  have perm := (subperm_range inv.nodup inv.nodes).perm_of_length_le (by simpa using full)
  refine ⟨perm, fun u v edge => (inv.idxOf_lt ?_ edge).2⟩
  exact perm.mem_iff.2 (List.mem_range.2 edge.target)

lemma exists_left (short : k.queue.size < g.nodeCount) :
    ∃ v < g.nodeCount, v ∉ k.queue.toList := by
  by_contra all
  push Not at all
  have sub : (List.range g.nodeCount).Subperm k.queue.toList :=
    List.subperm_of_subset List.nodup_range fun v mem => all v (List.mem_range.1 mem)
  have length := sub.length_le
  rw [List.length_range, Array.length_toList] at length
  omega

/-- The nodes left over are those whose counter is not zero. -/
lemma Sorting.isStuck_iff (inv : Sorting g done part k) :
    isStuck k.degrees v = true ↔ v < g.nodeCount ∧ v ∉ k.queue.toList := by
  rcases Nat.lt_or_ge v g.nodeCount with node | outside
  · obtain ⟨d, known, -⟩ := inv.counts.degree v node
    rw [inv.free v node]
    simp [isStuck, Array.getD_eq_getD_getElem?, known, node, Nat.pos_iff_ne_zero]
  · have missing : k.degrees[v]? = none := by
      simpa [inv.counts.size] using outside
    simp [isStuck, Array.getD_eq_getD_getElem?, missing, Nat.not_lt.2 outside]

end LedEffect.Graph
