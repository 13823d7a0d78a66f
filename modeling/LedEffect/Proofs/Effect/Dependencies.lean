import LedEffect.Effect.Resolved
import LedEffect.Proofs.Graph.EdgeList

/-!
# Dependency graphs

The graph of checked nodes has one edge from input to consumer for every operand slot
(`dependencies_spec`), so adjacency is reading.
-/

namespace LedEffect.Effect

variable {nodes : Array ResolvedNode} {u v : Nat}

/-- The operand slots of a list of nodes as pairs of input and consumer. -/
def slots (nodes : List ResolvedNode) (first : Nat) : List (Nat × Nat) :=
  (nodes.zipIdx first).flatMap fun n => n.1.inputs.map fun input => (input, n.2)

/-- A pair occurs once for every operand slot of the consumer that holds the input. -/
lemma count_slots (nodes : List ResolvedNode) (first u v : Nat) :
    (slots nodes first).count (u, v) =
      if first ≤ v then (nodes[v - first]?).elim 0 fun n => n.inputs.count u else 0 := by
  induction nodes generalizing first with
  | nil => simp [slots]
  | cons n nodes ih =>
    have here : (n.inputs.map fun input => (input, first)).count (u, v) =
        if first = v then n.inputs.count u else 0 := by
      split
      next same =>
        subst same
        rw [List.count, List.countP_map]
        exact List.countP_congr fun input _ => by simp
      next differ =>
        rw [List.count_eq_zero]
        intro mem
        obtain ⟨input, -, eq⟩ := List.mem_map.1 mem
        exact differ (Prod.mk.inj eq).2
    have rest := ih (first + 1)
    rw [slots] at rest ⊢
    rw [List.zipIdx_cons, List.flatMap_cons, List.count_append, here, rest]
    rcases Nat.lt_trichotomy first v with lt | rfl | gt
    · have next : v - first = (v - (first + 1)) + 1 := by omega
      rw [if_neg (Nat.ne_of_lt lt), if_pos (by omega), if_pos (by omega), next,
        List.getElem?_cons_succ, Nat.zero_add]
    · simp
    · rw [if_neg (by omega), if_neg (by omega), if_neg (by omega)]

lemma length_slots (nodes : List ResolvedNode) (first : Nat) :
    (slots nodes first).length = (nodes.map fun n => n.inputs.length).sum := by
  induction nodes generalizing first with
  | nil => rfl
  | cons n nodes ih =>
    have rest := ih (first + 1)
    rw [slots] at rest ⊢
    simp [List.zipIdx_cons, rest]

lemma dependencies_eq (nodes : Array ResolvedNode) :
    dependencies nodes = (slots nodes.toList 0).map fun slot =>
      (UInt32.ofNat slot.1, UInt32.ofNat slot.2) := by
  simp [dependencies, slots, List.map_flatMap, Function.comp_def]

lemma slot_inside (inside : ∀ n ∈ nodes.toList, ∀ i ∈ n.inputs, i < nodes.size) {slot : Nat × Nat}
    (mem : slot ∈ slots nodes.toList 0) : slot.1 < nodes.size ∧ slot.2 < nodes.size := by
  obtain ⟨⟨n, consumer⟩, place, mem⟩ := List.mem_flatMap.1 mem
  obtain ⟨input, read, rfl⟩ := List.mem_map.1 mem
  have here := List.mem_zipIdx_iff_getElem?.1 place
  exact ⟨inside n (List.mem_of_getElem? here) input read,
    by simpa using (List.getElem?_eq_some_iff.1 here).1⟩

/-- Few dependencies among few nodes make a graph in which the row of a node lists the consumers of
its operand slots. -/
lemma dependencies_rows (small : nodes.size ≤ Graph.counterLimit)
    (few : (nodes.toList.map fun n => n.inputs.length).sum ≤ Graph.counterLimit)
    (inside : ∀ n ∈ nodes.toList, ∀ i ∈ n.inputs, i < nodes.size) :
    ∃ view, Graph.ofEdges nodes.size (dependencies nodes) = .ok view ∧
      view.nodeCount = nodes.size ∧ ∀ u < nodes.size,
        view.row u = ((slots nodes.toList 0).filter fun slot => slot.1 = u).map (·.2) := by
  have size : UInt32.size = Graph.counterLimit + 1 := rfl
  have exact : ∀ slot ∈ slots nodes.toList 0,
      (UInt32.ofNat slot.1).toNat = slot.1 ∧ (UInt32.ofNat slot.2).toNat = slot.2 := by
    intro slot mem
    obtain ⟨input, consumer⟩ := slot_inside inside mem
    exact ⟨UInt32.toNat_ofNat_of_lt' (by omega), UInt32.toNat_ofNat_of_lt' (by omega)⟩
  obtain ⟨view, made, count, rows⟩ := @Graph.ofEdges_spec nodes.size (dependencies nodes)
    (by rw [dependencies_eq, List.length_map, length_slots]; exact few) small (by
      intro edge mem
      rw [dependencies_eq] at mem
      obtain ⟨slot, listed, rfl⟩ := List.mem_map.1 mem
      rw [(exact slot listed).1, (exact slot listed).2]
      exact slot_inside inside listed)
  refine ⟨view, made, count, fun u lt => ?_⟩
  have same : ((slots nodes.toList 0).filter fun slot => (UInt32.ofNat slot.1).toNat = u) =
      (slots nodes.toList 0).filter fun slot => slot.1 = u :=
    List.filter_congr fun slot mem => by rw [(exact slot mem).1]
  rw [rows u lt, dependencies_eq, List.filter_map, List.map_map]
  refine (congrArg _ same).trans (List.map_congr_left fun slot mem => ?_)
  exact (exact slot (List.mem_of_mem_filter mem)).2

/-- Few dependencies among few nodes make a graph with one edge for every operand slot. -/
lemma dependencies_spec (small : nodes.size ≤ Graph.counterLimit)
    (few : (nodes.toList.map fun n => n.inputs.length).sum ≤ Graph.counterLimit)
    (inside : ∀ n ∈ nodes.toList, ∀ i ∈ n.inputs, i < nodes.size) :
    ∃ view, Graph.ofEdges nodes.size (dependencies nodes) = .ok view ∧
      view.nodeCount = nodes.size ∧ ∀ u < nodes.size, ∀ v,
        (view.row u).count v = (nodes[v]?).elim 0 fun n => n.inputs.count u := by
  obtain ⟨view, made, count, rows⟩ := dependencies_rows small few inside
  refine ⟨view, made, count, fun u lt v => ?_⟩
  have slots := count_slots nodes.toList 0 u v
  rw [if_pos (Nat.zero_le v), Nat.sub_zero, Array.getElem?_toList] at slots
  rw [rows u lt, ← slots, List.count, List.count, List.countP_map, List.countP_filter]
  exact List.countP_congr fun slot _ => by simp [Prod.ext_iff, and_comm]

/-- In a graph with one edge for every operand slot, adjacency is reading. -/
lemma adjacent_iff {view : Graph} (count : view.nodeCount = nodes.size)
    (edges : ∀ u < nodes.size, ∀ v,
      (view.row u).count v = (nodes[v]?).elim 0 fun n => n.inputs.count u)
    (inside : ∀ n ∈ nodes.toList, ∀ i ∈ n.inputs, i < nodes.size) :
    view.Adjacent u v ↔ ∃ n, nodes[v]? = some n ∧ u ∈ n.inputs := by
  have reading : u < nodes.size → (view.Adjacent u v ↔ ∃ n, nodes[v]? = some n ∧ u ∈ n.inputs) := by
    intro lt
    rw [Graph.Adjacent, ← List.count_pos_iff, edges u lt v]
    cases nodes[v]? <;> simp [List.count_pos_iff]
  constructor
  · intro edge
    exact (reading (count ▸ edge.source)).1 edge
  · rintro ⟨n, place, read⟩
    exact (reading (inside n (by simpa using Array.mem_of_getElem? place) u read)).2 ⟨n, place, read⟩

end LedEffect.Effect
