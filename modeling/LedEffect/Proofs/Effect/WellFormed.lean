import LedEffect.Proofs.Effect.Resolve

/-!
# Resolved effects are well formed

What later stages rely on in a resolved effect, said of its nodes and its order alone
(`ResolvedEffect.WellFormed`), and that resolving promises it.
-/

namespace LedEffect

namespace ResolvedEffect

variable {r : ResolvedEffect} {u v : Nat}

/-- Whether a node reads another in one of its operand slots. -/
def Reads (r : ResolvedEffect) (u v : Nat) : Prop := ∃ n, r.nodes[u]? = some n ∧ v ∈ n.inputs

/-- What a resolved effect looks like: inputs are nodes, as many as the kind takes, none of them a
sink unless an output reads it; parameters are those of the schema; and the order lists every node
once, after all it reads. -/
structure WellFormed (r : ResolvedEffect) : Prop where
  inside : ∀ u v, r.Reads u v → v < r.nodes.size
  arity : ∀ (u : Nat) n, r.nodes[u]? = some n →
    n.kind.minInputs ≤ n.inputs.length ∧ n.inputs.length ≤ n.kind.maxInputs
  params : ∀ (u : Nat) n, r.nodes[u]? = some n → n.params.map (·.1) = n.kind.params.map (·.name)
  sinks : ∀ (u : Nat) n, r.nodes[u]? = some n → n.kind ≠ .output → ∀ v ∈ n.inputs, ∀ m,
    r.nodes[v]? = some m → m.kind.isSink = false
  order : r.order.toList.Perm (List.range r.nodes.size)
  forward : ∀ u v, r.Reads u v → r.order.toList.idxOf v < r.order.toList.idxOf u

namespace WellFormed

lemma mem_order (wf : r.WellFormed) : u ∈ r.order.toList ↔ u < r.nodes.size := by
  rw [wf.order.mem_iff, List.mem_range]

lemma nodup_order (wf : r.WellFormed) : r.order.toList.Nodup :=
  wf.order.nodup_iff.2 List.nodup_range

/-- What a node reads comes before it in the order. -/
lemma read_before (wf : r.WellFormed) {before after : List Nat}
    (split : r.order.toList = before ++ u :: after) (read : r.Reads u v) : v ∈ before := by
  -- Were it behind, its place in the order would not be the lower one.
  have forward := wf.forward u v read
  have distinct := wf.nodup_order
  rw [split] at forward distinct
  have fresh : u ∉ before := fun mem =>
    (List.nodup_append.1 distinct).2.2 u mem u List.mem_cons_self rfl
  rw [List.idxOf_append_of_notMem fresh, List.idxOf_cons_self, Nat.add_zero] at forward
  by_contra absent
  rw [List.idxOf_append_of_notMem absent] at forward
  omega

/-- What a node reads over some others comes before it in the order. -/
lemma path_before (wf : r.WellFormed) {before after : List Nat}
    (split : r.order.toList = before ++ u :: after) (path : Relation.TransGen r.Reads u v) :
    v ∈ before := by
  induction path with
  | single read => exact wf.read_before split read
  | tail _ read ih =>
    obtain ⟨first, second, eq⟩ := List.append_of_mem ih
    rw [eq, List.append_assoc, List.cons_append] at split
    rw [eq]
    exact List.mem_append_left _ (wf.read_before split read)

/-- What a node reads over some others has a lower place in the order. -/
lemma path_lt (wf : r.WellFormed) (path : Relation.TransGen r.Reads u v) :
    r.order.toList.idxOf v < r.order.toList.idxOf u := by
  induction path with
  | single read => exact wf.forward _ _ read
  | tail _ read ih => exact Nat.lt_trans (wf.forward _ _ read) ih

end WellFormed

end ResolvedEffect

namespace Effect

/-- The graph of checked nodes has their numbers, and its edges go from what is read to what reads. -/
lemma Checks.view {e : Effect} {nodes : Array ResolvedNode} {view : Graph}
    (checks : e.Checks nodes.toList)
    (made : Graph.ofEdges nodes.size (dependencies nodes) = .ok view) :
    view.nodeCount = nodes.size ∧ view.nodeCount < 2 ^ 32 ∧
      ∀ u v, view.Adjacent u v ↔ ∃ n, nodes[v]? = some n ∧ u ∈ n.inputs := by
  obtain ⟨few, small⟩ := Graph.few_of_ofEdges made
  rw [dependencies_eq, List.length_map, length_slots] at few
  obtain ⟨view, made', count, edges⟩ := dependencies_spec small few checks.inside
  obtain rfl := Except.ok.inj (made'.symm.trans made)
  refine ⟨count, ?_, fun u v => adjacent_iff count edges checks.inside⟩
  rw [count]
  exact Nat.lt_of_le_of_lt small (by decide)

/-- An effect resolves to a well-formed one. -/
theorem resolve_wellFormed {e : Effect} {r : ResolvedEffect} (run : e.resolve = .ok r) :
    r.WellFormed := by
  obtain ⟨checks, sinks, made, sorted⟩ := resolve_eq_ok.1 run
  obtain ⟨count, small, adjacent⟩ := checks.view made
  have order := Graph.TopologicalOrder.of_topoSort small sorted
  have mem : ∀ {u : Nat} {n}, r.nodes[u]? = some n → n ∈ r.nodes.toList := fun place =>
    List.mem_of_getElem? (by rwa [Array.getElem?_toList])
  refine ⟨fun u v read => ?_, fun u n place => ?_, fun u n place => ?_, fun u n place => ?_,
    count ▸ order.perm, fun u v read => order.forward v u ((adjacent v u).2 read)⟩
  · obtain ⟨n, place, input⟩ := read
    exact checks.inside n (mem place) v input
  · obtain ⟨_, -, checked⟩ := Forall₂.exists_mem_left checks.nodes (mem place)
    exact ⟨checked.enough, checked.bounded⟩
  · obtain ⟨_, -, checked⟩ := Forall₂.exists_mem_left checks.nodes (mem place)
    obtain ⟨-, each, -⟩ := resolveParams_eq_ok.1 checked.params
    exact Forall₂.map_eq (each.imp fun _ _ resolved => (resolveParam_eq_ok.1 resolved).1)
  · exact (checkSinks_eq_ok.1 sinks).1 n (mem place)

end Effect

end LedEffect
