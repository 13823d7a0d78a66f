import LedEffect.Proofs.Effect.WellFormed

/-!
# Reordered declarations

Names are looked up wherever they are declared, so whether an effect is valid does not depend on the
order of its nodes (`Valid.of_perm`), and hence neither does whether it resolves
(`exists_resolve_of_perm`).
-/

namespace LedEffect.Effect

variable {e e' : Effect} {r : ResolvedEffect}

/-! ## Resolving and validity -/

/-- An effect that resolves is valid. -/
lemma valid_of_resolve (run : e.resolve = .ok r) : e.Valid := by
  obtain ⟨checks, sinks, made, sorted⟩ := resolve_eq_ok.1 run
  obtain ⟨-, small, adjacent⟩ := checks.view made
  refine checks.valid sinks fun id cycle => ?_
  exact (Graph.TopologicalOrder.of_topoSort small sorted).acyclic
    ((checks.cyclic_iff adjacent).2 ⟨id, cycle⟩)

/-- An effect that resolves has few nodes and operands. -/
lemma few_of_resolve (run : e.resolve = .ok r) :
    e.nodes.length ≤ Graph.counterLimit ∧ e.operandCount ≤ Graph.counterLimit := by
  obtain ⟨checks, -, made, -⟩ := resolve_eq_ok.1 run
  obtain ⟨few, small⟩ := Graph.few_of_ofEdges made
  rw [dependencies_eq, List.length_map, length_slots, checks.operandCount_eq] at few
  rw [← Array.length_toList, ← checks.nodes.length_eq] at small
  exact ⟨small, few⟩

lemma size_of_resolve (run : e.resolve = .ok r) : r.nodes.size = e.nodes.length := by
  obtain ⟨checks, -⟩ := resolve_eq_ok.1 run
  rw [checks.nodes.length_eq, Array.length_toList]

/-- A resolved effect has an edge for every operand. -/
lemma edgeCount_of_resolve (run : e.resolve = .ok r) : r.view.edgeCount = e.operandCount := by
  obtain ⟨checks, -, made, -⟩ := resolve_eq_ok.1 run
  rw [Graph.edgeCount_ofEdges made, dependencies_eq, List.length_map, length_slots,
    checks.operandCount_eq]

/-- A valid effect of few nodes and operands resolves. -/
lemma Valid.exists_resolve (valid : e.Valid) (small : e.nodes.length ≤ Graph.counterLimit)
    (few : e.operandCount ≤ Graph.counterLimit) : ∃ r, e.resolve = .ok r := by
  obtain ⟨nodes, checks⟩ := valid.exists_checks
  rw [checks.nodes.length_eq, Array.length_toList] at small
  rw [← checks.operandCount_eq] at few
  obtain ⟨view, made, -⟩ := dependencies_spec small few checks.inside
  obtain ⟨-, fits, adjacent⟩ := checks.view made
  obtain ⟨order, sorted⟩ := Graph.exists_topoSort fits fun cyclic =>
    let ⟨id, cycle⟩ := (checks.cyclic_iff adjacent).1 cyclic
    valid.acyclic id cycle
  have sinks := checks.checkSinks_iff.2 ⟨valid.sinkReaders, valid.sink⟩
  exact ⟨⟨nodes, view, order⟩, resolve_eq_ok.2 ⟨checks, sinks, made, sorted⟩⟩

/-! ## Orders of the nodes -/

section Perm

variable (perm : e'.nodes.Perm e.nodes) (wires : e'.wires = e.wires)

include wires in
/-- What a node reads is said by itself and the wires. -/
lemma effectiveInputs_of_wires : e'.effectiveInputs = e.effectiveInputs := by
  funext n
  rw [effectiveInputs, effectiveInputs, wires]

include perm in
lemma names_of_perm {id : String} : e'.Names id ↔ e.Names id :=
  exists_congr fun _ => and_congr_left fun _ => perm.mem_iff

include perm wires in
lemma operandCount_of_perm : e'.operandCount = e.operandCount := by
  rw [operandCount, operandCount, effectiveInputs_of_wires wires]
  exact (perm.map _).sum_eq

include perm wires in
/-- An effect stays valid when its nodes are declared in another order. -/
lemma Valid.of_perm (valid : e.Valid) : e'.Valid := by
  have inputs := effectiveInputs_of_wires wires
  have mem : ∀ {n}, n ∈ e'.nodes → n ∈ e.nodes := perm.mem_iff.1
  refine
    { distinct := (perm.map _).nodup_iff.2 valid.distinct
      catalogued := fun n here => valid.catalogued n (mem here)
      wired := fun w listed => ?_
      present := fun n here id listed =>
        (names_of_perm perm).2 (valid.present n (mem here) id listed)
      arity := fun n here => inputs ▸ valid.arity n (mem here)
      parameters := fun n here => valid.parameters n (mem here)
      sinkReaders := fun n here m there read =>
        valid.sinkReaders n (mem here) m (mem there) (inputs ▸ read)
      sink := ?_
      acyclic := fun id cycle => ?_ }
  · have named := valid.wired w (wires ▸ listed)
    exact ⟨(names_of_perm perm).2 named.1, (names_of_perm perm).2 named.2⟩
  · obtain ⟨n, here, sink⟩ := valid.sink
    exact ⟨n, perm.mem_iff.2 here, sink⟩
  · have edge : ∀ id input, e'.Reads id input → e.Reads id input := by
      rintro id input ⟨n, here, same, read⟩
      exact ⟨n, mem here, same, inputs ▸ read⟩
    exact valid.acyclic id (Relation.TransGen.mono edge _ _ cycle)

include perm wires in
/-- An effect still resolves when its nodes are declared in another order. -/
lemma exists_resolve_of_perm (run : e.resolve = .ok r) : ∃ r', e'.resolve = .ok r' := by
  obtain ⟨small, few⟩ := few_of_resolve run
  refine ((valid_of_resolve run).of_perm perm wires).exists_resolve ?_ ?_
  · rwa [perm.length_eq]
  · rwa [operandCount_of_perm perm wires]

end Perm

end LedEffect.Effect
