import LedEffect.Proofs.Effect.Numbers
import LedEffect.Proofs.Effect.Parameters

/-!
# Checked nodes

What the checks on single nodes leave (`Effect.Checks`), and that resolving an effect is these
checks, the check of the sinks, and a sort of the dependencies (`resolve_eq_ok`).
-/

namespace LedEffect

namespace Kind

lemma ofId?_id (k : Kind) : ofId? k.id = some k := by
  cases k <;> rfl

lemma ofId?_eq_some {k : Kind} {id : String} : ofId? id = some k ↔ k.id = id := by
  constructor
  · intro found
    simpa using List.find?_some found
  · rintro rfl
    exact ofId?_id k

lemma id_injective {k l : Kind} (eq : k.id = l.id) : k = l := by
  have found := ofId?_eq_some.2 eq
  rw [ofId?_id] at found
  exact (Option.some_inj.1 found).symm

end Kind

namespace Effect

variable {e : Effect} {n : NodeSpec} {k : Kind} {m : ResolvedNode}

/-- The kinds of nodes are found when their identifiers are new and their types are in the
catalog. -/
lemma nodeKinds_eq_ok {nodes : List NodeSpec} {seen : List String} {kinds : List Kind} :
    nodeKinds seen nodes = .ok kinds ↔
      (nodes.map (·.id)).Nodup ∧ (∀ n ∈ nodes, n.id ∉ seen) ∧
        List.Forall₂ (fun n k => k.id = n.kind) nodes kinds := by
  induction nodes generalizing seen kinds with
  | nil => simp [nodeKinds, eq_comm]
  | cons n nodes ih =>
    rw [List.map_cons, List.nodup_cons, List.forall_mem_cons, List.forall₂_cons_left_iff, nodeKinds]
    split
    next old =>
      have old : n.id ∈ seen := by simpa using old
      simp [old]
    next new =>
      have new : n.id ∉ seen := by simpa using new
      -- Later nodes avoid what is seen and the identifier of this one.
      have fresh : (∀ m ∈ nodes, m.id ∉ n.id :: seen) ↔
          n.id ∉ nodes.map (·.id) ∧ ∀ m ∈ nodes, m.id ∉ seen := by
        simp only [List.mem_cons, not_or, List.mem_map, not_exists, not_and, ← forall₂_and]
      cases found : Kind.ofId? n.kind with
      | none =>
        have unknown : ∀ k : Kind, k.id ≠ n.kind := by
          intro k eq
          rw [Kind.ofId?_eq_some.2 eq] at found
          cases found
        simp [unknown]
      | some k =>
        have known := Kind.ofId?_eq_some.1 found
        simp only [map_eq_ok, ih, fresh]
        constructor
        · rintro ⟨kinds, ⟨distinct, ⟨alone, apart⟩, typed⟩, rfl⟩
          exact ⟨⟨alone, distinct⟩, ⟨new, apart⟩, k, kinds, known, typed, rfl⟩
        · rintro ⟨⟨alone, distinct⟩, ⟨-, apart⟩, l, kinds, same, typed, rfl⟩
          refine ⟨kinds, ⟨distinct, ⟨alone, apart⟩, typed⟩, ?_⟩
          rw [Kind.id_injective (known.trans same.symm)]

/-- What the checks on one node leave. -/
structure NodeChecked (e : Effect) (n : NodeSpec) (m : ResolvedNode) : Prop where
  id : m.id = n.id
  kind : m.kind.id = n.kind
  inputs : List.Forall₂ e.HasNumber (e.effectiveInputs n) m.inputs
  enough : m.kind.minInputs ≤ m.inputs.length
  bounded : m.inputs.length ≤ m.kind.maxInputs
  params : resolveParams n m.kind = .ok m.params

/-- What the checks on all nodes and wires leave. -/
structure Checks (e : Effect) (nodes : List ResolvedNode) : Prop where
  distinct : (e.nodes.map (·.id)).Nodup
  wired : ∀ w ∈ e.wires, e.Names w.source ∧ e.Names w.target
  nodes : List.Forall₂ e.NodeChecked e.nodes nodes

/-- Checked nodes have the identifiers of the authored ones. -/
lemma Checks.ids {nodes : List ResolvedNode} (checks : e.Checks nodes) :
    nodes.map (·.id) = e.nodes.map (·.id) :=
  Forall₂.map_eq (checks.nodes.imp fun _ _ checked => checked.id)

/-- The inputs of a node are the numbers of what it reads. -/
lemma inputs_eq_ok (distinct : (e.nodes.map (·.id)).Nodup) {wired inputs : List Nat}
    (sources : List.Forall₂ e.HasNumber
      ((e.wires.filter fun w => w.target = n.id).map (·.source)) wired) :
    (if n.inputs.isEmpty then pure wired else e.explicitInputs n k) = .ok inputs ↔
      List.Forall₂ e.HasNumber (e.effectiveInputs n) inputs := by
  cases explicit : n.inputs with
  | nil =>
    simp only [List.isEmpty_nil, if_true, pure_eq_ok, effectiveInputs, explicit]
    exact ⟨fun eq => eq ▸ sources, numbers_unique distinct sources⟩
  | cons input rest =>
    rw [if_neg (by simp), explicitInputs_eq_ok distinct, effectiveInputs, if_neg (by simp [explicit])]

/-- A node is checked in three steps: its inputs, their number, and its parameters. -/
lemma resolveNode_eq (wired : List Nat) : e.resolveNode n k wired =
    (if n.inputs.isEmpty then pure wired else e.explicitInputs n k) >>= fun inputs =>
      if inputs.length < k.minInputs ∨ k.maxInputs < inputs.length then
        .error (.arity n.id k inputs.length)
      else resolveParams n k >>= fun params => pure ⟨n.id, k, inputs, params⟩ := by
  unfold resolveNode
  split <;> rfl

lemma resolveNode_eq_ok (distinct : (e.nodes.map (·.id)).Nodup) {wired : List Nat}
    (sources : List.Forall₂ e.HasNumber
      ((e.wires.filter fun w => w.target = n.id).map (·.source)) wired) (typed : k.id = n.kind) :
    e.resolveNode n k wired = .ok m ↔ e.NodeChecked n m := by
  rw [resolveNode_eq, bind_eq_ok]
  simp only [inputs_eq_ok distinct sources]
  constructor
  · rintro ⟨inputs, numbers, eq⟩
    split at eq
    · cases eq
    next arity =>
      obtain ⟨params, resolved, eq⟩ := bind_eq_ok.1 eq
      obtain rfl := pure_eq_ok.1 eq
      exact ⟨rfl, typed, numbers, by dsimp only; omega, by dsimp only; omega, resolved⟩
  · rintro ⟨id, kind, numbers, enough, bounded, params⟩
    obtain rfl := Kind.id_injective (kind.trans typed.symm)
    refine ⟨m.inputs, numbers, ?_⟩
    rw [if_neg (by omega), params, ← id]
    rfl

/-- What a node is checked with: its kind, and the numbers of the sources of the wires into it. -/
lemma place_of_zip (distinct : (e.nodes.map (·.id)).Nodup) {kinds : List Kind}
    {pairs : List (Nat × Nat)} (typed : List.Forall₂ (fun n k => Kind.id k = n.kind) e.nodes kinds)
    (ends : List.Forall₂
      (fun w pair => e.HasNumber w.target pair.1 ∧ e.HasNumber w.source pair.2) e.wires pairs)
    {i : Nat} {x : NodeSpec × Kind × Array Nat}
    (place : (e.nodes.zip (kinds.zip (groupInto e.nodes.length pairs).toList))[i]? = some x) :
    e.nodes[i]? = some x.1 ∧ x.2.1.id = x.1.kind ∧ List.Forall₂ e.HasNumber
      ((e.wires.filter fun w => w.target = x.1.id).map (·.source)) x.2.2.toList := by
  obtain ⟨n, k, wired⟩ := x
  simp only [List.getElem?_zip_eq_some, Array.getElem?_toList] at place
  obtain ⟨here, kind, group⟩ := place
  rw [getElem?_groupInto (List.getElem?_eq_some_iff.1 here).1, Option.some_inj] at group
  have sources := wired_numbers distinct ends (hasNumber_iff.2 ⟨n, here, rfl⟩)
  subst group
  exact ⟨here, (forall₂_iff_getElem?.1 typed).2 i n k here kind, sources⟩

/-- The nodes resolve together to what their checks leave. -/
lemma resolveNodes_iff (distinct : (e.nodes.map (·.id)).Nodup) {kinds : List Kind}
    {pairs : List (Nat × Nat)} {nodes : List ResolvedNode}
    (typed : List.Forall₂ (fun n k => Kind.id k = n.kind) e.nodes kinds)
    (ends : List.Forall₂
      (fun w pair => e.HasNumber w.target pair.1 ∧ e.HasNumber w.source pair.2) e.wires pairs) :
    List.Forall₂ (fun x m => e.resolveNode x.1 x.2.1 x.2.2.toList = .ok m)
        (e.nodes.zip (kinds.zip (groupInto e.nodes.length pairs).toList)) nodes ↔
      List.Forall₂ e.NodeChecked e.nodes nodes := by
  have length : (e.nodes.zip (kinds.zip (groupInto e.nodes.length pairs).toList)).length =
      e.nodes.length := by
    simp [← typed.length_eq]
  rw [forall₂_iff_getElem?, forall₂_iff_getElem?, length]
  refine and_congr_right fun _ => ⟨fun each i n m here there => ?_, fun each i x m place there => ?_⟩
  · have bound := (List.getElem?_eq_some_iff.1 here).1
    rw [← length] at bound
    have place := List.getElem?_eq_getElem bound
    obtain ⟨here', kind, sources⟩ := place_of_zip distinct typed ends place
    obtain rfl := Option.some_inj.1 (here.symm.trans here')
    exact (resolveNode_eq_ok distinct sources kind).1 (each i _ m place there)
  · obtain ⟨here, kind, sources⟩ := place_of_zip distinct typed ends place
    exact (resolveNode_eq_ok distinct sources kind).2 (each i x.1 m here there)

lemma checkSinks_eq_ok {nodes : Array ResolvedNode} :
    checkSinks nodes = .ok () ↔
      (∀ n ∈ nodes.toList, n.kind ≠ .output → ∀ i ∈ n.inputs, ∀ input, nodes[i]? = some input →
        input.kind.isSink = false) ∧ ∃ n ∈ nodes.toList, n.kind.isSink = true := by
  have clean : (nodes.toList.findSome? fun n =>
      (sinkInput? nodes n).map fun input => (n, input)) = none ↔
        ∀ n ∈ nodes.toList, n.kind ≠ .output → ∀ i ∈ n.inputs, ∀ input, nodes[i]? = some input →
          input.kind.isSink = false := by
    simp only [List.findSome?_eq_none_iff, Option.map_eq_none_iff]
    refine forall₂_congr fun n _ => ?_
    unfold sinkInput?
    by_cases output : n.kind = .output
    · simp [output]
    · rw [if_neg output]
      simp only [List.find?_eq_none, List.mem_filterMap, forall_exists_index, and_imp,
        Bool.not_eq_true, ne_eq, output, not_false_eq_true, true_implies]
      exact ⟨fun h i mem input place => h input i mem place,
        fun h input i mem place => h i mem input place⟩
  rw [← clean, checkSinks]
  cases found : nodes.toList.findSome? fun n =>
      (sinkInput? nodes n).map fun input => (n, input) with
  | some pair => simp
  | none =>
    simp only [Array.any_eq_true', true_and]
    split <;> simp_all

/-- Sorting the dependencies succeeds when the graph has an order. -/
lemma dependencyOrder_eq_ok {nodes : Array ResolvedNode} {view : Graph} {order : Array Nat} :
    dependencyOrder nodes view = .ok order ↔ view.topoSort = .ok order := by
  unfold dependencyOrder
  cases view.topoSort with
  | ok => simp
  | error fault =>
    cases fault with
    | cycle sorted total node =>
      dsimp only
      split <;> simp
    | _ => simp

/-- The nodes of an effect, each checked on its own. -/
def checkedNodes (e : Effect) : Except CompileError (List ResolvedNode) := do
  let kinds ← nodeKinds [] e.nodes
  let wired := groupInto e.nodes.length (← e.wirePairs)
  (e.nodes.zip (kinds.zip wired.toList)).mapM fun (n, kind, wired) =>
    e.resolveNode n kind wired.toList

/-- Resolving checks each node on its own, then the sinks, and orders the nodes at the end. -/
lemma resolve_eq (e : Effect) : e.resolve = do
    let nodes ← e.checkedNodes
    checkSinks nodes.toArray
    let view ← (Graph.ofEdges nodes.toArray.size (dependencies nodes.toArray)).mapError .graph
    let order ← dependencyOrder nodes.toArray view
    return ⟨nodes.toArray, view, order⟩ := by
  simp only [resolve, checkedNodes, bind_assoc]

/-- The checks on single nodes leave what they promise. -/
lemma checkedNodes_eq_ok {nodes : List ResolvedNode} :
    e.checkedNodes = .ok nodes ↔ e.Checks nodes := by
  simp only [checkedNodes, bind_eq_ok, nodeKinds_eq_ok, mapM_eq_ok]
  constructor
  · rintro ⟨kinds, ⟨distinct, -, typed⟩, pairs, wires, each⟩
    have ends := (wirePairs_eq_ok distinct).1 wires
    refine ⟨distinct, fun w mem => ?_, (resolveNodes_iff distinct typed ends).1 each⟩
    obtain ⟨pair, -, target, source⟩ := Forall₂.exists_mem_right ends mem
    exact ⟨names_iff.2 ⟨_, source⟩, names_iff.2 ⟨_, target⟩⟩
  · rintro ⟨distinct, wired, nodes⟩
    obtain ⟨kinds, typed⟩ : ∃ kinds, List.Forall₂ (fun n k => Kind.id k = n.kind) e.nodes kinds := by
      refine exists_forall₂ fun n mem => ?_
      obtain ⟨m, -, checked⟩ := Forall₂.exists_mem_right nodes mem
      exact ⟨m.kind, checked.kind⟩
    obtain ⟨pairs, ends⟩ : ∃ pairs : List (Nat × Nat), List.Forall₂
        (fun w pair => e.HasNumber w.target pair.1 ∧ e.HasNumber w.source pair.2) e.wires pairs := by
      refine exists_forall₂ fun w mem => ?_
      obtain ⟨i, source⟩ := names_iff.1 (wired w mem).1
      obtain ⟨j, target⟩ := names_iff.1 (wired w mem).2
      exact ⟨(j, i), target, source⟩
    exact ⟨kinds, ⟨distinct, by simp, typed⟩, pairs, (wirePairs_eq_ok distinct).2 ends,
      (resolveNodes_iff distinct typed ends).2 nodes⟩

/-- An effect resolves to nodes that its checks leave, with their dependencies and an order. -/
lemma resolve_eq_ok {r : ResolvedEffect} :
    e.resolve = .ok r ↔
      e.Checks r.nodes.toList ∧ checkSinks r.nodes = .ok () ∧
        Graph.ofEdges r.nodes.size (dependencies r.nodes) = .ok r.view ∧
          r.view.topoSort = .ok r.order := by
  simp only [resolve_eq, bind_eq_ok, pure_eq_ok, mapError_eq_ok, checkedNodes_eq_ok,
    dependencyOrder_eq_ok]
  constructor
  · rintro ⟨nodes, checks, ⟨⟩, sinks, view, edges, order, sorted, rfl⟩
    exact ⟨checks, sinks, edges, sorted⟩
  · rintro ⟨checks, sinks, edges, sorted⟩
    exact ⟨r.nodes.toList, checks, (), sinks, r.view, edges, r.order, sorted, rfl⟩

end Effect

end LedEffect
