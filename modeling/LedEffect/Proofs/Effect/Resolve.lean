import LedEffect.Proofs.Effect.Checked
import LedEffect.Proofs.Effect.Dependencies
import LedEffect.Proofs.Graph.Acyclic

/-!
# Which effects resolve

The checks pass exactly on effects that are valid but for a cycle (`exists_checks`), the graph of
dependencies is cyclic exactly when reading is (`Checks.cyclic_iff`), and so an effect resolves
exactly when it is valid, to nodes, a graph and an order that say what the authored nodes say
(`resolve_iff_valid`).
-/

namespace LedEffect.Effect

variable {e : Effect} {id input : String} {u v : Nat}

/-- The inputs of a checked node are the numbers of what it reads. -/
lemma NodeChecked.mem_inputs_iff {n : NodeSpec} {m : ResolvedNode} (checked : e.NodeChecked n m)
    (distinct : (e.nodes.map (·.id)).Nodup) (number : e.HasNumber input u) :
    u ∈ m.inputs ↔ input ∈ e.effectiveInputs n := by
  constructor
  · intro mem
    obtain ⟨id, read, number'⟩ := Forall₂.exists_mem_left checked.inputs mem
    exact number.name_unique number' ▸ read
  · intro read
    obtain ⟨i, mem, number'⟩ := Forall₂.exists_mem_right checked.inputs read
    exact number.unique distinct number' ▸ mem

/-- What is read by a node that passes its checks is there. -/
lemma NodeChecked.names {n : NodeSpec} {m : ResolvedNode} (checked : e.NodeChecked n m)
    (read : input ∈ e.effectiveInputs n) : e.Names input := by
  obtain ⟨i, -, number⟩ := Forall₂.exists_mem_right checked.inputs read
  exact names_iff.2 ⟨i, number⟩

lemma NodeChecked.isSink_iff {n : NodeSpec} {m : ResolvedNode} (checked : e.NodeChecked n m) :
    m.kind.isSink = true ↔ n.IsSink := by
  constructor
  · intro sink
    exact ⟨m.kind, checked.kind, sink⟩
  · rintro ⟨k, kind, sink⟩
    rw [Kind.id_injective (checked.kind.trans kind.symm)]
    exact sink

lemma NodeChecked.faithful {n : NodeSpec} {m : ResolvedNode} (checked : e.NodeChecked n m) :
    e.NodeFaithful n m := by
  obtain ⟨-, each, -⟩ := resolveParams_eq_ok.1 checked.params
  exact ⟨checked.id, checked.kind, checked.inputs, each.imp fun _ _ => resolveParam_eq_ok.1⟩

namespace Checks

variable {nodes : Array ResolvedNode}

/-- Every input of a checked node is the number of a node. -/
lemma inside (checks : e.Checks nodes.toList) :
    ∀ m ∈ nodes.toList, ∀ i ∈ m.inputs, i < nodes.size := by
  intro m mem i read
  obtain ⟨n, -, checked⟩ := Forall₂.exists_mem_left checks.nodes mem
  obtain ⟨id, -, number⟩ := Forall₂.exists_mem_left checked.inputs read
  obtain ⟨target, place, -⟩ := hasNumber_iff.1 number
  have bound := (List.getElem?_eq_some_iff.1 place).1
  rwa [checks.nodes.length_eq, Array.length_toList] at bound

lemma operandCount_eq (checks : e.Checks nodes.toList) :
    (nodes.toList.map fun m => m.inputs.length).sum = e.operandCount := by
  have total : ∀ {ns : List NodeSpec} {ms : List ResolvedNode}, List.Forall₂ e.NodeChecked ns ms →
      (ms.map fun m => m.inputs.length).sum =
        (ns.map fun n => (e.effectiveInputs n).length).sum := by
    intro ns ms checked
    induction checked with
    | nil => rfl
    | cons here _ ih =>
      rw [List.map_cons, List.map_cons, List.sum_cons, List.sum_cons, ih, here.inputs.length_eq]
  exact total checks.nodes

/-- Reading between names is reading between numbers. -/
lemma reads_iff (checks : e.Checks nodes.toList) (here : e.HasNumber id v)
    (there : e.HasNumber input u) :
    e.Reads id input ↔ ∃ m, nodes[v]? = some m ∧ u ∈ m.inputs := by
  obtain ⟨n, place, rfl⟩ := hasNumber_iff.1 here
  obtain ⟨m, partner, checked⟩ := Forall₂.exists_right checks.nodes place
  rw [Array.getElem?_toList] at partner
  constructor
  · rintro ⟨n', mem, same, read⟩
    obtain rfl := List.inj_on_of_nodup_map checks.distinct mem (List.mem_of_getElem? place) same
    exact ⟨m, partner, (checked.mem_inputs_iff checks.distinct there).2 read⟩
  · rintro ⟨m', partner', read⟩
    obtain rfl := Option.some_inj.1 (partner.symm.trans partner')
    exact ⟨n, List.mem_of_getElem? place, rfl, (checked.mem_inputs_iff checks.distinct there).1 read⟩

lemma names (checks : e.Checks nodes.toList) (read : e.Reads id input) :
    e.Names id ∧ e.Names input := by
  obtain ⟨n, mem, rfl, read⟩ := read
  obtain ⟨m, -, checked⟩ := Forall₂.exists_mem_right checks.nodes mem
  exact ⟨⟨n, mem, rfl⟩, checked.names read⟩

/-- A node on a cycle of the graph of dependencies reads itself over the others. -/
lemma reads_cycle (checks : e.Checks nodes.toList) {view : Graph}
    (adjacent : ∀ u v, view.Adjacent u v ↔ ∃ m, nodes[v]? = some m ∧ u ∈ m.inputs)
    (cycle : Relation.TransGen view.Adjacent u u) (named : e.HasNumber id u) :
    Relation.TransGen e.Reads id id := by
  let name : Nat → String := fun i => ((e.nodes[i]?).map (·.id)).getD ""
  have edge : ∀ u v, view.Adjacent u v → Function.swap e.Reads (name u) (name v) := by
    intro u v edge
    obtain ⟨m, place, read⟩ := (adjacent u v).1 edge
    obtain ⟨n, here, checked⟩ := Forall₂.exists_left checks.nodes
      (by rwa [Array.getElem?_toList] : nodes.toList[v]? = some m)
    obtain ⟨id, -, there⟩ := Forall₂.exists_mem_left checked.inputs read
    have number : e.HasNumber (name v) v := by simp [HasNumber, name, here]
    have number' : e.HasNumber (name u) u := by
      rw [HasNumber] at there ⊢
      simp [name, there]
    exact (checks.reads_iff number number').2 ⟨m, place, read⟩
  have round := Relation.transGen_swap.1 (cycle.lift name edge)
  rw [HasNumber] at named
  simpa only [name, named, Option.getD_some] using round

/-- The graph of the dependencies is cyclic exactly when a node reads itself over some others. -/
lemma cyclic_iff (checks : e.Checks nodes.toList) {view : Graph}
    (adjacent : ∀ u v, view.Adjacent u v ↔ ∃ m, nodes[v]? = some m ∧ u ∈ m.inputs) :
    view.Cyclic ↔ ∃ id, Relation.TransGen e.Reads id id := by
  -- Both ways a cycle is carried over edge by edge, against the direction of reading.
  constructor
  · rintro ⟨u, cycle⟩
    obtain ⟨w, -, edge⟩ := Relation.TransGen.tail'_iff.1 cycle
    obtain ⟨m, place, -⟩ := (adjacent w u).1 edge
    obtain ⟨n, here, -⟩ := Forall₂.exists_left checks.nodes
      (by rwa [Array.getElem?_toList] : nodes.toList[u]? = some m)
    exact ⟨n.id, checks.reads_cycle adjacent cycle (hasNumber_iff.2 ⟨n, here, rfl⟩)⟩
  · rintro ⟨id, cycle⟩
    let number : String → Nat := fun id => (e.indexOf? id).getD 0
    have numbered : ∀ id, e.Names id → e.HasNumber id (number id) := by
      intro id named
      obtain ⟨i, has⟩ := names_iff.1 named
      simpa [number, (indexOf?_eq_some checks.distinct).2 has] using has
    have edge : ∀ id input, e.Reads id input →
        Function.swap view.Adjacent (number id) (number input) := by
      intro id input read
      obtain ⟨here, there⟩ := checks.names read
      exact (adjacent _ _).2 ((checks.reads_iff (numbered _ here) (numbered _ there)).1 read)
    exact ⟨number id, Relation.transGen_swap.1 (cycle.lift number edge)⟩

lemma checkSinks_iff (checks : e.Checks nodes.toList) :
    checkSinks nodes = .ok () ↔
      (∀ n ∈ e.nodes, ∀ m ∈ e.nodes, m.id ∈ e.effectiveInputs n → m.IsSink →
        n.kind = Kind.output.id) ∧ ∃ n ∈ e.nodes, n.IsSink := by
  rw [checkSinks_eq_ok]
  refine and_congr ⟨fun clean n mem n' mem' read sink => ?_,
    fun clean m mem kind i read m' place => ?_⟩
    ⟨fun ⟨m, mem, sink⟩ => ?_, fun ⟨n, mem, sink⟩ => ?_⟩
  · obtain ⟨m, listed, checked⟩ := Forall₂.exists_mem_right checks.nodes mem
    obtain ⟨i, place⟩ := List.getElem?_of_mem mem'
    obtain ⟨m', partner, checked'⟩ := Forall₂.exists_right checks.nodes place
    rw [Array.getElem?_toList] at partner
    have input := (checked.mem_inputs_iff checks.distinct
      (hasNumber_iff.2 ⟨n', place, rfl⟩)).2 read
    by_contra other
    have kind : m.kind ≠ .output := by
      intro eq
      exact other (checked.kind.symm.trans (congrArg Kind.id eq))
    have notSink := clean m listed kind i input m' partner
    rw [checked'.isSink_iff.2 sink] at notSink
    cases notSink
  · obtain ⟨n, listed, checked⟩ := Forall₂.exists_mem_left checks.nodes mem
    obtain ⟨n', here, checked'⟩ := Forall₂.exists_left checks.nodes
      (by rwa [Array.getElem?_toList] : nodes.toList[i]? = some m')
    rw [Bool.eq_false_iff]
    intro sink
    have output := clean n listed n' (List.mem_of_getElem? here)
      ((checked.mem_inputs_iff checks.distinct (hasNumber_iff.2 ⟨n', here, rfl⟩)).1 read)
      (checked'.isSink_iff.1 sink)
    exact kind (Kind.id_injective (checked.kind.trans output))
  · obtain ⟨n, listed, checked⟩ := Forall₂.exists_mem_left checks.nodes mem
    exact ⟨n, listed, checked.isSink_iff.1 sink⟩
  · obtain ⟨m, listed, checked⟩ := Forall₂.exists_mem_right checks.nodes mem
    exact ⟨m, listed, checked.isSink_iff.2 sink⟩

/-- Nodes that pass their checks satisfy the conditions on single nodes. -/
lemma node (checks : e.Checks nodes.toList) {n : NodeSpec} (mem : n ∈ e.nodes) {k : Kind}
    (kind : k.id = n.kind) :
    (k.minInputs ≤ (e.effectiveInputs n).length ∧ (e.effectiveInputs n).length ≤ k.maxInputs) ∧
      n.ParametersValid k := by
  obtain ⟨m, -, checked⟩ := Forall₂.exists_mem_right checks.nodes mem
  obtain rfl := Kind.id_injective (checked.kind.trans kind.symm)
  rw [checked.inputs.length_eq]
  exact ⟨⟨checked.enough, checked.bounded⟩, exists_resolveParams_iff.1 ⟨_, checked.params⟩⟩

end Checks

lemma Valid.reads_names (valid : e.Valid) {n : NodeSpec} (mem : n ∈ e.nodes)
    (read : input ∈ e.effectiveInputs n) : e.Names input := by
  unfold effectiveInputs at read
  split at read
  · obtain ⟨w, listed, rfl⟩ := List.mem_map.1 read
    exact (valid.wired w (List.mem_filter.1 listed).1).1
  · exact valid.present n mem input read

/-- The nodes of a valid effect pass their checks. -/
lemma Valid.exists_checks (valid : e.Valid) :
    ∃ nodes : Array ResolvedNode, e.Checks nodes.toList := by
  obtain ⟨nodes, checked⟩ : ∃ nodes, List.Forall₂ e.NodeChecked e.nodes nodes := by
    refine exists_forall₂ fun n mem => ?_
    obtain ⟨k, kind⟩ := valid.catalogued n mem
    obtain ⟨inputs, numbers⟩ := exists_forall₂ fun id read =>
      names_iff.1 (valid.reads_names mem read)
    obtain ⟨params, resolved⟩ := exists_resolveParams_iff.2 (valid.parameters n mem k kind)
    have arity := valid.arity n mem k kind
    rw [numbers.length_eq] at arity
    exact ⟨⟨n.id, k, inputs, params⟩, rfl, kind, numbers, arity.1, arity.2, resolved⟩
  exact ⟨nodes.toArray, valid.distinct, valid.wired, checked⟩

/-- An effect whose nodes pass their checks is valid when its sinks are in place and nothing reads
itself. -/
lemma Checks.valid {nodes : Array ResolvedNode} (checks : e.Checks nodes.toList)
    (sinks : checkSinks nodes = .ok ()) (acyclic : ∀ id, ¬ Relation.TransGen e.Reads id id) :
    e.Valid where
  distinct := checks.distinct
  catalogued n mem := by
    obtain ⟨m, -, checked⟩ := Forall₂.exists_mem_right checks.nodes mem
    exact ⟨m.kind, checked.kind⟩
  wired := checks.wired
  present n mem id listed := by
    obtain ⟨m, -, checked⟩ := Forall₂.exists_mem_right checks.nodes mem
    apply checked.names
    rwa [effectiveInputs, if_neg (List.ne_nil_of_mem listed)]
  arity n mem k kind := (checks.node mem kind).1
  parameters n mem k kind := (checks.node mem kind).2
  sinkReaders := (checks.checkSinks_iff.1 sinks).1
  sink := (checks.checkSinks_iff.1 sinks).2
  acyclic := acyclic

/-- An effect of at most 2³² - 1 nodes and operands resolves exactly when it is valid, and then to a
faithful form of itself. -/
theorem resolve_iff_valid (e : Effect) (small : e.nodes.length ≤ Graph.counterLimit)
    (few : e.operandCount ≤ Graph.counterLimit) :
    ((∃ r, e.resolve = .ok r) ↔ e.Valid) ∧ ∀ r, e.resolve = .ok r → e.Faithful r := by
  have size : ∀ {nodes : Array ResolvedNode}, e.Checks nodes.toList →
      nodes.size ≤ Graph.counterLimit := by
    intro nodes checks
    rwa [← Array.length_toList, ← checks.nodes.length_eq]
  -- The graph is that of the operand slots whether or not it can be sorted.
  have graph : ∀ {nodes : Array ResolvedNode}, e.Checks nodes.toList →
      ∃ view, Graph.ofEdges nodes.size (dependencies nodes) = .ok view ∧
        view.nodeCount = nodes.size ∧ view.nodeCount < 2 ^ 32 ∧
        (∀ u < nodes.size, ∀ v,
          (view.row u).count v = (nodes[v]?).elim 0 fun m => m.inputs.count u) ∧
        ∀ u v, view.Adjacent u v ↔ ∃ m, nodes[v]? = some m ∧ u ∈ m.inputs := by
    intro nodes checks
    obtain ⟨view, made, count, edges⟩ := dependencies_spec (size checks)
      (checks.operandCount_eq ▸ few) checks.inside
    refine ⟨view, made, count, ?_, edges, fun u v => adjacent_iff count edges checks.inside⟩
    rw [count]
    exact Nat.lt_of_le_of_lt (size checks) (by decide)
  refine ⟨⟨?_, fun valid => ?_⟩, fun r run => ?_⟩
  · rintro ⟨r, run⟩
    obtain ⟨checks, sinks, made, sorted⟩ := resolve_eq_ok.1 run
    obtain ⟨view, made', -, fits, -, adjacent⟩ := graph checks
    obtain rfl := Except.ok.inj (made'.symm.trans made)
    refine checks.valid sinks fun id cycle => ?_
    exact (Graph.TopologicalOrder.of_topoSort fits sorted).acyclic
      ((checks.cyclic_iff adjacent).2 ⟨id, cycle⟩)
  · obtain ⟨nodes, checks⟩ := valid.exists_checks
    obtain ⟨view, made, -, fits, -, adjacent⟩ := graph checks
    obtain ⟨order, sorted⟩ := Graph.exists_topoSort fits fun cyclic =>
      let ⟨id, cycle⟩ := (checks.cyclic_iff adjacent).1 cyclic
      valid.acyclic id cycle
    have sinks := checks.checkSinks_iff.2 ⟨valid.sinkReaders, valid.sink⟩
    exact ⟨⟨nodes, view, order⟩, resolve_eq_ok.2 ⟨checks, sinks, made, sorted⟩⟩
  · obtain ⟨checks, -, made, sorted⟩ := resolve_eq_ok.1 run
    obtain ⟨view, made', count, fits, edges, adjacent⟩ := graph checks
    obtain rfl := Except.ok.inj (made'.symm.trans made)
    have order := Graph.TopologicalOrder.of_topoSort fits sorted
    refine ⟨checks.nodes.imp fun _ _ => NodeChecked.faithful, count, fun u lt => ?_,
      count ▸ order.perm, fun v m place u read => ?_⟩
    · exact ⟨_, Graph.neighbors?_eq_row (by rwa [count]), edges u lt⟩
    · exact order.forward u v ((adjacent u v).2 ⟨m, place, read⟩)

/-- A level that is squared by explicit inputs and shown by a wire. -/
def squared : Effect :=
  (((empty.node (NodeSpec.new "level" "audio-level")).node
    (((NodeSpec.new "square" "multiply").input "level").input "level")).node
    ((NodeSpec.new "strip" "palette-interpolate").param "brightness" (.number 1))).wire "square"
      "strip"

/-- A level that is squared and shown is valid. -/
theorem resolve_squared :
    squared.nodes.length ≤ Graph.counterLimit ∧ squared.operandCount ≤ Graph.counterLimit ∧
      squared.Valid ∧ ∃ r, squared.resolve = .ok r ∧ squared.Faithful r := by
  have small : squared.nodes.length ≤ Graph.counterLimit := by decide
  have few : squared.operandCount ≤ Graph.counterLimit := by decide
  obtain ⟨valid, faithful⟩ := resolve_iff_valid squared small few
  have accepted : squared.resolve.isOk = true := by decide +kernel
  obtain ⟨r, run⟩ : ∃ r, squared.resolve = .ok r := by
    cases run : squared.resolve with
    | ok r => exact ⟨r, rfl⟩
    | error fault => simp [run, Except.isOk, Except.toBool] at accepted
  exact ⟨small, few, valid.1 ⟨r, run⟩, r, run, faithful r run⟩

end LedEffect.Effect
