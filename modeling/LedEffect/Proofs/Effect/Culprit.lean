import LedEffect.Proofs.Effect.Reports
import LedEffect.Proofs.Graph.Blame

/-!
# Who is blamed for a cycle

The nodes of an effect are put into an order last, and no other step speaks of a cycle
(`resolve_eq_cycle`). So an effect is refused for a cycle when it passes all its checks and some node
reads itself over others, and the node that is named is such a one (`cycle_culprit`).
-/

namespace LedEffect

namespace Effect

variable {e : Effect} {id : String} {kind : Kind} {nodes : Array ResolvedNode} {view : Graph}

/-- Nodes are refused for a cycle when sorting names one of them. -/
lemma dependencyOrder_eq_cycle : dependencyOrder nodes view = .error (.cycle id kind) ↔
    ∃ sorted total node m, view.topoSort = .error (.cycle sorted total node) ∧
      nodes[node]? = some m ∧ m.id = id ∧ m.kind = kind := by
  unfold dependencyOrder
  cases view.topoSort with
  | ok => simp
  | error fault =>
    cases fault with
    | cycle sorted total node =>
      dsimp only
      cases place : nodes[node]? with
      | none => simp [place]
      | some m => simp [place]
    | _ => simp

/-- An effect is refused for a cycle when it passes its checks and its nodes are refused for one. -/
lemma resolve_eq_cycle : e.resolve = .error (.cycle id kind) ↔ ∃ nodes view,
    e.checkedNodes = .ok nodes.toList ∧ checkSinks nodes = .ok () ∧
      Graph.ofEdges nodes.size (dependencies nodes) = .ok view ∧
        dependencyOrder nodes view = .error (.cycle id kind) := by
  have other : ¬ (CompileError.cycle id kind).Unordered := not_false
  rw [resolve_eq, checkedNodes_fails.bind_eq_error other]
  simp only [(checkSinks_fails _).bind_eq_error other, (ofEdges_fails _ _).bind_eq_error other,
    mapError_eq_ok]
  constructor
  · rintro ⟨nodes, checked, _, sinks, view, made, run⟩
    refine ⟨nodes.toArray, view, checked, sinks, made, ?_⟩
    cases ordered : dependencyOrder nodes.toArray view with
    | ok order =>
      rw [ordered] at run
      cases run
    | error fault =>
      rw [ordered] at run
      cases run
      rfl
  · rintro ⟨nodes, view, checked, sinks, made, ordered⟩
    refine ⟨nodes.toList, checked, (), sinks, view, made, ?_⟩
    rw [Array.toArray_toList, ordered]
    rfl

/-- The node that is blamed for a cycle reads itself over others. -/
lemma reads_of_resolve (run : e.resolve = .error (.cycle id kind)) :
    (∃ n ∈ e.nodes, n.id = id ∧ n.kind = kind.id) ∧ Relation.TransGen e.Reads id id := by
  obtain ⟨nodes, view, checked, -, made, ordered⟩ := resolve_eq_cycle.1 run
  obtain ⟨sorted, total, node, m, stop, place, rfl, rfl⟩ := dependencyOrder_eq_cycle.1 ordered
  have checks := checkedNodes_eq_ok.1 checked
  obtain ⟨-, small, adjacent⟩ := checks.view made
  obtain ⟨final, _, _, _, -, eq, blamed⟩ := Graph.topoSort_blamed small stop
  obtain ⟨rfl, rfl, rfl⟩ := eq
  obtain ⟨n, here, alike⟩ := Forall₂.exists_left checks.nodes
    (by rwa [Array.getElem?_toList] : nodes.toList[node]? = some m)
  have cycle : Relation.TransGen view.Adjacent node node :=
    blamed.cycle.lift (fun u => u) fun _ _ edge => edge.1
  exact ⟨⟨n, List.mem_of_getElem? here, alike.id.symm, alike.kind.symm⟩,
    checks.reads_cycle adjacent cycle (hasNumber_iff.2 ⟨n, here, alike.id.symm⟩)⟩

/-- An effect that passes its checks although some node reads itself is refused, and the node that
sorting names is blamed. -/
lemma exists_culprit (checked : e.checkedNodes = .ok nodes.toList) (sinks : checkSinks nodes = .ok ())
    (made : Graph.ofEdges nodes.size (dependencies nodes) = .ok view)
    (cyclic : ∃ id, Relation.TransGen e.Reads id id) :
    ∃ sorted total node m, view.topoSort = .error (.cycle sorted total node) ∧
      nodes[node]? = some m ∧ e.resolve = .error (.cycle m.id m.kind) := by
  have checks := checkedNodes_eq_ok.1 checked
  obtain ⟨count, small, adjacent⟩ := checks.view made
  rcases Graph.topoSort_spec small with ⟨order, -, sorted⟩ | ⟨k, least, -, stop, cycle⟩
  · exact absurd ((checks.cyclic_iff adjacent).2 cyclic) sorted.acyclic
  · obtain ⟨next, edge, -⟩ := Relation.TransGen.head'_iff.1 cycle
    have bound : least < nodes.size := count ▸ edge.1.source
    have place : nodes[least]? = some nodes[least] := Array.getElem?_eq_getElem bound
    refine ⟨_, _, least, nodes[least], stop, place, ?_⟩
    exact resolve_eq_cycle.2 ⟨nodes, view, checked, sinks, made,
      dependencyOrder_eq_cycle.2 ⟨_, _, least, _, stop, place, rfl, rfl⟩⟩

/-- When sorting fails it counts the nodes that no cycle reaches and names the least node of a cycle, to
which it comes by a walk among the leftover nodes. An effect that is refused for a cycle is refused with
the name and the kind of a node that reads itself over others. It is so when all its checks pass and some
node does, and then the node that sorting names is reported. -/
theorem cycle_culprit :
    (∀ (g : Graph) (fault : GraphError), g.nodeCount < 2 ^ 32 → g.topoSort = .error fault →
      ∃ final sorted total node, g.kahn? = some final ∧ fault = .cycle sorted total node ∧
        g.Blamed final sorted total node) ∧
    ∀ e : Effect,
      (∀ id kind, e.resolve = .error (.cycle id kind) →
        (∃ n ∈ e.nodes, n.id = id ∧ n.kind = kind.id) ∧ Relation.TransGen e.Reads id id) ∧
      ∀ (nodes : Array ResolvedNode) view, e.checkedNodes = .ok nodes.toList →
        checkSinks nodes = .ok () → Graph.ofEdges nodes.size (dependencies nodes) = .ok view →
        (∃ id, Relation.TransGen e.Reads id id) →
          ∃ sorted total node m, view.topoSort = .error (.cycle sorted total node) ∧
            nodes[node]? = some m ∧ e.resolve = .error (.cycle m.id m.kind) := by
  refine ⟨fun g fault small fails => Graph.topoSort_blamed small fails, fun e => ⟨fun id kind run => ?_,
    fun nodes view checked sinks made cyclic => ?_⟩⟩
  · exact reads_of_resolve run
  · exact exists_culprit checked sinks made cyclic

/-- The node that is blamed when an effect is refused for a cycle, with its kind. -/
def blamed? (e : Effect) : Option (String × Kind) :=
  match e.resolve with
  | .error (.cycle id kind) => some (id, kind)
  | _ => none

lemma blamed?_eq_some : e.blamed? = some (id, kind) ↔ e.resolve = .error (.cycle id kind) := by
  unfold blamed?
  split
  next run => simp [run]
  next other =>
    refine iff_of_false nofun fun run => ?_
    exact other id kind run

end Effect

/-- A chain behind a cycle of two, and a node before the end of the chain. -/
def Graph.chained : Graph := ⟨true, #[0, 0, 1, 2, 4, 5], #[0, 3, 2, 4, 0], none, by decide⟩

namespace Effect

/-- A strip that shows what two nodes make of each other. -/
def tangled : Effect :=
  ((empty.node ((NodeSpec.new "strip" "palette-interpolate").input "x")).node
    ((NodeSpec.new "x" "scale").input "y")).node ((NodeSpec.new "y" "sin").input "x")

/-- The least node of the cycle is named and not the end of the chain, and one of the two nodes is blamed
and not the strip. -/
theorem cycle_culprit_tangled :
    Graph.chained.nodeCount < 2 ^ 32 ∧ Graph.chained.topoSort = .error (.cycle 1 5 2) ∧
      {v | v < 5 ∧ ¬ Graph.chained.BehindCycle v}.ncard = 1 ∧
      Relation.TransGen Graph.chained.Adjacent 2 2 ∧
    tangled.resolve = .error (.cycle "x" .scale) ∧ Relation.TransGen tangled.Reads "x" "x" ∧
    ∃ (nodes : Array ResolvedNode) (view : Graph), tangled.checkedNodes = .ok nodes.toList ∧
      checkSinks nodes = .ok () ∧ Graph.ofEdges nodes.size (dependencies nodes) = .ok view ∧
      ∃ sorted total node m, view.topoSort = .error (.cycle sorted total node) ∧
        nodes[node]? = some m ∧ m.id = "x" := by
  have stop : Graph.chained.topoSort = .error (.cycle 1 5 2) := by rfl
  obtain ⟨final, sorted, total, node, -, eq, blamed⟩ :=
    cycle_culprit.1 Graph.chained _ (by decide) stop
  cases eq
  have run : tangled.resolve = .error (.cycle "x" .scale) := blamed?_eq_some.1 (by decide +kernel)
  obtain ⟨reads, blames⟩ := cycle_culprit.2 tangled
  have cycle := (reads _ _ run).2
  obtain ⟨nodes, view, checked, sinks, made, -⟩ := resolve_eq_cycle.1 run
  obtain ⟨sorted, total, node, m, named, place, run'⟩ :=
    blames nodes view checked sinks made ⟨"x", cycle⟩
  have name : "x" = m.id := congrArg (·.node?.getD "") (Except.error.inj (run.symm.trans run'))
  exact ⟨by decide, stop, blamed.sorted.symm, blamed.cycle.lift id fun _ _ edge => edge.1, run, cycle,
    nodes, view, checked, sinks, made, sorted, total, node, m, named, place, name.symm⟩

end Effect

end LedEffect
