import LedEffect.Proofs.Effect.Culprit

/-!
# Phases of checking

Each rule for effects belongs to a phase (`Effect.Violates`), and an effect is valid when it violates
none (`valid_iff_phases`). The phases do not follow each other for the effect as a whole: inputs and
parameters are checked node by node. So a node with broken parameters hides the missing inputs of those
declared after it (`parameters_hide_inputs`). That is the only way in which an error comes before its
turn (`resolve_phases`).
-/

namespace LedEffect

/-- The place of a phase among the phases. -/
def Phase.place : Phase → Nat
  | names => 0
  | wires => 1
  | inputs => 2
  | parameters => 3
  | sinks => 4
  | cycles => 5

namespace Effect

open CompileError

variable {e : Effect} {n : NodeSpec} {m : ResolvedNode} {k : Kind} {phase : Phase}
  {error : CompileError}

/-! ## Violations -/

/-- Whether a node breaks the rule of a phase in which nodes are checked one by one. -/
def Breaks (e : Effect) (n : NodeSpec) : Phase → Prop
  | .inputs => (∃ id ∈ n.inputs, ¬ e.Names id) ∨ ∃ k : Kind, k.id = n.kind ∧
      ((e.effectiveInputs n).length < k.minInputs ∨ k.maxInputs < (e.effectiveInputs n).length)
  | .parameters => ∃ k : Kind, k.id = n.kind ∧ ¬ n.ParametersValid k
  | _ => False

/-- Whether a node, a wire or the whole of an effect breaks the rule of a phase. -/
def Violates (e : Effect) : Phase → Prop
  | .names => ¬ (e.nodes.map (·.id)).Nodup ∨ ∃ n ∈ e.nodes, ∀ k : Kind, k.id ≠ n.kind
  | .wires => ∃ w ∈ e.wires, ¬ (e.Names w.source ∧ e.Names w.target)
  | .inputs => ∃ n ∈ e.nodes, e.Breaks n .inputs
  | .parameters => ∃ n ∈ e.nodes, e.Breaks n .parameters
  | .sinks => (∃ n ∈ e.nodes, ∃ m ∈ e.nodes, m.id ∈ e.effectiveInputs n ∧ m.IsSink ∧
      n.kind ≠ Kind.output.id) ∨ ∀ n ∈ e.nodes, ¬ n.IsSink
  | .cycles => ∃ id, Relation.TransGen e.Reads id id

/-- The rules of the phases are together what makes an effect valid. -/
lemma valid_iff_phases : e.Valid ↔ ∀ phase, ¬ e.Violates phase := by
  constructor
  · intro valid phase violated
    cases phase with
    | names =>
      rcases violated with twice | ⟨n, mem, unknown⟩
      · exact twice valid.distinct
      · obtain ⟨k, kind⟩ := valid.catalogued n mem
        exact unknown k kind
    | wires =>
      obtain ⟨w, mem, dangling⟩ := violated
      exact dangling (valid.wired w mem)
    | inputs =>
      obtain ⟨n, mem, ⟨id, listed, missing⟩ | ⟨k, kind, arity⟩⟩ := violated
      · exact missing (valid.present n mem id listed)
      · have bounds := valid.arity n mem k kind
        omega
    | parameters =>
      obtain ⟨n, mem, k, kind, invalid⟩ := violated
      exact invalid (valid.parameters n mem k kind)
    | sinks =>
      rcases violated with ⟨n, mem, m, mem', read, sink, other⟩ | none
      · exact other (valid.sinkReaders n mem m mem' read sink)
      · obtain ⟨n, mem, sink⟩ := valid.sink
        exact none n mem sink
    | cycles =>
      obtain ⟨id, cycle⟩ := violated
      exact valid.acyclic id cycle
  · intro clean
    refine ⟨?_, fun n mem => ?_, fun w mem => ?_, fun n mem id listed => ?_, fun n mem k kind => ?_,
      fun n mem k kind => ?_, fun n mem m mem' read sink => ?_, ?_, fun id cycle => ?_⟩
    · by_contra twice
      exact clean .names (.inl twice)
    · by_contra unknown
      exact clean .names (.inr ⟨n, mem, fun k kind => unknown ⟨k, kind⟩⟩)
    · by_contra dangling
      exact clean .wires ⟨w, mem, dangling⟩
    · by_contra missing
      exact clean .inputs ⟨n, mem, .inl ⟨id, listed, missing⟩⟩
    · by_contra arity
      exact clean .inputs ⟨n, mem, .inr ⟨k, kind, by omega⟩⟩
    · by_contra invalid
      exact clean .parameters ⟨n, mem, k, kind, invalid⟩
    · by_contra other
      exact clean .sinks (.inl ⟨n, mem, m, mem', read, sink, other⟩)
    · by_contra none
      exact clean .sinks (.inr fun n mem sink => none ⟨n, mem, sink⟩)
    · exact clean .cycles ⟨id, cycle⟩

/-! ## What the checks say -/

/-- The kinds of the nodes are found when the first phase is not violated. -/
lemma exists_nodeKinds_iff : (∃ kinds, nodeKinds [] e.nodes = .ok kinds) ↔ ¬ e.Violates .names := by
  constructor
  · rintro ⟨kinds, named⟩ violated
    obtain ⟨distinct, -, typed⟩ := nodeKinds_eq_ok.1 named
    rcases violated with twice | ⟨n, mem, unknown⟩
    · exact twice distinct
    · obtain ⟨k, -, kind⟩ := Forall₂.exists_mem_right typed mem
      exact unknown k kind
  · intro clean
    obtain ⟨distinct, known⟩ := not_or.1 clean
    obtain ⟨kinds, typed⟩ :
        ∃ kinds, List.Forall₂ (fun n k => Kind.id k = n.kind) e.nodes kinds := by
      refine exists_forall₂ fun n mem => ?_
      by_contra unknown
      exact known ⟨n, mem, fun k kind => unknown ⟨k, kind⟩⟩
    exact ⟨kinds, nodeKinds_eq_ok.2 ⟨not_not.1 distinct, by simp, typed⟩⟩

/-- The ends of the wires are found when the second phase is not violated. -/
lemma exists_wirePairs_iff (distinct : (e.nodes.map (·.id)).Nodup) :
    (∃ pairs, e.wirePairs = .ok pairs) ↔ ¬ e.Violates .wires := by
  constructor
  · rintro ⟨pairs, wired⟩ ⟨w, mem, dangling⟩
    have ends := (wirePairs_eq_ok distinct).1 wired
    obtain ⟨pair, -, target, source⟩ := Forall₂.exists_mem_right ends mem
    exact dangling ⟨names_iff.2 ⟨_, source⟩, names_iff.2 ⟨_, target⟩⟩
  · intro clean
    obtain ⟨pairs, ends⟩ : ∃ pairs : List (Nat × Nat), List.Forall₂
        (fun w pair => e.HasNumber w.target pair.1 ∧ e.HasNumber w.source pair.2) e.wires pairs := by
      refine exists_forall₂ fun w mem => ?_
      have named : e.Names w.source ∧ e.Names w.target := by
        by_contra dangling
        exact clean ⟨w, mem, dangling⟩
      obtain ⟨i, source⟩ := names_iff.1 named.1
      obtain ⟨j, target⟩ := names_iff.1 named.2
      exact ⟨(j, i), target, source⟩
    exact ⟨pairs, (wirePairs_eq_ok distinct).2 ends⟩

/-- The explicit inputs of a node are found when they name nodes. -/
lemma exists_explicitInputs (distinct : (e.nodes.map (·.id)).Nodup)
    (present : ¬ ∃ id ∈ n.inputs, ¬ e.Names id) : ∃ inputs, e.explicitInputs n k = .ok inputs := by
  obtain ⟨inputs, numbers⟩ : ∃ inputs, List.Forall₂ e.HasNumber n.inputs inputs := by
    refine exists_forall₂ fun id listed => names_iff.1 ?_
    by_contra unnamed
    exact present ⟨id, listed, unnamed⟩
  exact ⟨inputs, (explicitInputs_eq_ok distinct).2 numbers⟩

/-- Inputs that are found and as many as the kind takes break no rule. -/
lemma not_breaks_inputs {inputs : List Nat} (typed : k.id = n.kind)
    (numbers : List.Forall₂ e.HasNumber (e.effectiveInputs n) inputs)
    (arity : ¬ (inputs.length < k.minInputs ∨ k.maxInputs < inputs.length)) :
    ¬ e.Breaks n .inputs := by
  rintro (⟨id, listed, missing⟩ | ⟨k', kind, wrong⟩)
  · have read : id ∈ e.effectiveInputs n := by
      rwa [effectiveInputs, if_neg (List.ne_nil_of_mem listed)]
    obtain ⟨i, -, number⟩ := Forall₂.exists_mem_right numbers read
    exact missing (names_iff.2 ⟨i, number⟩)
  · obtain rfl := Kind.id_injective (typed.trans kind.symm)
    rw [numbers.length_eq] at wrong
    exact arity wrong

lemma NodeChecked.not_breaks (checked : e.NodeChecked n m) (phase : Phase) : ¬ e.Breaks n phase := by
  cases phase with
  | inputs =>
    have enough := checked.enough
    have bounded := checked.bounded
    exact not_breaks_inputs checked.kind checked.inputs (by omega)
  | parameters =>
    rintro ⟨k, kind, invalid⟩
    obtain rfl := Kind.id_injective (checked.kind.trans kind.symm)
    exact invalid (exists_resolveParams_iff.1 ⟨_, checked.params⟩)
  | _ => exact not_false

/-- An effect whose nodes and wires pass their checks violates a late phase, if any. -/
lemma Checks.late {nodes : List ResolvedNode} (checks : e.Checks nodes) (violated : e.Violates phase) :
    phase = .sinks ∨ phase = .cycles := by
  cases phase with
  | names =>
    rcases violated with twice | ⟨n, mem, unknown⟩
    · exact absurd checks.distinct twice
    · obtain ⟨m, -, checked⟩ := Forall₂.exists_mem_right checks.nodes mem
      exact absurd checked.kind (unknown m.kind)
  | wires =>
    obtain ⟨w, mem, dangling⟩ := violated
    exact absurd (checks.wired w mem) dangling
  | inputs | parameters =>
    obtain ⟨n, mem, broken⟩ := violated
    obtain ⟨m, -, checked⟩ := Forall₂.exists_mem_right checks.nodes mem
    exact absurd broken (checked.not_breaks _)
  | sinks => exact .inl rfl
  | cycles => exact .inr rfl

/-- A node that fails its check breaks the rule of the phase that is reported; its inputs are checked
before its parameters. -/
lemma breaks_of_resolveNode (distinct : (e.nodes.map (·.id)).Nodup) {wired : List Nat}
    (sources : List.Forall₂ e.HasNumber
      ((e.wires.filter fun w => w.target = n.id).map (·.source)) wired) (typed : k.id = n.kind)
    (failed : e.resolveNode n k wired = .error error) :
    error.Blames n.id .inputs ∧ e.Breaks n .inputs ∨
      error.Blames n.id .parameters ∧ e.Breaks n .parameters ∧ ¬ e.Breaks n .inputs := by
  rw [resolveNode_eq] at failed
  rcases bind_eq_error.1 failed with missing | ⟨inputs, found, failed⟩
  · left
    split at missing
    · cases missing
    · refine ⟨explicitInputs_phase n k error missing, .inl ?_⟩
      by_contra present
      exact not_exists_of_error missing (exists_explicitInputs distinct present)
  · have numbers := (inputs_eq_ok distinct sources).1 found
    split at failed
    next arity =>
      left
      cases failed
      refine ⟨⟨rfl, rfl⟩, .inr ⟨k, typed, ?_⟩⟩
      rwa [numbers.length_eq]
    next arity =>
      right
      rcases bind_eq_error.1 failed with invalid | ⟨params, -, made⟩
      · refine ⟨resolveParams_phase n k error invalid, ⟨k, typed, fun valid => ?_⟩,
          not_breaks_inputs typed numbers arity⟩
        exact not_exists_of_error invalid (exists_resolveParams_iff.2 valid)
      · cases made

/-- The sinks are in place when their phase is not violated. -/
lemma Checks.sinks_iff {nodes : Array ResolvedNode} (checks : e.Checks nodes.toList) :
    checkSinks nodes = .ok () ↔ ¬ e.Violates .sinks := by
  rw [checks.checkSinks_iff]
  constructor
  · rintro ⟨apart, n, mem, sink⟩ violated
    rcases violated with ⟨n, mem, m, mem', read, isSink, other⟩ | none
    · exact other (apart n mem m mem' read isSink)
    · exact none n mem sink
  · intro clean
    obtain ⟨apart, sink⟩ := not_or.1 clean
    refine ⟨fun n mem m mem' read isSink => ?_, ?_⟩
    · by_contra other
      exact apart ⟨n, mem, m, mem', read, isSink, other⟩
    · by_contra none
      exact sink fun n mem isSink => none ⟨n, mem, isSink⟩

/-- Checked nodes that make no graph are too many, or have too many operands. -/
lemma large_of_ofEdges {nodes : Array ResolvedNode} (checks : e.Checks nodes.toList)
    (failed : (Graph.ofEdges nodes.size (dependencies nodes)).mapError CompileError.graph =
      .error error) :
    Graph.counterLimit < e.nodes.length ∨ Graph.counterLimit < e.operandCount := by
  by_contra fits
  obtain ⟨small, few⟩ := not_or.1 fits
  have size : nodes.size ≤ Graph.counterLimit := by
    rw [← Array.length_toList, ← checks.nodes.length_eq]
    exact Nat.not_lt.1 small
  obtain ⟨view, made, -⟩ := dependencies_spec size
    (checks.operandCount_eq ▸ Nat.not_lt.1 few) checks.inside
  exact not_exists_of_error failed ⟨view, mapError_eq_ok.2 made⟩

/-! ## The order of errors -/

/-- What the phase of an error says of an effect. The effect violates it. The phases before it are not
violated, except that nodes after the blamed one may have wrong inputs when its parameters are wrong.
In the phases that check nodes one by one, the first node that breaks either rule is blamed, for the
first rule that it breaks. -/
structure ReportedIn (e : Effect) (error : CompileError) (phase : Phase) : Prop where
  found : error.phase? = some phase
  violated : e.Violates phase
  earlier : ∀ before : Phase, before.place < phase.place → e.Violates before →
    before = .inputs ∧ phase = .parameters
  blamed : phase = .inputs ∨ phase = .parameters → ∃ (i : Nat) (n : NodeSpec),
    e.nodes[i]? = some n ∧ error.Blames n.id phase ∧ e.Breaks n phase ∧
      (∀ before : Phase, before.place < phase.place → ¬ e.Breaks n before) ∧
      ∀ j < i, ∀ m, e.nodes[j]? = some m → ∀ rule, ¬ e.Breaks m rule

/-- A node that fails its check behind nodes that pass it is blamed in its phase. -/
lemma ReportedIn.of_node (names : ¬ e.Violates .names) (wires : ¬ e.Violates .wires) {i : Nat}
    (place : e.nodes[i]? = some n)
    (passed : ∀ j < i, ∀ m, e.nodes[j]? = some m → ∀ rule, ¬ e.Breaks m rule)
    (broken : error.Blames n.id .inputs ∧ e.Breaks n .inputs ∨
      error.Blames n.id .parameters ∧ e.Breaks n .parameters ∧ ¬ e.Breaks n .inputs) :
    ∃ phase, e.ReportedIn error phase := by
  have mem := List.mem_of_getElem? place
  rcases broken with ⟨blames, broken⟩ | ⟨blames, broken, present⟩
  · refine ⟨.inputs, blames.1, ⟨n, mem, broken⟩, fun before lt violated => ?_,
      fun _ => ⟨i, n, place, blames, broken, fun before lt => ?_, passed⟩⟩
    · cases before with
      | names => exact absurd violated names
      | wires => exact absurd violated wires
      | _ => exact absurd lt (by decide)
    · cases before with
      | names | wires => exact not_false
      | _ => exact absurd lt (by decide)
  · refine ⟨.parameters, blames.1, ⟨n, mem, broken⟩, fun before lt violated => ?_,
      fun _ => ⟨i, n, place, blames, broken, fun before lt => ?_, passed⟩⟩
    · cases before with
      | names => exact absurd violated names
      | wires => exact absurd violated wires
      | inputs => exact ⟨rfl, rfl⟩
      | _ => exact absurd lt (by decide)
    · cases before with
      | names | wires => exact not_false
      | inputs => exact present
      | _ => exact absurd lt (by decide)

/-- The checks on single nodes and wires report in the first phase that is violated, but for the nodes
that come after the blamed one. -/
lemma reportedIn_of_checkedNodes (failed : e.checkedNodes = .error error) :
    ∃ phase, e.ReportedIn error phase := by
  unfold checkedNodes at failed
  rcases bind_eq_error.1 failed with unnamed | ⟨kinds, named, failed⟩
  · have violated : e.Violates .names := by
      by_contra clean
      exact not_exists_of_error unnamed (exists_nodeKinds_iff.2 clean)
    exact ⟨.names, nodeKinds_phase [] e.nodes error unnamed, violated,
      fun before lt => absurd lt (Nat.not_lt_zero _), nofun⟩
  have names := exists_nodeKinds_iff.1 ⟨kinds, named⟩
  obtain ⟨distinct, -, typed⟩ := nodeKinds_eq_ok.1 named
  rcases bind_eq_error.1 failed with dangling | ⟨pairs, wired, failed⟩
  · have violated : e.Violates .wires := by
      by_contra clean
      exact not_exists_of_error dangling ((exists_wirePairs_iff distinct).2 clean)
    refine ⟨.wires, wirePairs_phase error dangling, violated, fun before lt violated => ?_, nofun⟩
    cases before with
    | names => exact absurd violated names
    | _ => exact absurd lt (by decide)
  have wires := (exists_wirePairs_iff distinct).1 ⟨pairs, wired⟩
  have ends := (wirePairs_eq_ok distinct).1 wired
  -- The nodes before the first one that fails have passed.
  obtain ⟨i, x, place, fails, before⟩ := mapM_eq_error failed
  obtain ⟨here, kind, sources⟩ := place_of_zip distinct typed ends place
  refine ReportedIn.of_node names wires here (fun j lt m there rule => ?_)
    (breaks_of_resolveNode distinct sources kind fails)
  have bound : j < (e.nodes.zip (kinds.zip (groupInto e.nodes.length pairs).toList)).length :=
    Nat.lt_trans lt (List.getElem?_eq_some_iff.1 place).1
  have place' := List.getElem?_eq_getElem bound
  obtain ⟨there', kind', sources'⟩ := place_of_zip distinct typed ends place'
  obtain ⟨checked, run⟩ := before j lt _ place'
  obtain rfl := Option.some_inj.1 (there.symm.trans there')
  exact ((resolveNode_eq_ok distinct sources' kind').1 run).not_breaks rule

/-- Wherever an effect is refused, its error is one of a phase that it violates, and of the first such
phase, unless it blames the parameters of a node: then nodes declared after that one may have wrong
inputs. Of the nodes with wrong inputs or parameters the first is blamed, for its inputs if they are
wrong. An effect that is too large for a graph may be refused for that, where only cycles are left to
be found. -/
theorem resolve_phases (e : Effect) (error : CompileError) (run : e.resolve = .error error) :
    (∃ phase, e.ReportedIn error phase) ∨
      (∃ fault, error = .graph (.invalid fault)) ∧ (∀ phase, e.Violates phase → phase = .cycles) ∧
        (Graph.counterLimit < e.nodes.length ∨ Graph.counterLimit < e.operandCount) := by
  rw [resolve_eq] at run
  rcases bind_eq_error.1 run with failed | ⟨nodes, checked, run⟩
  · exact .inl (reportedIn_of_checkedNodes failed)
  have checks : e.Checks nodes.toArray.toList := checkedNodes_eq_ok.1 checked
  rcases bind_eq_error.1 run with failed | ⟨_, sinks, run⟩
  · have violated : e.Violates .sinks := by
      by_contra clean
      exact not_exists_of_error failed ⟨(), checks.sinks_iff.2 clean⟩
    refine .inl ⟨.sinks, checkSinks_phase _ error failed, violated, fun before lt violated => ?_, nofun⟩
    rcases checks.late violated with rfl | rfl
    · exact absurd lt (by decide)
    · exact absurd lt (by decide)
  have late : ∀ phase, e.Violates phase → phase = .cycles := by
    intro phase violated
    rcases checks.late violated with rfl | rfl
    · exact absurd violated (checks.sinks_iff.1 sinks)
    · rfl
  rcases bind_eq_error.1 run with failed | ⟨view, made, run⟩
  · exact .inr ⟨ofEdges_invalid _ _ error failed, late, large_of_ofEdges checks failed⟩
  have made := mapError_eq_ok.1 made
  rcases bind_eq_error.1 run with failed | ⟨order, -, eq⟩
  · have phase := dependencyOrder_phase checks made error failed
    refine .inl ⟨.cycles, phase, ?_, fun before lt violated => ?_, nofun⟩
    · cases error with
      | cycle id kind =>
        have run := resolve_eq_cycle.2 ⟨nodes.toArray, view, checked, sinks, made, failed⟩
        exact ⟨id, (reads_of_resolve run).2⟩
      | _ => cases phase
    · rw [late before violated] at lt
      exact absurd lt (by decide)
  · cases eq

/-- A node without a required parameter, before one that reads a node that is not there. -/
def disordered : Effect :=
  ((empty.node (NodeSpec.new "level" "constant")).node
    ((NodeSpec.new "held" "scale").input "ghost")).node
      ((NodeSpec.new "strip" "palette-interpolate").input "held")

lemma resolve_disordered :
    disordered.resolve = .error (.invalidParameter "level" .constant "value" .missing) := by
  rfl

/-- The missing parameter is reported although an input is missing. -/
theorem parameters_hide_inputs : ∃ error, disordered.resolve = .error error ∧
    error.phase? = some .parameters ∧ disordered.Violates .inputs ∧
    Phase.inputs.place < Phase.parameters.place := by
  refine ⟨_, resolve_disordered, rfl, ⟨_, List.mem_of_getElem? (i := 1) rfl, .inl ⟨"ghost", ?_⟩⟩, ?_⟩
  · refine ⟨by decide, ?_⟩
    rintro ⟨n, mem, name⟩
    revert n
    decide
  · decide

/-- The first node is blamed, and the missing input is that of a later one. -/
theorem resolve_phases_disordered : ∃ error, disordered.resolve = .error error ∧
    disordered.ReportedIn error .parameters := by
  refine ⟨_, resolve_disordered, ?_⟩
  rcases resolve_phases disordered _ resolve_disordered with ⟨phase, reported⟩ | ⟨⟨fault, eq⟩, -⟩
  · obtain rfl := Option.some_inj.1 reported.found
    exact reported
  · cases eq

end Effect

end LedEffect
