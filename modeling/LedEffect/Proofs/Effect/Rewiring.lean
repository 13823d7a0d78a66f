import LedEffect.Proofs.Effect.WellFormed

/-!
# Explicit inputs and wires

A node reads its explicit inputs, or the sources of the wires into it when it has none. Resolving an
effect depends on what its nodes read alone (`resolve_rewire`), so the two ways of telling it may be
exchanged: explicit inputs for wires in operand order, however those of different nodes are mixed, and
wires for explicit inputs, beside which further wires do not matter (`resolve_rewired`).
-/

namespace LedEffect

/-- The node with other explicit inputs. -/
def NodeSpec.reading (n : NodeSpec) (inputs : List String) : NodeSpec := { n with inputs := inputs }

namespace Effect

variable {e : Effect} {r : ResolvedEffect} {nodes : List NodeSpec} {n : NodeSpec}
  {inputs : NodeSpec → List String} {added wires : List WireSpec} {id : String} {i : Nat}

/-- The effect with other explicit inputs and wires. -/
def rewire (e : Effect) (inputs : NodeSpec → List String) (wires : List WireSpec) : Effect :=
  { e with nodes := e.nodes.map fun n => n.reading (inputs n), wires := wires }

/-- Whether an identifier is that of a node with explicit inputs. -/
def isExplicit (e : Effect) (id : String) : Bool := e.nodes.any fun n => n.id = id ∧ n.inputs ≠ []

/-- The effect without explicit inputs and the wires they override, with some wires appended. -/
def wiredBy (e : Effect) (added : List WireSpec) : Effect :=
  e.rewire (fun _ => []) ((e.wires.filter fun w => !e.isExplicit w.target) ++ added)

/-- The effect with explicit inputs for all that its nodes read, and other wires. -/
def explicitBeside (e : Effect) (wires : List WireSpec) : Effect := e.rewire e.effectiveInputs wires

/-- The wires that carry the explicit inputs of a node. -/
def wiresInto (n : NodeSpec) : List WireSpec := n.inputs.map fun input => ⟨input, n.id, none⟩

/-- Whether wires carry the explicit inputs of an effect: those into a node lead from its inputs in
operand order, and there are no others. -/
structure CarriesInputs (e : Effect) (added : List WireSpec) : Prop where
  each : ∀ n ∈ e.nodes, n.inputs ≠ [] →
    (added.filter fun w => w.target = n.id).map (·.source) = n.inputs
  only : ∀ w ∈ added, ∃ n ∈ e.nodes, n.id = w.target ∧ n.inputs ≠ []

/-- Whether wires lead from nodes into nodes that read something. -/
structure Spare (e : Effect) (wires : List WireSpec) : Prop where
  source : ∀ w ∈ wires, e.Names w.source
  target : ∀ w ∈ wires, ∃ n ∈ e.nodes, n.id = w.target ∧ e.effectiveInputs n ≠ []

/-! ## What resolving depends on -/

lemma ids_rewire : (e.rewire inputs wires).nodes.map (·.id) = e.nodes.map (·.id) := by
  rw [rewire, List.map_map]
  rfl

/-- An effect whose nodes still read the same resolves to the same. -/
lemma resolve_rewire (run : e.resolve = .ok r)
    (same : ∀ n ∈ e.nodes,
      (e.rewire inputs wires).effectiveInputs (n.reading (inputs n)) = e.effectiveInputs n)
    (wired : ∀ w ∈ wires, e.Names w.source ∧ e.Names w.target) :
    (e.rewire inputs wires).resolve = .ok r := by
  obtain ⟨checks, sinks, made, sorted⟩ := resolve_eq_ok.1 run
  refine resolve_eq_ok.2 ⟨⟨?distinct, ?wired, ?nodes⟩, sinks, made, sorted⟩
  case distinct =>
    rw [ids_rewire]
    exact checks.distinct
  case wired =>
    intro w mem
    exact ⟨(names_congr ids_rewire).2 (wired w mem).1, (names_congr ids_rewire).2 (wired w mem).2⟩
  case nodes =>
    have both := (List.forall₂_and_left _ _).2 ⟨same, checks.nodes⟩
    refine List.forall₂_map_left_iff.2 (both.imp fun n m ⟨same, checked⟩ => ?_)
    refine ⟨checked.id, checked.kind, ?_, checked.enough, checked.bounded, checked.params⟩
    rw [same]
    exact checked.inputs.imp fun _ _ => (hasNumber_congr ids_rewire).2

/-! ## Wires for explicit inputs -/

lemma isExplicit_iff : e.isExplicit id = true ↔ ∃ n ∈ e.nodes, n.id = id ∧ n.inputs ≠ [] := by
  simp [isExplicit]

/-- Whether a node has explicit inputs is told by its identifier. -/
lemma isExplicit_of_mem (distinct : (e.nodes.map (·.id)).Nodup) (mem : n ∈ e.nodes) :
    e.isExplicit n.id = true ↔ n.inputs ≠ [] := by
  rw [isExplicit_iff]
  constructor
  · rintro ⟨m, mem', same, explicit⟩
    rwa [← List.inj_on_of_nodup_map distinct mem' mem same]
  · exact fun explicit => ⟨n, mem, rfl, explicit⟩

/-- Among the wires of all nodes those into one of them are its own. -/
lemma filter_wiresInto (distinct : (nodes.map (·.id)).Nodup) (mem : n ∈ nodes) :
    ((nodes.flatMap wiresInto).filter fun w => w.target = n.id) = wiresInto n := by
  have apart : ∀ m : NodeSpec, m.id ≠ n.id →
      ((wiresInto m).filter fun w => w.target = n.id) = [] := by
    intro m differ
    simp [wiresInto, differ]
  have own : ((wiresInto n).filter fun w => w.target = n.id) = wiresInto n := by
    simp [wiresInto]
  induction nodes with
  | nil => cases mem
  | cons m nodes ih =>
    obtain ⟨fresh, distinct⟩ := List.nodup_cons.1 distinct
    rw [List.flatMap_cons, List.filter_append]
    rcases List.mem_cons.1 mem with rfl | mem
    · have rest : ((nodes.flatMap wiresInto).filter fun w => w.target = n.id) = [] := by
        rw [List.filter_flatMap, List.flatMap_eq_nil_iff]
        intro m mem
        exact apart m fun same => fresh (List.mem_map.2 ⟨m, mem, same⟩)
      rw [own, rest, List.append_nil]
    · rw [apart m fun same => fresh (List.mem_map.2 ⟨n, mem, same.symm⟩), List.nil_append]
      exact ih distinct mem

/-- The wires for the explicit inputs of one node after the other carry them. -/
lemma carriesInputs_flatMap (distinct : (e.nodes.map (·.id)).Nodup) :
    e.CarriesInputs (e.nodes.flatMap wiresInto) where
  each := by
    intro n mem _
    rw [filter_wiresInto distinct mem, wiresInto, List.map_map]
    exact List.map_id _
  only := by
    intro w mem
    obtain ⟨n, here, listed⟩ := List.mem_flatMap.1 mem
    obtain ⟨input, read, rfl⟩ := List.mem_map.1 listed
    exact ⟨n, here, rfl, List.ne_nil_of_mem read⟩

/-- Once its inputs are carried by wires, a node reads what it read. -/
lemma CarriesInputs.effectiveInputs (carries : e.CarriesInputs added)
    (distinct : (e.nodes.map (·.id)).Nodup) (mem : n ∈ e.nodes) :
    (e.wiredBy added).effectiveInputs (n.reading []) = e.effectiveInputs n := by
  have explicit := isExplicit_of_mem distinct mem
  change (((e.wires.filter fun w => !e.isExplicit w.target) ++ added).filter
    fun w => w.target = n.id).map (·.source) = _
  rw [List.filter_append, List.filter_filter, Effect.effectiveInputs]
  split
  next none =>
    -- The wires of a node without explicit inputs stay, and none is added.
    have implicit : e.isExplicit n.id = false := by
      rw [← Bool.not_eq_true, explicit, none]
      exact fun some => some rfl
    have kept : (e.wires.filter fun w => decide (w.target = n.id) && !e.isExplicit w.target) =
        e.wires.filter fun w => w.target = n.id := by
      refine List.filter_congr fun w _ => ?_
      by_cases into : w.target = n.id
      · simp [into, implicit]
      · simp [into]
    have fresh : (added.filter fun w => w.target = n.id) = [] := by
      refine List.filter_eq_nil_iff.2 fun w listed into => ?_
      obtain ⟨m, mem', same, some⟩ := carries.only w listed
      rw [of_decide_eq_true into] at same
      exact some (List.inj_on_of_nodup_map distinct mem' mem same ▸ none)
    rw [kept, fresh, List.append_nil]
  next some =>
    have dropped : (e.wires.filter fun w => decide (w.target = n.id) && !e.isExplicit w.target) =
        [] := by
      refine List.filter_eq_nil_iff.2 fun w _ => ?_
      by_cases into : w.target = n.id
      · simp [into, explicit, some]
      · simp [into]
    rw [dropped, List.nil_append]
    exact carries.each n mem some

lemma Checks.named (checks : e.Checks r.nodes.toList) (mem : n ∈ e.nodes)
    (read : id ∈ e.effectiveInputs n) : e.Names id := by
  obtain ⟨m, -, checked⟩ := Forall₂.exists_mem_right checks.nodes mem
  exact checked.names read

/-- Explicit inputs may be given by wires. -/
lemma CarriesInputs.resolve (carries : e.CarriesInputs added) (run : e.resolve = .ok r) :
    (e.wiredBy added).resolve = .ok r := by
  obtain ⟨checks, -⟩ := resolve_eq_ok.1 run
  apply resolve_rewire run
  · exact fun n mem => carries.effectiveInputs checks.distinct mem
  · intro w mem
    rcases List.mem_append.1 mem with kept | listed
    · exact checks.wired w (List.mem_filter.1 kept).1
    · obtain ⟨n, here, same, some⟩ := carries.only w listed
      refine ⟨checks.named here ?_, n, here, same⟩
      rw [Effect.effectiveInputs, if_neg some, ← carries.each n here some]
      exact List.mem_map_of_mem (List.mem_filter.2 ⟨listed, decide_eq_true same.symm⟩)

/-! ## Explicit inputs for wires -/

/-- The wires of an effect that resolves lead into nodes that read something. -/
lemma Checks.spare (checks : e.Checks r.nodes.toList) : e.Spare e.wires where
  source w mem := (checks.wired w mem).1
  target := by
    intro w mem
    obtain ⟨n, here, same⟩ := (checks.wired w mem).2
    refine ⟨n, here, same, ?_⟩
    rw [Effect.effectiveInputs]
    split
    · exact List.ne_nil_of_mem (List.mem_map_of_mem
        (List.mem_filter.2 ⟨mem, decide_eq_true same.symm⟩))
    · assumption

/-- Wires beside explicit inputs do not matter. -/
lemma Spare.resolve (spare : e.Spare wires) (run : e.resolve = .ok r) :
    (e.explicitBeside wires).resolve = .ok r := by
  obtain ⟨checks, -⟩ := resolve_eq_ok.1 run
  apply resolve_rewire run
  · intro n mem
    change (if e.effectiveInputs n = [] then
      (wires.filter fun w => w.target = n.id).map (·.source) else e.effectiveInputs n) = _
    split
    next none =>
      -- A wire into `n` would lead into a node that reads something.
      rw [none, List.map_eq_nil_iff, List.filter_eq_nil_iff]
      intro w listed into
      obtain ⟨m, mem', same, some⟩ := spare.target w listed
      rw [of_decide_eq_true into] at same
      exact some (List.inj_on_of_nodup_map checks.distinct mem' mem same ▸ none)
    next => rfl
  · intro w mem
    obtain ⟨n, here, same, -⟩ := spare.target w mem
    exact ⟨spare.source w mem, n, here, same⟩

/-- An effect resolves to the same nodes, dependencies and order when its explicit inputs are given by
wires in operand order, in whatever way those of different nodes are mixed; and when what its nodes
read is made explicit, whatever wires into nodes that read something it then has or lacks. -/
theorem resolve_rewired (e : Effect) (r : ResolvedEffect) (run : e.resolve = .ok r) :
    (∀ added, e.CarriesInputs added → (e.wiredBy added).resolve = .ok r) ∧
      e.CarriesInputs (e.nodes.flatMap wiresInto) ∧
      (∀ wires, e.Spare wires → (e.explicitBeside wires).resolve = .ok r) ∧ e.Spare e.wires := by
  obtain ⟨checks, -⟩ := resolve_eq_ok.1 run
  exact ⟨fun added carries => carries.resolve run, carriesInputs_flatMap checks.distinct,
    fun wires spare => spare.resolve run, checks.spare⟩

/-- A level that is squared by explicit inputs, beside which a wire from the product to itself does not
count. -/
def overridden : Effect := squared.wire "square" "square"

/-- The wire from the product to itself is dropped with the inputs that override it, and it may go or
be joined by another one when all inputs are explicit. -/
theorem resolve_overridden :
    ∃ r, overridden.resolve = .ok r ∧
      (overridden.wiredBy [⟨"level", "square", none⟩, ⟨"level", "square", none⟩]).resolve = .ok r ∧
      (overridden.explicitBeside [⟨"strip", "square", none⟩]).resolve = .ok r := by
  have accepted : overridden.resolve.isOk = true := by decide +kernel
  obtain ⟨r, run⟩ := exists_of_isOk accepted
  obtain ⟨byWires, -, byInputs, -⟩ := resolve_rewired overridden r run
  refine ⟨r, run, byWires _ ⟨?_, ?_⟩, byInputs _ ⟨?_, ?_⟩⟩
  · decide
  · decide
  · intro w mem
    obtain rfl := List.mem_singleton.1 mem
    exact ⟨_, List.mem_of_getElem? (i := 2) rfl, rfl⟩
  · decide

end Effect

end LedEffect
