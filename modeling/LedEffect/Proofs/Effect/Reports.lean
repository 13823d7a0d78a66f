import LedEffect.Proofs.Effect.WellFormed

/-!
# Resolving reports what is wrong

The error `outOfBounds` stands for an index or a name that left its table. Resolving an effect, any
effect, never ends in it (`resolve_reports`): each step either succeeds or tells what is wrong with
the effect. Each step reports errors of its own phase (`CompileError.phase?`), so those before the last,
which orders the nodes, do not speak of cycles either (`CompileError.Unordered`).
-/

namespace LedEffect

/-! ## Errors of steps -/

variable {α β : Type} {p q : CompileError → Prop}

/-- Whether the error of a step that fails has a property. -/
def FailsWith (p : CompileError → Prop) (x : Except CompileError α) : Prop :=
  ∀ error, x = .error error → p error

namespace FailsWith

lemma ok (a : α) : FailsWith p (.ok a) := fun _ eq => nomatch eq

lemma error {fault : CompileError} (holds : p fault) :
    FailsWith p (.error fault : Except CompileError α) := by
  rintro _ ⟨⟩
  exact holds

lemma imp {x : Except CompileError α} (fails : FailsWith p x) (imp : ∀ error, p error → q error) :
    FailsWith q x := fun error eq => imp error (fails error eq)

lemma bind {x : Except CompileError α} {f : α → Except CompileError β} (first : FailsWith p x)
    (rest : ∀ a, x = .ok a → FailsWith p (f a)) : FailsWith p (x >>= f) := by
  cases x with
  | ok a => exact rest a rfl
  | error fault => exact error (first fault rfl)

/-- An error that is none of a first step is one of the rest. -/
lemma bind_eq_error {x : Except CompileError α} {f : α → Except CompileError β}
    {fault : CompileError} (first : FailsWith p x) (other : ¬ p fault) :
    x >>= f = .error fault ↔ ∃ a, x = .ok a ∧ f a = .error fault := by
  rw [LedEffect.bind_eq_error, or_iff_right fun eq => other (first fault eq)]

lemma map {x : Except CompileError α} {f : α → β} (first : FailsWith p x) :
    FailsWith p (x.map f) := by
  cases x with
  | ok a => exact ok (f a)
  | error fault => exact error (first fault rfl)

/-- A traversal fails with what its steps on the elements of the list fail with. -/
lemma mapM {f : α → Except CompileError β} {xs : List α} (each : ∀ x ∈ xs, FailsWith p (f x)) :
    FailsWith p (xs.mapM f) := by
  induction xs with
  | nil => exact ok []
  | cons x xs ih =>
    obtain ⟨here, rest⟩ := List.forall_mem_cons.1 each
    rw [List.mapM_cons]
    exact bind here fun y _ => bind (ih rest) fun ys _ => ok (y :: ys)

end FailsWith

/-! ## Reports -/

/-- The phases in which an effect is checked: identifiers and kinds, wires, inputs and their number,
parameters, sinks, and cycles. -/
inductive Phase
  | names
  | wires
  | inputs
  | parameters
  | sinks
  | cycles
deriving DecidableEq

namespace CompileError

/-- The phase whose rule an error says to be broken. A graph that is too large breaks none. -/
def phase? : CompileError → Option Phase
  | duplicateNode _ | unknownNodeType _ _ => some .names
  | danglingWire _ _ _ => some .wires
  | missingInput _ _ _ | arity _ _ _ => some .inputs
  | unknownParameter _ _ _ | invalidParameter _ _ _ _ | parameterRange _ _ _ _ _ _ => some .parameters
  | sinkInput _ _ _ | noSink => some .sinks
  | cycle _ _ => some .cycles
  | _ => none

/-- Whether an error says that a node breaks the rule of a phase. -/
def Blames (fault : CompileError) (id : String) (phase : Phase) : Prop :=
  fault.phase? = some phase ∧ fault.node? = some id

/-- Whether an error tells what is wrong with an effect, and not that an index or a name left its
table. -/
def IsReport : CompileError → Prop
  | outOfBounds | graph .outOfBounds => False
  | _ => True

/-- Whether an error is a report that does not come from putting nodes into an order. -/
def Unordered : CompileError → Prop
  | outOfBounds | graph .outOfBounds | cycle _ _ => False
  | _ => True

lemma Unordered.isReport (fault : CompileError) (unordered : fault.Unordered) : fault.IsReport := by
  unfold IsReport
  split
  · exact unordered
  · exact unordered
  · trivial

/-- An error of a phase is a report. -/
lemma isReport_of_phase {fault : CompileError} {phase : Phase} (found : fault.phase? = some phase) :
    fault.IsReport := by
  cases fault with
  | outOfBounds | graph => cases found
  | _ => trivial

/-- Only the last phase puts nodes into an order. -/
lemma unordered_of_phase {fault : CompileError} {phase : Phase} (found : fault.phase? = some phase)
    (other : phase ≠ .cycles) : fault.Unordered := by
  cases fault with
  | outOfBounds | graph => cases found
  | cycle =>
    cases found
    exact other rfl
  | _ => trivial

end CompileError

/-- Whether a step that fails reports why. -/
def Reports (x : Except CompileError α) : Prop := ∀ error, x = .error error → error.IsReport

/-- A schema whose range is not empty has room for every number that is to be moved into it. -/
lemma ParamSpec.resolve_ne_emptyRange {p : ParamSpec} (range : p.min.le p.max = true)
    (x : Binary64) : p.resolve x ≠ .error .emptyRange := by
  unfold resolve
  split
  · simp
  · split
    · simp
    · split
      · simp
      · cases p.outOfRange with
        | reject => simp
        | clamp => simp [Binary64.clamp?, range]

namespace Effect

open CompileError (Unordered isReport_of_phase unordered_of_phase)

variable {e : Effect}

/-! ## Checks on single nodes -/

lemma nodeKinds_phase (seen : List String) (nodes : List NodeSpec) :
    FailsWith (·.phase? = some .names) (nodeKinds seen nodes) := by
  induction nodes generalizing seen with
  | nil => exact .ok []
  | cons n nodes ih =>
    unfold nodeKinds
    split
    · exact .error rfl
    · split
      · exact .error rfl
      · exact (ih _).map

lemma wireEnd_phase (w : WireSpec) (id : String) :
    FailsWith (·.phase? = some .wires) (e.wireEnd w id) := by
  unfold wireEnd
  split
  next i _ => exact .ok i
  next => exact .error rfl

lemma wirePairs_phase : FailsWith (·.phase? = some .wires) e.wirePairs :=
  .mapM fun w _ => .bind (wireEnd_phase w w.source) fun source _ =>
    .bind (wireEnd_phase w w.target) fun target _ => .ok (target, source)

lemma explicitInputs_phase (n : NodeSpec) (k : Kind) :
    FailsWith (·.Blames n.id .inputs) (e.explicitInputs n k) := by
  refine .mapM fun input _ => ?_
  split
  next i _ => exact .ok i
  next => exact .error ⟨rfl, rfl⟩

lemma resolveParam_phase {n : NodeSpec} {k : Kind} {p : ParamSpec} (mem : p ∈ k.params) :
    FailsWith (·.Blames n.id .parameters) (resolveParam n k p) := by
  have range := p.resolve_ne_emptyRange (k.params_sound p mem).1
  rw [resolveParam_eq]
  refine .bind ?_ fun x _ => ?_
  · split
    · split
      next x _ => exact .ok x
      next => exact .error ⟨rfl, rfl⟩
    next x _ _ => exact .ok x
    next => exact .error ⟨rfl, rfl⟩
  · split
    next y _ => exact .ok (p.name, y)
    next => exact .error ⟨rfl, rfl⟩
    next => exact .error ⟨rfl, rfl⟩
    next => exact .error ⟨rfl, rfl⟩
    next empty => exact absurd empty (range x)

lemma resolveParams_phase (n : NodeSpec) (k : Kind) :
    FailsWith (·.Blames n.id .parameters) (resolveParams n k) := by
  unfold resolveParams
  split
  next => exact .error ⟨rfl, rfl⟩
  next =>
    refine .bind (.mapM fun p mem => resolveParam_phase mem) fun params _ => ?_
    split
    · split
      · exact .error ⟨rfl, rfl⟩
      · exact .ok _
    · exact .ok _

lemma resolveNode_fails (n : NodeSpec) (k : Kind) (wired : List Nat) :
    FailsWith Unordered (e.resolveNode n k wired) := by
  rw [resolveNode_eq]
  refine .bind ?_ fun inputs _ => ?_
  · split
    · exact .ok wired
    · exact (explicitInputs_phase n k).imp fun _ blames => unordered_of_phase blames.1 nofun
  · split
    · exact .error trivial
    · refine .bind ?_ fun params _ => .ok _
      exact (resolveParams_phase n k).imp fun _ blames => unordered_of_phase blames.1 nofun

lemma checkedNodes_fails : FailsWith Unordered e.checkedNodes :=
  .bind ((nodeKinds_phase [] e.nodes).imp fun _ found => unordered_of_phase found nofun) fun _ _ =>
    .bind (wirePairs_phase.imp fun _ found => unordered_of_phase found nofun) fun _ _ =>
      .mapM fun x _ => resolveNode_fails x.1 x.2.1 x.2.2.toList

/-! ## Sinks and order -/

lemma checkSinks_phase (nodes : Array ResolvedNode) :
    FailsWith (·.phase? = some .sinks) (checkSinks nodes) := by
  unfold checkSinks
  split
  · exact .error rfl
  · split
    · exact .ok ()
    · exact .error rfl

lemma checkSinks_fails (nodes : Array ResolvedNode) : FailsWith Unordered (checkSinks nodes) :=
  (checkSinks_phase nodes).imp fun _ found => unordered_of_phase found nofun

/-- A list of edges that makes no graph is invalid. -/
lemma ofEdges_invalid (nodes : Nat) (edges : List (UInt32 × UInt32)) :
    FailsWith (fun error => ∃ fault, error = .graph (.invalid fault))
      ((Graph.ofEdges nodes edges).mapError .graph) := by
  have invalid : ∀ error, Graph.ofEdges nodes edges = .error error →
      ∃ fault, error = .invalid fault := by
    intro error refused
    rw [Graph.ofEdges_eq] at refused
    cases run : Graph.flatten nodes (edges.map Edge.unit) with
    | error reason =>
      rw [run] at refused
      obtain rfl := Except.error.inj refused
      exact Graph.invalid_of_flatten run
    | ok flat =>
      rw [run] at refused
      change Graph.ofRows true flat.offsets flat.edges none = .error error at refused
      unfold Graph.ofRows at refused
      split at refused
      · cases refused
      · exact ⟨_, (Except.error.inj refused).symm⟩
  cases made : Graph.ofEdges nodes edges with
  | ok view => exact .ok view
  | error fault =>
    obtain ⟨reason, rfl⟩ := invalid fault made
    exact .error ⟨reason, rfl⟩

lemma ofEdges_fails (nodes : Nat) (edges : List (UInt32 × UInt32)) :
    FailsWith Unordered ((Graph.ofEdges nodes edges).mapError .graph) := by
  refine (ofEdges_invalid nodes edges).imp ?_
  rintro _ ⟨fault, rfl⟩
  exact trivial

/-- Nodes without an order have one among them that reads itself over others. -/
lemma dependencyOrder_phase {nodes : Array ResolvedNode} {view : Graph}
    (checks : e.Checks nodes.toList)
    (made : Graph.ofEdges nodes.size (dependencies nodes) = .ok view) :
    FailsWith (·.phase? = some .cycles) (dependencyOrder nodes view) := by
  obtain ⟨count, small, -⟩ := checks.view made
  unfold dependencyOrder
  rcases Graph.topoSort_spec small with ⟨order, run, -⟩ | ⟨k, least, -, run, cycle⟩
  · rw [run]
    exact .ok order
  · obtain ⟨next, edge, -⟩ := Relation.TransGen.head'_iff.1 cycle
    have bound : least < nodes.size := count ▸ edge.1.source
    simp only [run, Array.getElem?_eq_getElem bound]
    exact .error rfl

lemma dependencyOrder_reports {nodes : Array ResolvedNode} {view : Graph}
    (checks : e.Checks nodes.toList)
    (made : Graph.ofEdges nodes.size (dependencies nodes) = .ok view) :
    Reports (dependencyOrder nodes view) :=
  (dependencyOrder_phase checks made).imp fun _ found => isReport_of_phase found

/-- An effect resolves, or the error tells what is wrong with it. -/
theorem resolve_reports (e : Effect) : Reports e.resolve := by
  have report := CompileError.Unordered.isReport
  rw [resolve_eq]
  refine FailsWith.bind (checkedNodes_fails.imp report) fun nodes run => ?_
  have checks := checkedNodes_eq_ok.1 run
  refine .bind ((checkSinks_fails _).imp report) fun _ _ => ?_
  refine .bind ((ofEdges_fails _ _).imp report) fun view made => ?_
  exact .bind (dependencyOrder_reports checks (mapError_eq_ok.1 made)) fun order _ => .ok _

end Effect

end LedEffect
