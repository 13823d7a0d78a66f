import LedEffect.Effect.Resolved
import Mathlib.Algebra.Order.Ring.Int
import Mathlib.Data.List.Forall2
import Mathlib.Logic.Relation
import Mathlib.Tactic.Common

/-!
# Valid effects

What an effect has to be for it to resolve (`Effect.Valid`), said of the authored nodes and wires
alone, and what its resolved form has to be (`Effect.Faithful`), said of the two together.
-/

namespace LedEffect

/-! ## Parameters -/

/-- Whether a schema takes a number. -/
structure ParamSpec.Accepts (p : ParamSpec) (x : Binary64) : Prop where
  finite : x.isFinite = true
  whole : p.integer = true → x.isIntegral = true
  inRange : p.outOfRange = .clamp ∨ p.min.le x = true ∧ x.le p.max = true

namespace NodeSpec

/-- The number of a parameter: the authored one, else the default. -/
def number? (n : NodeSpec) (p : ParamSpec) : Option Binary64 :=
  match n.parameters.get? p.name with
  | some value => value.toNumber?
  | none => p.default

/-- Whether the parameters of a node are those of a kind: each is declared, the required ones are
there, each is a number that its schema takes, and the bounds of a clamp are in order. -/
structure ParametersValid (n : NodeSpec) (k : Kind) : Prop where
  declared : ∀ name ∈ n.parameters.keys, ∃ p ∈ k.params, p.name = name
  required : ∀ p ∈ k.params, p.isRequired = true → p.name ∈ n.parameters.keys
  legal : ∀ p ∈ k.params, ∀ value, n.parameters.get? p.name = some value →
    ∃ x, value.toNumber? = some x ∧ p.Accepts x
  ordered : k = .clamp → ∀ p ∈ k.params, ∀ q ∈ k.params, p.name = "min" → q.name = "max" →
    ∀ min max, n.number? p = some min → n.number? q = some max → min.le max = true

/-- Whether a node is of a sink kind. -/
def IsSink (n : NodeSpec) : Prop := ∃ k : Kind, k.id = n.kind ∧ k.isSink = true

end NodeSpec

/-! ## Effects -/

namespace Effect

/-- Whether an identifier names a node. -/
def Names (e : Effect) (id : String) : Prop := ∃ n ∈ e.nodes, n.id = id

/-- Whether the node in a place of the list is the one named `id`. -/
def HasNumber (e : Effect) (id : String) (i : Nat) : Prop := (e.nodes[i]?).map (·.id) = some id

/-- The identifiers that a node reads, in operand order: its explicit inputs, or the sources of the
wires into it. -/
def effectiveInputs (e : Effect) (n : NodeSpec) : List String :=
  if n.inputs = [] then (e.wires.filter fun w => w.target = n.id).map (·.source) else n.inputs

/-- Whether the node named `id` reads the node named `input`. -/
def Reads (e : Effect) (id input : String) : Prop :=
  ∃ n ∈ e.nodes, n.id = id ∧ input ∈ e.effectiveInputs n

/-- The number of operand slots of all nodes. -/
def operandCount (e : Effect) : Nat := (e.nodes.map fun n => (e.effectiveInputs n).length).sum

/-- Whether an effect can be resolved. -/
structure Valid (e : Effect) : Prop where
  distinct : (e.nodes.map (·.id)).Nodup
  catalogued : ∀ n ∈ e.nodes, ∃ k : Kind, k.id = n.kind
  wired : ∀ w ∈ e.wires, e.Names w.source ∧ e.Names w.target
  present : ∀ n ∈ e.nodes, ∀ id ∈ n.inputs, e.Names id
  arity : ∀ n ∈ e.nodes, ∀ k : Kind, k.id = n.kind →
    k.minInputs ≤ (e.effectiveInputs n).length ∧ (e.effectiveInputs n).length ≤ k.maxInputs
  parameters : ∀ n ∈ e.nodes, ∀ k : Kind, k.id = n.kind → n.ParametersValid k
  sinkReaders : ∀ n ∈ e.nodes, ∀ m ∈ e.nodes, m.id ∈ e.effectiveInputs n → m.IsSink →
    n.kind = Kind.output.id
  sink : ∃ n ∈ e.nodes, n.IsSink
  acyclic : ∀ id, ¬ Relation.TransGen e.Reads id id

/-- Whether a resolved node says what the authored one does: its inputs are the numbers of the
nodes it reads, and its parameters are the numbers that the schemas make of the authored ones. -/
structure NodeFaithful (e : Effect) (n : NodeSpec) (m : ResolvedNode) : Prop where
  id : m.id = n.id
  kind : m.kind.id = n.kind
  inputs : List.Forall₂ e.HasNumber (e.effectiveInputs n) m.inputs
  params : List.Forall₂ (fun p entry => entry.1 = p.name ∧
    ∃ x, n.number? p = some x ∧ p.resolve x = .ok entry.2) m.kind.params m.params

/-- Whether a resolved effect says what the authored one does: the nodes keep their places, the
graph has one edge from input to consumer for every operand slot, and the order lists every node
once, after all it reads. -/
structure Faithful (e : Effect) (r : ResolvedEffect) : Prop where
  nodes : List.Forall₂ e.NodeFaithful e.nodes r.nodes.toList
  size : r.view.nodeCount = r.nodes.size
  edges : ∀ u < r.nodes.size, ∃ targets, r.view.neighbors? u = some targets ∧
    ∀ v, targets.count v = ((r.nodes[v]?).elim 0 fun m => m.inputs.count u)
  order : r.order.toList.Perm (List.range r.nodes.size)
  inputsFirst : ∀ v m, r.nodes[v]? = some m → ∀ u ∈ m.inputs,
    r.order.toList.idxOf u < r.order.toList.idxOf v

end Effect

end LedEffect
