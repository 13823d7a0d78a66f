import LedEffect.Effect.Error
import LedEffect.Graph.EdgeList
import LedEffect.Graph.Order
import LedEffect.Grouping

/-!
# Resolved effects

Resolving an effect turns names into node numbers, attaches kinds, checks inputs and parameters
against the catalog, and orders the nodes along their dependencies.
-/

namespace LedEffect

/-- A checked node: its inputs are node numbers in operand order, its parameters the kind's in
schema order with defaults filled in. -/
structure ResolvedNode where
  id : String
  kind : Kind
  inputs : List Nat
  params : List (String × Binary64)
deriving DecidableEq

/-- The value of a parameter; there is none under a name outside the schema. -/
def ResolvedNode.param? (n : ResolvedNode) (name : String) : Option Binary64 :=
  (n.params.find? fun p => p.1 == name).map (·.2)

/-- A checked effect: the nodes in declaration order, their dependencies as a graph with an edge
from input to consumer, and the node numbers in dependency order. -/
structure ResolvedEffect where
  nodes : Array ResolvedNode
  view : Graph
  order : Array Nat

/-- The identifier of every node's kind. -/
def ResolvedEffect.kinds (r : ResolvedEffect) : List String :=
  r.nodes.toList.map fun n => n.kind.id

namespace Effect

/-! ## Identifiers and kinds -/

/-- The kinds of nodes, no identifier of which may occur in `seen` or twice. -/
def nodeKinds (seen : List String) : List NodeSpec → Except CompileError (List Kind)
  | [] => .ok []
  | n :: rest =>
    if seen.contains n.id then .error (.duplicateNode n.id)
    else match Kind.ofId? n.kind with
      | none => .error (.unknownNodeType n.id n.kind)
      | some kind => (nodeKinds (n.id :: seen) rest).map (kind :: ·)

/-- The number of the node with an identifier. -/
def indexOf? (e : Effect) (id : String) : Option Nat := e.nodes.findIdx? fun n => n.id == id

/-! ## Inputs -/

/-- One end of a wire. -/
def wireEnd (e : Effect) (w : WireSpec) (id : String) : Except CompileError Nat :=
  match e.indexOf? id with
  | some i => .ok i
  | none => .error (.danglingWire w.source w.target id)

/-- The wires as pairs of target and source numbers. -/
def wirePairs (e : Effect) : Except CompileError (List (Nat × Nat)) :=
  e.wires.mapM fun w => do
    let source ← e.wireEnd w w.source
    let target ← e.wireEnd w w.target
    return (target, source)

/-- The explicit inputs of a node. -/
def explicitInputs (e : Effect) (n : NodeSpec) (kind : Kind) : Except CompileError (List Nat) :=
  n.inputs.mapM fun input =>
    match e.indexOf? input with
    | some i => .ok i
    | none => .error (.missingInput n.id kind input)

/-! ## Parameters -/

/-- The value of one parameter of a node. -/
def resolveParam (n : NodeSpec) (kind : Kind) (spec : ParamSpec) :
    Except CompileError (String × Binary64) := do
  let raw ← match n.parameters.get? spec.name, spec.default with
    | some value, _ =>
      match value.toNumber? with
      | some x => pure x
      | none => .error (.invalidParameter n.id kind spec.name (.notNumeric value))
    | none, some default => pure default
    | none, none => .error (.invalidParameter n.id kind spec.name .missing)
  match spec.resolve raw with
  | .ok x => return (spec.name, x)
  | .error (.notFinite x) => .error (.invalidParameter n.id kind spec.name (.notFinite x))
  | .error (.notInteger x) => .error (.invalidParameter n.id kind spec.name (.notInteger x))
  | .error (.outOfRange x min max) => .error (.parameterRange n.id kind spec.name x min max)
  | .error .emptyRange => .error .outOfBounds

/-- The parameters of a node in schema order. -/
def resolveParams (n : NodeSpec) (kind : Kind) : Except CompileError (List (String × Binary64)) := do
  match n.parameters.keys.find? fun name => (kind.param? name).isNone with
  | some name => .error (.unknownParameter n.id kind name)
  | none =>
    let params ← kind.params.mapM (resolveParam n kind)
    match kind, params with
    | .clamp, [(_, min), (_, max)] =>
      if max.lt min then .error (.invalidParameter n.id kind "min" (.minAboveMax min max))
      else return params
    | _, _ => return params

/-! ## Nodes -/

/-- A node checked on its own: its inputs exist, are as many as the kind takes, and its parameters
are in order. -/
def resolveNode (e : Effect) (n : NodeSpec) (kind : Kind) (wired : List Nat) :
    Except CompileError ResolvedNode := do
  let inputs ← if n.inputs.isEmpty then pure wired else e.explicitInputs n kind
  if inputs.length < kind.minInputs ∨ kind.maxInputs < inputs.length then
    .error (.arity n.id kind inputs.length)
  else
    let params ← resolveParams n kind
    return ⟨n.id, kind, inputs, params⟩

/-- The first sink among the inputs of a node that is no output. -/
def sinkInput? (nodes : Array ResolvedNode) (n : ResolvedNode) : Option ResolvedNode :=
  if n.kind = .output then none
  else (n.inputs.filterMap (nodes[·]?)).find? fun input => input.kind.isSink

/-- Refuses sinks that feed anything but outputs, and effects without a sink. -/
def checkSinks (nodes : Array ResolvedNode) : Except CompileError Unit :=
  match nodes.toList.findSome? fun n => (sinkInput? nodes n).map fun input => (n, input) with
  | some (n, input) => .error (.sinkInput n.id n.kind input.id)
  | none => if nodes.any fun n => n.kind.isSink then .ok () else .error .noSink

/-- The dependencies of numbered nodes as edges from input to consumer. -/
def dependencies (nodes : Array ResolvedNode) : List (UInt32 × UInt32) :=
  (nodes.toList.zipIdx).flatMap fun (n, consumer) =>
    n.inputs.map fun input => (UInt32.ofNat input, UInt32.ofNat consumer)

/-- The order of the nodes along their dependencies. -/
def dependencyOrder (nodes : Array ResolvedNode) (view : Graph) :
    Except CompileError (Array Nat) :=
  match view.topoSort with
  | .ok order => .ok order
  | .error (.cycle _ _ node) =>
    match nodes[node]? with
    | some culprit => .error (.cycle culprit.id culprit.kind)
    | none => .error .outOfBounds
  | .error other => .error (.graph other)

/-- Checks an effect and orders its nodes. -/
def resolve (e : Effect) : Except CompileError ResolvedEffect := do
  let kinds ← nodeKinds [] e.nodes
  let wired := groupInto e.nodes.length (← e.wirePairs)
  let nodes ← (e.nodes.zip (kinds.zip wired.toList)).mapM fun (n, kind, wired) =>
    e.resolveNode n kind wired.toList
  let nodes := nodes.toArray
  checkSinks nodes
  let view ← (Graph.ofEdges nodes.size (dependencies nodes)).mapError .graph
  let order ← dependencyOrder nodes view
  return ⟨nodes, view, order⟩

end Effect

end LedEffect
