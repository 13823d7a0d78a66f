import LedEffect.Json.Printer

/-!
# Graph errors

What can be wrong with the description of a graph, and what an analysis can refuse. The wording of
every cause is `GraphFault.message` or `GraphError.message`.
-/

namespace LedEffect

/-- What makes a graph description malformed. -/
inductive GraphFault
  | notObject
  | directedMissing
  | directedNotBoolean (found : Json)
  | arrayMissing (field : String)
  | notArray (field : String) (found : Json)
  | notWord (field : String) (index : Nat) (found : Json)
  | weightNotNumber (index : Nat) (found : Json)
  | noOffsets
  | firstOffset (found : UInt32)
  | decreasing (index : Nat) (offset previous : UInt32)
  | lastOffset (last : UInt32) (edges : Nat)
  | targetOutOfRange (index : Nat) (target : UInt32) (nodes : Nat)
  | weightCount (actual expected : Nat)
  | badWeight (index : Nat) (weight : Binary64)
  | endpointOutOfRange (source target : UInt32) (nodes : Nat)
  | tooLarge

namespace GraphFault

def message : GraphFault → String
  | notObject => "graph description must be a JSON object"
  | directedMissing => "'directed' is missing"
  | directedNotBoolean found => s!"'directed' must be a boolean, found {found.compact}"
  | arrayMissing field => s!"'{field}' is missing"
  | notArray field found => s!"'{field}' must be an array, found {found.compact}"
  | notWord field index found =>
    s!"{field}[{index}] is not an unsigned 32-bit integer: {found.compact}"
  | weightNotNumber index found => s!"weights[{index}] is not a number: {found.compact}"
  | noOffsets => "offsets must contain at least one entry"
  | firstOffset found => s!"offsets[0] must be 0, found {found}"
  | decreasing index offset previous =>
    s!"offsets must be non-decreasing: offsets[{index + 1}]={offset} < offsets[{index}]={previous}"
  | lastOffset last edges => s!"offsets[N]={last} does not match edge count {edges}"
  | targetOutOfRange index target nodes =>
    s!"edges[{index}]={target} is out of range for {nodes} nodes"
  | weightCount actual expected => s!"weights has {actual} entries, expected {expected}"
  | badWeight index weight =>
    s!"weights[{index}]={weight.plain} must be finite and non-negative"
  | endpointOutOfRange source target nodes =>
    s!"edge ({source}, {target}) is out of range for {nodes} nodes"
  | tooLarge => "graph exceeds u32 index space"

end GraphFault

/-- Why a graph was not built or not analyzed. The last cause, an index that leaves its array, is
kept apart so that its absence can be stated. -/
inductive GraphError
  | invalid (fault : GraphFault)
  | cycle (sorted total node : Nat)
  | sourceOutOfRange (source nodes : Nat)
  | malformed
  | outOfBounds

namespace GraphError

def message : GraphError → String
  | invalid fault => s!"invalid graph: {fault.message}"
  | cycle sorted total node =>
    s!"cycle detected: only {sorted} of {total} nodes could be ordered " ++
      s!"(node {node} is on a cycle)"
  | sourceOutOfRange source nodes =>
    s!"source node {source} out of range (graph has {nodes} nodes)"
  | malformed => "failed to parse graph JSON: not a JSON text"
  | outOfBounds => "index out of bounds"

end GraphError

end LedEffect
