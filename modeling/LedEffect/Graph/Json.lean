import LedEffect.Graph.Basic
import LedEffect.Json.Decode

/-!
# Graphs as JSON

An object with the members `directed`, `offsets`, `edges` and, when the graph has weights,
`weights`.
-/

namespace LedEffect.Graph

/-- The value of a member. -/
def member? (members : List (String × Json)) (name : String) : Option Json :=
  (members.find? fun m => m.1 == name).map (·.2)

/-- An unsigned 32-bit integer. -/
def word? : Json → Option UInt32
  | .integer n => if 0 ≤ n ∧ n ≤ counterLimit then some (UInt32.ofNat n.toNat) else none
  | _ => none

/-- The words of a list; the first element that is none is the fault. -/
def words (field : String) (items : List Json) : Except GraphError (Array UInt32) :=
  match Rows.findIndexed? (fun item => (word? item).isNone) 0 items with
  | some (i, item) => .error (.invalid (.notWord field i item))
  | none => .ok (items.filterMap word?).toArray

/-- A required array of words. -/
def wordArray (field : String) : Option Json → Except GraphError (Array UInt32)
  | none => .error (.invalid (.arrayMissing field))
  | some (.array items) => words field items
  | some other => .error (.invalid (.notArray field other))

/-- A number as a double. -/
def double? : Json → Option Binary64
  | .integer n => some (.ofInt n)
  | .double x => some x
  | _ => none

/-- The optional array of weights. -/
def weightArray : Option Json → Except GraphError (Option (Array Binary64))
  | none | some .null => .ok none
  | some (.array items) =>
    match Rows.findIndexed? (fun item => (double? item).isNone) 0 items with
    | some (i, item) => .error (.invalid (.weightNotNumber i item))
    | none => .ok (some (items.filterMap double?).toArray)
  | some other => .error (.invalid (.notArray "weights" other))

/-- The graph that a JSON value describes. -/
def ofValue : Json → Except GraphError Graph
  | .object members => do
    let directed ← match member? members "directed" with
      | some (.bool b) => pure b
      | some other => .error (.invalid (.directedNotBoolean other))
      | none => .error (.invalid .directedMissing)
    let offsets ← wordArray "offsets" (member? members "offsets")
    let edges ← wordArray "edges" (member? members "edges")
    let weights ← weightArray (member? members "weights")
    ofRows directed offsets edges weights
  | _ => .error (.invalid .notObject)

/-- The graph that a JSON text describes. -/
def ofJson (text : String) : Except GraphError Graph :=
  match Json.read? text with
  | some value => ofValue value
  | none => .error .malformed

/-- The description of a graph. -/
def toValue (g : Graph) : Json :=
  let words (a : Array UInt32) : Json := .array (a.toList.map fun n => .natural n.toNat)
  let weights := match g.weights with
    | none => []
    | some w => [("weights", Json.array (w.toList.map .double))]
  .object ([("directed", .bool g.directed), ("offsets", words g.offsets),
    ("edges", words g.edges)] ++ weights)

def toJson (g : Graph) : String := g.toValue.pretty

end LedEffect.Graph
