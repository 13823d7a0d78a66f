import LedEffect.Effect.Error
import LedEffect.Json.Decode

/-!
# Effects as JSON

Empty sections of a node and absent options are not written; the lists of nodes and wires always
are.
-/

namespace LedEffect

open Json (Document)
open Json.Document

/-- The members for an option that is left out when absent. -/
def optionMember (name : String) : Option String → List (String × Json)
  | none => []
  | some s => [(name, .string s)]

namespace ParamValue

def toValue : ParamValue → Json
  | number x => .double x
  | text s => .string s

/-- A number or a text. -/
def ofDocument? (d : Document) : Option ParamValue :=
  match d with
  | .number _ => d.double?.map number
  | .string _ => d.text?.map text
  | _ => none

end ParamValue

namespace NodeSpec

def toValue (n : NodeSpec) : Json :=
  .object ([("id", .string n.id), ("type", .string n.kind)] ++
    (if n.parameters.isEmpty then [] else
      [("parameters", .object (n.parameters.entries.map fun (k, v) => (k, v.toValue)))]) ++
    (if n.inputs.isEmpty then [] else [("inputs", .strings n.inputs)]) ++
    optionMember "description" n.description)

def ofDocument? (d : Document) : Option NodeSpec := do
  let fields ← d.record? ["id", "type", "parameters", "inputs", "description"]
  return {
    id := ← required? fields "id" text?
    kind := ← required? fields "type" text?
    parameters := .ofList (← optional? fields "parameters" [] (entries? ParamValue.ofDocument?))
    inputs := ← optional? fields "inputs" [] (list? text?)
    description := ← nullable? fields "description" text? }

end NodeSpec

namespace WireSpec

def toValue (w : WireSpec) : Json :=
  .object ([("from", .string w.source), ("to", .string w.target)] ++
    optionMember "description" w.description)

def ofDocument? (d : Document) : Option WireSpec := do
  let fields ← d.record? ["from", "to", "description"]
  return {
    source := ← required? fields "from" text?
    target := ← required? fields "to" text?
    description := ← nullable? fields "description" text? }

end WireSpec

namespace PaletteRow

def toValue (r : PaletteRow) : Json :=
  .array [.double r.position, .double r.red, .double r.green, .double r.blue]

/-- Exactly four numbers. -/
def ofDocument? (d : Document) : Option PaletteRow := do
  match ← d.list? double? with
  | [position, red, green, blue] => some ⟨position, red, green, blue⟩
  | _ => none

end PaletteRow

namespace Effect

def toValue (e : Effect) : Json :=
  .object (optionMember "name" e.name ++ optionMember "description" e.description ++
    optionMember "palette" e.palette ++
    (match e.paletteData with
      | none => []
      | some rows => [("palette_data", .array (rows.map PaletteRow.toValue))]) ++
    [("nodes", .array (e.nodes.map NodeSpec.toValue)),
      ("wires", .array (e.wires.map WireSpec.toValue))])

def ofDocument? (d : Document) : Option Effect := do
  let fields ← d.record? ["name", "description", "palette", "palette_data", "nodes", "wires"]
  return {
    name := ← nullable? fields "name" text?
    description := ← nullable? fields "description" text?
    palette := ← nullable? fields "palette" text?
    paletteData := ← nullable? fields "palette_data" (list? PaletteRow.ofDocument?)
    nodes := ← optional? fields "nodes" [] (list? NodeSpec.ofDocument?)
    wires := ← optional? fields "wires" [] (list? WireSpec.ofDocument?) }

/-- The effect that a JSON text describes. -/
def ofJson (text : String) : Except CompileError Effect :=
  match (Document.read? text).bind ofDocument? with
  | some e => .ok e
  | none => .error .malformed

def toJson (e : Effect) : String := e.toValue.pretty

end Effect

end LedEffect
