import LedEffect.Keyed
import LedEffect.Number.Text
import LedEffect.Text

/-!
# Effects as authored

An effect is a list of nodes and a list of wires between them, with a palette. Nothing is checked
here: kinds are texts, inputs are names, and parameters may be numbers or numeric texts.
-/

namespace LedEffect

/-- A parameter value: a number, or a text that is read as a number on use. -/
inductive ParamValue
  | number (x : Binary64)
  | text (s : String)
deriving DecidableEq

namespace ParamValue

/-- The number of a value; a text may have blanks around it. -/
def toNumber? : ParamValue → Option Binary64
  | number x => some x
  | text s => Binary64.read? (trimBlanks s)

/-- The value as it is quoted in messages. -/
def display : ParamValue → String
  | number x => x.plain
  | text s => "\"" ++ s ++ "\""

end ParamValue

/-- A node as authored. Without explicit inputs its inputs are the sources of its wires. -/
structure NodeSpec where
  id : String
  kind : String
  parameters : Keyed ParamValue
  inputs : List String
  description : Option String
deriving DecidableEq

namespace NodeSpec

/-- A node without parameters and inputs. -/
def new (id kind : String) : NodeSpec := ⟨id, kind, .empty, [], none⟩

/-- The node with a parameter set. -/
def param (n : NodeSpec) (name : String) (value : ParamValue) : NodeSpec :=
  { n with parameters := n.parameters.insert name value }

/-- The node with one more explicit input. -/
def input (n : NodeSpec) (id : String) : NodeSpec := { n with inputs := n.inputs ++ [id] }

end NodeSpec

/-- A wire from one node into another. -/
structure WireSpec where
  source : String
  target : String
  description : Option String
deriving DecidableEq

/-- A palette keyframe as authored: its position and its three channels. -/
structure PaletteRow where
  position : Binary64
  red : Binary64
  green : Binary64
  blue : Binary64
deriving DecidableEq

/-- An effect as authored. Inline palette data wins over a palette name. -/
structure Effect where
  name : Option String
  description : Option String
  palette : Option String
  paletteData : Option (List PaletteRow)
  nodes : List NodeSpec
  wires : List WireSpec
deriving DecidableEq

namespace Effect

def empty : Effect := ⟨none, none, none, none, [], []⟩

instance : Inhabited Effect := ⟨empty⟩

/-- The effect with one more node. -/
def node (e : Effect) (n : NodeSpec) : Effect := { e with nodes := e.nodes ++ [n] }

/-- The effect with one more wire. -/
def wire (e : Effect) (source target : String) : Effect :=
  { e with wires := e.wires ++ [⟨source, target, none⟩] }

/-- The effect with a named palette. -/
def withPalette (e : Effect) (name : String) : Effect := { e with palette := some name }

end Effect

end LedEffect
