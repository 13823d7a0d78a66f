import LedEffect.Catalog.Kind
import LedEffect.Effect.Basic
import LedEffect.Graph.Error

/-!
# Compilation errors

Every cause that lies with a node names the node and its kind. The wording is
`CompileError.message`.
-/

namespace LedEffect

/-- What is wrong with a parameter, its range aside. -/
inductive ParamFault
  | notNumeric (value : ParamValue)
  | missing
  | notFinite (value : Binary64)
  | notInteger (value : Binary64)
  | minAboveMax (min max : Binary64)

def ParamFault.message : ParamFault → String
  | notNumeric value => s!"{value.display} is not a number"
  | missing => "required parameter is missing"
  | notFinite value => (ParamViolation.notFinite value).message
  | notInteger value => (ParamViolation.notInteger value).message
  | minAboveMax min max => s!"min {min.plain} exceeds max {max.plain}"

/-- What is wrong with palette data. -/
inductive PaletteFault
  | tooFew (count : Nat)
  | badPosition (row : Nat) (position : Binary64)
  | badChannel (row : Nat) (channel : String) (value : Binary64)

def PaletteFault.message : PaletteFault → String
  | tooFew count => s!"need at least 2 keyframes, got {count}"
  | badPosition row position => s!"keyframe {row} has non-finite position {position.plain}"
  | badChannel row channel value =>
    s!"keyframe {row} {channel}={value.plain} is not an integer in 0..=255"

/-- Why an effect does not compile. The last cause, an index or name that leaves its table, is kept
apart so that its absence can be stated. -/
inductive CompileError
  | unknownNodeType (node type : String)
  | duplicateNode (node : String)
  | missingInput (node : String) (kind : Kind) (input : String)
  | arity (node : String) (kind : Kind) (actual : Nat)
  | parameterRange (node : String) (kind : Kind) (param : String) (value min max : Binary64)
  | invalidParameter (node : String) (kind : Kind) (param : String) (fault : ParamFault)
  | unknownParameter (node : String) (kind : Kind) (param : String)
  | sinkInput (node : String) (kind : Kind) (input : String)
  | danglingWire (source target missing : String)
  | cycle (node : String) (kind : Kind)
  | noSink
  | unknownPalette (name : String)
  | invalidPalette (fault : PaletteFault)
  | graph (error : GraphError)
  | malformed
  | outOfBounds

namespace CompileError

/-- A node with its kind, as messages begin. -/
def subject (node : String) (kind : Kind) : String := s!"node '{node}' ({kind.id}): "

def message : CompileError → String
  | unknownNodeType node type => s!"node '{node}': unknown node type '{type}'"
  | duplicateNode node => s!"duplicate node id '{node}'"
  | missingInput node kind input => subject node kind ++ s!"input '{input}' does not exist"
  | arity node kind actual =>
    subject node kind ++ s!"expected {kind.minInputs}..={kind.maxInputs} inputs, got {actual}"
  | parameterRange node kind param value min max =>
    subject node kind ++
      s!"parameter '{param}'={value.plain} is outside [{min.plain}, {max.plain}]"
  | invalidParameter node kind param fault =>
    subject node kind ++ s!"parameter '{param}': {fault.message}"
  | unknownParameter node kind param => subject node kind ++ s!"unknown parameter '{param}'"
  | sinkInput node kind input =>
    subject node kind ++ s!"sink '{input}' cannot be used as a value input"
  | danglingWire source target missing =>
    s!"wire {source} -> {target}: node '{missing}' does not exist"
  | cycle node kind => s!"node '{node}' ({kind.id}) is part of a dependency cycle"
  | noSink => "graph has no sink node (palette-interpolate or output)"
  | unknownPalette name => s!"unknown palette '{name}'"
  | invalidPalette fault => s!"invalid palette: {fault.message}"
  | graph error => error.message
  | malformed => "invalid effect JSON: not an effect"
  | outOfBounds => "index out of bounds"

/-- The node to which the error is attributed. -/
def node? : CompileError → Option String
  | unknownNodeType node _ | duplicateNode node | missingInput node _ _ | arity node _ _
  | parameterRange node _ _ _ _ _ | invalidParameter node _ _ _ | unknownParameter node _ _
  | sinkInput node _ _ | cycle node _ => some node
  | _ => none

end CompileError

end LedEffect
