import LedEffect.Catalog.Param

/-!
# Node kinds

The closed set of node kinds, with the identifier under which each is written, its category, how
many inputs it takes and which parameters it has.
-/

namespace LedEffect

/-- Frequency bins of the spectrum. -/
def spectrumBins : Nat := 64

/-- Pitch classes of the chromagram. -/
def pitchClasses : Nat := 12

/-- Tempo candidates. -/
def tempoCandidates : Nat := 96

/-- The tempo bin that stands for the strongest candidate at run time. -/
def autoTempoBin : Binary64 := -1

/-- The role of a kind in a graph. -/
inductive Category
  | generator
  | combinator
  | audioReactive
  | sink
deriving DecidableEq

namespace Category

/-- All categories in display order. -/
def all : List Category := [generator, combinator, audioReactive, sink]

def id : Category → String
  | generator => "generator"
  | combinator => "combinator"
  | audioReactive => "audio-reactive"
  | sink => "sink"

def name : Category → String
  | generator => "Generator"
  | combinator => "Combinator"
  | audioReactive => "Audio-Reactive"
  | sink => "Sink"

def description : Category → String
  | generator => "Constants, spatial gradients and time sources"
  | combinator => "Arithmetic and shaping functions of upstream values"
  | audioReactive => "Spectrum, beat, chroma and level readouts"
  | sink => "Nodes that write the LED buffer"

end Category

/-- The kind of a node. -/
inductive Kind
  | constant
  | gradient
  | positionGradient
  | time
  | add
  | multiply
  | clamp
  | modulo
  | scale
  | sin
  | spectrumBin
  | spectrumRange
  | spectrumInterpolate
  | audioLevel
  | beat
  | chromagram
  | tempoConfidence
  | paletteInterpolate
  | output
deriving DecidableEq

/-- A text that names no kind. -/
structure UnknownKind where
  id : String
deriving DecidableEq

def UnknownKind.message (u : UnknownKind) : String := s!"unknown node kind '{u.id}'"

namespace Kind

/-- Every kind in catalog order. -/
def all : List Kind :=
  [constant, gradient, positionGradient, time, add, multiply, clamp, modulo, scale, sin,
    spectrumBin, spectrumRange, spectrumInterpolate, audioLevel, beat, chromagram, tempoConfidence,
    paletteInterpolate, output]

/-- The identifier of a kind, in effects and in cost models. -/
def id : Kind → String
  | constant => "constant"
  | gradient => "gradient"
  | positionGradient => "position-gradient"
  | time => "time"
  | add => "add"
  | multiply => "multiply"
  | clamp => "clamp"
  | modulo => "modulo"
  | scale => "scale"
  | sin => "sin"
  | spectrumBin => "spectrum-bin"
  | spectrumRange => "spectrum-range"
  | spectrumInterpolate => "spectrum-interpolate"
  | audioLevel => "audio-level"
  | beat => "beat"
  | chromagram => "chromagram"
  | tempoConfidence => "tempo-confidence"
  | paletteInterpolate => "palette-interpolate"
  | output => "output"

/-- The kind with an identifier. -/
def ofId? (id : String) : Option Kind := all.find? fun k => k.id == id

/-- The kind with an identifier, or the text that names none. -/
def read (id : String) : Except UnknownKind Kind :=
  match ofId? id with
  | some k => .ok k
  | none => .error ⟨id⟩

def name : Kind → String
  | constant => "Constant"
  | gradient => "Center Gradient"
  | positionGradient => "Position Gradient"
  | time => "Time"
  | add => "Add"
  | multiply => "Multiply"
  | clamp => "Clamp"
  | modulo => "Modulo"
  | scale => "Scale"
  | sin => "Sine"
  | spectrumBin => "Spectrum Bin"
  | spectrumRange => "Spectrum Range"
  | spectrumInterpolate => "Spectrum Interpolate"
  | audioLevel => "Audio Level"
  | beat => "Beat"
  | chromagram => "Chromagram"
  | tempoConfidence => "Tempo Confidence"
  | paletteInterpolate => "Palette Interpolate"
  | output => "Output"

def description : Kind → String
  | constant => "Fixed scalar value"
  | gradient => "Distance from the strip center, 0 in the middle and 1 at the edges"
  | positionGradient => "Linear ramp from 0 at the first LED to 1 at the last"
  | time => "Elapsed seconds multiplied by speed"
  | add => "Sum of two inputs, saturated at 1"
  | multiply => "Product of two inputs"
  | clamp => "Limits the input to [min, max]"
  | modulo => "Floating-point remainder of the input by divisor"
  | scale => "Input multiplied by factor"
  | sin => "Sine of the input remapped to [0, 1]"
  | spectrumBin => "Magnitude of one frequency bin"
  | spectrumRange => "Mean magnitude over an inclusive bin range"
  | spectrumInterpolate => "Bin range stretched across the strip"
  | audioLevel => "Overall VU level"
  | beat => "Beat phase of a tempo candidate, auto-detected when tempoBin is -1"
  | chromagram => "Energy of one pitch class"
  | tempoConfidence => "Confidence of the current tempo estimate"
  | paletteInterpolate => "Maps a position to a palette color and writes every LED"
  | output => "Terminal passthrough; the palette sink already writes the buffer"

def category : Kind → Category
  | constant | gradient | positionGradient | time => .generator
  | add | multiply | clamp | modulo | scale | sin => .combinator
  | spectrumBin | spectrumRange | spectrumInterpolate | audioLevel | beat | chromagram
  | tempoConfidence => .audioReactive
  | paletteInterpolate | output => .sink

/-- The fewest inputs of a kind. -/
def minInputs : Kind → Nat
  | add | multiply => 2
  | clamp | modulo | scale | sin => 1
  | _ => 0

/-- The most inputs of a kind. -/
def maxInputs : Kind → Nat
  | add | multiply => 2
  | clamp | modulo | scale | sin | paletteInterpolate | output => 1
  | _ => 0

/-- The last index of an array of a given size. -/
def lastIndex (size : Nat) : Binary64 := Binary64.ofNat (size - 1)

/-- The two bins of a range; values outside the spectrum are moved into it. -/
def binRange : List ParamSpec :=
  [(ParamSpec.int "startBin" 0 (lastIndex spectrumBins) 0).clamped,
    (ParamSpec.int "endBin" 0 (lastIndex spectrumBins) (lastIndex spectrumBins)).clamped]

/-- The parameters of a kind in declaration order. -/
def params : Kind → List ParamSpec
  | constant => [(ParamSpec.float "value" (-1000) 1000 0).required]
  | time => [.float "speed" (-100) 100 1]
  | clamp => [.float "min" (-1000) 1000 0, .float "max" (-1000) 1000 1]
  | modulo => [.float "divisor" 0.0001 1000 1]
  | scale => [.float "factor" (-1000) 1000 1]
  | sin => [.float "frequency" 0 64 1]
  | spectrumBin => [(ParamSpec.int "bin" 0 (lastIndex spectrumBins) 0).required]
  | spectrumRange | spectrumInterpolate => binRange
  | beat => [.int "tempoBin" autoTempoBin (lastIndex tempoCandidates) autoTempoBin]
  | chromagram => [(ParamSpec.int "pitch" 0 (lastIndex pitchClasses) 0).required]
  | paletteInterpolate => [.float "brightness" 0 1 1]
  | _ => []

/-- The parameter of a kind with a name. -/
def param? (k : Kind) (name : String) : Option ParamSpec := k.params.find? fun p => p.name == name

def isSink (k : Kind) : Bool := k.category == .sink

/-- Whether lowering a kind writes the LED buffer; all other kinds are expressions. -/
def hasSideEffect (k : Kind) : Bool := k == paletteInterpolate

/-- Whether the value of a kind differs from pixel to pixel. -/
def isPerPixel : Kind → Bool
  | gradient | positionGradient | spectrumInterpolate => true
  | _ => false

/-- The catalog entry of a kind. -/
def toValue (k : Kind) : Json :=
  .object [("id", .string k.id), ("name", .string k.name), ("description", .string k.description),
    ("kind", .string k.id), ("category", .string k.category.id),
    ("minInputs", .natural k.minInputs), ("maxInputs", .natural k.maxInputs),
    ("params", .array (k.params.map ParamSpec.toValue))]

end Kind

/-- The kinds of a category in catalog order. -/
def Category.kinds (c : Category) : List Kind := Kind.all.filter fun k => k.category == c

end LedEffect
