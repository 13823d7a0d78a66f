import LedEffect.Text

/-!
# Target profiles

The names under which the firmware declares the buffers and scalars that emitted code uses.
-/

namespace LedEffect

/-- A buffer or scalar of the firmware. -/
inductive Symbol
  | leds
  | numLeds
  | spectrogram
  | chromagram
  | tempi
  | numTempi
  | vuLevel
  | tempoConfidence
  | timeSeconds
deriving DecidableEq

namespace Symbol

/-- All symbols in profile order. -/
def all : List Symbol :=
  [leds, numLeds, spectrogram, chromagram, tempi, numTempi, vuLevel, tempoConfidence, timeSeconds]

/-- The key of a symbol in settings. -/
def field : Symbol → String
  | leds => "leds"
  | numLeds => "num_leds"
  | spectrogram => "spectrogram"
  | chromagram => "chromagram"
  | tempi => "tempi"
  | numTempi => "num_tempi"
  | vuLevel => "vu_level"
  | tempoConfidence => "tempo_confidence"
  | timeSeconds => "time_seconds"

/-- The name of a symbol unless a profile says otherwise. -/
def defaultName : Symbol → String
  | leds => "leds"
  | numLeds => "NUM_LEDS"
  | spectrogram => "spectrogram"
  | chromagram => "chromagram"
  | tempi => "tempi"
  | numTempi => "NUM_TEMPI"
  | vuLevel => "vu_level"
  | tempoConfidence => "tempo_confidence"
  | timeSeconds => "time_seconds"

end Symbol

/-- A name for every symbol. -/
structure TargetProfile where
  name : Symbol → String

namespace TargetProfile

def default : TargetProfile := ⟨Symbol.defaultName⟩

instance : Inhabited TargetProfile := ⟨default⟩

/-- The profile with another name for one symbol. -/
def rename (t : TargetProfile) (symbol : Symbol) (name : String) : TargetProfile :=
  ⟨fun s => if s = symbol then name else t.name s⟩

/-- The keys and names of all symbols. -/
def symbols (t : TargetProfile) : List (String × String) :=
  Symbol.all.map fun s => (s.field, t.name s)

/-- The first symbol whose name is no C identifier. -/
def invalidSymbol? (t : TargetProfile) : Option (String × String) :=
  t.symbols.find? fun entry => !isIdentifier entry.2

end TargetProfile

end LedEffect
