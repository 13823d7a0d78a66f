import LedEffect.Cost.Error
import LedEffect.Json.Decode
import LedEffect.Json.Printer

/-!
# Cost models

A cost model gives node kinds their coefficients. A kind without an entry is charged conservative
coefficients, and the lookup says so.
-/

namespace LedEffect

-- Powers are those of the core library, whatever else is in scope.
attribute [local instance (2000)] instPowNat

/-- The cost of one node in one frame. -/
structure Coefficients where
  ops : Nat
  memReads : Nat
  memWrites : Nat
  ioCalls : Nat
deriving DecidableEq

namespace Coefficients

/-- What a kind without an entry is charged. -/
def fallback : Coefficients := ⟨100, 16, 8, 0⟩

def toValue (c : Coefficients) : Json :=
  .object [("ops", .natural c.ops), ("memReads", .natural c.memReads),
    ("memWrites", .natural c.memWrites), ("ioCalls", .natural c.ioCalls)]

open Json.Document in
def ofDocument? (d : Json.Document) : Option Coefficients := do
  let fields ← d.record? ["ops", "memReads", "memWrites", "ioCalls"]
  let count := natural? (2 ^ (32 : Nat) - 1)
  return {
    ops := ← required? fields "ops" (natural? Json.wordLimit)
    memReads := ← required? fields "memReads" count
    memWrites := ← required? fields "memWrites" count
    ioCalls := ← required? fields "ioCalls" count }

end Coefficients

/-- Coefficients under the identifiers of node kinds. -/
abbrev CostModel := Keyed Coefficients

/-- Where looked-up coefficients come from. -/
inductive CoefficientSource
  | model
  | fallback
deriving DecidableEq

def CoefficientSource.id : CoefficientSource → String
  | model => "model"
  | fallback => "fallback"

namespace CostModel

/-- Coefficients for a strip of about 128 pixels; kinds that are computed for every pixel carry the
cost of the whole loop. -/
def builtin : CostModel :=
  .ofList [("constant", ⟨2, 0, 0, 0⟩), ("gradient", ⟨768, 0, 0, 0⟩),
    ("position-gradient", ⟨512, 0, 0, 0⟩), ("time", ⟨12, 1, 0, 0⟩), ("add", ⟨384, 0, 0, 0⟩),
    ("multiply", ⟨256, 0, 0, 0⟩), ("clamp", ⟨512, 0, 0, 0⟩), ("modulo", ⟨640, 0, 0, 0⟩),
    ("scale", ⟨256, 0, 0, 0⟩), ("sin", ⟨2560, 0, 0, 0⟩), ("spectrum-bin", ⟨4, 1, 0, 0⟩),
    ("spectrum-range", ⟨192, 64, 0, 0⟩), ("spectrum-interpolate", ⟨2048, 256, 0, 0⟩),
    ("audio-level", ⟨2, 1, 0, 0⟩), ("beat", ⟨300, 192, 0, 0⟩), ("chromagram", ⟨4, 1, 0, 0⟩),
    ("tempo-confidence", ⟨2, 1, 0, 0⟩), ("palette-interpolate", ⟨6144, 768, 384, 0⟩),
    ("output", ⟨256, 0, 384, 1⟩)]

/-- The coefficients to charge for a kind, and where they come from. -/
def lookup (m : CostModel) (kind : String) : Coefficients × CoefficientSource :=
  match m.get? kind with
  | some c => (c, .model)
  | none => (.fallback, .fallback)

def toValue (m : CostModel) : Json := .object (m.entries.map fun (kind, c) => (kind, c.toValue))

def toJson (m : CostModel) : String := (toValue m).pretty

/-- The model that a JSON text describes. -/
def ofJson (text : String) : Except CostError CostModel :=
  match (Json.Document.read? text).bind (Json.Document.entries? Coefficients.ofDocument?) with
  | some entries => .ok (.ofList entries)
  | none => .error .malformed

end CostModel

end LedEffect
