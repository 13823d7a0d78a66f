import LedEffect.Cost.Estimate

/-!
# Calibration

Measured timings are grouped by kind, averaged and converted to operations. They say nothing about
memory and calls, so those coefficients are kept.
-/

namespace LedEffect

/-- One measured frame of a node kind, in microseconds. -/
structure CalibrationSample where
  kind : String
  us : Binary64
deriving DecidableEq

namespace CalibrationSample

def toValue (s : CalibrationSample) : Json :=
  .object [("nodeKind", .string s.kind), ("us", .double s.us)]

open Json.Document in
def ofDocument? (d : Json.Document) : Option CalibrationSample := do
  let fields ← d.record? ["nodeKind", "us"]
  return ⟨← required? fields "nodeKind" text?, ← required? fields "us" double?⟩

/-- The samples that a JSON text lists. -/
def listOfJson (text : String) : Except CostError (List CalibrationSample) :=
  match (Json.Document.read? text).bind (Json.Document.list? ofDocument?) with
  | some samples => .ok samples
  | none => .error .malformed

/-- Whether a timing can be used. -/
def isValid (s : CalibrationSample) : Bool := s.us.isFinite && !s.us.lt .zero

end CalibrationSample

/-- The timings of one kind, summed in their order. -/
structure TimingSum where
  us : Binary64
  count : Nat

namespace TimingSum

def add (t : TimingSum) (us : Binary64) : TimingSum := ⟨t.us + us, t.count + 1⟩

/-- The sums of the timings of every sampled kind. -/
def byKind (samples : List CalibrationSample) : Keyed TimingSum :=
  samples.foldl (fun sums s => sums.update s.kind ⟨.zero, 0⟩ (·.add s.us)) .empty

/-- The operations of a kind with these timings: the mean time converted and rounded. -/
def ops (t : TimingSum) (opsPerMs : Binary64) : Nat :=
  (t.us / Binary64.ofNat t.count / 1000 * opsPerMs).roundToCounter

end TimingSum

namespace Estimator

/-- The first sample whose timing cannot be used, with its place. -/
def invalidSample? (samples : List CalibrationSample) : Option (CalibrationSample × Nat) :=
  samples.zipIdx.find? fun (s, _) => !s.isValid

/-- The model `base` with new operations for every sampled kind; its other coefficients stay, or
are the fallback ones if `base` does not know it. -/
def calibrateOnto (e : Estimator) (base : CostModel) (samples : List CalibrationSample) :
    Except CostError CostModel :=
  match invalidSample? samples with
  | some (s, index) => .error (.invalidSample index s.kind s.us)
  | none =>
    .ok ((TimingSum.byKind samples).entries.foldl
      (fun m (kind, sum) =>
        let template := (base.get? kind).getD .fallback
        m.insert kind { template with ops := sum.ops e.opsPerMs })
      base)

/-- The model of samples alone. -/
def calibrate (e : Estimator) (samples : List CalibrationSample) : Except CostError CostModel :=
  e.calibrateOnto .empty samples

end Estimator

end LedEffect
