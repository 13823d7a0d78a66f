import LedEffect.Cost.Model
import LedEffect.Graph.Basic

/-!
# Estimates

The coefficients of all nodes are summed and converted to time by one constant, the operations that
the device executes in a millisecond. Sums are 64-bit counters that stay at their greatest value
when they would pass it.
-/

namespace LedEffect

/-- The sum of two 64-bit counters, held at the greatest counter. -/
def addCounters (a b : Nat) : Nat := min (a + b) Json.wordLimit

/-- The cost of all nodes of one kind. -/
structure KindCost where
  count : Nat
  ops : Nat
deriving DecidableEq

/-- The cost of a graph in one frame. -/
structure Estimate where
  totalOps : Nat
  ms : Binary64
  cpuPct : Binary64
  memKB : Binary64
  ioCalls : Nat
  memReads : Nat
  memWrites : Nat
  frameBudgetMs : Binary64
  fallbackKinds : List String
  breakdown : Keyed KindCost
deriving DecidableEq

namespace Estimate

def withinBudget (e : Estimate) : Bool := e.ms.le e.frameBudgetMs

/-- What is left of the budget, negative when it is exceeded. -/
def headroomMs (e : Estimate) : Binary64 := e.frameBudgetMs - e.ms

def toValue (e : Estimate) : Json :=
  .object [("totalOps", .natural e.totalOps), ("ms", .double e.ms), ("cpuPct", .double e.cpuPct),
    ("memKB", .double e.memKB), ("ioCalls", .natural e.ioCalls),
    ("memReads", .natural e.memReads), ("memWrites", .natural e.memWrites),
    ("frameBudgetMs", .double e.frameBudgetMs), ("fallbackKinds", .strings e.fallbackKinds),
    ("breakdown", .object (e.breakdown.entries.map fun (kind, c) =>
      (kind, .object [("count", .natural c.count), ("ops", .natural c.ops)])))]

open Json.Document in
/-- The estimate that a document describes; all fields are required. -/
def ofDocument? (d : Json.Document) : Option Estimate := do
  let fields ← d.record? ["totalOps", "ms", "cpuPct", "memKB", "ioCalls", "memReads", "memWrites",
    "frameBudgetMs", "fallbackKinds", "breakdown"]
  let counter := natural? Json.wordLimit
  let kindCost (d : Json.Document) : Option KindCost := do
    let fields ← d.record? ["count", "ops"]
    return ⟨← required? fields "count" counter, ← required? fields "ops" counter⟩
  return {
    totalOps := ← required? fields "totalOps" counter
    ms := ← required? fields "ms" double?
    cpuPct := ← required? fields "cpuPct" double?
    memKB := ← required? fields "memKB" double?
    ioCalls := ← required? fields "ioCalls" counter
    memReads := ← required? fields "memReads" counter
    memWrites := ← required? fields "memWrites" counter
    frameBudgetMs := ← required? fields "frameBudgetMs" double?
    fallbackKinds := ← required? fields "fallbackKinds" (list? text?)
    breakdown := .ofList (← required? fields "breakdown" (entries? kindCost)) }

end Estimate

/-- The constants of estimation and calibration. -/
structure Estimator where
  opsPerMs : Binary64
  frameBudgetMs : Binary64
deriving DecidableEq

namespace Estimator

/-- Operations that the device executes in a millisecond. -/
def defaultOpsPerMs : Binary64 := 240000

/-- The time for one frame at sixty frames a second. -/
def defaultFrameBudgetMs : Binary64 := Binary64.div 1000 60

def default : Estimator := ⟨defaultOpsPerMs, defaultFrameBudgetMs⟩

instance : Inhabited Estimator := ⟨default⟩

/-- Whether a number is positive and finite. -/
def isUsable (x : Binary64) : Bool := x.isFinite && Binary64.zero.lt x

/-- The estimator of two constants, which must be positive and finite. -/
def new (opsPerMs frameBudgetMs : Binary64) : Except CostError Estimator :=
  if !isUsable opsPerMs then .error (.invalidSetting "ops_per_ms" opsPerMs)
  else if !isUsable frameBudgetMs then .error (.invalidSetting "frame_budget_ms" frameBudgetMs)
  else .ok ⟨opsPerMs, frameBudgetMs⟩

/-- The time that operations take. -/
def opsToMs (e : Estimator) (ops : Nat) : Binary64 := Binary64.ofNat ops / e.opsPerMs

/-- The sums over the nodes charged so far. -/
structure Totals where
  ops : Nat
  memReads : Nat
  memWrites : Nat
  ioCalls : Nat
  fallbackKinds : List String
  breakdown : Keyed KindCost

/-- The sums with one more node charged. -/
def Totals.charge (m : CostModel) (t : Totals) (kind : String) : Totals :=
  let (c, source) := CostModel.lookup m kind
  { ops := addCounters t.ops c.ops
    memReads := addCounters t.memReads c.memReads
    memWrites := addCounters t.memWrites c.memWrites
    ioCalls := addCounters t.ioCalls c.ioCalls
    fallbackKinds :=
      if source = .fallback ∧ !t.fallbackKinds.contains kind then kind :: t.fallbackKinds
      else t.fallbackKinds
    breakdown := t.breakdown.update kind ⟨0, 0⟩ fun k => ⟨k.count + 1, addCounters k.ops c.ops⟩ }

/-- The sums over a list of kinds. -/
def totals (m : CostModel) (kinds : List String) : Totals :=
  kinds.foldl (Totals.charge m) ⟨0, 0, 0, 0, [], .empty⟩

/-- The estimate for a graph whose node `i` is of the `i`-th kind. -/
def estimate (e : Estimator) (g : Graph) (kinds : List String) (m : CostModel) :
    Except CostError Estimate :=
  if kinds.length ≠ g.nodeCount then .error (.shapeMismatch g.nodeCount kinds.length)
  else
    let t := totals m kinds
    let ms := e.opsToMs t.ops
    .ok {
      totalOps := t.ops
      ms := ms
      cpuPct := Binary64.min (ms / e.frameBudgetMs * 100) 100
      memKB := (Binary64.ofNat t.memReads + Binary64.ofNat t.memWrites) * 4 / 1024
      ioCalls := t.ioCalls
      memReads := t.memReads
      memWrites := t.memWrites
      frameBudgetMs := e.frameBudgetMs
      fallbackKinds := t.fallbackKinds.mergeSort fun a b => !decide (b < a)
      breakdown := t.breakdown }

end Estimator

end LedEffect
