import LedEffect.Command.Inspect
import LedEffect.Program.Compile
import LedEffect.Settings.Files

/-!
# Estimating and compiling effects

All commands of this module find and check the settings before they read their input.
-/

namespace LedEffect.Command

variable {m : Type → Type} [Monad m] [FileAccess m]

/-- The settings to use, checked. -/
def loadSettings (named : Option String) : Attempt m Settings := do
  let (s, source) ← (Settings.discover named).adapt .settings
  Attempt.ofExcept (.invalidSettings source) s.validate
  return s

/-- The configured cost model with a further one merged over it. -/
def costModel (s : Settings) (further : Option String) : Attempt m CostModel := do
  let model ← s.loadCostModel.adapt .settings
  match further with
  | none => return model
  | some path => return model.merge (← (CostModel.load path).adapt .cost)

/-- The effect in a file. -/
def readEffect (path : String) : Attempt m Effect := do
  Attempt.ofExcept (.invalidEffect path) (Effect.ofJson (← Attempt.readInput path))

/-- The estimate of a resolved effect. -/
def estimateEffect (s : Settings) (r : ResolvedEffect) (further : Option String) :
    Attempt m Estimate := do
  let model ← costModel s further
  let estimator ← Attempt.ofExcept .settings s.estimator
  Attempt.ofExcept .cost (estimator.estimate r.view r.kinds model)

/-! ## Estimates -/

/-- A row of the table of kinds. -/
def kindRow (kind count ops : String) : String :=
  s!"  {padRight 24 kind}  {padLeft 5 count}  {padLeft 10 ops}"

/-- The line on kinds without coefficients. -/
def fallbackLines (e : Estimate) : List String :=
  if e.fallbackKinds.isEmpty then []
  else
    let kinds := ", ".intercalate e.fallbackKinds
    [s!"  fallback:    {kinds} (default coefficients)"]

/-- The last line of an estimate. -/
def verdict (e : Estimate) : String :=
  if e.withinBudget then s!"Within budget ({e.headroomMs.fixed 4} ms headroom)"
  else s!"Over budget by {(-e.headroomMs).fixed 4} ms"

/-- An estimate as text. -/
def estimateText (name : String) (e : Estimate) : String :=
  unlines ([s!"Effect: {name}", "", kindRow "kind" "count" "ops"] ++
    (e.breakdown.entries.map fun (kind, c) => kindRow kind (toString c.count) (toString c.ops)) ++
    ["", s!"  total ops:   {e.totalOps}",
      s!"  frame time:  {e.ms.fixed 4} ms of {e.frameBudgetMs.fixed 4} ms " ++
        s!"({e.cpuPct.fixed 1}% CPU)",
      s!"  memory:      {e.memKB.fixed 2} KB ({e.memReads} reads, {e.memWrites} writes), " ++
        s!"{e.ioCalls} I/O calls"] ++
    fallbackLines e ++ ["", verdict e])

/-- Estimates an effect; in strict mode one over its budget is a failure. -/
def estimate (named : Option String) (path : String) (further : Option String)
    (json strict : Bool) : Attempt m Outcome := do
  let s ← loadSettings named
  let effect ← readEffect path
  let r ← Attempt.ofExcept .compile effect.resolve
  let e ← estimateEffect s r further
  let shown := if json then printedJson e.toValue else .printed (estimateText effect.displayName e)
  if strict && !e.withinBudget then
    return { shown with failure := some (.overBudget e.ms e.frameBudgetMs) }
  else return shown

/-! ## Compilation -/

/-- The warning about a node that reaches no palette sink. -/
def unusedWarning (id : String) : String :=
  s!"warning: node '{id}' does not feed a palette sink and was not emitted"

/-- Compiles an effect and shows or stores its code, or shows what the compilation counted. -/
def compile (named : Option String) (path : String) (target : Option String) (stats : Bool) :
    Attempt m Outcome := do
  let s ← loadSettings named
  let effect ← readEffect path
  let compiled ← Attempt.ofExcept .compile (effect.compile s.target)
  let delivered ←
    if stats then pure (printedJson compiled.stats.toValue)
    else Attempt.outcome (Attempt.deliver (m := m) target compiled.code)
  return { delivered with warnings := compiled.stats.unused.map unusedWarning }

/-! ## Reports -/

/-- Health, estimate and compilation of an effect in one record. -/
def report (named : Option String) (path : String) (further : Option String) :
    Attempt m Outcome := do
  let s ← loadSettings named
  let effect ← readEffect path
  let r ← Attempt.ofExcept .compile effect.resolve
  let e ← estimateEffect s r further
  let compiled ← Attempt.ofExcept .compile (effect.compileResolved s.target r)
  let health ← Attempt.ofExcept .graph r.view.health
  return printedJson (.object [("name", .string compiled.name), ("health", health.toValue),
    ("estimate", e.toValue), ("compile", compiled.stats.toValue),
    ("codeLines", .natural compiled.lineCount)])

/-! ## Calibration -/

/-- Makes a cost model of samples, over an existing one if it is named. -/
def calibrate (named : Option String) (samplesPath : String) (base target : Option String) :
    Attempt m Outcome := do
  let s ← loadSettings named
  let estimator ← Attempt.ofExcept .settings s.estimator
  let samples ← (CalibrationSample.load samplesPath).adapt .cost
  let start ← match base with
    | none => pure .empty
    | some path => (CostModel.load path).adapt .cost
  let model ← Attempt.ofExcept .cost (estimator.calibrateOnto start samples)
  Attempt.deliver target (model.toJson ++ "\n")

end LedEffect.Command
