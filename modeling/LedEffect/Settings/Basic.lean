import LedEffect.Cost.Estimate
import LedEffect.Program.Target
import LedEffect.Settings.Error

/-!
# Settings

What can be tuned about a device: its budget, the names of its symbols, and the cost model merged
over the builtin one.
-/

namespace LedEffect

/-- The settings of a device. -/
structure Settings where
  frameBudgetMs : Binary64
  opsPerMs : Binary64
  target : TargetProfile
  costModel : Option String

namespace Settings

def default : Settings :=
  ⟨Estimator.defaultFrameBudgetMs, Estimator.defaultOpsPerMs, .default, none⟩

instance : Inhabited Settings := ⟨default⟩

/-- Numeric equality of the budget, and equality of all names. -/
def same (a b : Settings) : Bool :=
  a.frameBudgetMs.eq b.frameBudgetMs && a.opsPerMs.eq b.opsPerMs &&
    a.target.symbols == b.target.symbols && a.costModel == b.costModel

/-- Accepts settings whose budget is positive and finite and whose symbols are identifiers. -/
def validate (s : Settings) : Except SettingsError Unit :=
  if !Estimator.isUsable s.frameBudgetMs then
    .error (.invalidBudget "frame_budget_ms" s.frameBudgetMs)
  else if !Estimator.isUsable s.opsPerMs then .error (.invalidBudget "ops_per_ms" s.opsPerMs)
  else
    match s.target.invalidSymbol? with
    | some (field, value) => .error (.invalidSymbol field value)
    | none => .ok ()

/-- The estimator with the configured budget. -/
def estimator (s : Settings) : Except SettingsError Estimator :=
  (Estimator.new s.opsPerMs s.frameBudgetMs).mapError .cost

end Settings

end LedEffect
