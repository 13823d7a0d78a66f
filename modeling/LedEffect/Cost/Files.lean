import LedEffect.Cost.Calibration
import LedEffect.Files.Access

/-!
# Cost models and samples in files
-/

namespace LedEffect

variable {m : Type → Type} [Monad m] [FileAccess m]

namespace CostError

/-- The text of a file, with a failure told as a cost error. -/
def readText (path : String) : ExceptT CostError m String := do
  match ← FileAccess.readText (m := m) path with
  | .ok text => return text
  | .error cause => throw (unreadable path cause)

end CostError

namespace CostModel

/-- The model in a file. -/
def load (path : String) : ExceptT CostError m CostModel := do
  ExceptT.mk (pure (ofJson (← CostError.readText path)))

/-- Writes a model to a file. -/
def save (model : CostModel) (path : String) : ExceptT CostError m Unit := do
  match ← FileAccess.writeText (m := m) path model.toJson with
  | .ok () => return ()
  | .error cause => throw (.unwritable path cause)

end CostModel

/-- The samples in a file. -/
def CalibrationSample.load (path : String) : ExceptT CostError m (List CalibrationSample) := do
  ExceptT.mk (pure (listOfJson (← CostError.readText path)))

end LedEffect
