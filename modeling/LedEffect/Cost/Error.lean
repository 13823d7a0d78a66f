import LedEffect.Files.Error
import LedEffect.Number.Text

/-!
# Cost errors
-/

namespace LedEffect

/-- Why costs were not estimated, calibrated, read or written. -/
inductive CostError
  | shapeMismatch (expected actual : Nat)
  | invalidSample (index : Nat) (kind : String) (us : Binary64)
  | invalidSetting (name : String) (value : Binary64)
  | unreadable (path : String) (cause : FileError)
  | unwritable (path : String) (cause : FileError)
  | malformed

namespace CostError

def message : CostError → String
  | shapeMismatch expected actual =>
    s!"node kinds do not match graph shape: expected {expected} kinds, got {actual}"
  | invalidSample index kind us =>
    s!"calibration sample {index} for '{kind}' has invalid timing {us.plain} us"
  | invalidSetting name value =>
    s!"invalid estimator setting '{name}': {value.plain} (must be positive and finite)"
  | unreadable path cause => s!"failed to read file '{path}': {cause.message}"
  | unwritable path cause => s!"failed to write file '{path}': {cause.message}"
  | malformed => "invalid JSON: not the expected document"

/-- The message of the cause behind an error. -/
def cause? : CostError → Option String
  | unreadable _ cause | unwritable _ cause => some cause.message
  | malformed => some "not the expected document"
  | _ => none

end CostError

end LedEffect
