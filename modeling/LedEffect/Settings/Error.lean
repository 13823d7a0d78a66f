import LedEffect.Cost.Error

/-!
# Settings errors
-/

namespace LedEffect

/-- Why settings were not read, written or accepted. -/
inductive SettingsError
  | unreadable (path : String) (cause : FileError)
  | unwritable (path : String) (cause : FileError)
  | createDirectory (path : String) (cause : FileError)
  | malformed
  | invalidBudget (name : String) (value : Binary64)
  | invalidSymbol (field value : String)
  | cost (error : CostError)

namespace SettingsError

def message : SettingsError → String
  | unreadable path cause => s!"failed to read file '{path}': {cause.message}"
  | unwritable path cause => s!"failed to write file '{path}': {cause.message}"
  | createDirectory path cause => s!"failed to create directory '{path}': {cause.message}"
  | malformed => "failed to parse TOML: not the expected document"
  | invalidBudget name value => s!"budget.{name} must be positive and finite, got {value.plain}"
  | invalidSymbol field value => s!"target.{field} = '{value}' is not a valid C identifier"
  | cost error => error.message

/-- The message of the cause behind an error. -/
def cause? : SettingsError → Option String
  | unreadable _ cause | unwritable _ cause | createDirectory _ cause => some cause.message
  | malformed => some "not the expected document"
  | cost error => error.cause?
  | invalidBudget _ _ | invalidSymbol _ _ => none

end SettingsError

end LedEffect
