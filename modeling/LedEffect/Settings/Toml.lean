import LedEffect.Settings.Basic
import LedEffect.Toml.Printer
import LedEffect.Toml.Reader

/-!
# Settings as TOML

Three sections, each a table or an array of its values in order. Whatever is missing keeps its
default, and unknown keys are ignored.
-/

namespace LedEffect

namespace Toml.Value

def text? : Value → Option String
  | string s => some s
  | _ => none

/-- A float, or an integer as one. -/
def double? : Value → Option Binary64
  | float x => some x
  | integer n => some (.ofInt n)
  | _ => none

/-- The values of a section under its field names. A section without fields is a date or a time
as well. -/
def fields? (names : List String) : Value → Option (List (String × Value))
  | table _ entries => some entries
  | array items => some (names.zip items)
  | dateTime _ => some []
  | _ => none

end Toml.Value

namespace Settings

open Toml

/-- A field with a default. -/
def field? {α : Type} (fields : Table) (name : String) (default : α) (take : Value → Option α) :
    Option α :=
  match fields.get? name with
  | none => some default
  | some value => take value

/-- The fields of a section; one that is missing has none. -/
def section? (root : Table) (name : String) (names : List String) : Option Table :=
  field? root name [] (Value.fields? names)

/-- The profile of a section that renames some symbols. -/
def profile? (fields : Table) : Option TargetProfile :=
  Symbol.all.foldlM (fun profile symbol => do
      return profile.rename symbol (← field? fields symbol.field symbol.defaultName Value.text?))
    TargetProfile.default

def ofTable? (root : Table) : Option Settings := do
  let budget ← section? root "budget" ["frame_budget_ms", "ops_per_ms"]
  let target ← section? root "target" (Symbol.all.map Symbol.field)
  let cost ← section? root "cost" ["model"]
  return {
    frameBudgetMs := ← field? budget "frame_budget_ms" default.frameBudgetMs Value.double?
    opsPerMs := ← field? budget "ops_per_ms" default.opsPerMs Value.double?
    target := ← profile? target
    costModel := ← field? cost "model" none fun value => value.text?.map some }

/-- The settings that a TOML text describes. -/
def ofToml (text : String) : Except SettingsError Settings :=
  match (Table.read? text).bind ofTable? with
  | some settings => .ok settings
  | none => .error .malformed

def toToml (s : Settings) : String :=
  printSections
    [⟨"budget", [("frame_budget_ms", .float s.frameBudgetMs), ("ops_per_ms", .float s.opsPerMs)]⟩,
      ⟨"target", s.target.symbols.map fun (field, name) => (field, .string name)⟩,
      ⟨"cost", s.costModel.toList.map fun path => ("model", .string path)⟩]

end Settings

end LedEffect
