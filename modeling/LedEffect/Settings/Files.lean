import LedEffect.Cost.Files
import LedEffect.Files.Path
import LedEffect.Settings.Toml

/-!
# Settings in files

Settings are looked for in a file that was named, then in the working directory, then among the
settings of the user. A relative cost model is relative to the file that names it.
-/

namespace LedEffect.Settings

variable {m : Type → Type} [Monad m] [FileAccess m]

/-- The name of a settings file in the working directory. -/
def projectFile : String := "glint.toml"

/-- The directory with the settings of the user. -/
def userDirectory : m String := do return Path.join (← FileAccess.settingsHome (m := m)) "glint"

/-- The settings file of the user. -/
def userFile : m String := do return Path.join (← userDirectory) "config.toml"

/-- The settings file to use, looked for in a given directory and at a given place. -/
def findIn (named : Option String) (directory user : String) : m (Option String) := do
  match named with
  | some path => return some path
  | none =>
    let project := Path.join directory projectFile
    if ← FileAccess.isFile (m := m) project then return some project
    else if ← FileAccess.isFile (m := m) user then return some user
    else return none

/-- The settings file to use. One that is named need not exist. -/
def find (named : Option String) : m (Option String) := do
  findIn named (← FileAccess.workingDirectory (m := m)) (← userFile)

/-- The settings with their cost model relative to a directory. -/
def relocate (s : Settings) (directory : String) : Settings :=
  { s with costModel := s.costModel.map (Path.join directory) }

/-- The settings in a file. -/
def load (path : String) : ExceptT SettingsError m Settings := do
  match ← FileAccess.readText (m := m) path with
  | .error cause => throw (.unreadable path cause)
  | .ok text =>
    let s ← ExceptT.mk (pure (ofToml text))
    match Path.parent? path with
    | some directory => return s.relocate directory
    | none => return s

/-- The settings to use, and where they come from. -/
def discover (named : Option String) : ExceptT SettingsError m (Settings × Option String) := do
  match ← find (m := m) named with
  | some path => return (← load path, some path)
  | none => return (default, none)

/-- Writes settings to a file, whose directory is created if it is missing. -/
def save (s : Settings) (path : String) : ExceptT SettingsError m Unit := do
  match Path.parent? path with
  | some directory =>
    if directory ≠ "" then
      unless ← FileAccess.isPresent (m := m) directory do
        match ← FileAccess.createDirectories (m := m) directory with
        | .ok () => pure ()
        | .error cause => throw (.createDirectory directory cause)
  | none => pure ()
  match ← FileAccess.writeText (m := m) path s.toToml with
  | .ok () => return ()
  | .error cause => throw (.unwritable path cause)

/-- The builtin cost model with the configured one merged over it. -/
def loadCostModel (s : Settings) : ExceptT SettingsError m CostModel := do
  match s.costModel with
  | none => return .builtin
  | some path => return CostModel.builtin.merge (← (CostModel.load path).adapt .cost)

end LedEffect.Settings
