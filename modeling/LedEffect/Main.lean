import LedEffect.Command.Run

/-!
# The program

The file system of the machine, and a run of one command line on it.
-/

namespace LedEffect

/-- The cause of a failed operation, by its error number. The number may arrive negated, as a word
of 32 bits. -/
def FileError.ofNumber (number : UInt32) (text : String) : FileError :=
  match (if number < 0x80000000 then number else 0 - number).toNat with
  | 2 => .notFound
  | 13 => .permissionDenied
  | 17 => .alreadyExists
  | 20 => .notDirectory
  | 21 => .isDirectory
  | 36 => .nameTooLong
  | code => .other code text

/-- The cause of a failed operation on the machine. -/
def FileError.ofMachine : IO.Error → FileError
  | .noFileOrDirectory .. => .notFound
  | .alreadyExists _ number text | .otherError number text | .resourceBusy number text
  | .resourceVanished number text | .unsupportedOperation number text
  | .hardwareFault number text | .unsatisfiedConstraints number text
  | .illegalOperation number text | .protocolError number text | .timeExpired number text
  | .interrupted _ number text | .invalidArgument _ number text
  | .permissionDenied _ number text | .resourceExhausted _ number text
  | .inappropriateType _ number text | .noSuchThing _ number text => .ofNumber number text
  | unknown => .other 0 (toString unknown)

/-- Runs an operation of the machine and keeps the cause if it fails. -/
def runOperation {α : Type} (operation : IO α) : IO (Except FileError α) := do
  match ← operation.toBaseIO with
  | .ok x => return .ok x
  | .error e => return .error (.ofMachine e)

instance : FileAccess IO where
  readText path := do
    if path.toList.contains '\x00' then return .error .nulInName
    match ← runOperation (IO.FS.readBinFile path) with
    | .ok bytes => return FileAccess.textOfBytes bytes
    | .error e => return .error e
  writeText path text := do
    if path.toList.contains '\x00' then return .error .nulInName
    runOperation (IO.FS.writeBinFile path text.toUTF8)
  createDirectories path := runOperation (IO.FS.createDirAll path)
  isPresent path := do return (← ((← IO.currentDir) / path).pathExists)
  isFile path := do
    match ← runOperation (((← IO.currentDir) / path).metadata) with
    | .ok data => return data.type == .file
    | .error _ => return false
  workingDirectory := do return (← IO.currentDir).toString
  settingsHome := do
    match ← IO.getEnv "XDG_CONFIG_HOME", ← IO.getEnv "HOME" with
    | some directory, home =>
      if Path.isAbsolute directory then return directory
      else return Path.join (home.getD ".") ".config"
    | none, some home => return Path.join home ".config"
    | none, none => return "."

end LedEffect

/-- Runs the command line that the program was given. -/
def main (args : List String) : IO UInt32 := do
  match LedEffect.Invocation.ofArguments args with
  | .ok invocation =>
    let outcome ← invocation.run (m := IO)
    (← IO.getStdout).putStr outcome.output
    (← IO.getStderr).putStr outcome.messages
    return UInt32.ofNat outcome.exitCode
  | .error refusal =>
    (← IO.getStdout).putStr refusal.output
    (← IO.getStderr).putStr refusal.messages
    return UInt32.ofNat refusal.exitCode
