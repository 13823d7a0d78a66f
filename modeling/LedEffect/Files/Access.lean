import LedEffect.Files.Error

/-!
# Access to files

What the library asks of a file system. `Disk` is a file system that is plain data; the program
itself uses that of the machine.
-/

namespace LedEffect

/-- The operations of a file system. Paths may be relative to the working directory. -/
class FileAccess (m : Type → Type) where
  /-- The text of a file. -/
  readText : String → m (Except FileError String)
  /-- Creates a file or replaces its text. -/
  writeText : String → String → m (Except FileError Unit)
  /-- Creates a directory with all missing ones above it. -/
  createDirectories : String → m (Except FileError Unit)
  /-- Whether a path names anything. -/
  isPresent : String → m Bool
  /-- Whether a path names a file. -/
  isFile : String → m Bool
  /-- The absolute path of the working directory. -/
  workingDirectory : m String
  /-- The directory in which programs keep the settings of a user. -/
  settingsHome : m String

/-- The bytes of a file as a text, which must be UTF-8. -/
def FileAccess.textOfBytes (bytes : ByteArray) : Except FileError String :=
  match String.fromUTF8? bytes with
  | some text => .ok text
  | none => .error .notText

end LedEffect
