/-!
# File errors

What the file system refuses, with the wording and the error numbers of Linux.
-/

namespace LedEffect

inductive FileError
  | notFound
  | permissionDenied
  | alreadyExists
  | notDirectory
  | isDirectory
  | nameTooLong
  | notText
  | nulInName
  | other (code : Nat) (description : String)
deriving DecidableEq

namespace FileError

/-- A description with the error number of the operating system. -/
def numbered (description : String) (code : Nat) : String := s!"{description} (os error {code})"

def message : FileError → String
  | notFound => numbered "No such file or directory" 2
  | permissionDenied => numbered "Permission denied" 13
  | alreadyExists => numbered "File exists" 17
  | notDirectory => numbered "Not a directory" 20
  | isDirectory => numbered "Is a directory" 21
  | nameTooLong => numbered "File name too long" 36
  | notText => "stream did not contain valid UTF-8"
  | nulInName => "file name contained an unexpected NUL byte"
  | other code description => numbered description code

end FileError

end LedEffect
