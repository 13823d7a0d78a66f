/-!
# Paths

Paths are texts whose parts stand between slashes. A part that is empty or a single point names
nothing and is idle, except for a point at the very start of a relative path. Main definitions:
`Path.join` and `Path.parent?`.
-/

namespace LedEffect.Path

def isAbsolute (path : String) : Bool := path.toList.head? == some '/'

/-- A path as seen from a directory: an absolute one stands for itself. -/
def join (directory path : String) : String :=
  if isAbsolute path ∨ directory = "" then path
  else if directory.toList.getLast? = some '/' then directory ++ path
  else directory ++ "/" ++ path

/-- The parts of a path, idle ones included. -/
def parts (path : String) : List (List Char) := path.toList.splitOn '/'

/-- Whether a relative path starts with a part that is a single point. -/
def startsHere : List Char → Bool
  | ['.'] => true
  | '.' :: '/' :: _ => true
  | _ => false

/-- A path read from its end, without the idle parts there. -/
def trimIdle : List Char → List Char
  | '/' :: cs => trimIdle cs
  | '.' :: '/' :: cs => trimIdle cs
  | ['.'] => []
  | cs => cs

/-- The path without its last part that is not idle; the root and the empty path have none. -/
def parent? (path : String) : Option String :=
  let cs := path.toList
  let lead := if isAbsolute path || startsHere cs then 1 else 0
  match trimIdle (cs.drop lead).reverse with
  | [] => if startsHere cs then some "" else none
  | named =>
    let before := (named.dropWhile (· != '/')).drop 1
    some (String.ofList (cs.take lead ++ (trimIdle before).reverse))

end LedEffect.Path
