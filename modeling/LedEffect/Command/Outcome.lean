import LedEffect.Effect.Error
import LedEffect.Files.Access
import LedEffect.Settings.Error

/-!
# Outcomes of commands

What a command leaves behind: its output, its warnings, and the failure that ended it if there was
one. A failure names what was being done and, below it, its causes.
-/

namespace LedEffect

/-- Why a command failed. -/
inductive Failure
  | settings (error : SettingsError)
  | invalidSettings (source : Option String) (error : SettingsError)
  | unreadable (path : String) (cause : FileError)
  | unwritable (path : String) (cause : FileError)
  | invalidGraph (path : String) (error : GraphError)
  | invalidEffect (path : String) (error : CompileError)
  | graph (error : GraphError)
  | compile (error : CompileError)
  | cost (error : CostError)
  | unknownKind (name : String)
  | overBudget (ms frameBudgetMs : Binary64)

namespace Failure

def message : Failure → String
  | settings error => error.message
  | invalidSettings none _ => "invalid config"
  | invalidSettings (some path) _ => s!"invalid config '{path}'"
  | unreadable path _ => s!"failed to read '{path}'"
  | unwritable path _ => s!"failed to write '{path}'"
  | invalidGraph path _ => s!"invalid graph '{path}'"
  | invalidEffect path _ => s!"invalid effect '{path}'"
  | graph error => error.message
  | compile error => error.message
  | cost error => error.message
  | unknownKind name => s!"Unknown node kind: {name}"
  | overBudget ms frameBudgetMs =>
    s!"estimated {ms.fixed 4} ms exceeds the {frameBudgetMs.fixed 4} ms frame budget"

/-- The messages of the causes, the nearest first. -/
def causes : Failure → List String
  | settings error => error.cause?.toList
  | invalidSettings _ error => error.message :: error.cause?.toList
  | unreadable _ cause | unwritable _ cause => [cause.message]
  | invalidGraph _ error => [error.message]
  | invalidEffect _ error => [error.message]
  | cost error => error.cause?.toList
  | graph _ | compile _ | unknownKind _ | overBudget _ _ => []

/-- The lines of a text. -/
def linesOf (text : String) : List String := (text.toList.splitOn '\n').map String.ofList

/-- A text under a label: further lines are indented by `width`. -/
def indented (label : String) (width : Nat) (text : String) : List String :=
  match linesOf text with
  | [] => [label]
  | first :: rest =>
    (label ++ first) :: rest.map fun line => String.ofList (List.replicate width ' ') ++ line

/-- The lines of a list of causes, which are numbered when there are several. -/
def causeLines : List String → List String
  | [] => []
  | [cause] => "" :: "Caused by:" :: indented "    " 4 cause
  | causes => "" :: "Caused by:" :: causes.zipIdx.flatMap fun (cause, i) =>
      indented (padLeft 5 (toString i) ++ ": ") 7 cause

/-- The failure as it is shown to the user. -/
def text (f : Failure) : String := unlines (("Error: " ++ f.message) :: causeLines f.causes)

end Failure

/-- What a command leaves behind. -/
structure Outcome where
  output : String
  warnings : List String
  failure : Option Failure

namespace Outcome

/-- An output without warnings. -/
def printed (output : String) : Outcome := ⟨output, [], none⟩

/-- A failure without output. -/
def failed (f : Failure) : Outcome := ⟨"", [], some f⟩

/-- What is written beside the output: the warnings, then the failure. -/
def messages (o : Outcome) : String :=
  unlines o.warnings ++ (o.failure.map Failure.text).getD ""

/-- Zero for success and one for failure. -/
def exitCode (o : Outcome) : Nat := if o.failure.isSome then 1 else 0

end Outcome

/-- A command that may fail before it has an outcome. -/
abbrev Attempt (m : Type → Type) (α : Type) : Type := ExceptT Failure m α

namespace Attempt

variable {m : Type → Type} [Monad m] {α : Type}

/-- The answer of a computation, its error told as a failure. -/
def ofExcept {ε : Type} (failure : ε → Failure) (answer : Except ε α) : Attempt m α :=
  ExceptT.mk (pure (answer.mapError failure))

/-- Runs a command to its outcome. -/
def outcome (command : Attempt m Outcome) : m Outcome := do
  match ← command.run with
  | .ok o => return o
  | .error f => return .failed f

variable [FileAccess m]

/-- The text of an input file. -/
def readInput (path : String) : Attempt m String := do
  ofExcept (.unreadable path) (← FileAccess.readText (m := m) path)

/-- Puts a text into a file, or into the output where no file is named. -/
def deliver (target : Option String) (text : String) : Attempt m Outcome := do
  match target with
  | none => return .printed text
  | some path =>
    ofExcept (.unwritable path) (← FileAccess.writeText (m := m) path text)
    return .printed ""

end Attempt

end LedEffect
