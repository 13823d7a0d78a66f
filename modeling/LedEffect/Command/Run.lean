import LedEffect.Command.Arguments
import LedEffect.Command.Effects
import LedEffect.Command.Nodes

/-!
# Running command lines
-/

namespace LedEffect

namespace Invocation

/-- Carries out a command line that was understood. -/
def run {m : Type → Type} [Monad m] [FileAccess m] (i : Invocation) : m Outcome :=
  match i.request with
  | .check graph json => (Command.check graph json).outcome
  | .analyze graph source json => (Command.analyze graph source json).outcome
  | .estimate effect costModel json strict =>
    (Command.estimate i.config effect costModel json strict).outcome
  | .compile effect output stats => (Command.compile i.config effect output stats).outcome
  | .calibrate samples base output => (Command.calibrate i.config samples base output).outcome
  | .nodes kind json => pure (Command.nodes kind json)
  | .report effect costModel => (Command.report i.config effect costModel).outcome

end Invocation

namespace Refusal

/-- The name and the number of the program. -/
def versionText : String := "glint 0.1.0\n"

/-- How the program or one of its commands is called. -/
def usageText : Option Verb → String
  | none =>
    unlines (["Usage: glint [OPTIONS] <COMMAND>", "", "Commands:"] ++
      Verb.all.map fun v => s!"  {padRight 10 v.name} {v.summary}")
  | some v => unlines [v.summary, "", s!"Usage: glint {v.name} [OPTIONS] {v.operandName}"]

/-- What is written to the output. -/
def output : Refusal → String
  | usage => ""
  | help verb => usageText verb
  | version => versionText

/-- What is written beside the output. -/
def messages : Refusal → String
  | usage => usageText none
  | _ => ""

/-- Two for a command line that was not understood. -/
def exitCode : Refusal → Nat
  | usage => 2
  | _ => 0

end Refusal

end LedEffect
