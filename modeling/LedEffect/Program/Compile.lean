import LedEffect.Effect.Json
import LedEffect.Program.Lowering
import LedEffect.Program.Printer

/-!
# Compiling effects

Resolving, choosing the palette, lowering and printing, one after the other; the first error ends
the compilation.
-/

namespace LedEffect

/-- A compiled effect: its name, its code and what the compilation counted. -/
structure CompiledEffect where
  name : String
  code : String
  stats : CompileStats

namespace CompiledEffect

/-- The number of lines of the code. -/
def lineCount (c : CompiledEffect) : Nat := c.code.toList.count '\n'

end CompiledEffect

namespace Effect

/-- The name of an effect that has none. -/
def untitled : String := "untitled"

def displayName (e : Effect) : String := e.name.getD untitled

/-- Lowers a resolved effect, with the palette and the name of `e`. -/
def compileResolved (target : TargetProfile) (e : Effect) (r : ResolvedEffect) :
    Except CompileError CompiledEffect := do
  let palette ← Palette.ofEffect e
  match Program.lower? r palette e.displayName with
  | some (program, stats) => return ⟨e.displayName, program.render target, stats⟩
  | none => .error .outOfBounds

/-- Checks and lowers an effect. -/
def compile (target : TargetProfile) (e : Effect) : Except CompileError CompiledEffect := do
  let r ← e.resolve
  e.compileResolved target r

end Effect

end LedEffect
