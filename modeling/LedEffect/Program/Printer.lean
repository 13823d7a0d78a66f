import LedEffect.Program.Syntax

/-!
# Printing programs

One line per statement or brace, four blanks per level. Characters of a comment that could end it
or continue it on the next line are replaced by blanks.
-/

namespace LedEffect.Program

/-- A name in a target profile. -/
def Name.text (target : TargetProfile) : Name → String
  | symbol s => target.name s
  | center => "glint_center"
  | last => "glint_last"
  | temporary node => s!"v{node}"
  | best node => s!"v{node}_best"
  | table node => s!"palette_v{node}"
  | i => "i"
  | k => "k"
  | k1 => "k1"
  | f => "f"
  | t => "t"
  | pos => "pos"
  | scaled => "scaled"
  | lo => "lo"

def Scalar.text : Scalar → String
  | float => "float"
  | int => "int"
  | byte => "uint8_t"

def Operator.text : Operator → String
  | add => "+"
  | sub => "-"
  | mul => "*"
  | div => "/"
  | lt => "<"
  | gt => ">"

def Function.text : Function → String
  | fabsf => "fabsf"
  | sinf => "sinf"
  | fminf => "fminf"
  | fmaxf => "fmaxf"
  | fmodf => "fmodf"

def Member.text : Member → String
  | beat => "beat"
  | magnitude => "magnitude"
  | red => "r"
  | green => "g"
  | blue => "b"

def Assignment.text : Assignment → String
  | set => "="
  | add => "+="
  | div => "/="

def Bound.text : Bound → String
  | below => "<"
  | upTo => "<="

/-- A float literal: one decimal place for whole numbers below `10 ^ 15`, otherwise the fewest
digits that read back. -/
def realText (x : Binary64) : String :=
  (if x.isIntegral && x.abs.lt 1e15 then x.fixed 1 else x.plain) ++ "f"

def Expr.text (target : TargetProfile) : Expr → String
  | name n => n.text target
  | int n => toString n
  | whole n => s!"{n}.0f"
  | real x => realText x
  | paren e => "(" ++ e.text target ++ ")"
  | cast type e => "(" ++ type.text ++ ")" ++ e.text target
  | binary op a b => a.text target ++ " " ++ op.text ++ " " ++ b.text target
  | call1 f a => f.text ++ "(" ++ a.text target ++ ")"
  | call2 f a b => f.text ++ "(" ++ a.text target ++ ", " ++ b.text target ++ ")"
  | index a i => a.text target ++ "[" ++ i.text target ++ "]"
  | member a m => a.text target ++ "." ++ m.text
  | choose condition yes no =>
    condition.text target ++ " ? " ++ yes.text target ++ " : " ++ no.text target

/-- A comment's text with control characters and backslashes blanked out. -/
def commentText (text : String) : String :=
  text.map fun c => if isControl c || c == '\\' then ' ' else c

/-- A line at a level. -/
def indented (level : Nat) (text : String) : String :=
  String.ofList (List.replicate (4 * level) ' ') ++ text

mutual

/-- The lines of a statement. -/
def Statement.lines (target : TargetProfile) (level : Nat) : Statement → List String
  | .comment text => [indented level ("// " ++ commentText text)]
  | .constant n value =>
    [indented level ("const float " ++ n.text target ++ " = " ++ value.text target ++ ";")]
  | .declare type n none => [indented level (type.text ++ " " ++ n.text target ++ ";")]
  | .declare type n (some value) =>
    [indented level (type.text ++ " " ++ n.text target ++ " = " ++ value.text target ++ ";")]
  | .table n rows =>
    indented level
        ("static const uint8_t " ++ n.text target ++ s!"[{rows.length}][3] = " ++ "\x7b") ::
      (rows.map fun (r, g, b) => indented (level + 1) ("\x7b" ++ s!"{r}, {g}, {b}" ++ "\x7d,")) ++
      [indented level "\x7d;"]
  | .assign place how value =>
    [indented level (place.text target ++ " " ++ how.text ++ " " ++ value.text target ++ ";")]
  | .loop n start bound limit body =>
    indented level
        ("for (int " ++ n.text target ++ s!" = {start}; " ++ n.text target ++ " " ++ bound.text ++
          " " ++ limit.text target ++ "; " ++ n.text target ++ "++) \x7b") ::
      linesOf target (level + 1) body ++ [indented level "\x7d"]
  | .branch condition body =>
    indented level ("if (" ++ condition.text target ++ ") \x7b") ::
      linesOf target (level + 1) body ++ [indented level "\x7d"]
  | .block body =>
    indented level "\x7b" :: linesOf target (level + 1) body ++ [indented level "\x7d"]

/-- The lines of consecutive statements. -/
def linesOf (target : TargetProfile) (level : Nat) : List Statement → List String
  | [] => []
  | s :: rest => Statement.lines target level s ++ linesOf target level rest

end

/-- The lines of a program. -/
def lines (target : TargetProfile) (p : Program) : List String := linesOf target 0 p.statements

/-- The text of a program. -/
def render (target : TargetProfile) (p : Program) : String := unlines (p.lines target)

end LedEffect.Program
