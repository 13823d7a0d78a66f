import LedEffect.Effect.Palette
import LedEffect.Program.Target

/-!
# The emitted language

The part of C that compiled effects are written in: expressions over floats, ints and byte tables,
and statements that run once a frame or once a pixel. Parentheses are part of the syntax, so that a
program prints in exactly one way.
-/

namespace LedEffect.Program

/-- A name in emitted code: one of the firmware's, one made for a node, or a fixed local one. -/
inductive Name
  | symbol (s : Symbol)
  | center
  | last
  | temporary (node : Nat)
  | best (node : Nat)
  | table (node : Nat)
  | i
  | k
  | k1
  | f
  | t
  | pos
  | scaled
  | lo
deriving DecidableEq

inductive Scalar
  | float
  | int
  | byte
deriving DecidableEq

inductive Operator
  | add
  | sub
  | mul
  | div
  | lt
  | gt
deriving DecidableEq

/-- The functions of the C library that emitted code calls. -/
inductive Function
  | fabsf
  | sinf
  | fminf
  | fmaxf
  | fmodf
deriving DecidableEq

inductive Member
  | beat
  | magnitude
  | red
  | green
  | blue
deriving DecidableEq

inductive Expr
  | name (n : Name)
  | int (n : Int)
  | whole (n : Int)
  | real (x : Binary64)
  | paren (e : Expr)
  | cast (type : Scalar) (e : Expr)
  | binary (op : Operator) (a b : Expr)
  | call1 (f : Function) (a : Expr)
  | call2 (f : Function) (a b : Expr)
  | index (a i : Expr)
  | member (a : Expr) (m : Member)
  | choose (condition yes no : Expr)
deriving DecidableEq

inductive Assignment
  | set
  | add
  | div
deriving DecidableEq

/-- Whether a counting loop takes in its bound. -/
inductive Bound
  | below
  | upTo
deriving DecidableEq

inductive Statement
  | comment (text : String)
  | constant (n : Name) (value : Expr)
  | declare (type : Scalar) (n : Name) (value : Option Expr)
  | table (n : Name) (rows : List (UInt8 × UInt8 × UInt8))
  | assign (target : Expr) (how : Assignment) (value : Expr)
  | loop (n : Name) (start : Int) (bound : Bound) (limit : Expr) (body : List Statement)
  | branch (condition : Expr) (body : List Statement)
  | block (body : List Statement)

instance : Inhabited Statement := ⟨.block []⟩

end LedEffect.Program

namespace LedEffect

open Program

/-- The code of one palette sink: its colour table, and a loop over all pixels. -/
structure SinkCode where
  node : Nat
  label : String
  palette : Palette
  body : List Statement

/-- A compiled effect: what is computed once a frame, then the loops of the palette sinks. -/
structure Program where
  name : String
  usesCenter : Bool
  usesLast : Bool
  frame : List Statement
  sinks : List SinkCode

namespace SinkCode

/-- The statements of a sink. -/
def statements (s : SinkCode) : List Statement :=
  [.comment s.label,
    .table (.table s.node) (s.palette.keyframes.map fun k => (k.red, k.green, k.blue)),
    .loop .i 0 .below (.name (.symbol .numLeds)) s.body]

end SinkCode

namespace Program

/-- The index of the last pixel. -/
def lastPixel : Expr :=
  .cast .float (.paren (.binary .sub (.name (.symbol .numLeds)) (.int 1)))

/-- The statements of a program. -/
def statements (p : Program) : List Statement :=
  [.comment s!"glint effect: {p.name}", .comment "generated by glint; do not edit"] ++
    (if p.usesCenter then [.constant .center (.binary .mul lastPixel (.real 0.5))] else []) ++
    (if p.usesLast then [.constant .last lastPixel] else []) ++
    p.frame ++ p.sinks.flatMap SinkCode.statements

end Program

end LedEffect
