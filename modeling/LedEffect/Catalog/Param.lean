import LedEffect.Json.Printer

/-!
# Parameter schemas

A schema gives a construction-time parameter its range, its default, whether it must be whole, and
what happens to values outside the range.
-/

namespace LedEffect

/-- What happens to a value outside the range. -/
inductive RangePolicy
  | reject
  | clamp
deriving DecidableEq

def RangePolicy.id : RangePolicy → String
  | reject => "reject"
  | clamp => "clamp"

/-- Why a value is refused. The last cause is an empty range, into which nothing can be clamped. -/
inductive ParamViolation
  | notFinite (value : Binary64)
  | notInteger (value : Binary64)
  | outOfRange (value min max : Binary64)
  | emptyRange
deriving DecidableEq

def ParamViolation.message : ParamViolation → String
  | notFinite value => s!"value {value.plain} is not finite"
  | notInteger value => s!"value {value.plain} is not an integer"
  | outOfRange value min max => s!"value {value.plain} is outside [{min.plain}, {max.plain}]"
  | emptyRange => "the range is empty"

/-- The schema of one parameter. Without a default the parameter is required. -/
structure ParamSpec where
  name : String
  min : Binary64
  max : Binary64
  default : Option Binary64
  integer : Bool
  outOfRange : RangePolicy
deriving DecidableEq

namespace ParamSpec

/-- A continuous parameter with a default. -/
def float (name : String) (min max default : Binary64) : ParamSpec :=
  ⟨name, min, max, some default, false, .reject⟩

/-- A whole-number parameter with a default. -/
def int (name : String) (min max default : Binary64) : ParamSpec :=
  ⟨name, min, max, some default, true, .reject⟩

/-- The same parameter without a default. -/
def required (p : ParamSpec) : ParamSpec := { p with default := none }

/-- The same parameter with values outside the range moved to its nearer end. -/
def clamped (p : ParamSpec) : ParamSpec := { p with outOfRange := .clamp }

def isRequired (p : ParamSpec) : Bool := p.default.isNone

/-- The value to use for `value`, or why it is refused. Wholeness is asked before the range. -/
def resolve (p : ParamSpec) (value : Binary64) : Except ParamViolation Binary64 :=
  if !value.isFinite then .error (.notFinite value)
  else if p.integer && !value.isIntegral then .error (.notInteger value)
  else if p.min.le value && value.le p.max then .ok value
  else match p.outOfRange with
    | .reject => .error (.outOfRange value p.min p.max)
    | .clamp =>
      match Binary64.clamp? p.min p.max value with
      | some held => .ok held
      | none => .error .emptyRange

def toValue (p : ParamSpec) : Json :=
  .object [("name", .string p.name), ("min", .double p.min), ("max", .double p.max),
    ("default", match p.default with | some d => .double d | none => .null),
    ("integer", .bool p.integer), ("outOfRange", .string p.outOfRange.id)]

end ParamSpec

end LedEffect
