import LedEffect.Number.Binary64

/-!
# Decimals and doubles

A decimal is a whole coefficient scaled by a power of ten. Here it is rounded to a double, and the
other way round the fewest digits that read back to a given double are chosen: the candidates with
one digit are tried first, then those with two, and so on; of two candidates of one length the
nearer wins, and the caller says which way an exact tie goes. The last resort is the exact decimal
expansion, so the choice always reads back.
-/

namespace LedEffect

-- Powers are those of the core library, whatever else is in scope.
attribute [local instance (2000)] instPowNat

/-- The number `coefficient * 10 ^ exponent`. -/
structure Decimal where
  coefficient : Nat
  exponent : Int
deriving DecidableEq

/-- The decimal digits of a natural number, most significant first; zero has one digit. -/
def digitsOf (n : Nat) : List Char := Nat.toDigits 10 n

/-- The number written by decimal digits. -/
def numberOf (digits : List Char) : Nat :=
  digits.foldl (fun n c => n * 10 + (c.toNat - 48)) 0

namespace Decimal

/-- The magnitude nearest to a decimal, or nothing on overflow. Decimals far outside the range of
doubles are settled by their leading place. -/
def toMagnitude? (d : Decimal) : Option Magnitude :=
  if d.coefficient = 0 then some .zero
  else
    let place := (digitsOf d.coefficient).length + d.exponent
    if 310 < place then none
    else if place < -330 then some .zero
    else match d.exponent with
      | .ofNat e => Magnitude.nearest? (d.coefficient * 10 ^ e * Magnitude.unitsPerOne) 1
      | .negSucc e => Magnitude.nearest? (d.coefficient * Magnitude.unitsPerOne) (10 ^ (e + 1))

/-- The double nearest to a signed decimal. -/
def toBinary64 (negative : Bool) (d : Decimal) : Binary64 :=
  .ofMagnitude? negative d.toMagnitude?

/-- A coefficient without its trailing zeros, and how many there were. -/
def stripZeros : Nat → Nat → Nat × Nat
  | 0, c => (c, 0)
  | fuel + 1, c =>
    if c ≠ 0 ∧ c % 10 = 0 then
      let (rest, zeros) := stripZeros fuel (c / 10)
      (rest, zeros + 1)
    else (c, 0)

/-- The same decimal with no trailing zero in its coefficient. -/
def normalize (d : Decimal) : Decimal :=
  let (c, zeros) := stripZeros (digitsOf d.coefficient).length d.coefficient
  ⟨c, d.exponent + zeros⟩

end Decimal

/-- What becomes of an exact tie between two equally near candidates. -/
inductive Tie
  | even
  | up
deriving DecidableEq

namespace Magnitude

/-- The number of places before the decimal point: the magnitude is below `10 ^ place` and, unless
it is zero, not below `10 ^ (place - 1)`. Below one it is the number of zeros behind the point,
negated; no double has 400 of them. -/
def place (m : Magnitude) : Int :=
  if unitsPerOne ≤ m.units then (digitsOf (m.units / unitsPerOne)).length
  else
    let zeros := ((List.range 400).find? fun k => unitsPerOne ≤ m.units * 10 ^ (k + 1)).getD 400
    Int.negOfNat zeros

/-- The magnitude in steps of `10 ^ exponent`, as a fraction. -/
def inSteps (m : Magnitude) : Int → Nat × Nat
  | .ofNat e => (m.units, unitsPerOne * 10 ^ e)
  | .negSucc e => (m.units * 10 ^ (e + 1), unitsPerOne)

/-- The decimal of `count` digits that reads back to the magnitude, if there is one. -/
def candidate? (tie : Tie) (m : Magnitude) (count : Nat) : Option Decimal :=
  let exponent := m.place - count
  let (num, den) := m.inSteps exponent
  let low := num / den
  let rest := 2 * (num % den)
  let lower : Decimal := ⟨low, exponent⟩
  let upper : Decimal := ⟨low + 1, exponent⟩
  let preferLower :=
    rest < den || (rest == den && (match tie with | .even => low % 2 == 0 | .up => false))
  match lower.toMagnitude? == some m, upper.toMagnitude? == some m with
  | true, true => some (if preferLower then lower else upper)
  | true, false => some lower
  | false, true => some upper
  | false, false => none

/-- The exact value of the magnitude as a decimal. -/
def exact (m : Magnitude) : Decimal :=
  if m.shift ≤ 1074 then ⟨m.significand * 5 ^ (1074 - m.shift), (m.shift : Int) - 1074⟩
  else ⟨m.significand * 2 ^ (m.shift - 1074), 0⟩

/-- The decimal with the fewest digits that reads back to the magnitude, and of those the nearest
to it. -/
def shortest (tie : Tie) (m : Magnitude) : Decimal :=
  if m.significand = 0 then ⟨0, 0⟩
  else
    match (List.range 17).findSome? fun n => m.candidate? tie (n + 1) with
    | some d => d.normalize
    | none => m.exact

end Magnitude

end LedEffect
