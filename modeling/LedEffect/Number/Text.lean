import LedEffect.Number.Decimal

/-!
# Doubles as text

Reading a double from decimal text, and the two layouts that several formats share: the plain
layout, which never uses an exponent and writes a whole number without a point, and a fixed number
of decimal places.
-/

namespace LedEffect

-- Powers are those of the core library, whatever else is in scope.
attribute [local instance (2000)] instPowNat

/-- The leading decimal digits of a text, and the rest. -/
def spanDigits (cs : List Char) : List Char × List Char := cs.span Char.isDigit

/-- A sign in front of a text, and the rest. -/
def takeSign : List Char → Bool × List Char
  | '-' :: cs => (true, cs)
  | '+' :: cs => (false, cs)
  | cs => (false, cs)

/-- A signed run of digits that ends the text. -/
def readExponent? (cs : List Char) : Option Int :=
  let (negative, rest) := takeSign cs
  match spanDigits rest with
  | ([], _) => none
  | (digits, []) => some (if negative then -(numberOf digits : Int) else numberOf digits)
  | _ => none

/-- An unsigned decimal: digits with an optional point, at least one digit in all, and an optional
exponent. -/
def readDecimal? (cs : List Char) : Option Decimal :=
  let (whole, rest) := spanDigits cs
  let (fraction, rest) :=
    match rest with
    | '.' :: cs => spanDigits cs
    | _ => ([], rest)
  if whole.isEmpty && fraction.isEmpty then none
  else
    let coefficient := numberOf (whole ++ fraction)
    match rest with
    | [] => some ⟨coefficient, -(fraction.length : Int)⟩
    | c :: cs =>
      if c = 'e' ∨ c = 'E' then
        (readExponent? cs).map fun e => ⟨coefficient, e - fraction.length⟩
      else none

namespace Binary64

/-- Reads a double: an optional sign, then a decimal or the name of an infinity or of not-a-number
in any case. A decimal too large for a double is an infinity. -/
def read? (text : String) : Option Binary64 :=
  let (negative, rest) := takeSign text.toList
  match String.ofList (rest.map Char.toLower) with
  | "inf" | "infinity" => some (infinite negative)
  | "nan" => some (nan negative)
  | _ => (readDecimal? rest).map (Decimal.toBinary64 negative)

end Binary64

/-- Digits with a decimal point after the first `place` of them, zeros filling any gap; a whole
number has no point. -/
def layOutPlain (digits : List Char) (place : Int) : List Char :=
  if place ≤ 0 then '0' :: '.' :: (List.replicate place.natAbs '0' ++ digits)
  else
    let place := place.toNat
    if digits.length ≤ place then digits ++ List.replicate (place - digits.length) '0'
    else digits.take place ++ '.' :: digits.drop place

/-- The sign of a number in front of the text of its magnitude. -/
def withSign (negative : Bool) (text : List Char) : String :=
  String.ofList (if negative then '-' :: text else text)

namespace Decimal

/-- The decimal without an exponent. -/
def plain (d : Decimal) : List Char :=
  let digits := digitsOf d.coefficient
  if d.coefficient = 0 then ['0'] else layOutPlain digits (digits.length + d.exponent)

end Decimal

namespace Magnitude

/-- The magnitude rounded to a number of decimal places, a tie to the even last digit. -/
def fixed (places : Nat) (m : Magnitude) : List Char :=
  let digits := digitsOf (roundHalfEven (m.units * 10 ^ places) unitsPerOne)
  let digits := List.replicate (places + 1 - digits.length) '0' ++ digits
  layOutPlain digits (digits.length - places)

end Magnitude

namespace Binary64

/-- The fewest digits that read back to the number, without an exponent; a tie goes up. -/
def plain : Binary64 → String
  | nan _ => "NaN"
  | infinite s => withSign s "inf".toList
  | finite s m => withSign s (m.shortest .up).plain

/-- The number with a fixed count of decimal places. -/
def fixed (places : Nat) : Binary64 → String
  | nan _ => "NaN"
  | infinite s => withSign s "inf".toList
  | finite s m => withSign s (m.fixed places)

end Binary64

end LedEffect
