import LedEffect.Json.Basic

/-!
# Printing JSON

The compact form without blanks and the pretty form with two blanks per level. Doubles are written
with the fewest digits that read back: positionally, with at least one decimal place, from `1e-5`
up to `1e16`, and with an exponent elsewhere. Not-a-number and the infinities have no JSON form and
are written as null.
-/

namespace LedEffect.Json

/-- A lower-case hexadecimal digit. -/
def hexChar (n : Nat) : Char := if n < 10 then Char.ofNat (48 + n) else Char.ofNat (87 + n)

/-- A character inside a string literal. -/
def escapeChar (c : Char) : List Char :=
  if c = '\x22' then ['\\', '\x22']
  else if c = '\\' then ['\\', '\\']
  else if c = '\x08' then ['\\', 'b']
  else if c = '\x0C' then ['\\', 'f']
  else if c = '\n' then ['\\', 'n']
  else if c = '\r' then ['\\', 'r']
  else if c = '\t' then ['\\', 't']
  else if c.toNat < 0x20 then
    ['\\', 'u', '0', '0', hexChar (c.toNat / 16), hexChar (c.toNat % 16)]
  else [c]

/-- A string literal. -/
def quoted (s : String) : List Char := '\x22' :: (s.toList.flatMap escapeChar ++ ['\x22'])

/-- An integer in decimal. -/
def integerText (n : Int) : List Char :=
  if n < 0 then '-' :: digitsOf n.natAbs else digitsOf n.natAbs

/-- A decimal in scientific layout: one digit before the point, a signed exponent after `e`. -/
def scientific (d : Decimal) : List Char :=
  let digits := digitsOf d.coefficient
  let exponent := (digits.length : Int) - 1 + d.exponent
  let mark := if exponent < 0 then ['e', '-'] else ['e', '+']
  let fraction := if digits.length ≤ 1 then [] else '.' :: digits.drop 1
  digits.take 1 ++ fraction ++ mark ++ digitsOf exponent.natAbs

/-- A magnitude as JSON writes it. -/
def magnitudeText (m : Magnitude) : List Char :=
  let d := m.shortest .even
  let exponent := ((digitsOf d.coefficient).length : Int) - 1 + d.exponent
  if d.coefficient = 0 ∨ (-5 ≤ exponent ∧ exponent < 16) then
    if d.exponent < 0 then d.plain else d.plain ++ ['.', '0']
  else scientific d

/-- A double as JSON writes it. -/
def doubleText : Binary64 → List Char
  | .finite s m => if s then '-' :: magnitudeText m else magnitudeText m
  | _ => "null".toList

mutual

/-- The form without blanks. -/
def compactChars : Json → List Char
  | null => "null".toList
  | bool true => "true".toList
  | bool false => "false".toList
  | integer n => integerText n
  | double x => doubleText x
  | string s => quoted s
  | array items => '[' :: (List.intercalate [','] (compactItems [] items) ++ [']'])
  | object members =>
    '\x7b' :: (List.intercalate [','] (compactMembers [] members) ++ ['\x7d'])

/-- The elements of an array after those already written, the last one first. -/
def compactItems (done : List (List Char)) : List Json → List (List Char)
  | [] => done.reverse
  | item :: items => compactItems (compactChars item :: done) items

/-- The members of an object after those already written, the last one first. -/
def compactMembers (done : List (List Char)) : List (String × Json) → List (List Char)
  | [] => done.reverse
  | (key, value) :: members =>
    compactMembers ((quoted key ++ ':' :: compactChars value) :: done) members

end

/-- A line feed and the blanks of a level. -/
def newLine (level : Nat) : List Char := '\n' :: List.replicate (2 * level) ' '

mutual

/-- The form with one element or member a line; empty containers stay on theirs. -/
def prettyChars (level : Nat) : Json → List Char
  | null => "null".toList
  | bool true => "true".toList
  | bool false => "false".toList
  | integer n => integerText n
  | double x => doubleText x
  | string s => quoted s
  | array [] => ['[', ']']
  | array items =>
    '[' :: (List.intercalate [','] (prettyItems (level + 1) [] items) ++ (newLine level ++ [']']))
  | object [] => ['\x7b', '\x7d']
  | object members =>
    '\x7b' :: (List.intercalate [','] (prettyMembers (level + 1) [] members) ++
      (newLine level ++ ['\x7d']))

/-- The lines of an array's elements after those already written, the last one first. -/
def prettyItems (level : Nat) (done : List (List Char)) : List Json → List (List Char)
  | [] => done.reverse
  | item :: items => prettyItems level ((newLine level ++ prettyChars level item) :: done) items

/-- The lines of an object's members after those already written, the last one first. -/
def prettyMembers (level : Nat) (done : List (List Char)) :
    List (String × Json) → List (List Char)
  | [] => done.reverse
  | (key, value) :: members =>
    prettyMembers level
      ((newLine level ++ (quoted key ++ ':' :: ' ' :: prettyChars level value)) :: done) members

end

def compact (j : Json) : String := String.ofList (compactChars j)

def pretty (j : Json) : String := String.ofList (prettyChars 0 j)

end LedEffect.Json
