/-!
# Binary64 numbers

Double-precision numbers as exact data. The unit of measure is the least positive double,
`2 ^ -1074`: every finite double is a whole number of units, so sums, products and comparisons are
exact questions about naturals, and each operation rounds once, to the nearest double, ties to the
even significand. Not-a-number keeps its sign because one text format prints it.
-/

namespace LedEffect

-- Powers are those of the core library, whatever else is in scope.
attribute [local instance (2000)] instPowNat

/-- The nearest whole number to `num / den`; a half goes to the even neighbour. -/
def roundHalfEven (num den : Nat) : Nat :=
  let quotient := num / den
  let rest := 2 * (num % den)
  if rest < den then quotient
  else if den < rest then quotient + 1
  else if quotient % 2 = 0 then quotient else quotient + 1

/-- The magnitude of a finite double: `significand * 2 ^ shift` units of `2 ^ -1074`, with the
significand at its full 53 bits unless the shift is zero. -/
structure Magnitude where
  significand : Nat
  shift : Nat
  canonical :
    significand < 2 ^ (53 : Nat) ∧ shift ≤ 2045 ∧ (shift = 0 ∨ 2 ^ (52 : Nat) ≤ significand)
deriving DecidableEq

namespace Magnitude

/-- Units in the number one. -/
def unitsPerOne : Nat := 2 ^ (1074 : Nat)

/-- The magnitude as a count of units. -/
def units (m : Magnitude) : Nat := m.significand * 2 ^ m.shift

def zero : Magnitude := ⟨0, 0, by decide⟩

instance : Inhabited Magnitude := ⟨zero⟩

/-- The magnitude nearest to `num / den` units, or nothing when that is past the largest double. -/
def nearest? (num den : Nat) : Option Magnitude :=
  let shift := Nat.log2 (num / den) - 52
  let significand := roundHalfEven num (den * 2 ^ shift)
  if h : significand < 2 ^ (53 : Nat) ∧ shift ≤ 2045 ∧ (shift = 0 ∨ 2 ^ (52 : Nat) ≤ significand) then
    some ⟨significand, shift, h⟩
  else if h : shift + 1 ≤ 2045 then
    some ⟨2 ^ (52 : Nat), shift + 1, by decide, h, .inr (Nat.le_refl _)⟩
  else none

end Magnitude

/-- A double: not-a-number, an infinity, or a sign and a magnitude. -/
inductive Binary64
  | nan (negative : Bool)
  | infinite (negative : Bool)
  | finite (negative : Bool) (magnitude : Magnitude)
deriving DecidableEq

namespace Binary64

/-- A sign with a magnitude, an overflowing one being an infinity. -/
def ofMagnitude? (negative : Bool) : Option Magnitude → Binary64
  | some m => finite negative m
  | none => infinite negative

def zero : Binary64 := finite false .zero

instance : Inhabited Binary64 := ⟨zero⟩

/-- The double nearest to `num / den`, with the given sign. -/
def ofRatio (negative : Bool) (num den : Nat) : Binary64 :=
  ofMagnitude? negative (Magnitude.nearest? (num * Magnitude.unitsPerOne) den)

/-- The double nearest to a natural number. -/
def ofNat (n : Nat) : Binary64 := ofRatio false n 1

/-- The double nearest to an integer. -/
def ofInt (n : Int) : Binary64 := ofRatio (n < 0) n.natAbs 1

instance {n : Nat} : OfNat Binary64 n := ⟨ofNat n⟩

/-- A decimal literal denotes the double nearest to it. -/
instance : OfScientific Binary64 where
  ofScientific m down e := if down then ofRatio false m (10 ^ e) else ofRatio false (m * 10 ^ e) 1

def isNaN : Binary64 → Bool
  | nan _ => true
  | _ => false

def isFinite : Binary64 → Bool
  | finite _ _ => true
  | _ => false

def isInfinite : Binary64 → Bool
  | infinite _ => true
  | _ => false

/-- The sign bit, which negative zero carries too. -/
def isNegative : Binary64 → Bool
  | nan s | infinite s | finite s _ => s

/-- The number with its sign turned. -/
def neg : Binary64 → Binary64
  | nan s => nan !s
  | infinite s => infinite !s
  | finite s m => finite (!s) m

instance : Neg Binary64 := ⟨neg⟩

/-- The number without its sign. -/
def abs : Binary64 → Binary64
  | nan _ => nan false
  | infinite _ => infinite false
  | finite _ m => finite false m

/-- The units of a finite number, signed. -/
def signedUnits (negative : Bool) (m : Magnitude) : Int :=
  if negative then -(m.units : Int) else m.units

/-- The double nearest to a signed count of units; an exact zero takes the sign `zeroSign`. -/
def ofUnits (zeroSign : Bool) (units : Int) : Binary64 :=
  if units = 0 then finite zeroSign .zero
  else ofMagnitude? (units < 0) (Magnitude.nearest? units.natAbs 1)

/-- The rounded sum. An exact zero is negative only when both terms are. -/
def add : Binary64 → Binary64 → Binary64
  | nan s, _ => nan s
  | _, nan s => nan s
  | infinite s, infinite t => if s = t then infinite s else nan false
  | infinite s, finite _ _ => infinite s
  | finite _ _, infinite t => infinite t
  | finite s a, finite t b => ofUnits (s && t) (signedUnits s a + signedUnits t b)

instance : Add Binary64 := ⟨add⟩

def sub (x y : Binary64) : Binary64 := x + -y

instance : Sub Binary64 := ⟨sub⟩

/-- The rounded product. -/
def mul : Binary64 → Binary64 → Binary64
  | nan s, _ => nan s
  | _, nan s => nan s
  | infinite s, infinite t => infinite (s != t)
  | infinite s, finite t b => if b.units = 0 then nan false else infinite (s != t)
  | finite s a, infinite t => if a.units = 0 then nan false else infinite (s != t)
  | finite s a, finite t b =>
    ofMagnitude? (s != t) (Magnitude.nearest? (a.units * b.units) Magnitude.unitsPerOne)

instance : Mul Binary64 := ⟨mul⟩

/-- The rounded quotient. A finite number over zero is an infinity, zero over zero is
not-a-number. -/
def div : Binary64 → Binary64 → Binary64
  | nan s, _ => nan s
  | _, nan s => nan s
  | infinite _, infinite _ => nan false
  | infinite s, finite t _ => infinite (s != t)
  | finite s _, infinite t => finite (s != t) .zero
  | finite s a, finite t b =>
    if b.units = 0 then
      if a.units = 0 then nan false else infinite (s != t)
    else
      ofMagnitude? (s != t) (Magnitude.nearest? (a.units * Magnitude.unitsPerOne) b.units)

instance : Div Binary64 := ⟨div⟩

/-- Numeric comparison; not-a-number is comparable with nothing, and the two zeros are equal. -/
def compare? : Binary64 → Binary64 → Option Ordering
  | nan _, _ => none
  | _, nan _ => none
  | infinite s, infinite t => some (compare t s)
  | infinite s, finite _ _ => some (if s then .lt else .gt)
  | finite _ _, infinite t => some (if t then .gt else .lt)
  | finite s a, finite t b => some (compare (signedUnits s a) (signedUnits t b))

def lt (x y : Binary64) : Bool := compare? x y == some .lt

def le (x y : Binary64) : Bool := compare? x y == some .lt || compare? x y == some .eq

/-- Numeric equality: the two zeros are equal, not-a-number differs from itself. -/
def eq (x y : Binary64) : Bool := compare? x y == some .eq

/-- The place of a number in the order of representations: negative not-a-number first, then
ascending values with negative zero before positive zero, and positive not-a-number last. -/
def rank : Binary64 → Int
  | nan s => if s then -(2 ^ (2100 : Nat)) - 1 else 2 ^ (2100 : Nat)
  | infinite s => if s then -(2 ^ (2099 : Nat)) - 1 else 2 ^ (2099 : Nat)
  | finite s m => if s then -(m.units : Int) - 1 else m.units

/-- Comparison in the order of representations, which is total. -/
def totalCompare (x y : Binary64) : Ordering := compare x.rank y.rank

/-- Whether a number is finite and whole. -/
def isIntegral : Binary64 → Bool
  | finite _ m => m.units % Magnitude.unitsPerOne == 0
  | _ => false

/-- The whole part of a number toward zero, held within `lo` and `hi`; not-a-number gives zero. -/
def truncate (lo hi : Int) : Binary64 → Int
  | nan _ => 0
  | infinite s => if s then lo else hi
  | finite s m =>
    let whole : Int := (m.units / Magnitude.unitsPerOne : Nat)
    max lo (min hi (if s then -whole else whole))

/-- The nearest whole number, halves away from zero, as a 64-bit counter: negative numbers and
not-a-number give zero, large ones the greatest counter. -/
def roundToCounter : Binary64 → Nat
  | nan _ => 0
  | infinite s => if s then 0 else 2 ^ (64 : Nat) - 1
  | finite s m =>
    if s then 0
    else
      min (2 ^ (64 : Nat) - 1) ((2 * m.units + Magnitude.unitsPerOne) / (2 * Magnitude.unitsPerOne))

/-- The lesser of two numbers; not-a-number gives way to the other. -/
def min (x y : Binary64) : Binary64 :=
  if x.isNaN then y else if y.isNaN then x else if lt y x then y else x

/-- The number held within `lo` and `hi`; there is no answer unless `lo ≤ hi`. -/
def clamp? (lo hi x : Binary64) : Option Binary64 :=
  if le lo hi then some (if lt x lo then lo else if lt hi x then hi else x) else none

end Binary64

end LedEffect
