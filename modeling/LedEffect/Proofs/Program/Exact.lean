import LedEffect.Proofs.Effect.Ranges
import LedEffect.Proofs.Program.Meaning
import Mathlib.Algebra.Order.Floor.Ring
import Mathlib.Algebra.Order.Field.Basic
import Mathlib.Tactic.Linarith
import Mathlib.Tactic.NormNum

/-!
# Exact arithmetic

A device whose floats are the numbers of an ordered field and whose operations do not round
(`Device.Exact`). On such a device positions on the strip and in a palette stay between zero and one,
and the whole parts taken of them are the indices that they are meant to be.
-/

namespace LedEffect.Program

variable {F : Type}

/-- A value wrapped to a palette position: its remainder by one, moved up by one if negative. -/
def Device.wrap (d : Device F) (x : F) : F :=
  let remainder := d.fmodf x (d.real 1)
  if d.lt remainder (d.real 0) then d.add remainder (d.real 1) else remainder

/-- The row of a palette position among that many colours: that of its whole part, or the last row
that has one after it. -/
def Device.row (d : Device F) (colours : Nat) (scaled : F) : Int :=
  if d.toInt scaled > (colours - 2 : Nat) then (colours - 2 : Nat) else d.toInt scaled

variable [Field F] [LinearOrder F] [FloorRing F]

/-- The whole part of a number, toward zero. -/
def wholePart (x : F) : Int := if 0 ≤ x then ⌊x⌋ else ⌈x⌉

/-- Whether a device computes without rounding. Literals are ordered as their doubles are, and zero, a
half and one are themselves: so the value of the double will do, and so will that of the decimal it
is printed as. What sines are, and what a conversion to a byte does, is left open. -/
structure Device.Exact (d : Device F) : Prop where
  real_le_iff : ∀ x y : Binary64, x.isFinite = true → y.isFinite = true →
    (d.real x ≤ d.real y ↔ x.le y = true)
  real_zero : d.real 0 = 0
  real_half : d.real 0.5 = 1 / 2
  real_one : d.real 1 = 1
  whole : ∀ n, d.whole n = n
  ofInt : ∀ n, d.ofInt n = n
  toInt : ∀ x, d.toInt x = wholePart x
  add : ∀ x y, d.add x y = x + y
  sub : ∀ x y, d.sub x y = x - y
  mul : ∀ x y, d.mul x y = x * y
  div : ∀ x y, d.div x y = x / y
  lt : ∀ x y, d.lt x y = decide (x < y)
  gt : ∀ x y, d.gt x y = decide (x > y)
  fabsf : ∀ x, d.fabsf x = |x|
  fminf : ∀ x y, d.fminf x y = min x y
  fmaxf : ∀ x y, d.fmaxf x y = max x y
  fmodf : ∀ x y, d.fmodf x y = x - y * wholePart (x / y)

variable {d : Device F}

/-! ## Literals -/

namespace Device.Exact

/-- The literal of a double above zero is above zero. -/
lemma real_pos (precise : d.Exact) {x : Binary64} (finite : x.isFinite = true)
    (positive : 0 < x.units) : 0 < d.real x := by
  have zero : (0 : Binary64).isFinite = true := Binary64.isFinite_ofNat (by decide)
  have none : (0 : Binary64).units = 0 := (Binary64.units_ofNat (by decide)).trans (Int.zero_mul _)
  rw [← precise.real_zero]
  refine lt_of_not_ge fun le => ?_
  have le := (Binary64.le_iff finite zero).1 ((precise.real_le_iff _ _ finite zero).1 le)
  omega

/-- The literal of a double between zero and one is between them. -/
lemma real_mem (precise : d.Exact) {x : Binary64} (finite : x.isFinite = true)
    (least : (0 : Binary64).le x = true) (most : x.le 1 = true) : 0 ≤ d.real x ∧ d.real x ≤ 1 := by
  have zero : (0 : Binary64).isFinite = true := Binary64.isFinite_ofNat (by decide)
  have one : (1 : Binary64).isFinite = true := Binary64.isFinite_ofNat (by decide)
  rw [← precise.real_zero, ← precise.real_one]
  exact ⟨(precise.real_le_iff _ _ zero finite).2 least, (precise.real_le_iff _ _ finite one).2 most⟩

end Device.Exact

variable [IsStrictOrderedRing F]

/-! ## Whole parts -/

/-- The whole part of a number between two naturals lies between them, less than one below it. -/
lemma wholePart_mem {lo hi : Int} {x : F} (natural : 0 ≤ lo) (least : (lo : F) ≤ x)
    (most : x ≤ hi) : lo ≤ wholePart x ∧ wholePart x ≤ hi ∧ 0 ≤ x - wholePart x ∧
      x - wholePart x < 1 := by
  have nonneg : 0 ≤ x := (Int.cast_nonneg natural).trans least
  rw [wholePart, if_pos nonneg]
  have below := Int.floor_le x
  have above := Int.lt_floor_add_one x
  exact ⟨Int.le_floor.2 least, Int.cast_le.1 (below.trans most), by linarith, by linarith⟩

/-- What is over the whole part of a number is less than one away from zero. -/
lemma abs_sub_wholePart_lt_one (x : F) : |x - wholePart x| < 1 := by
  rw [abs_lt, wholePart]
  split
  next =>
    have below := Int.floor_le x
    have above := Int.lt_floor_add_one x
    constructor <;> linarith
  next =>
    have above := Int.le_ceil x
    have below := Int.ceil_lt_add_one x
    constructor <;> linarith

/-! ## Positions -/

namespace Device.Exact

variable {i lo hi : Int}

/-- A pixel of the strip is at a position from zero to one. -/
lemma along_mem (precise : d.Exact) (first : 0 ≤ i) (last : i < d.numLeds) :
    0 ≤ d.along i ∧ d.along i ≤ 1 := by
  have first : (0 : F) ≤ i := Int.cast_nonneg first
  have last : (i : F) ≤ ((d.numLeds - 1 : Int) : F) := Int.cast_le.2 (by omega)
  rw [along, lastPixel, precise.div, precise.fmaxf, precise.ofInt, precise.ofInt, precise.real_one]
  have one := le_max_right ((d.numLeds - 1 : Int) : F) 1
  have length := le_max_left ((d.numLeds - 1 : Int) : F) 1
  exact ⟨div_nonneg first (by linarith), (div_le_one (by linarith)).2 (by linarith)⟩

/-- A pixel of the strip is at a distance from zero to one from its centre. -/
lemma fromCentre_mem (precise : d.Exact) (first : 0 ≤ i) (last : i < d.numLeds) :
    0 ≤ d.fromCentre i ∧ d.fromCentre i ≤ 1 := by
  have first : (0 : F) ≤ i := Int.cast_nonneg first
  have last : (i : F) ≤ ((d.numLeds - 1 : Int) : F) := Int.cast_le.2 (by omega)
  rw [fromCentre, centre, lastPixel, precise.div, precise.fabsf, precise.sub, precise.fmaxf, precise.mul,
    precise.ofInt, precise.ofInt, precise.real_half, precise.real_one]
  set centre : F := ((d.numLeds - 1 : Int) : F) * (1 / 2) with half
  have one := le_max_right centre 1
  have length := le_max_left centre 1
  have near : |(i : F) - centre| ≤ centre := abs_le.2 ⟨by linarith, by linarith⟩
  exact ⟨div_nonneg (abs_nonneg _) (by linarith), (div_le_one (by linarith)).2 (by linarith)⟩

/-- A pixel of the strip has its place between the ends of a bin range. -/
lemma placeAt_mem (precise : d.Exact) (first : 0 ≤ i) (last : i < d.numLeds) (ordered : lo ≤ hi) :
    (lo : F) ≤ d.placeAt lo hi i ∧ d.placeAt lo hi i ≤ hi := by
  obtain ⟨least, most⟩ := precise.along_mem first last
  have width : (0 : F) ≤ hi - lo := by
    rw [sub_nonneg]
    exact Int.cast_le.2 ordered
  rw [placeAt, precise.add, precise.mul, precise.whole, precise.whole, Int.cast_sub]
  have offset := mul_nonneg width least
  have inside := mul_le_of_le_one_right width most
  constructor <;> linarith

/-- A wrapped value lies between zero and one. -/
lemma wrap_mem (precise : d.Exact) (x : F) : 0 ≤ d.wrap x ∧ d.wrap x ≤ 1 := by
  have remainder : d.fmodf x (d.real 1) = x - wholePart x := by
    rw [precise.fmodf, precise.real_one, div_one, one_mul]
  obtain ⟨above, below⟩ := abs_lt.1 (abs_sub_wholePart_lt_one x)
  rw [wrap, remainder, precise.lt, precise.real_zero, precise.add, precise.real_one]
  split
  next negative =>
    have negative := of_decide_eq_true negative
    constructor <;> linarith
  next nonneg => exact ⟨not_lt.1 fun negative => nonneg (decide_eq_true negative), le_of_lt below⟩

/-- A palette position is at the colour of its row or between that and the next one, the last pair
taking in its end. -/
lemma row_mem (precise : d.Exact) {colours : Nat} (enough : 2 ≤ colours) {x : F} (least : 0 ≤ x)
    (most : x ≤ 1) {y : F} (scaled : d.mul x (d.whole (colours - 1 : Nat)) = y) :
    0 ≤ d.row colours y ∧ d.row colours y ≤ (colours - 2 : Nat) ∧
      0 ≤ d.sub y (d.ofInt (d.row colours y)) ∧ d.sub y (d.ofInt (d.row colours y)) ≤ 1 := by
  rw [precise.mul, precise.whole] at scaled
  rw [precise.sub, precise.ofInt, row, precise.toInt]
  have rows : (0 : F) ≤ (((colours - 1 : Nat) : Int) : F) := Int.cast_nonneg (by omega)
  have nonneg : ((0 : Int) : F) ≤ y := by
    rw [← scaled, Int.cast_zero]
    exact mul_nonneg least rows
  have below : y ≤ (((colours - 1 : Nat) : Int) : F) := scaled ▸ mul_le_of_le_one_left rows most
  obtain ⟨first, last, above, under⟩ := wholePart_mem (Int.le_refl 0) nonneg below
  split
  next past =>
    -- Only the end of the palette is past the last pair.
    have whole : wholePart y = ((colours - 2 : Nat) : Int) + 1 := by omega
    rw [whole, Int.cast_add, Int.cast_one] at above
    have count : ((colours - 1 : Nat) : Int) = ((colours - 2 : Nat) : Int) + 1 := by omega
    rw [count, Int.cast_add, Int.cast_one] at below
    exact ⟨by omega, Int.le_refl _, by linarith, by linarith⟩
  next inside => exact ⟨first, by omega, above, le_of_lt under⟩

end Device.Exact

/-! ## Colours -/

/-- What lies between two channels is a channel. -/
lemma mixed_mem {low high : UInt8} {t : F} (least : 0 ≤ t) (most : t ≤ 1) :
    0 ≤ (low.toNat : F) + ((high.toNat : F) - low.toNat) * t ∧
      (low.toNat : F) + ((high.toNat : F) - low.toNat) * t ≤ 255 := by
  have bounds : ∀ c : UInt8, (0 : F) ≤ c.toNat ∧ (c.toNat : F) ≤ 255 := by
    intro c
    refine ⟨Nat.cast_nonneg _, ?_⟩
    have small : c.toNat ≤ 255 := by have := c.toNat_lt; omega
    exact_mod_cast small
  obtain ⟨low_nonneg, low_le⟩ := bounds low
  obtain ⟨high_nonneg, high_le⟩ := bounds high
  constructor <;> nlinarith

end LedEffect.Program
