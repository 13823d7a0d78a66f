import LedEffect.Proofs.Number.Sums

/-!
# Overflow

A fraction overflows just from the whole number on that is halfway between the largest double and the
power of two behind it (`Magnitude.nearest?_eq_none_iff`). Products and quotients of numbers from zero up are
numbers from zero up or infinity, and finite where the numbers are not large (`Binary64.UpTo`).
-/

namespace LedEffect

namespace Magnitude

variable {num den : Nat}

/-- The whole number that is halfway between the largest double and the power of two behind it. -/
def overflow : Nat := (2 ^ 54 - 1) * 2 ^ 970

lemma nearest?_eq_none (pos : 0 < den) : nearest? num den = none ↔ 2045 < excess (num / den) ∨
    excess (num / den) = 2045 ∧ roundHalfEven num (den * 2 ^ excess (num / den)) = 2 ^ 53 := by
  obtain ⟨most, least⟩ := significand_bounds num pos
  rw [nearest?_unfold]
  split_ifs with fits carry
  · refine iff_of_false not_false ?_
    rintro (past | ⟨-, full⟩) <;> omega
  · refine iff_of_false not_false ?_
    rintro (past | ⟨last, -⟩) <;> omega
  · refine iff_of_true rfl ?_
    rcases Nat.lt_or_ge 2045 (excess (num / den)) with past | inside
    · exact .inl past
    · refine .inr ⟨by omega, ?_⟩
      by_contra less
      exact fits ⟨by omega, inside, least⟩

/-- A fraction overflows from that number on. -/
lemma nearest?_eq_none_iff (pos : 0 < den) :
    nearest? num den = none ↔ overflow * unitsPerOne * den ≤ num := by
  have past : overflow * unitsPerOne * den = (2 ^ 54 - 1) * (den * 2 ^ 2044) := by
    rw [overflow, unitsPerOne, show 2044 = 970 + 1074 from rfl, Nat.pow_add]
    ring
  rw [nearest?_eq_none pos, past]
  have most := (significand_bounds num pos).1
  have above := Nat.lt_mul_of_div_lt (lt_two_pow_excess (num / den)) pos
  have below : excess (num / den) ≠ 0 → den * (2 ^ 52 * 2 ^ excess (num / den)) ≤ num := fun long =>
    (Nat.mul_le_mul_left den (two_pow_excess_le long)).trans (Nat.mul_div_le num den)
  have upper := (two_mul_roundHalfEven num (show 0 < den * 2 ^ excess (num / den) by positivity)).1
  have full : (2 * (2 ^ 53 - 1) + 1) * (den * 2 ^ excess (num / den)) ≤ 2 * num →
      2 ^ 53 ≤ roundHalfEven num (den * 2 ^ excess (num / den)) :=
    le_roundHalfEven_of_even (by positivity) (by decide)
  rw [Nat.mul_right_comm, Nat.mul_assoc] at above
  rw [Nat.mul_left_comm] at below
  generalize roundHalfEven num (den * 2 ^ excess (num / den)) = r at *
  rcases Nat.lt_trichotomy (excess (num / den)) 2045 with short | last | long
  · have power : den * 2 ^ excess (num / den) ≤ den * 2 ^ 2044 :=
      Nat.mul_le_mul_left den (Nat.pow_le_pow_right (by decide) (by omega))
    generalize den * 2 ^ excess (num / den) = place at *
    generalize den * 2 ^ 2044 = half at *
    omega
  · have power : den * 2 ^ excess (num / den) = 2 * (den * 2 ^ 2044) := by
      rw [last, show 2045 = 2044 + 1 from rfl, Nat.pow_succ]
      omega
    generalize den * 2 ^ excess (num / den) = place at *
    generalize den * 2 ^ 2044 = half at *
    constructor
    · rintro (past | ⟨-, rfl⟩)
      · exact absurd last past.ne'
      · omega
    · intro past
      have := full (by omega)
      exact .inr ⟨last, by omega⟩
  · have power : 4 * (den * 2 ^ 2044) ≤ den * 2 ^ excess (num / den) := by
      rw [Nat.mul_left_comm]
      refine Nat.mul_le_mul_left den ?_
      rw [show 4 = 2 ^ 2 from rfl, ← Nat.pow_add]
      exact Nat.pow_le_pow_right (by decide) (by omega)
    have below := below (by omega)
    generalize den * 2 ^ excess (num / den) = place at *
    generalize den * 2 ^ 2044 = half at *
    omega

/-- A fraction has no more units than twice its quotient and one. -/
lemma units_mul_le {k : Magnitude} (pos : 0 < den) (near : nearest? num den = some k) :
    k.units * den ≤ 2 * num + den := by
  have upper := (two_mul_roundHalfEven num (show 0 < den * 2 ^ excess (num / den) by positivity)).1
  have units : roundHalfEven num (den * 2 ^ excess (num / den)) * (den * 2 ^ excess (num / den)) =
      k.units * den := by
    rw [units_of_nearest? pos near]
    ring
  rw [units] at upper
  rcases Nat.eq_zero_or_pos (excess (num / den)) with none | long
  · rw [none] at upper
    omega
  · have part : den * 2 ^ excess (num / den) ≤ num := by
      calc den * 2 ^ excess (num / den) ≤ den * (2 ^ 52 * 2 ^ excess (num / den)) :=
            Nat.mul_le_mul_left den (Nat.le_mul_of_pos_left _ (by positivity))
        _ ≤ den * (num / den) := Nat.mul_le_mul_left den (two_pow_excess_le long.ne')
        _ ≤ num := Nat.mul_div_le num den
    omega

end Magnitude

namespace Binary64

open Magnitude (unitsPerOne)

variable {x y : Binary64} {m : Magnitude} {j k n : Nat}

/-! ## Numbers from zero up -/

lemma isDistance_finite (m : Magnitude) : (finite false m).IsDistance := rfl

lemma isDistance_ofMagnitude? (k : Option Magnitude) : (ofMagnitude? false k).IsDistance := by
  cases k <;> rfl

lemma IsDistance.div (hx : x.IsDistance) (pos : 0 < m.units) : (x / finite false m).IsDistance := by
  obtain rfl | ⟨a, rfl⟩ := hx.eq
  · exact isDistance_infinite
  · rw [finite_div a pos]
    exact isDistance_ofMagnitude? _

lemma IsDistance.mul (hx : x.IsDistance) (pos : 0 < m.units) : (x * finite false m).IsDistance := by
  obtain rfl | ⟨a, rfl⟩ := hx.eq
  · rw [infinite_mul pos]
    exact isDistance_infinite
  · rw [finite_mul]
    generalize Magnitude.nearest? (a.units * m.units) unitsPerOne = k
    exact isDistance_ofMagnitude? k

/-- The lesser of a number from zero up and a finite one is finite. -/
lemma IsDistance.isFinite_min (hx : x.IsDistance) (m : Magnitude) :
    (x.min (finite false m)).isFinite = true := by
  obtain rfl | ⟨a, rfl⟩ := hx.eq
  · rfl
  · change (if lt (finite false m) (finite false a) = true then finite false m
      else finite false a).isFinite = true
    split_ifs <;> rfl

/-- A quotient of finite numbers overflows just when it is that large. -/
lemma finite_div_eq_infinite_iff (a : Magnitude) (pos : 0 < m.units) :
    finite false a / finite false m = infinite false ↔
      Magnitude.overflow * (finite false m).value ≤ (finite false a).value := by
  have past : finite false a / finite false m = infinite false ↔
      Magnitude.nearest? (a.units * unitsPerOne) m.units = none := by
    rw [finite_div a pos]
    cases Magnitude.nearest? (a.units * unitsPerOne) m.units with
    | none => exact iff_of_true rfl rfl
    | some k => exact iff_of_false nofun nofun
  rw [past, Magnitude.nearest?_eq_none_iff pos, Nat.mul_right_comm,
    Nat.mul_le_mul_right_iff Magnitude.unitsPerOne_pos, value_finite, value_finite, mul_div_assoc',
    div_le_div_iff_of_pos_right Magnitude.cast_unitsPerOne_pos, ← Nat.cast_mul, Nat.cast_le]

/-! ## Bounds -/

/-- A finite number up to a power of two. -/
def UpTo (k : Nat) (x : Binary64) : Prop :=
  ∃ m : Magnitude, x = finite false m ∧ m.units ≤ 2 ^ k * unitsPerOne

/-- The double nearest to a fraction that is not large is at most four times as large. -/
lemma upTo_of_le {num den : Nat} (pos : 0 < den) (small : k ≤ 900)
    (le : num ≤ 2 ^ k * unitsPerOne * den) :
    UpTo (k + 2) (ofMagnitude? false (Magnitude.nearest? num den)) := by
  cases near : Magnitude.nearest? num den with
  | none =>
    have past := (Magnitude.nearest?_eq_none_iff pos).1 near
    exfalso
    have bound : 2 ^ k < Magnitude.overflow := by
      have less : 2 ^ k < 2 ^ 970 := Nat.pow_lt_pow_right (by decide) (by omega)
      rw [Magnitude.overflow]
      exact less.trans_le (Nat.le_mul_of_pos_left _ (by decide))
    rw [Nat.mul_assoc] at past le
    exact absurd (past.trans le)
      (Nat.mul_lt_mul_of_pos_right bound (Nat.mul_pos Magnitude.unitsPerOne_pos pos)).not_ge
  | some m =>
    refine ⟨m, rfl, ?_⟩
    have units := Magnitude.units_mul_le pos near
    have one : 1 ≤ 2 ^ k * unitsPerOne := Nat.mul_pos (by positivity) Magnitude.unitsPerOne_pos
    refine Nat.le_of_mul_le_mul_right ?_ pos
    calc m.units * den ≤ 2 * num + den := units
      _ ≤ 2 * (2 ^ k * unitsPerOne * den) + 2 ^ k * unitsPerOne * den := by
        have := Nat.le_mul_of_pos_left den one
        omega
      _ = 3 * (2 ^ k * unitsPerOne * den) := by omega
      _ ≤ 4 * (2 ^ k * unitsPerOne * den) := Nat.mul_le_mul_right _ (by decide)
      _ = 2 ^ (k + 2) * unitsPerOne * den := by rw [Nat.pow_add]; ring

lemma upTo_ofNat (le : n ≤ 2 ^ k) (small : k ≤ 900) : UpTo (k + 2) (ofNat n) := by
  refine upTo_of_le Nat.one_pos small ?_
  rw [Nat.mul_one]
  exact Nat.mul_le_mul_right _ le

lemma UpTo.add (hx : UpTo k x) (hy : UpTo k y) (small : k < 900) : UpTo (k + 3) (x + y) := by
  obtain ⟨a, rfl, ha⟩ := hx
  obtain ⟨b, rfl, hb⟩ := hy
  rw [(Json.isWeight_finite b).finite_add a]
  refine upTo_of_le Nat.one_pos (k := k + 1) small ?_
  change a.units + b.units ≤ _
  rw [Nat.pow_succ, Nat.mul_one, Nat.mul_right_comm]
  omega

lemma UpTo.mul (hx : UpTo j x) (hy : UpTo k y) (small : j + k ≤ 900) : UpTo (j + k + 2) (x * y) := by
  obtain ⟨a, rfl, ha⟩ := hx
  obtain ⟨b, rfl, hb⟩ := hy
  rw [finite_mul]
  refine upTo_of_le Magnitude.unitsPerOne_pos small ?_
  calc a.units * b.units ≤ 2 ^ j * unitsPerOne * (2 ^ k * unitsPerOne) := Nat.mul_le_mul ha hb
    _ = 2 ^ (j + k) * unitsPerOne * unitsPerOne := by rw [Nat.pow_add]; ring

lemma UpTo.div_ofNat (hx : UpTo k x) (pos : 0 < n) (short : n < 2 ^ 53) (small : k ≤ 900) :
    UpTo (k + 2) (x / ofNat n) := by
  obtain ⟨a, rfl, ha⟩ := hx
  obtain ⟨b, eq, units⟩ := exists_ofNat_of_short short
  have one : unitsPerOne ≤ b.units := units ▸ Nat.le_mul_of_pos_left _ pos
  have positive : 0 < b.units := Magnitude.unitsPerOne_pos.trans_le one
  rw [eq, finite_div a positive]
  exact upTo_of_le positive small (Nat.mul_le_mul ha one)

lemma UpTo.isFinite (hx : UpTo k x) : x.isFinite = true := by
  obtain ⟨m, rfl, -⟩ := hx
  rfl

end Binary64

end LedEffect
