import LedEffect.Proofs.Number.Rounding
import Mathlib.Algebra.Order.Field.Basic
import Mathlib.Data.List.Induction
import Mathlib.Data.Rat.Cast.Order
import Mathlib.Tactic.FieldSimp
import Mathlib.Tactic.GCongr
import Mathlib.Tactic.Linarith
import Mathlib.Tactic.NormNum
import Mathlib.Tactic.Ring

/-!
# Accuracy of rounding

A rounded number is off by half of its last place, so by one part in `2 ^ 53`, and by half a unit where
doubles are no denser than whole units (`Magnitude.abs_units_sub_le`). `Near` keeps account of several
roundings, one after the other.
-/

namespace LedEffect

/-- A rounded fraction is off by at most a half. -/
lemma two_mul_roundHalfEven (num : Nat) {den : Nat} (pos : 0 < den) :
    2 * (roundHalfEven num den * den) ≤ 2 * num + den ∧
      2 * num ≤ 2 * (roundHalfEven num den * den) + den := by
  have parts := Nat.div_add_mod' num den
  have rest := Nat.mod_lt num pos
  unfold roundHalfEven
  dsimp only
  split_ifs <;> try rw [Nat.add_mul, Nat.one_mul]
  all_goals omega

/-- The whole number nearest to a fraction is off by at most a half. -/
lemma abs_div_sub_le (a : ℕ) {u : ℕ} (pos : 0 < u) :
    |(((2 * a + u) / (2 * u) : ℕ) : ℚ) - a / u| ≤ 1 / 2 := by
  have parts := Nat.div_add_mod (2 * a + u) (2 * u)
  have rest := Nat.mod_lt (2 * a + u) (Nat.mul_pos Nat.two_pos pos)
  generalize (2 * a + u) / (2 * u) = q at parts ⊢
  generalize (2 * a + u) % (2 * u) = r at parts rest
  have u_pos : (0 : ℚ) < u := by exact_mod_cast pos
  have parts : (2 * u * q + r : ℚ) = 2 * a + u := by exact_mod_cast parts
  have rest : (r : ℚ) ≤ 2 * u := by exact_mod_cast rest.le
  have least : (0 : ℚ) ≤ r := Nat.cast_nonneg r
  have off : (q : ℚ) - a / u = (u - r) / (2 * u) := by
    field_simp
    linarith
  have distance : |(u - r : ℚ)| ≤ u := abs_sub_le_iff.2 ⟨by linarith, by linarith⟩
  rw [off, abs_div, abs_of_pos (mul_pos two_pos u_pos), div_le_div_iff₀ (mul_pos two_pos u_pos) two_pos,
    one_mul]
  linarith

namespace Magnitude

variable {num den n : Nat} {k : Magnitude}

/-- The units of the nearest magnitude are those of the significand at its place. -/
lemma units_of_nearest? (pos : 0 < den) (near : nearest? num den = some k) :
    k.units = roundHalfEven num (den * 2 ^ excess (num / den)) * 2 ^ excess (num / den) := by
  obtain ⟨most, least⟩ := significand_bounds num pos
  rw [nearest?_unfold] at near
  split_ifs at near with fits carry
  · cases near
    rfl
  · cases near
    have full : roundHalfEven num (den * 2 ^ excess (num / den)) = 2 ^ 53 := by
      by_contra less
      exact fits ⟨by omega, by omega, least⟩
    rw [full]
    change 2 ^ 52 * 2 ^ (excess (num / den) + 1) = _
    rw [pow_succ]
    ring

/-- The nearest magnitude is off by at most half of a unit, or one part in `2 ^ 53`. -/
lemma abs_units_sub_le (pos : 0 < den) (near : nearest? num den = some k) :
    |(k.units : ℚ) - num / den| ≤ num / den / 2 ^ 53 + 1 / 2 := by
  have units := units_of_nearest? pos near
  generalize places : excess (num / den) = s at units
  have den_pos : (0 : ℚ) < den := by exact_mod_cast pos
  have fraction : (num : ℚ) = num / den * den := by field_simp
  -- The last place is one unit, or small against the fraction.
  have place : (2 : ℚ) ^ s ≤ num / den / 2 ^ 52 + 1 := by
    rcases Nat.eq_zero_or_pos s with rfl | long
    · rw [pow_zero, le_add_iff_nonneg_left]
      positivity
    · have bound := two_pow_excess_le (n := num / den) (places ▸ long.ne')
      rw [Nat.le_div_iff_mul_le pos, places] at bound
      have cast : (2 : ℚ) ^ 52 * 2 ^ s * den ≤ num := by exact_mod_cast bound
      have part : (2 : ℚ) ^ s ≤ num / den / 2 ^ 52 := by
        rw [le_div_iff₀ (by positivity), le_div_iff₀ den_pos]
        linarith
      linarith
  obtain ⟨upper, lower⟩ := two_mul_roundHalfEven num (show 0 < den * 2 ^ s by positivity)
  have scaled : roundHalfEven num (den * 2 ^ s) * (den * 2 ^ s) = k.units * den := by
    rw [units]
    ring
  rw [scaled] at upper lower
  have above : (k.units : ℚ) ≤ num / den + 2 ^ s / 2 := by
    have cast : 2 * ((k.units : ℚ) * den) ≤ 2 * num + den * 2 ^ s := by exact_mod_cast upper
    refine le_of_mul_le_mul_right ?_ den_pos
    linarith
  have below : num / den - 2 ^ s / 2 ≤ (k.units : ℚ) := by
    have cast : 2 * (num : ℚ) ≤ 2 * (k.units * den) + den * 2 ^ s := by exact_mod_cast lower
    refine le_of_mul_le_mul_right ?_ den_pos
    linarith
  rw [abs_sub_le_iff]
  constructor <;> linarith

/-- A rounded count is off by at most one part in `2 ^ 53`. -/
lemma abs_rounded_sub_le (n : Nat) : |(rounded n : ℚ) - n| ≤ n / 2 ^ 53 := by
  rcases Nat.eq_zero_or_pos (excess n) with none | long
  · have same : rounded n = n := by
      have self := roundHalfEven_mul n Nat.one_pos
      rw [Nat.mul_one] at self
      rw [rounded, none, Nat.pow_zero, Nat.mul_one, self]
    rw [same, sub_self, abs_zero]
    positivity
  · have bound := two_pow_excess_le long.ne'
    obtain ⟨upper, lower⟩ := two_mul_roundHalfEven n (show 0 < 2 ^ excess n by positivity)
    have cast : (2 : ℚ) ^ 52 * 2 ^ excess n ≤ n := by exact_mod_cast bound
    have upper' : 2 * (rounded n : ℚ) ≤ 2 * n + 2 ^ excess n := by exact_mod_cast upper
    have lower' : 2 * (n : ℚ) ≤ 2 * rounded n + 2 ^ excess n := by exact_mod_cast lower
    rw [abs_sub_le_iff]
    constructor <;> linarith

end Magnitude

/-! ## Several roundings -/

/-- A quotient by a rounded number is off by at most one part in `2 ^ 52`. -/
lemma div_rounded {l c n : ℚ} (nonneg : 0 ≤ l) (pos : 0 < n) (rounded : |c - n| ≤ n / 2 ^ 53) :
    (1 - 1 / 2 ^ 52) * (l / n) ≤ l / c ∧ l / c ≤ (1 + 1 / 2 ^ 52) * (l / n) := by
  obtain ⟨above, below⟩ := abs_sub_le_iff.1 rounded
  have c_pos : 0 < c := by linarith
  constructor
  · rw [mul_div_assoc', div_le_div_iff₀ pos c_pos]
    calc (1 - 1 / 2 ^ 52) * l * c ≤ (1 - 1 / 2 ^ 52) * l * (n * (1 + 1 / 2 ^ 53)) :=
          mul_le_mul_of_nonneg_left (by linarith) (mul_nonneg (by norm_num) nonneg)
      _ = (1 - 1 / 2 ^ 52) * (1 + 1 / 2 ^ 53) * (l * n) := by ring
      _ ≤ 1 * (l * n) := mul_le_mul_of_nonneg_right (by norm_num) (mul_nonneg nonneg pos.le)
      _ = l * n := one_mul _
  · rw [mul_div_assoc', div_le_div_iff₀ c_pos pos]
    calc l * n = 1 * (l * n) := (one_mul _).symm
      _ ≤ (1 + 1 / 2 ^ 52) * (1 - 1 / 2 ^ 53) * (l * n) :=
          mul_le_mul_of_nonneg_right (by norm_num) (mul_nonneg nonneg pos.le)
      _ = (1 + 1 / 2 ^ 52) * l * (n * (1 - 1 / 2 ^ 53)) := by ring
      _ ≤ (1 + 1 / 2 ^ 52) * l * c :=
          mul_le_mul_of_nonneg_left (by linarith) (mul_nonneg (by norm_num) nonneg)

/-- How far `y` is from a number `x` that is not below zero, after roundings that each move a number by
at most one part in `2 ^ 52`, and by a further slack. -/
structure Near (roundings : ℕ) (slack x y : ℚ) : Prop where
  nonneg : 0 ≤ x
  lower : (1 - 1 / 2 ^ 52) ^ roundings * x - slack ≤ y
  upper : y ≤ (1 + 1 / 2 ^ 52) ^ roundings * x + slack

namespace Near

variable {roundings : ℕ} {slack slack' x y z w c n : ℚ}

lemma least_nonneg (near : Near roundings slack x y) : 0 ≤ (1 - 1 / 2 ^ 52 : ℚ) ^ roundings * x :=
  mul_nonneg (pow_nonneg (by norm_num) _) near.nonneg

lemma most_nonneg (near : Near roundings slack x y) : 0 ≤ (1 + 1 / 2 ^ 52 : ℚ) ^ roundings * x :=
  mul_nonneg (pow_nonneg (by norm_num) _) near.nonneg

lemma refl (nonneg : 0 ≤ x) : Near 0 0 x x := by
  refine ⟨nonneg, ?_, ?_⟩ <;> simp

lemma loosen (near : Near roundings slack x y) (le : slack ≤ slack') : Near roundings slack' x y := by
  obtain ⟨nonneg, lower, upper⟩ := near
  refine ⟨nonneg, ?_, ?_⟩ <;> linarith

/-- Products with a number keep to the roundings. -/
lemma mul_right (near : Near roundings slack x y) (nonneg : 0 ≤ c) :
    Near roundings (slack * c) (x * c) (y * c) := by
  have lower := mul_le_mul_of_nonneg_right near.lower nonneg
  have upper := mul_le_mul_of_nonneg_right near.upper nonneg
  refine ⟨mul_nonneg near.nonneg nonneg, ?_, ?_⟩ <;> linarith

/-- A number that is added to both can only bring them nearer. -/
lemma add_right (near : Near roundings slack x y) (nonneg : 0 ≤ w) :
    Near roundings slack (x + w) (y + w) := by
  have below : (1 - 1 / 2 ^ 52 : ℚ) ^ roundings ≤ 1 := pow_le_one₀ (by norm_num) (by norm_num)
  have above : (1 : ℚ) ≤ (1 + 1 / 2 ^ 52) ^ roundings := one_le_pow₀ (by norm_num)
  obtain ⟨least, lower, upper⟩ := near
  refine ⟨add_nonneg least nonneg, ?_, ?_⟩
  · linarith [mul_le_mul_of_nonneg_right below nonneg]
  · linarith [mul_le_mul_of_nonneg_right above nonneg]

/-- A rounding that is off by a constant at most adds to the slack. -/
lemma shift (near : Near roundings slack x y) (close : |z - y| ≤ c) :
    Near roundings (slack + c) x z := by
  obtain ⟨nonneg, lower, upper⟩ := near
  obtain ⟨above, below⟩ := abs_sub_le_iff.1 close
  refine ⟨nonneg, ?_, ?_⟩ <;> linarith

/-- One more rounding. -/
lemma round (near : Near roundings slack x y) (slack_nonneg : 0 ≤ slack)
    (rounded : |z - y| ≤ y / 2 ^ 53 + c) : Near (roundings + 1) (2 * slack + c) x z := by
  have least := near.least_nonneg
  have most := near.most_nonneg
  obtain ⟨nonneg, lower, upper⟩ := near
  obtain ⟨above, below⟩ := abs_sub_le_iff.1 rounded
  refine ⟨nonneg, ?_, ?_⟩ <;> rw [pow_succ'] <;> linarith

/-- A quotient by a number that was rounded itself. -/
lemma div_right (near : Near roundings slack x y) (slack_nonneg : 0 ≤ slack) (pos : 0 < n)
    (rounded : |c - n| ≤ n / 2 ^ 53) : Near (roundings + 1) (2 * (slack / n)) (x / n) (y / c) := by
  obtain ⟨above, below⟩ := abs_sub_le_iff.1 rounded
  have c_pos : 0 < c := by linarith
  have least := (div_rounded near.least_nonneg pos rounded).1
  have most := (div_rounded near.most_nonneg pos rounded).2
  have part := (div_rounded slack_nonneg pos rounded).2
  have part_nonneg : 0 ≤ slack / n := div_nonneg slack_nonneg pos.le
  have lower := div_le_div_of_nonneg_right near.lower c_pos.le
  have upper := div_le_div_of_nonneg_right near.upper c_pos.le
  rw [sub_div] at lower
  rw [add_div] at upper
  rw [mul_div_assoc _ x n] at least most
  refine ⟨div_nonneg near.nonneg pos.le, ?_, ?_⟩ <;> rw [pow_succ', mul_assoc] <;> linarith

end Near

end LedEffect
