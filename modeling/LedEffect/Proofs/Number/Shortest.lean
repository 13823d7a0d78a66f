import LedEffect.Proofs.Number.Digits
import LedEffect.Proofs.Number.Rounding
import Mathlib.Tactic.Ring

/-!
# Shortest digits

A decimal is rounded by its value alone: a zero at the end of its coefficient may be moved to its exponent
(`Decimal.toMagnitude?_mul_ten`). So the digits chosen for a magnitude read back to it, whichever of the
candidates they are (`Magnitude.toMagnitude?_shortest`).
-/

namespace LedEffect

variable {n k : Nat} {e : Int}

lemma length_digitsOf_le (pos : 0 < k) : (digitsOf n).length ≤ k ↔ n < 10 ^ k :=
  Nat.length_toDigits_le_iff (by decide) pos

lemma length_digitsOf_mul_ten (nonzero : n ≠ 0) :
    (digitsOf (n * 10)).length = (digitsOf n).length + 1 := by
  have digits : digitsOf n ++ digitsOf 0 = digitsOf (10 * n + 0) :=
    Nat.toDigits_append_toDigits (by decide) (Nat.pos_of_ne_zero nonzero) (by decide)
  rw [Nat.mul_comm, ← Nat.add_zero (10 * n), ← digits, List.length_append]
  rfl

namespace Decimal

variable {d : Decimal}

/-- The power of ten above a decimal. -/
def place (d : Decimal) : Int := (digitsOf d.coefficient).length + d.exponent

/-- The magnitude nearest to a decimal, whatever its place. -/
def nearest? (d : Decimal) : Option Magnitude :=
  Magnitude.nearest? (d.coefficient * 10 ^ d.exponent.toNat * Magnitude.unitsPerOne)
    (10 ^ (-d.exponent).toNat)

lemma toMagnitude?_of_ne_zero (nonzero : d.coefficient ≠ 0) : d.toMagnitude? =
    if 310 < d.place then none else if d.place < -330 then some .zero else d.nearest? := by
  obtain ⟨c, e⟩ := d
  rw [toMagnitude?, if_neg nonzero]
  cases e with
  | ofNat e =>
    have whole : (-Int.ofNat e).toNat = 0 := Int.toNat_of_nonpos (by simp)
    rw [nearest?, whole, Nat.pow_zero]
    rfl
  | negSucc e =>
    have whole : c * 10 ^ (Int.negSucc e).toNat = c := Nat.mul_one c
    rw [nearest?, whole]
    rfl

lemma toMagnitude?_eq_nearest? (nonzero : d.coefficient ≠ 0) (low : -330 ≤ d.place)
    (high : d.place ≤ 310) : d.toMagnitude? = d.nearest? := by
  rw [toMagnitude?_of_ne_zero nonzero, if_neg (by omega), if_neg (by omega)]

/-- A zero at the end of the coefficient may be moved to the exponent. -/
lemma toMagnitude?_mul_ten (c : Nat) (e : Int) :
    toMagnitude? ⟨c * 10, e⟩ = toMagnitude? ⟨c, e + 1⟩ := by
  rcases Nat.eq_zero_or_pos c with rfl | pos
  · rfl
  · have place : place ⟨c * 10, e⟩ = place ⟨c, e + 1⟩ := by
      change ((digitsOf (c * 10)).length : Int) + e = (digitsOf c).length + (e + 1)
      rw [length_digitsOf_mul_ten pos.ne']
      omega
    have nearest : nearest? ⟨c * 10, e⟩ = nearest? ⟨c, e + 1⟩ := by
      have powers : 10 ^ (e.toNat + 1) * 10 ^ (-(e + 1)).toNat =
          10 ^ (e + 1).toNat * 10 ^ (-e).toNat := by
        rw [← Nat.pow_add, ← Nat.pow_add]
        congr 1
        omega
      refine Magnitude.nearest?_congr (by positivity) (by positivity) ?_
      calc c * 10 * 10 ^ e.toNat * Magnitude.unitsPerOne * 10 ^ (-(e + 1)).toNat
          = c * Magnitude.unitsPerOne * (10 ^ (e.toNat + 1) * 10 ^ (-(e + 1)).toNat) := by ring
        _ = c * Magnitude.unitsPerOne * (10 ^ (e + 1).toNat * 10 ^ (-e).toNat) := by rw [powers]
        _ = c * 10 ^ (e + 1).toNat * Magnitude.unitsPerOne * 10 ^ (-e).toNat := by ring
    rw [toMagnitude?_of_ne_zero (Nat.mul_ne_zero pos.ne' (by decide)),
      toMagnitude?_of_ne_zero pos.ne', place, nearest]

lemma toMagnitude?_mul_ten_pow (c k : Nat) (e : Int) :
    toMagnitude? ⟨c * 10 ^ k, e⟩ = toMagnitude? ⟨c, e + k⟩ := by
  induction k generalizing e with
  | zero => rw [Nat.pow_zero, Nat.mul_one, Int.natCast_zero, Int.add_zero]
  | succ k ih =>
    rw [Nat.pow_succ, ← Nat.mul_assoc, toMagnitude?_mul_ten, ih, Int.add_assoc, Int.add_comm 1,
      Int.natCast_succ]

lemma toMagnitude?_stripZeros (fuel c : Nat) (e : Int) :
    toMagnitude? ⟨(stripZeros fuel c).1, e + (stripZeros fuel c).2⟩ = toMagnitude? ⟨c, e⟩ := by
  induction fuel generalizing c e with
  | zero => rw [stripZeros, Int.natCast_zero, Int.add_zero]
  | succ fuel ih =>
    rw [stripZeros]
    split
    next zero =>
      have whole : c / 10 * 10 = c := Nat.div_mul_cancel (Nat.dvd_of_mod_eq_zero zero.2)
      have moved := toMagnitude?_mul_ten (c / 10) e
      rw [whole] at moved
      rw [moved, ← ih (c / 10) (e + 1), Int.add_assoc, Int.add_comm 1]
      rfl
    next => rw [Int.natCast_zero, Int.add_zero]

/-- Without the zeros at its end a decimal is rounded as before. -/
lemma toMagnitude?_normalize (d : Decimal) : d.normalize.toMagnitude? = d.toMagnitude? :=
  toMagnitude?_stripZeros _ d.coefficient d.exponent

end Decimal

namespace Magnitude

variable {m : Magnitude}

/-- Of two decimals the one that is picked reads back, whichever is preferred. -/
lemma toMagnitude?_of_pick {lower upper d : Decimal} {preferLower : Bool}
    (picked : (match lower.toMagnitude? == some m, upper.toMagnitude? == some m with
      | true, true => some (if preferLower then lower else upper)
      | true, false => some lower
      | false, true => some upper
      | false, false => none) = some d) : d.toMagnitude? = some m := by
  split at picked
  next first second =>
    obtain rfl := Option.some_inj.1 picked
    split
    · exact eq_of_beq first
    · exact eq_of_beq second
  next first _ =>
    obtain rfl := Option.some_inj.1 picked
    exact eq_of_beq first
  next _ second =>
    obtain rfl := Option.some_inj.1 picked
    exact eq_of_beq second
  next => cases picked

lemma toMagnitude?_of_candidate? {tie : Tie} {count : Nat} {d : Decimal}
    (chosen : m.candidate? tie count = some d) : d.toMagnitude? = some m := by
  unfold candidate? at chosen
  dsimp only at chosen
  exact toMagnitude?_of_pick chosen

lemma ten_pow_le_five_pow (small : k ≤ 744) : 10 ^ k ≤ 5 ^ (330 + k) := by
  have twos : 2 ^ 744 ≤ 5 ^ 330 := by
    calc 2 ^ 744 ≤ (2 ^ 16) ^ 47 := by
          rw [← Nat.pow_mul]
          exact Nat.pow_le_pow_right (by decide) (by decide)
      _ ≤ (5 ^ 7) ^ 47 := Nat.pow_le_pow_left (by decide) 47
      _ ≤ 5 ^ 330 := by
          rw [← Nat.pow_mul]
          exact Nat.pow_le_pow_right (by decide) (by decide)
  calc 10 ^ k = 2 ^ k * 5 ^ k := by rw [← Nat.mul_pow]
    _ ≤ 5 ^ 330 * 5 ^ k :=
      Nat.mul_le_mul_right _ ((Nat.pow_le_pow_right (by decide) small).trans twos)
    _ = 5 ^ (330 + k) := (Nat.pow_add 5 330 k).symm

/-- The exact decimal of a magnitude below the greatest exact significand has places behind the point. -/
lemma toMagnitude?_fraction (nonzero : m.significand ≠ 0) (places : m.shift + k = 1074) :
    Decimal.toMagnitude? ⟨m.significand * 5 ^ k, -(k : Int)⟩ = some m := by
  have short := m.canonical.1
  have high : (digitsOf (m.significand * 5 ^ k)).length ≤ 16 + k := by
    rw [length_digitsOf_le (by omega), Nat.pow_add]
    exact Nat.mul_lt_mul_of_lt_of_le (by omega) (Nat.pow_le_pow_left (by decide) k) (by positivity)
  have low : k - 330 ≤ (digitsOf (m.significand * 5 ^ k)).length := by
    rcases Nat.le_total k 330 with few | many
    · omega
    · by_contra less
      obtain ⟨j, rfl⟩ : ∃ j, k = 330 + j := ⟨k - 330, by omega⟩
      have above : m.significand * 5 ^ (330 + j) < 10 ^ j :=
        (length_digitsOf_le (by omega)).1 (by omega)
      have below : 10 ^ j ≤ m.significand * 5 ^ (330 + j) :=
        (ten_pow_le_five_pow (by omega)).trans (Nat.le_mul_of_pos_left _ (Nat.pos_of_ne_zero nonzero))
      omega
  rw [Decimal.toMagnitude?_eq_nearest? (Nat.mul_ne_zero nonzero (by positivity))
    (by rw [Decimal.place]; dsimp only; omega) (by rw [Decimal.place]; dsimp only; omega),
    ← nearest?_units m, Decimal.nearest?]
  refine nearest?_congr (by positivity) Nat.one_pos ?_
  have whole : (-(k : Int)).toNat = 0 := by omega
  have fraction : (-(-(k : Int))).toNat = k := by omega
  have units : unitsPerOne = 2 ^ m.shift * 2 ^ k := by rw [unitsPerOne, ← places, Nat.pow_add]
  rw [whole, fraction, units, Magnitude.units]
  calc m.significand * 5 ^ k * 10 ^ 0 * (2 ^ m.shift * 2 ^ k) * 1
      = m.significand * 2 ^ m.shift * (2 ^ k * 5 ^ k) := by ring
    _ = m.significand * 2 ^ m.shift * 10 ^ k := by rw [← Nat.mul_pow]

/-- The exact decimal of a greater magnitude is a whole number. -/
lemma toMagnitude?_whole (nonzero : m.significand ≠ 0) (places : m.shift = 1074 + k) :
    Decimal.toMagnitude? ⟨m.significand * 2 ^ k, 0⟩ = some m := by
  obtain ⟨short, inside, -⟩ := m.canonical
  have high : (digitsOf (m.significand * 2 ^ k)).length ≤ 310 := by
    rw [length_digitsOf_le (by decide)]
    calc m.significand * 2 ^ k < 2 ^ 53 * 2 ^ 971 :=
          Nat.mul_lt_mul_of_lt_of_le short (Nat.pow_le_pow_right (by decide) (by omega))
            (by positivity)
      _ = (2 ^ 43) ^ 23 * 2 ^ 35 := by rw [← Nat.pow_mul, ← Nat.pow_add, ← Nat.pow_add]
      _ ≤ (10 ^ 13) ^ 23 * 10 ^ 11 :=
          Nat.mul_le_mul (Nat.pow_le_pow_left (by decide) 23) (by decide)
      _ = 10 ^ 310 := by rw [← Nat.pow_mul, ← Nat.pow_add]
  rw [Decimal.toMagnitude?_eq_nearest? (Nat.mul_ne_zero nonzero (by positivity))
    (by rw [Decimal.place]; dsimp only; omega) (by rw [Decimal.place]; dsimp only; omega),
    ← nearest?_units m, Decimal.nearest?]
  refine nearest?_congr (by positivity) Nat.one_pos ?_
  rw [Magnitude.units, unitsPerOne, places, Nat.pow_add]
  change m.significand * 2 ^ k * 1 * 2 ^ 1074 * 1 = _ * 1
  ring

/-- The exact decimal of a magnitude reads back to it. -/
lemma toMagnitude?_exact (nonzero : m.significand ≠ 0) : m.exact.toMagnitude? = some m := by
  rw [exact]
  split
  next low =>
    have places : (m.shift : Int) - 1074 = -((1074 - m.shift : Nat) : Int) := by omega
    rw [places]
    exact toMagnitude?_fraction nonzero (by omega)
  next high => exact toMagnitude?_whole nonzero (by omega)

/-- The digits chosen for a magnitude read back to it. -/
theorem toMagnitude?_shortest (tie : Tie) (m : Magnitude) :
    (m.shortest tie).toMagnitude? = some m := by
  rw [shortest]
  split
  next none =>
    have zero : m.units = zero.units := by rw [units, none, Nat.zero_mul]; rfl
    rw [units_inj zero]
    rfl
  next nonzero =>
    split
    next d chosen =>
      obtain ⟨count, -, chosen⟩ := List.exists_of_findSome?_eq_some chosen
      rw [Decimal.toMagnitude?_normalize, toMagnitude?_of_candidate? chosen]
    next => exact toMagnitude?_exact nonzero

end Magnitude

end LedEffect
