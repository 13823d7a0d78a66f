import LedEffect.Number.Binary64
import Mathlib.Algebra.Order.Ring.Int
import Mathlib.Algebra.Order.Ring.Rat
import Mathlib.Data.Nat.Cast.Order.Ring
import Mathlib.Tactic.Positivity

/-!
# Rounding

A count of units is rounded to a whole multiple of a power of two (`Magnitude.rounded`), and what is
rounded past the largest double overflows. Rounding keeps the order of counts and leaves a magnitude
as it is. So a sum of distances does not fall when a weight is added to it (`IsDistance.le_add`), and
adding a weight keeps the order of distances (`IsDistance.add_le_add`).
-/

namespace LedEffect

/-! ## Halves to even -/

lemma le_roundHalfEven {num den k : Nat} (pos : 0 < den) (le : k * den ≤ num) :
    k ≤ roundHalfEven num den := by
  have quotient : k ≤ num / den := (Nat.le_div_iff_mul_le pos).2 le
  unfold roundHalfEven
  dsimp only
  split_ifs <;> omega

lemma roundHalfEven_le {num den k : Nat} (pos : 0 < den) (le : num ≤ k * den) :
    roundHalfEven num den ≤ k := by
  have quotient : num / den ≤ k := Nat.div_le_of_le_mul (by rwa [Nat.mul_comm])
  have parts := Nat.div_add_mod num den
  have rest := Nat.mod_lt num pos
  rcases quotient.lt_or_eq with less | same
  · unfold roundHalfEven
    dsimp only
    split_ifs <;> omega
  · have none : num % den = 0 := by
      rw [same, Nat.mul_comm] at parts
      omega
    simp [roundHalfEven, none, pos, quotient]

lemma roundHalfEven_mul (k : Nat) {den : Nat} (pos : 0 < den) : roundHalfEven (k * den) den = k :=
  (roundHalfEven_le pos le_rfl).antisymm (le_roundHalfEven pos le_rfl)

/-- Rounding keeps the order of fractions of one denominator. -/
lemma roundHalfEven_mono {a b den : Nat} (pos : 0 < den) (le : a ≤ b) :
    roundHalfEven a den ≤ roundHalfEven b den := by
  rcases (Nat.div_le_div_right (c := den) le).lt_or_eq with less | same
  · have above : (a / den + 1) * den ≤ b :=
      (Nat.mul_le_mul_right den less).trans (Nat.div_mul_le_self b den)
    have below : a ≤ (a / den + 1) * den := (Nat.lt_mul_of_div_lt (Nat.lt_succ_self _) pos).le
    exact (roundHalfEven_le pos below).trans (le_roundHalfEven pos above)
  · have rests : a % den ≤ b % den := by
      have parts := Nat.div_add_mod a den
      have parts' := Nat.div_add_mod b den
      rw [same] at parts
      omega
    unfold roundHalfEven
    dsimp only
    rw [same]
    split_ifs <;> omega

lemma roundHalfEven_mul_left {k : Nat} (pos : 0 < k) (num den : Nat) :
    roundHalfEven (k * num) (k * den) = roundHalfEven num den := by
  have less : ∀ a b, k * a < k * b ↔ a < b := fun a b => Nat.mul_lt_mul_left pos
  simp only [roundHalfEven, Nat.mul_div_mul_left _ _ pos, Nat.mul_mod_mul_left,
    Nat.mul_left_comm 2 k, less]

/-- What is at least half of one below an even number is rounded to no less than it. -/
lemma le_roundHalfEven_of_even {num den k : Nat} (pos : 0 < den) (even : (k + 1) % 2 = 0)
    (le : (2 * k + 1) * den ≤ 2 * num) : k + 1 ≤ roundHalfEven num den := by
  rw [Nat.add_mul, Nat.one_mul, Nat.mul_assoc] at le
  have quotient : k ≤ num / den := (Nat.le_div_iff_mul_le pos).2 (by omega)
  have parts := Nat.div_add_mod' num den
  have rest := Nat.mod_lt num pos
  unfold roundHalfEven
  dsimp only
  rcases quotient.lt_or_eq with less | same
  · split_ifs <;> omega
  · rw [← same] at parts ⊢
    split_ifs <;> omega

/-! ## Counts of units -/

namespace Magnitude

variable {n k : Nat} {m : Magnitude}

lemma unitsPerOne_pos : 0 < unitsPerOne := Nat.two_pow_pos 1074

lemma cast_unitsPerOne_pos : (0 : ℚ) < unitsPerOne := Nat.cast_pos.2 unitsPerOne_pos

/-- The units of the first power of two that is past the largest double. -/
def limit : Nat := 2 ^ 2098

lemma two_pow_le_limit : 2 ^ k ≤ limit ↔ k ≤ 2098 := by
  rw [limit, Nat.pow_le_pow_iff_right (by decide)]

lemma limit_le_two_pow : limit ≤ 2 ^ k ↔ 2098 ≤ k := by
  rw [limit, Nat.pow_le_pow_iff_right (by decide)]

/-- The rank of infinity is past the limit. -/
lemma cast_limit_le : (limit : Int) ≤ 2 ^ 2099 := by
  have le : limit ≤ 2 ^ 2099 := limit_le_two_pow.2 (by decide)
  exact_mod_cast le

/-- By how many binary places a count of units is longer than a significand. -/
def excess (n : Nat) : Nat := n.log2 - 52

/-- A count of units, rounded to the length of a significand. -/
def rounded (n : Nat) : Nat := roundHalfEven n (2 ^ excess n) * 2 ^ excess n

lemma lt_two_pow_excess (n : Nat) : n < 2 ^ 53 * 2 ^ excess n := by
  rw [← Nat.pow_add]
  exact Nat.lt_log2_self.trans_le (Nat.pow_le_pow_right (by decide) (by unfold excess; omega))

lemma two_pow_excess_le (long : excess n ≠ 0) : 2 ^ 52 * 2 ^ excess n ≤ n := by
  have some : n ≠ 0 := by
    rintro rfl
    exact long rfl
  rw [← Nat.pow_add]
  exact (Nat.pow_le_pow_right (by decide) (by unfold excess at *; omega)).trans
    (Nat.log2_self_le some)

lemma excess_mono (le : n ≤ k) : excess n ≤ excess k := by
  rcases Nat.eq_zero_or_pos n with rfl | pos
  · exact Nat.zero_le _
  · have log : n.log2 ≤ k.log2 :=
      (Nat.le_log2 (by omega)).2 ((Nat.log2_self_le (by omega)).trans le)
    unfold excess
    omega

lemma rounded_le (n : Nat) : rounded n ≤ 2 ^ 53 * 2 ^ excess n :=
  Nat.mul_le_mul_right _ (roundHalfEven_le (by positivity) (lt_two_pow_excess n).le)

lemma le_rounded (long : excess n ≠ 0) : 2 ^ 52 * 2 ^ excess n ≤ rounded n :=
  Nat.mul_le_mul_right _ (le_roundHalfEven (by positivity) (two_pow_excess_le long))

/-- Rounding keeps the order of counts. -/
lemma rounded_mono (le : n ≤ k) : rounded n ≤ rounded k := by
  rcases (excess_mono le).lt_or_eq with less | same
  · -- A longer count is rounded to at least the power of two that bounds the shorter one.
    calc rounded n ≤ 2 ^ 53 * 2 ^ excess n := rounded_le n
      _ = 2 ^ (53 + excess n) := (Nat.pow_add ..).symm
      _ ≤ 2 ^ (52 + excess k) := Nat.pow_le_pow_right (by decide) (by omega)
      _ = 2 ^ 52 * 2 ^ excess k := Nat.pow_add ..
      _ ≤ rounded k := le_rounded (by omega)
  · rw [rounded, rounded, same]
    exact Nat.mul_le_mul_right _ (roundHalfEven_mono (by positivity) le)

/-- A count that is no longer than a significand but for zeros at its end is left as it is. -/
lemma rounded_eq_self {count : Nat} (short : count < 2 ^ 53) (shift : Nat) :
    rounded (count * 2 ^ shift) = count * 2 ^ shift := by
  have places : excess (count * 2 ^ shift) ≤ shift := by
    rcases Nat.eq_zero_or_pos count with rfl | pos
    · rw [Nat.zero_mul]
      exact Nat.zero_le _
    · have bound : count * 2 ^ shift < 2 ^ (53 + shift) := by
        rw [Nat.pow_add]
        exact Nat.mul_lt_mul_of_pos_right short (by positivity)
      have := (Nat.log2_lt (by positivity)).2 bound
      unfold excess
      omega
  have parts : count * 2 ^ shift = count * 2 ^ (shift - excess (count * 2 ^ shift)) *
      2 ^ excess (count * 2 ^ shift) := by
    rw [Nat.mul_assoc, ← Nat.pow_add, Nat.sub_add_cancel places]
  rw [rounded]
  conv_lhs => enter [1, 1]; rw [parts]
  rw [roundHalfEven_mul _ (by positivity), ← parts]

lemma rounded_two_pow (shift : Nat) : rounded (2 ^ shift) = 2 ^ shift := by
  have eq := rounded_eq_self (show 1 < 2 ^ 53 by decide) shift
  rwa [Nat.one_mul] at eq

lemma rounded_unitsPerOne : rounded unitsPerOne = unitsPerOne := rounded_two_pow 1074

/-- The significand of a fraction carries over to the next power of two when it is full. -/
lemma nearest?_unfold (num den : Nat) : nearest? num den =
    if h : roundHalfEven num (den * 2 ^ excess (num / den)) < 2 ^ 53 ∧ excess (num / den) ≤ 2045 ∧
        (excess (num / den) = 0 ∨ 2 ^ 52 ≤ roundHalfEven num (den * 2 ^ excess (num / den))) then
      some ⟨roundHalfEven num (den * 2 ^ excess (num / den)), excess (num / den), h⟩
    else if h : excess (num / den) + 1 ≤ 2045 then
      some ⟨2 ^ 52, excess (num / den) + 1, by decide, h, .inr (Nat.le_refl _)⟩
    else none := rfl

/-- The significand of a fraction is full only with its last place. -/
lemma significand_bounds (num : Nat) {den : Nat} (pos : 0 < den) :
    roundHalfEven num (den * 2 ^ excess (num / den)) ≤ 2 ^ 53 ∧ (excess (num / den) = 0 ∨
      2 ^ 52 ≤ roundHalfEven num (den * 2 ^ excess (num / den))) := by
  constructor
  · have quotient := Nat.lt_mul_of_div_lt (lt_two_pow_excess (num / den)) pos
    rw [Nat.mul_right_comm, Nat.mul_assoc] at quotient
    exact roundHalfEven_le (by positivity) quotient.le
  · refine (Classical.em _).imp_right fun long => le_roundHalfEven (by positivity) ?_
    rw [Nat.mul_left_comm]
    exact (Nat.mul_le_mul_left den (two_pow_excess_le long)).trans (Nat.mul_div_le num den)

/-- The magnitude nearest to a count is the rounded count, unless that is past the largest double. -/
lemma nearest?_eq (n : Nat) :
    (nearest? n 1 = none ∧ limit ≤ rounded n) ∨
      ∃ m, nearest? n 1 = some m ∧ m.units = rounded n ∧ rounded n < limit := by
  obtain ⟨most, least⟩ := significand_bounds n Nat.one_pos
  have unfolded := nearest?_unfold n 1
  simp only [Nat.div_one, Nat.one_mul] at most least unfolded
  rw [unfolded]
  split_ifs with fits carry
  · refine .inr ⟨_, rfl, rfl, ?_⟩
    calc rounded n < 2 ^ 53 * 2 ^ excess n := Nat.mul_lt_mul_of_pos_right fits.1 (by positivity)
      _ = 2 ^ (53 + excess n) := (Nat.pow_add ..).symm
      _ ≤ limit := two_pow_le_limit.2 (by omega)
  · have full : roundHalfEven n (2 ^ excess n) = 2 ^ 53 := by
      by_contra less
      exact fits ⟨by omega, by omega, least⟩
    have eq : rounded n = 2 ^ 53 * 2 ^ excess n := by rw [rounded, full]
    refine .inr ⟨_, rfl, ?_, ?_⟩
    · change 2 ^ 52 * 2 ^ (excess n + 1) = rounded n
      rw [eq, ← Nat.pow_add, ← Nat.pow_add]
      congr 1
      omega
    · rw [eq, ← Nat.pow_add]
      exact Nat.lt_of_not_le fun past => by
        have := limit_le_two_pow.1 past
        omega
  · refine .inl ⟨rfl, ?_⟩
    rcases Nat.lt_or_ge 2045 (excess n) with long | short
    · calc limit ≤ 2 ^ (52 + excess n) := limit_le_two_pow.2 (by omega)
        _ = 2 ^ 52 * 2 ^ excess n := Nat.pow_add ..
        _ ≤ rounded n := le_rounded (by omega)
    · have last : excess n = 2045 := by omega
      have full : roundHalfEven n (2 ^ excess n) = 2 ^ 53 := by
        by_contra less
        exact fits ⟨by omega, by omega, least⟩
      rw [rounded, full, ← Nat.pow_add]
      exact limit_le_two_pow.2 (by omega)

lemma nearest?_mul_left {k : Nat} (pos : 0 < k) (num den : Nat) :
    nearest? (k * num) (k * den) = nearest? num den := by
  simp only [nearest?, Nat.mul_div_mul_left _ _ pos, Nat.mul_assoc, roundHalfEven_mul_left pos]

/-- Fractions of one value have the same nearest magnitude. -/
lemma nearest?_congr {num den num' den' : Nat} (pos : 0 < den) (pos' : 0 < den')
    (same : num * den' = num' * den) : nearest? num den = nearest? num' den' := by
  rw [← nearest?_mul_left pos' num den, ← nearest?_mul_left pos num' den', Nat.mul_comm den' num, same,
    Nat.mul_comm num', Nat.mul_comm den']

/-- A magnitude has as many places behind its significand as its shift says. -/
lemma excess_units (m : Magnitude) : excess m.units = m.shift := by
  obtain ⟨significand, shift, short, -, normal⟩ := m
  change excess (significand * 2 ^ shift) = shift
  rcases Nat.eq_zero_or_pos shift with rfl | pos
  · rcases Nat.eq_zero_or_pos significand with rfl | some
    · rfl
    · have := (Nat.log2_lt some.ne').2 short
      rw [Nat.pow_zero, Nat.mul_one, excess]
      omega
  · have full := normal.resolve_left pos.ne'
    have some : significand ≠ 0 := by omega
    have log : (significand * 2 ^ shift).log2 = 52 + shift := by
      refine (Nat.log2_eq_iff (by positivity)).2 ⟨?_, ?_⟩
      · rw [Nat.pow_add]
        exact Nat.mul_le_mul_right _ full
      · rw [show 52 + shift + 1 = 53 + shift by omega, Nat.pow_add]
        exact Nat.mul_lt_mul_of_pos_right short (by positivity)
    rw [excess, log]
    omega

/-- A magnitude is the nearest one to its own count of units. -/
lemma nearest?_units (m : Magnitude) : nearest? m.units 1 = some m := by
  have places := excess_units m
  obtain ⟨significand, shift, canonical⟩ := m
  have exact : roundHalfEven (significand * 2 ^ shift) (2 ^ shift) = significand :=
    roundHalfEven_mul significand (by positivity)
  rw [excess, units] at places
  simp only [nearest?, units, Nat.div_one, Nat.one_mul, places, exact]
  exact dif_pos canonical

/-- A fraction that is at most a magnitude does not overflow. -/
lemma exists_nearest? {num den : Nat} (pos : 0 < den) (m : Magnitude) (le : num ≤ m.units * den) :
    ∃ k, nearest? num den = some k := by
  have quotient : num / den ≤ m.units := Nat.div_le_of_le_mul (by rwa [Nat.mul_comm])
  have places : excess (num / den) ≤ m.shift := excess_units m ▸ excess_mono quotient
  have inside := m.canonical.2.1
  have short := m.canonical.1
  rw [nearest?_unfold]
  split_ifs with fits carry
  · exact ⟨_, rfl⟩
  · exact ⟨_, rfl⟩
  · -- The fraction is as long as the magnitude, so it is rounded to at most its significand.
    exfalso
    have last : excess (num / den) = m.shift := by omega
    have positive : 0 < den * 2 ^ excess (num / den) := by positivity
    refine fits ⟨?_, by omega, .inr (le_roundHalfEven positive ?_)⟩
    · refine (roundHalfEven_le positive (k := m.significand) ?_).trans_lt short
      rw [last, Nat.mul_left_comm, ← units, Nat.mul_comm den]
      exact le
    · rw [Nat.mul_left_comm]
      exact (Nat.mul_le_mul_left den (two_pow_excess_le (by omega))).trans (Nat.mul_div_le num den)

lemma rounded_units (m : Magnitude) : rounded m.units = m.units ∧ m.units < limit := by
  rcases nearest?_eq m.units with ⟨none, -⟩ | ⟨k, some, units, below⟩
  · rw [nearest?_units] at none
    cases none
  · rw [nearest?_units] at some
    cases some
    exact ⟨units.symm, units ▸ below⟩

lemma units_inj {k : Magnitude} (same : m.units = k.units) : m = k := by
  have := nearest?_units m
  rw [same, nearest?_units] at this
  exact (Option.some_inj.1 this).symm

end Magnitude

/-! ## Distances -/

namespace Binary64

variable {x y w : Binary64} {m : Magnitude}

/-- What a distance is: a number from zero up, or infinity. -/
def IsDistance : Binary64 → Prop
  | nan _ => False
  | infinite negative | finite negative _ => negative = false

/-- What the weight of an edge is: a finite number that is not below zero. Negative zero is one. -/
structure IsWeight (w : Binary64) : Prop where
  isFinite : w.isFinite = true
  nonnegative : w.lt zero = false

lemma isWeight_iff : w.IsWeight ↔ w.isFinite = true ∧ w.lt zero = false :=
  ⟨fun weight => ⟨weight.isFinite, weight.nonnegative⟩, fun good => ⟨good.1, good.2⟩⟩

lemma isDistance_zero : zero.IsDistance := rfl

lemma isDistance_infinite : (infinite false).IsDistance := rfl

lemma IsDistance.eq (hx : x.IsDistance) : x = infinite false ∨ ∃ m, x = finite false m := by
  cases x with
  | nan => exact hx.elim
  | infinite s =>
    cases (hx : s = false)
    exact .inl rfl
  | finite s m =>
    cases (hx : s = false)
    exact .inr ⟨m, rfl⟩

/-- The double nearest to a count of units is a distance, and its rank is the rounded count or that
of infinity. -/
lemma ofMagnitude?_nearest (n : Nat) :
    (ofMagnitude? false (Magnitude.nearest? n 1)).IsDistance ∧
      (ofMagnitude? false (Magnitude.nearest? n 1)).rank =
        if Magnitude.rounded n < Magnitude.limit then (Magnitude.rounded n : Int) else 2 ^ 2099 := by
  rcases Magnitude.nearest?_eq n with ⟨none, past⟩ | ⟨m, some, units, below⟩
  · rw [none, if_neg (by omega)]
    exact ⟨rfl, rfl⟩
  · rw [some, if_pos below, ← units]
    exact ⟨rfl, rfl⟩

lemma rank_nearest_mono {n k : Nat} (le : n ≤ k) :
    (ofMagnitude? false (Magnitude.nearest? n 1)).rank ≤
      (ofMagnitude? false (Magnitude.nearest? k 1)).rank := by
  rw [(ofMagnitude?_nearest n).2, (ofMagnitude?_nearest k).2]
  have mono := Magnitude.rounded_mono le
  have limit := Magnitude.cast_limit_le
  split_ifs <;> omega

lemma rank_lt_infinite (x : Magnitude) : (finite false x).rank < (infinite false).rank := by
  have below := (Magnitude.rounded_units x).2
  have limit := Magnitude.cast_limit_le
  change (x.units : Int) < 2 ^ 2099
  omega

lemma IsDistance.rank_inj (hx : x.IsDistance) (hy : y.IsDistance) (same : x.rank = y.rank) :
    x = y := by
  rcases hx.eq with rfl | ⟨a, rfl⟩ <;> rcases hy.eq with rfl | ⟨b, rfl⟩
  · rfl
  · exact absurd same.symm (rank_lt_infinite b).ne
  · exact absurd same (rank_lt_infinite a).ne
  · rw [Magnitude.units_inj (Int.ofNat_inj.1 same)]

/-- Distances compare as their ranks do. -/
lemma IsDistance.compare?_eq (hx : x.IsDistance) (hy : y.IsDistance) :
    compare? x y = some (compare x.rank y.rank) := by
  rcases hx.eq with rfl | ⟨a, rfl⟩ <;> rcases hy.eq with rfl | ⟨b, rfl⟩
  · simp [compare?]
  · rw [compare_gt_iff_gt.2 (rank_lt_infinite b)]
    rfl
  · rw [compare_lt_iff_lt.2 (rank_lt_infinite a)]
    rfl
  · rfl

/-- Of two distances the lesser one has the lesser rank. -/
lemma IsDistance.lt_iff (hx : x.IsDistance) (hy : y.IsDistance) :
    x.lt y = true ↔ x.rank < y.rank := by
  simp [lt, hx.compare?_eq hy, compare_lt_iff_lt]

lemma IsDistance.le_iff (hx : x.IsDistance) (hy : y.IsDistance) :
    x.le y = true ↔ x.rank ≤ y.rank := by
  simp [le, hx.compare?_eq hy, compare_lt_iff_lt, le_iff_lt_or_eq]

lemma IsDistance.rank_le (hx : x.IsDistance) : x.rank ≤ (infinite false).rank := by
  rcases hx.eq with rfl | ⟨m, rfl⟩
  · exact le_rfl
  · exact (rank_lt_infinite m).le

/-- A distance is finite unless it is infinity. -/
lemma IsDistance.isFinite_eq_false (hx : x.IsDistance) : x.isFinite = false ↔ x = infinite false := by
  rcases hx.eq with rfl | ⟨m, rfl⟩
  · exact iff_of_true rfl rfl
  · exact iff_of_false nofun nofun

lemma isWeight_finite_iff {s : Bool} {k : Magnitude} :
    (finite s k).IsWeight ↔ 0 ≤ signedUnits s k := by
  have zero : signedUnits false Magnitude.zero = 0 := rfl
  have sign : (finite s k).lt Binary64.zero = false ↔ 0 ≤ signedUnits s k := by
    simp [lt, compare?, Binary64.zero, zero, Int.compare_eq_lt]
  exact ⟨fun weight => sign.1 weight.nonnegative, fun above => ⟨rfl, sign.2 above⟩⟩

/-- Below the first power of two past the significands a whole number is itself a double. -/
lemma exists_ofNat_of_short {n : Nat} (short : n < 2 ^ 53) :
    ∃ m, ofNat n = finite false m ∧ m.units = n * Magnitude.unitsPerOne := by
  have self : Magnitude.rounded (n * Magnitude.unitsPerOne) = n * Magnitude.unitsPerOne :=
    Magnitude.rounded_eq_self short 1074
  rcases Magnitude.nearest?_eq (n * Magnitude.unitsPerOne) with ⟨-, past⟩ | ⟨m, eq, units, -⟩
  · have below : n * Magnitude.unitsPerOne < Magnitude.limit := by
      calc n * Magnitude.unitsPerOne < 2 ^ 53 * Magnitude.unitsPerOne :=
            Nat.mul_lt_mul_of_pos_right short Magnitude.unitsPerOne_pos
        _ ≤ Magnitude.limit := by
          rw [Magnitude.unitsPerOne, ← Nat.pow_add]
          exact Magnitude.two_pow_le_limit.2 (by decide)
    omega
  · exact ⟨m, congrArg (ofMagnitude? false) eq, units.trans self⟩

lemma isWeight_one : (1 : Binary64).IsWeight := by
  obtain ⟨m, one, -⟩ := exists_ofNat_of_short (show 1 < 2 ^ 53 by decide)
  change (ofNat 1).IsWeight
  rw [one]
  exact isWeight_finite_iff.2 (Int.natCast_nonneg _)

/-- The units of a finite number without its sign. -/
def absUnits : Binary64 → Nat
  | finite _ m => m.units
  | _ => 0

/-- A weight with a sign is the negative zero, so the sign does not matter. -/
lemma IsWeight.signedUnits_eq {s : Bool} {k : Magnitude} (hw : (finite s k).IsWeight) :
    signedUnits s k = k.units := by
  have above := isWeight_finite_iff.1 hw
  cases s with
  | false => rfl
  | true =>
    change 0 ≤ -(k.units : Int) at above
    change -(k.units : Int) = k.units
    omega

/-- A weight adds its units to a distance, and the sum is rounded once. -/
lemma IsWeight.finite_add (hw : w.IsWeight) (m : Magnitude) :
    finite false m + w = ofMagnitude? false (Magnitude.nearest? (m.units + w.absUnits) 1) := by
  cases w with
  | finite s k =>
    change ofUnits (false && s) ((m.units : Int) + signedUnits s k) =
      ofMagnitude? false (Magnitude.nearest? (m.units + k.units) 1)
    rw [hw.signedUnits_eq, ← Int.natCast_add, ofUnits]
    split_ifs with none
    · rw [Int.natCast_eq_zero.1 none]
      rfl
    · rw [Int.natAbs_natCast, decide_eq_false (by omega)]
  | _ => cases hw.isFinite

lemma IsWeight.infinite_add (hw : w.IsWeight) : infinite false + w = infinite false := by
  cases w with
  | finite s k => rfl
  | _ => cases hw.isFinite

lemma IsDistance.add (hx : x.IsDistance) (hw : w.IsWeight) : (x + w).IsDistance := by
  rcases hx.eq with rfl | ⟨m, rfl⟩
  · rw [hw.infinite_add]
    rfl
  · rw [hw.finite_add m]
    exact (ofMagnitude?_nearest _).1

/-- A distance does not fall when a weight is added. -/
lemma IsDistance.le_add (hx : x.IsDistance) (hw : w.IsWeight) : x.rank ≤ (x + w).rank := by
  rcases hx.eq with rfl | ⟨m, rfl⟩
  · rw [hw.infinite_add]
  · have alone : finite false m = ofMagnitude? false (Magnitude.nearest? m.units 1) := by
      rw [Magnitude.nearest?_units]
      rfl
    calc (finite false m).rank = _ := congrArg rank alone
      _ ≤ _ := rank_nearest_mono (Nat.le_add_right m.units w.absUnits)
      _ = _ := congrArg rank (hw.finite_add m).symm

/-- Adding a weight keeps the order of distances. -/
lemma IsDistance.add_le_add (hx : x.IsDistance) (hy : y.IsDistance) (hw : w.IsWeight)
    (le : x.rank ≤ y.rank) : (x + w).rank ≤ (y + w).rank := by
  rcases hy.eq with rfl | ⟨b, rfl⟩
  · rw [hw.infinite_add]
    exact (hx.add hw).rank_le
  · rcases hx.eq with rfl | ⟨a, rfl⟩
    · exact absurd le (rank_lt_infinite b).not_ge
    · have units : a.units ≤ b.units := Int.ofNat_le.1 le
      rw [hw.finite_add, hw.finite_add]
      exact rank_nearest_mono (Nat.add_le_add_right units w.absUnits)

/-- What an operation that adds weights to distances needs: the sum is a distance, it is no less than
the distance, and it keeps the order of distances. -/
structure Accumulates (sum : Binary64 → Binary64 → Binary64) : Prop where
  isDistance {x w : Binary64} : x.IsDistance → w.IsWeight → (sum x w).IsDistance
  le_sum {x w : Binary64} : x.IsDistance → w.IsWeight → x.le (sum x w)
  mono {x y w : Binary64} : x.IsDistance → y.IsDistance → w.IsWeight → x.le y →
    (sum x w).le (sum y w)

namespace Accumulates

variable {sum : Binary64 → Binary64 → Binary64}

lemma rank_le_sum (adds : Accumulates sum) (hx : x.IsDistance) (hw : w.IsWeight) :
    x.rank ≤ (sum x w).rank :=
  (hx.le_iff (adds.isDistance hx hw)).1 (adds.le_sum hx hw)

lemma rank_mono (adds : Accumulates sum) (hx : x.IsDistance) (hy : y.IsDistance) (hw : w.IsWeight)
    (le : x.rank ≤ y.rank) : (sum x w).rank ≤ (sum y w).rank :=
  ((adds.isDistance hx hw).le_iff (adds.isDistance hy hw)).1
    (adds.mono hx hy hw ((hx.le_iff hy).2 le))

/-- The rounded sum of numbers is such an operation. -/
lemma add : Accumulates (· + ·) where
  isDistance := IsDistance.add
  le_sum hx hw := (hx.le_iff (hx.add hw)).2 (hx.le_add hw)
  mono hx hy hw le := ((hx.add hw).le_iff (hy.add hw)).2 (hx.add_le_add hy hw ((hx.le_iff hy).1 le))

lemma isDistance_ones (adds : Accumulates sum) (k : Nat) : ((sum · 1)^[k] zero).IsDistance := by
  induction k with
  | zero => exact isDistance_zero
  | succ k ih =>
    rw [Function.iterate_succ_apply']
    exact adds.isDistance ih isWeight_one

/-- What ones add up to does not fall with their number. -/
lemma rank_ones_le (adds : Accumulates sum) {k n : Nat} (le : k ≤ n) :
    ((sum · 1)^[k] zero).rank ≤ ((sum · 1)^[n] zero).rank := by
  induction le with
  | refl => exact le_rfl
  | step _ ih =>
    rw [Function.iterate_succ_apply']
    exact ih.trans (adds.rank_le_sum (adds.isDistance_ones _) isWeight_one)

end Accumulates

/-! ## Whole numbers -/

lemma ofNat_add_one {n : Nat} (short : n < 2 ^ 53) : ofNat n + 1 = ofNat (n + 1) := by
  obtain ⟨m, eq, units⟩ := exists_ofNat_of_short short
  obtain ⟨one, eq_one, units_one⟩ := exists_ofNat_of_short (show 1 < 2 ^ 53 by decide)
  have sum : (m.units + one.units : Int) = ((n + 1) * Magnitude.unitsPerOne : Nat) := by
    rw [units, units_one, Nat.add_mul]
    rfl
  have positive : (n + 1) * Magnitude.unitsPerOne ≠ 0 :=
    (Nat.mul_pos n.succ_pos Magnitude.unitsPerOne_pos).ne'
  change ofNat n + ofNat 1 = _
  rw [eq, eq_one]
  change ofUnits false ((m.units : Int) + one.units) = _
  rw [sum, ofUnits, if_neg (Int.natCast_ne_zero.2 positive), Int.natAbs_natCast,
    decide_eq_false (by omega)]
  rfl

/-- So many additions of one come to a whole number, as long as it is a double itself. -/
lemma iterate_add_one {n : Nat} (short : n ≤ 2 ^ 53) : (· + 1)^[n] zero = ofNat n := by
  induction n with
  | zero =>
    obtain ⟨m, eq, units⟩ := exists_ofNat_of_short (Nat.two_pow_pos 53)
    have none : m = .zero := Magnitude.units_inj (units.trans (Nat.zero_mul _))
    rw [eq, none]
    rfl
  | succ n ih => rw [Function.iterate_succ_apply', ih (Nat.le_of_succ_le short), ofNat_add_one short]

end Binary64

end LedEffect
