import LedEffect.Proofs.Number.Shortest

/-!
# Shortest digits of whole numbers

The shortest decimal of a magnitude has places behind the point exactly when the magnitude is not a
whole number (`Magnitude.exponent_shortest_nonneg_iff`).
-/

namespace LedEffect.Magnitude

variable {m : Magnitude} {n : Nat} {tie : Tie}

lemma units_zero : zero.units = 0 := Nat.zero_mul _

/-- A whole number is rounded to a whole number. -/
lemma dvd_rounded (whole : unitsPerOne ∣ n) : unitsPerOne ∣ rounded n := by
  rcases Nat.le_total (excess n) 1074 with short | long
  · -- The places that are rounded away hold zeros.
    have places : 2 ^ excess n ∣ n := by
      refine Nat.dvd_trans ?_ whole
      rw [unitsPerOne]
      exact pow_dvd_pow 2 short
    obtain ⟨q, parts⟩ := places
    have same : rounded n = n := by
      rw [rounded]
      conv_lhs => enter [1, 1]; rw [parts, Nat.mul_comm]
      rw [roundHalfEven_mul _ (by positivity), Nat.mul_comm, ← parts]
    exact same.symm ▸ whole
  · refine Nat.dvd_mul_left_of_dvd ?_ _
    rw [unitsPerOne]
    exact Nat.pow_dvd_pow 2 long

/-- A decimal without places behind the point reads as a whole number. -/
lemma dvd_units_of_toMagnitude? {d : Decimal} (whole : 0 ≤ d.exponent)
    (read : d.toMagnitude? = some m) : unitsPerOne ∣ m.units := by
  by_cases nonzero : d.coefficient = 0
  · rw [Decimal.toMagnitude?, if_pos nonzero] at read
    cases read
    exact units_zero ▸ Nat.dvd_zero _
  · rw [Decimal.toMagnitude?_of_ne_zero nonzero] at read
    split_ifs at read
    · cases read
      exact units_zero ▸ Nat.dvd_zero _
    · have places : (-d.exponent).toNat = 0 := by omega
      rw [Decimal.nearest?, places, Nat.pow_zero] at read
      rcases nearest?_eq (d.coefficient * 10 ^ d.exponent.toNat * unitsPerOne) with
        ⟨none, -⟩ | ⟨k, some, units, -⟩
      · cases read.symm.trans none
      · obtain rfl := Option.some_inj.1 (read.symm.trans some)
        exact units ▸ dvd_rounded (Nat.dvd_mul_left _ _)

/-- Without the zeros at its end a decimal has no more places behind the point. -/
lemma exponent_le_normalize (d : Decimal) : d.exponent ≤ d.normalize.exponent := by
  simp only [Decimal.normalize]
  omega

lemma inSteps_zero (m : Magnitude) : m.inSteps 0 = (m.units, unitsPerOne) := by
  show m.inSteps (.ofNat 0) = _
  rw [inSteps, Nat.pow_zero, Nat.mul_one]

/-- The candidates of a number of digits end at the same place. -/
lemma exponent_candidate? {count : Nat} {d : Decimal} (chosen : m.candidate? tie count = some d) :
    d.exponent = m.place - count := by
  unfold candidate? at chosen
  dsimp only at chosen
  split at chosen
  · obtain rfl := Option.some_inj.1 chosen
    split_ifs <;> rfl
  · obtain rfl := Option.some_inj.1 chosen
    rfl
  · obtain rfl := Option.some_inj.1 chosen
    rfl
  · cases chosen

/-- A whole number of at most 17 digits is a candidate with all of them. -/
lemma exists_candidate? {k : Nat} (tie : Tie) (units : m.units = k * unitsPerOne)
    (place : m.place = (digitsOf k).length) (short : (digitsOf k).length ≤ 17) :
    ∃ d, m.candidate? tie (digitsOf k).length = some d := by
  have read : (⟨k, 0⟩ : Decimal).toMagnitude? = some m := by
    rcases Nat.eq_zero_or_pos k with rfl | pos
    · have zero : m.units = zero.units := units.trans ((Nat.zero_mul _).trans units_zero.symm)
      rw [units_inj zero]
      rfl
    · rw [Decimal.toMagnitude?_eq_nearest? pos.ne' (by simp only [Decimal.place]; omega)
        (by simp only [Decimal.place]; omega), Decimal.nearest?]
      have eq : k * 10 ^ (0 : Int).toNat * unitsPerOne = m.units := by
        rw [units]
        simp
      exact (congrArg (Magnitude.nearest? · 1) eq).trans (nearest?_units m)
  have steps : m.inSteps (m.place - (digitsOf k).length) = (m.units, unitsPerOne) := by
    rw [place, Int.sub_self]
    exact inSteps_zero m
  have low : m.units / unitsPerOne = k := by
    rw [units, Nat.mul_div_cancel _ unitsPerOne_pos]
  unfold candidate?
  dsimp only
  rw [steps]
  dsimp only
  rw [low, place, Int.sub_self, read, beq_self_eq_true]
  cases (⟨k + 1, 0⟩ : Decimal).toMagnitude? == some m <;> exact ⟨_, rfl⟩

lemma place_of_whole {k : Nat} (units : m.units = k * unitsPerOne) (some : k ≠ 0) :
    m.place = (digitsOf k).length := by
  have one : unitsPerOne ≤ m.units := units ▸ Nat.le_mul_of_pos_left _ (Nat.pos_of_ne_zero some)
  rw [Magnitude.place, if_pos one, units, Nat.mul_div_cancel _ unitsPerOne_pos]

/-- A whole number whose significand is not shifted left has at most 17 digits. -/
lemma length_digitsOf_le_of_shift {k : Nat} (units : m.units = k * unitsPerOne)
    (fraction : m.shift ≤ 1074) : (digitsOf k).length ≤ 17 := by
  have power : 2 ^ m.shift ≤ unitsPerOne := by
    rw [unitsPerOne]
    exact Nat.pow_le_pow_right (by decide) fraction
  have bound : k * unitsPerOne < 2 ^ 53 * unitsPerOne := by
    rw [← units, Magnitude.units]
    exact Nat.mul_lt_mul_of_lt_of_le m.canonical.1 power unitsPerOne_pos
  have small : k < 10 ^ 17 := (Nat.lt_of_mul_lt_mul_right bound).trans (by decide)
  exact (length_digitsOf_le (by decide)).2 small

/-- What is found first among the numbers below a bound is found no later than another hit. -/
lemma exists_le_of_findSome?_range {α : Type} {f : Nat → Option α} {bound j : Nat} {a b : α}
    (found : (List.range bound).findSome? f = some a) (below : j < bound) (hit : f j = some b) :
    ∃ i ≤ j, f i = some a := by
  obtain ⟨before, i, after, range, chosen, none⟩ := List.findSome?_eq_some_iff.1 found
  refine ⟨i, Nat.not_lt.1 fun late => ?_, chosen⟩
  have early : j ∈ before := by
    have ascending : (before ++ i :: after).Pairwise (· < ·) := range ▸ List.pairwise_lt_range
    have here : j ∈ List.range bound := List.mem_range.2 below
    rw [range, List.mem_append, List.mem_cons] at here
    rcases here with here | same | behind
    · exact here
    · omega
    · have := (List.pairwise_cons.1 (List.pairwise_append.1 ascending).2.1).1 j behind
      omega
  rw [none j early] at hit
  cases hit

/-- The shortest decimal of a whole number has no places behind the point. -/
lemma exponent_shortest_nonneg (whole : unitsPerOne ∣ m.units) : 0 ≤ (m.shortest tie).exponent := by
  rw [shortest]
  split
  · exact Int.le_refl 0
  next nonzero =>
    obtain ⟨k, units⟩ := whole
    rw [Nat.mul_comm] at units
    have some : k ≠ 0 := by
      rintro rfl
      rw [Nat.zero_mul, Magnitude.units] at units
      exact (Nat.mul_ne_zero nonzero (by positivity)) units
    have place := place_of_whole units some
    have length := List.length_pos_iff.2 (digitsOf_ne_nil k)
    -- With all its digits the number is a candidate, and so none with more digits is chosen.
    have hit (short : (digitsOf k).length ≤ 17) :
        ∃ d, m.candidate? tie ((digitsOf k).length - 1 + 1) = .some d := by
      rw [Nat.sub_add_cancel length]
      exact exists_candidate? tie units place short
    split
    next d chosen =>
      refine le_trans ?_ (exponent_le_normalize d)
      by_cases short : (digitsOf k).length ≤ 17
      · obtain ⟨_, hit⟩ := hit short
        obtain ⟨i, le, chosen⟩ := exists_le_of_findSome?_range chosen (by omega) hit
        rw [exponent_candidate? chosen, place]
        omega
      · obtain ⟨i, listed, chosen⟩ := List.exists_of_findSome?_eq_some chosen
        have bound := List.mem_range.1 listed
        rw [exponent_candidate? chosen, place]
        omega
    next none =>
      rw [exact]
      split
      next fraction =>
        have short := length_digitsOf_le_of_shift units fraction
        obtain ⟨d, hit⟩ := hit short
        have missing := List.findSome?_eq_none_iff.1 none ((digitsOf k).length - 1)
          (List.mem_range.2 (by omega))
        rw [hit] at missing
        cases missing
      next => exact Int.le_refl 0

/-- The shortest decimal has places behind the point exactly for a number that is not whole. -/
theorem exponent_shortest_nonneg_iff :
    0 ≤ (m.shortest tie).exponent ↔ unitsPerOne ∣ m.units :=
  ⟨fun whole => dvd_units_of_toMagnitude? whole (toMagnitude?_shortest tie m),
    exponent_shortest_nonneg⟩

end LedEffect.Magnitude
