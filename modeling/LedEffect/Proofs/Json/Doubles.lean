import LedEffect.Proofs.Json.Values
import LedEffect.Proofs.Number.Shortest

/-!
# Doubles as they are read

The reader makes a word of the leading digits and scales it by a power of ten, with a rounding at each of
the two steps. What it reads from a literal without a sign is a weight (`isWeight_of_double?`), and so is
what the digits of a weight are read as (`IsWeight.reread`).
-/

namespace LedEffect

open Binary64

/-! ## Powers of ten -/

lemma ten_pow_le_two_pow : 10 ^ 308 ≤ 3 * 2 ^ 1022 :=
  calc 10 ^ 308 = (5 ^ 28) ^ 11 * 2 ^ 308 := by rw [← Nat.pow_mul, ← Nat.mul_pow]
    _ ≤ (65 * 2 ^ 59) ^ 11 * 2 ^ 308 := Nat.mul_le_mul_right _ (Nat.pow_le_pow_left (by decide) 11)
    _ = 65 ^ 11 * 2 ^ 957 := by rw [Nat.mul_pow, ← Nat.pow_mul, Nat.mul_assoc, ← Nat.pow_add]
    _ ≤ 3 * 2 ^ 65 * 2 ^ 957 := Nat.mul_le_mul_right _ (by decide)
    _ = 3 * 2 ^ 1022 := by rw [Nat.mul_assoc, ← Nat.pow_add]

/-- The last power of ten that a double holds is not past the largest double. -/
lemma Magnitude.rounded_ten_pow_lt : rounded (10 ^ 308 * unitsPerOne) < limit :=
  calc rounded (10 ^ 308 * unitsPerOne)
    _ ≤ rounded (3 * 2 ^ 1022 * unitsPerOne) := rounded_mono (Nat.mul_le_mul_right _ ten_pow_le_two_pow)
    _ = 3 * 2 ^ 2096 := by
        rw [unitsPerOne, Nat.mul_assoc, ← Nat.pow_add, rounded_eq_self (by decide)]
    _ < 4 * 2 ^ 2096 := Nat.mul_lt_mul_of_pos_right (by decide) (Nat.two_pow_pos 2096)
    _ = limit := by rw [limit, ← Nat.pow_add 2 2 2096]

/-- A natural number up to a power of ten that is a double is read as its rounded count of units. -/
lemma Binary64.exists_ofNat {n exponent : Nat} (small : n ≤ 10 ^ exponent) (inside : exponent ≤ 308) :
    ∃ m : Magnitude,
      ofNat n = finite false m ∧ m.units = Magnitude.rounded (n * Magnitude.unitsPerOne) := by
  have power : 10 ^ exponent ≤ 10 ^ 308 := Nat.pow_le_pow_right (by decide) inside
  have below := Magnitude.rounded_mono
    (Nat.mul_le_mul_right Magnitude.unitsPerOne (small.trans power))
  rw [ofNat, ofRatio]
  rcases Magnitude.nearest?_eq (n * Magnitude.unitsPerOne) with ⟨-, past⟩ | ⟨m, some, units, -⟩
  · exact absurd (past.trans below) (Nat.not_le.2 Magnitude.rounded_ten_pow_lt)
  · exact ⟨m, by rw [some]; rfl, units⟩

namespace Json

variable {word exponent : Nat} {e : Int} {x y : Binary64} {digits : List Char}

/-- Words are finite doubles. -/
lemma exists_word (small : word ≤ wordLimit) : ∃ m : Magnitude,
    ofNat word = finite false m ∧ m.units = Magnitude.rounded (word * Magnitude.unitsPerOne) :=
  exists_ofNat (small.trans (by decide : wordLimit ≤ 10 ^ 20)) (by decide)

lemma takeWord_le (small : word ≤ wordLimit) : (takeWord word digits).1 ≤ wordLimit := by
  induction digits generalizing word with
  | nil => exact small
  | cons c digits ih =>
    rw [takeWord]
    split
    next fits => exact ih fits
    next => exact small

/-- A power of ten that is a double is at least one. -/
lemma exists_power (inside : exponent ≤ 308) : ∃ m : Magnitude,
    ofNat (10 ^ exponent) = finite false m ∧ Magnitude.unitsPerOne ≤ m.units := by
  obtain ⟨m, eq, units⟩ := exists_ofNat (Nat.le_refl (10 ^ exponent)) inside
  refine ⟨m, eq, ?_⟩
  rw [units]
  calc Magnitude.unitsPerOne = Magnitude.rounded Magnitude.unitsPerOne :=
        Magnitude.rounded_unitsPerOne.symm
    _ ≤ Magnitude.rounded (10 ^ exponent * Magnitude.unitsPerOne) :=
        Magnitude.rounded_mono (Nat.le_mul_of_pos_left _ (Nat.pow_pos (by decide)))

/-- A quotient by a power of ten is finite. -/
lemma exists_div_power (inside : exponent ≤ 308) (a : Magnitude) :
    ∃ k, finite false a / ofNat (10 ^ exponent) = finite false k := by
  obtain ⟨b, eq, one⟩ := exists_power inside
  have positive : 0 < b.units := lt_of_lt_of_le Magnitude.unitsPerOne_pos one
  obtain ⟨k, near⟩ := Magnitude.exists_nearest? positive a (Nat.mul_le_mul_left a.units one)
  refine ⟨k, ?_⟩
  rw [eq]
  change Binary64.div _ _ = _
  rw [Binary64.div, if_neg positive.ne', near]
  rfl

/-- A product with a power of ten is finite or infinity. -/
lemma mul_power (inside : exponent ≤ 308) (a : Magnitude) :
    finite false a * ofNat (10 ^ exponent) = infinite false ∨
      ∃ k, finite false a * ofNat (10 ^ exponent) = finite false k := by
  obtain ⟨b, eq, -⟩ := exists_power inside
  rw [eq]
  change Binary64.mul _ _ = _ ∨ ∃ k, Binary64.mul _ _ = _
  rw [Binary64.mul]
  cases Magnitude.nearest? (a.units * b.units) Magnitude.unitsPerOne with
  | none => exact .inl rfl
  | some k => exact .inr ⟨k, rfl⟩

/-- A number from zero up is scaled to such a number. -/
lemma scale?_finite {a : Magnitude} (scaled : scale? (finite false a) e = some y) :
    ∃ k, y = finite false k := by
  generalize start : finite false a = x at scaled
  fun_induction scale? x e generalizing a with
  | case1 => cases scaled
  | case2 x e inside up product =>
    rename_i fits
    subst start
    obtain rfl := Option.some_inj.1 scaled
    exact (mul_power inside a).resolve_left fun past => fits (congrArg isInfinite past)
  | case3 x e inside down =>
    subst start
    obtain rfl := Option.some_inj.1 scaled
    exact exists_div_power inside a
  | case4 x e outside zero =>
    obtain rfl := Option.some_inj.1 scaled
    exact ⟨a, start.symm⟩
  | case5 => cases scaled
  | case6 x e outside some down ih =>
    subst start
    obtain ⟨k, eq⟩ := exists_div_power (Nat.le_refl 308) a
    exact ih eq.symm scaled

/-! ## Literals without a sign -/

variable {n : NumberLiteral}

lemma isWeight_finite (a : Magnitude) : (finite false a).IsWeight :=
  isWeight_finite_iff.2 (Int.natCast_nonneg _)

/-- What is read from a literal without a sign is a weight. -/
lemma isWeight_of_toDouble? (unsigned : n.negative = false) (read : n.toDouble? = some y) :
    y.IsWeight := by
  have word := @takeWord_le (takeWord 0 n.whole).1 n.fraction
    (@takeWord_le 0 n.whole (Nat.zero_le _))
  obtain ⟨a, eq, -⟩ := exists_word word
  have scaled : ∀ e, scale? (finite false a) e = some y → y.IsWeight := by
    intro e scaled
    obtain ⟨k, rfl⟩ := scale?_finite scaled
    exact isWeight_finite k
  unfold NumberLiteral.toDouble? at read
  simp only [unsigned, Bool.false_eq_true, if_false, eq] at read
  split at read
  · exact scaled _ (by simpa using read)
  · split_ifs at read with past left sign
    · obtain rfl := Option.some_inj.1 read
      exact isWeight_finite _
    all_goals exact scaled _ (by simpa using read)

/-- What a literal without a sign denotes is a weight. -/
lemma isWeight_of_double? (unsigned : n.negative = false)
    (read : (Document.number n).double? = some y) : y.IsWeight := by
  unfold Document.double? NumberLiteral.value? at read
  simp only [unsigned, Bool.not_false, if_true] at read
  split_ifs at read with whole
  · have word := @takeWord_le 0 n.whole (Nat.zero_le _)
    obtain ⟨a, eq, -⟩ := exists_word word
    obtain rfl := Option.some_inj.1 read
    change (ofNat _).IsWeight
    rw [Int.natAbs_natCast, eq]
    exact isWeight_finite a
  · cases double : n.toDouble? with
    | none =>
      rw [double] at read
      cases read
    | some x =>
      rw [double] at read
      obtain rfl := Option.some_inj.1 read
      exact isWeight_of_toDouble? unsigned double

end Json

/-! ## Printed doubles -/

/-- The double that the printed text of a double is read as. -/
def Binary64.reread? (x : Binary64) : Option Binary64 := (Json.document (.double x)).double?

lemma Binary64.reread?_zero (negative : Bool) :
    (finite negative .zero).reread? = some (finite negative .zero) := by
  cases negative <;> decide +kernel

/-- Whatever the digits of a weight are read as is a weight. -/
lemma Binary64.IsWeight.reread {w y : Binary64} (hw : w.IsWeight) (read : w.reread? = some y) :
    y.IsWeight := by
  cases w with
  | finite s m =>
    cases s with
    | false => exact Json.isWeight_of_double? (Json.negative_decimalLiteral false _) read
    | true =>
      -- The only weight with a sign is the negative zero.
      have units : m.units = 0 := by
        have above : 0 ≤ -(m.units : Int) := isWeight_finite_iff.1 hw
        omega
      obtain rfl : m = .zero := Magnitude.units_inj units
      obtain rfl := Option.some_inj.1 ((reread?_zero true).symm.trans read)
      exact hw
  | _ => cases hw.isFinite

end LedEffect
