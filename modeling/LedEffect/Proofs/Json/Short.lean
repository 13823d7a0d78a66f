import LedEffect.Proofs.Json.Doubles

/-!
# Short numbers read back

When the word of a literal and its power of ten are doubles, the reader rounds once, so that it reads what
the literal denotes (`value?_of_denotes`). Decimals with few digits on either side of the point are printed
as such literals, and a double with so short a decimal is read back (`Binary64.reread?_of_short`).
-/

namespace LedEffect

open Binary64

/-- At most fifteen digits, none of them above the fifteenth place before the point or past the
twenty-second behind it. -/
structure Decimal.Short (d : Decimal) : Prop where
  digits : d.coefficient < 10 ^ 15
  high : d.place ≤ 15
  low : -22 ≤ d.exponent

namespace Json

variable {word exponent : Nat} {e : Int} {m : Magnitude} {d : Decimal} {n : NumberLiteral}

/-! ## One rounding -/

/-- The powers of ten up to the twenty-second are doubles. -/
lemma rounded_power (small : exponent ≤ 22) : Magnitude.rounded (10 ^ exponent * Magnitude.unitsPerOne) =
    10 ^ exponent * Magnitude.unitsPerOne := by
  have parts : 10 ^ exponent * Magnitude.unitsPerOne = 5 ^ exponent * 2 ^ (exponent + 1074) := by
    rw [Magnitude.unitsPerOne, Nat.pow_add, ← Nat.mul_assoc, ← Nat.mul_pow]
  have short : 5 ^ exponent < 2 ^ 53 :=
    (Nat.pow_le_pow_right (by decide) small).trans_lt (by decide)
  rw [parts, Magnitude.rounded_eq_self short]

variable {a b : Magnitude}

/-- A product that is exact up to its last rounding. -/
lemma mul_eq (units : a.units = word * Magnitude.unitsPerOne)
    (power : b.units = 10 ^ exponent * Magnitude.unitsPerOne)
    (value : Decimal.nearest? ⟨word, exponent⟩ = some m) :
    finite false a * finite false b = finite false m := by
  have one := Magnitude.unitsPerOne_pos
  have product : Magnitude.nearest? (a.units * b.units) Magnitude.unitsPerOne = some m := by
    rw [← value, units, power, Decimal.nearest?]
    refine Magnitude.nearest?_congr one (by positivity) ?_
    have below : (-(exponent : Int)).toNat = 0 := by omega
    rw [Int.toNat_natCast, below]
    ring
  change Binary64.mul _ _ = _
  rw [Binary64.mul, product]
  rfl

/-- A quotient that is exact up to its last rounding. -/
lemma div_eq (units : a.units = word * Magnitude.unitsPerOne)
    (power : b.units = 10 ^ exponent * Magnitude.unitsPerOne)
    (value : Decimal.nearest? ⟨word, -(exponent : Int)⟩ = some m) :
    finite false a / finite false b = finite false m := by
  have one := Magnitude.unitsPerOne_pos
  have positive : 0 < 10 ^ exponent * Magnitude.unitsPerOne := Nat.mul_pos (by positivity) one
  have quotient : Magnitude.nearest? (a.units * Magnitude.unitsPerOne) b.units = some m := by
    rw [← value, units, power, Decimal.nearest?]
    refine Magnitude.nearest?_congr positive (by positivity) ?_
    have above : (-(exponent : Int)).toNat = 0 := by omega
    rw [above, Int.neg_neg, Int.toNat_natCast]
    ring
  change Binary64.div _ _ = _
  rw [Binary64.div, if_neg (power ▸ positive.ne'), quotient]
  rfl

/-- A word that is a double is scaled by a power of ten that is one with a single rounding. -/
lemma scale?_eq (exact : Magnitude.rounded (word * Magnitude.unitsPerOne) = word * Magnitude.unitsPerOne)
    (nonzero : word ≠ 0) (fits : word ≤ wordLimit) (near : e.natAbs ≤ 22)
    (value : Decimal.toMagnitude? ⟨word, e⟩ = some m) :
    scale? (ofNat word) e = some (finite false m) := by
  have places : wordLimit < 10 ^ 20 := by decide
  have length : (digitsOf word).length ≤ 20 := (length_digitsOf_le (by decide)).2 (by omega)
  obtain ⟨a, number, units⟩ := exists_word fits
  obtain ⟨b, power, units'⟩ := exists_ofNat (Nat.le_refl (10 ^ e.natAbs)) (by omega)
  rw [exact] at units
  rw [rounded_power near] at units'
  rw [Decimal.toMagnitude?_eq_nearest? nonzero (by rw [Decimal.place]; dsimp only; omega)
    (by rw [Decimal.place]; dsimp only; omega)] at value
  rw [scale?, if_pos (by omega), number, power]
  split
  next up =>
    have same : e = e.natAbs := by omega
    rw [same] at value
    rw [mul_eq units units' value]
    rfl
  next down =>
    have same : e = -(e.natAbs : Int) := by omega
    rw [same] at value
    rw [div_eq units units' value]

/-! ## Literals -/

/-- The power of ten behind the digits of a literal. -/
def NumberLiteral.power (n : NumberLiteral) : Int :=
  match n.exponent with
  | none => 0
  | some (negative, digits) => if negative then -(numberOf digits : Int) else numberOf digits

/-- A literal that is no integer denotes a decimal, up to its sign. -/
structure Denotes (n : NumberLiteral) (d : Decimal) : Prop where
  word : wordOf 0 (n.whole ++ n.fraction) = d.coefficient
  power : n.power - n.fraction.length = d.exponent
  counted : n.power.natAbs ≤ 1000
  fractional : n.fraction ≠ [] ∨ n.exponent ≠ none

lemma wordOf_append (word : Nat) (digits rest : List Char) :
    wordOf word (digits ++ rest) = wordOf (wordOf word digits) rest := List.foldl_append

lemma wordOf_zeros (word k : Nat) : wordOf word (List.replicate k '0') = word * 10 ^ k := by
  induction k generalizing word with
  | zero => exact (Nat.mul_one word).symm
  | succ k ih =>
    rw [List.replicate_succ, Nat.pow_succ', ← Nat.mul_assoc, ← ih]
    rfl

/-- The double of a literal whose word and power of ten are doubles. -/
lemma toDouble?_of_denotes (denotes : Denotes n d) (near : d.exponent.natAbs ≤ 22)
    (fits : d.coefficient ≤ wordLimit)
    (scaled : scale? (ofNat d.coefficient) d.exponent = some (finite false m)) :
    n.toDouble? = some (finite n.negative m) := by
  obtain ⟨word, power, counted, -⟩ := denotes
  rw [wordOf_append] at word
  have signed : (if n.negative then -finite false m else finite false m) = finite n.negative m := by
    cases n.negative <;> rfl
  unfold NumberLiteral.toDouble?
  unfold NumberLiteral.power at power counted
  rw [takeWord_eq (((le_wordOf _ n.fraction).trans word.le).trans fits)]
  dsimp only
  rw [takeWord_eq (word.le.trans fits)]
  cases written : n.exponent with
  | none =>
    rw [written] at power
    dsimp only at power ⊢
    rw [word, List.length_nil, Nat.sub_zero, Int.natCast_zero, power, scaled]
    exact congrArg some signed
  | some exponent =>
    obtain ⟨negative, digits⟩ := exponent
    rw [written] at power counted
    dsimp only at power counted ⊢
    have counted : ¬exponentLimit < numberOf digits := by
      rw [exponentLimit]
      split at counted <;> omega
    have final : max (-2 ^ 31) (Min.min exponentLimit
        (if negative then 0 - (n.fraction.length : Int) - numberOf digits
          else 0 - (n.fraction.length : Int) + numberOf digits)) = d.exponent := by
      rw [exponentLimit]
      split at power
      next minus =>
        rw [if_pos minus]
        omega
      next plus =>
        rw [if_neg plus]
        omega
    rw [if_neg counted, word, List.length_nil, Nat.sub_zero, Int.natCast_zero, final, scaled]
    exact congrArg some signed

/-- What a literal is read as when its word and its power of ten are doubles. -/
lemma value?_of_denotes (denotes : Denotes n d) (near : d.exponent.natAbs ≤ 22)
    (exact : Magnitude.rounded (d.coefficient * Magnitude.unitsPerOne) =
      d.coefficient * Magnitude.unitsPerOne)
    (nonzero : d.coefficient ≠ 0) (fits : d.coefficient ≤ wordLimit)
    (value : d.toMagnitude? = some m) : n.value? = some (.double (finite n.negative m)) := by
  have read := toDouble?_of_denotes denotes near fits (scale?_eq exact nonzero fits near value)
  have fraction : ¬((takeWord 0 n.whole).2.isEmpty = true ∧ n.fraction.isEmpty = true ∧
      n.exponent.isNone = true) := by
    rintro ⟨-, empty, none⟩
    exact denotes.fractional.elim (· (List.isEmpty_iff.1 empty))
      (· (Option.isNone_iff_eq_none.1 none))
  exact (if_neg fraction).trans (congrArg (Option.map Number.double) read)

/-! ## Printed literals -/

lemma wordOf_digitsOf (c : Nat) : wordOf 0 (digitsOf c) = c := numberOf_digitsOf c

lemma place_eq (d : Decimal) : d.place = leading d + 1 := by
  rw [Decimal.place, leading]
  omega

/-- A decimal with places behind the point and without an exponent. -/
lemma denotes_positional (point : d.exponent < 0) (negative : Bool) :
    Denotes (positionalLiteral negative d) d := by
  have place := place_eq d
  have length := List.length_pos_iff.2 (digitsOf_ne_nil d.coefficient)
  rw [Decimal.place] at place
  unfold positionalLiteral
  split
  next small =>
    refine ⟨?_, ?_, Nat.zero_le _, .inl (by simp [digitsOf_ne_nil])⟩
    · have first : wordOf 0 ['0'] = 0 := rfl
      change wordOf 0 (['0'] ++ (List.replicate _ '0' ++ digitsOf _)) = _
      rw [wordOf_append, first, wordOf_append, wordOf_zeros, Nat.zero_mul, wordOf_digitsOf]
    · change 0 - (List.length _ : Int) = d.exponent
      rw [List.length_append, List.length_replicate]
      omega
  next large =>
    refine ⟨?_, ?_, Nat.zero_le _, .inl (List.ne_nil_of_length_pos ?_)⟩
    · rw [List.take_append_drop, wordOf_digitsOf]
    · change 0 - (List.length _ : Int) = d.exponent
      rw [List.length_drop]
      omega
    · rw [List.length_drop]
      omega

/-- A decimal with one digit before the point and an exponent. -/
lemma denotes_scientific (counted : (leading d).natAbs ≤ 1000) (negative : Bool) :
    Denotes (scientificLiteral negative d) d := by
  have place := place_eq d
  have length := List.length_pos_iff.2 (digitsOf_ne_nil d.coefficient)
  rw [Decimal.place] at place
  have power : (scientificLiteral negative d).power = leading d := by
    unfold NumberLiteral.power scientificLiteral
    dsimp only
    rw [numberOf_digitsOf]
    split
    next below =>
      have below := of_decide_eq_true below
      omega
    next above =>
      have above := of_decide_eq_false (Bool.not_eq_true _ ▸ above)
      omega
  refine ⟨?_, ?_, power.symm ▸ counted, .inr (Option.some_ne_none _)⟩
  · exact (congrArg (wordOf 0) (List.take_append_drop 1 _)).trans (wordOf_digitsOf _)
  · rw [power]
    change _ - (List.length (List.drop 1 _) : Int) = _
    rw [List.length_drop]
    omega

/-- A whole decimal is printed with a zero behind the point. -/
lemma denotes_whole {c k : Nat} (above : 0 ≤ leading ⟨c, k⟩) (negative : Bool) :
    Denotes (positionalLiteral negative ⟨c, k⟩) ⟨c * 10 ^ (k + 1), -1⟩ := by
  have whole : ¬(k : Int) < 0 := by omega
  unfold positionalLiteral
  rw [if_neg (by omega), if_neg whole]
  refine ⟨?_, rfl, Nat.zero_le _, .inl nofun⟩
  change wordOf 0 (digitsOf c ++ List.replicate k '0' ++ ['0']) = _
  rw [wordOf_append, wordOf_append, wordOf_digitsOf, wordOf_zeros, Nat.pow_succ, ← Nat.mul_assoc]
  rfl

lemma rounded_word (small : word < 2 ^ 53) (k : Nat) :
    Magnitude.rounded (word * 2 ^ k * Magnitude.unitsPerOne) =
      word * 2 ^ k * Magnitude.unitsPerOne := by
  rw [Magnitude.unitsPerOne, Nat.mul_assoc, ← Nat.pow_add, Magnitude.rounded_eq_self small]

/-- The literal of a short decimal with places behind the point is read with one rounding. -/
lemma value?_fraction (short : d.Short) (nonzero : d.coefficient ≠ 0) (point : d.exponent < 0)
    (value : d.toMagnitude? = some m) (negative : Bool) :
    (decimalLiteral negative d).value? = some (.double (finite negative m)) := by
  obtain ⟨digits, high, low⟩ := short
  have place := place_eq d
  have length := List.length_pos_iff.2 (digitsOf_ne_nil d.coefficient)
  have limit : 10 ^ 15 ≤ wordLimit := by decide
  have denotes : Denotes (decimalLiteral negative d) d := by
    rw [Decimal.place] at place high
    unfold decimalLiteral
    rw [if_neg nonzero]
    split
    · exact denotes_positional point negative
    · exact denotes_scientific (by omega) negative
  have exact := rounded_word (show d.coefficient < 2 ^ 53 by omega) 0
  rw [Nat.pow_zero, Nat.mul_one] at exact
  rw [value?_of_denotes denotes (by omega) exact nonzero (by omega) value, negative_decimalLiteral]

/-- The literal of a short whole decimal is read with one rounding. -/
lemma value?_whole {c k : Nat} (short : Decimal.Short ⟨c, k⟩) (nonzero : c ≠ 0)
    (value : Decimal.toMagnitude? ⟨c, k⟩ = some m) (negative : Bool) :
    (decimalLiteral negative ⟨c, k⟩).value? = some (.double (finite negative m)) := by
  have place := place_eq ⟨c, k⟩
  have high := short.high
  have length := List.length_pos_iff.2 (digitsOf_ne_nil c)
  rw [Decimal.place] at place high
  dsimp only at place high
  have positional : decimalLiteral negative ⟨c, k⟩ = positionalLiteral negative ⟨c, k⟩ := by
    rw [decimalLiteral, if_neg nonzero, if_pos (by omega)]
  have denotes := denotes_whole (show 0 ≤ leading ⟨c, k⟩ by omega) negative
  rw [← positional] at denotes
  have moved := Decimal.toMagnitude?_mul_ten_pow c (k + 1) (-1)
  have same : (-1 : Int) + (k + 1 : Nat) = k := by omega
  rw [same, value] at moved
  have below : c * 10 ^ k < 10 ^ 15 :=
    calc c * 10 ^ k < 10 ^ (digitsOf c).length * 10 ^ k :=
          Nat.mul_lt_mul_of_pos_right ((length_digitsOf_le length).1 le_rfl) (by positivity)
      _ = 10 ^ ((digitsOf c).length + k) := (Nat.pow_add ..).symm
      _ ≤ 10 ^ 15 := Nat.pow_le_pow_right (by decide) (by omega)
  -- The zero behind the point makes the word even, so that it may be longer than a significand.
  have even : c * 10 ^ (k + 1) = c * 10 ^ k * 5 * 2 ^ 1 := by
    rw [Nat.pow_succ, ← Nat.mul_assoc]
    omega
  have exact := rounded_word (show c * 10 ^ k * 5 < 2 ^ 53 by omega) 1
  rw [← even] at exact
  have fits : c * 10 ^ (k + 1) ≤ wordLimit := by
    have limit : 10 ^ 16 ≤ wordLimit := by decide
    omega
  rw [value?_of_denotes denotes (show (-1 : Int).natAbs ≤ 22 by decide) exact
    (Nat.mul_ne_zero nonzero (by positivity)) fits moved, negative_decimalLiteral]

/-- The literal of a short decimal is read as the magnitude nearest to the decimal. -/
lemma value?_decimalLiteral (short : d.Short) (nonzero : d.coefficient ≠ 0)
    (value : d.toMagnitude? = some m) (negative : Bool) :
    (decimalLiteral negative d).value? = some (.double (finite negative m)) := by
  rcases Int.lt_or_le d.exponent 0 with point | whole
  · exact value?_fraction short nonzero point value negative
  · obtain ⟨c, e⟩ := d
    obtain ⟨k, rfl⟩ := Int.eq_ofNat_of_zero_le whole
    exact value?_whole short nonzero value negative

end Json

/-- A double whose shortest decimal is short is read back. -/
theorem Binary64.reread?_of_short {negative : Bool} {m : Magnitude} (short : (m.shortest .even).Short) :
    (finite negative m).reread? = some (finite negative m) := by
  have value := m.toMagnitude?_shortest .even
  by_cases zero : (m.shortest .even).coefficient = 0
  · have units : some Magnitude.zero = some m := by rw [← value, Decimal.toMagnitude?, if_pos zero]
    obtain rfl := Option.some_inj.1 units
    exact reread?_zero negative
  · rw [reread?, Json.document, Json.Document.double?, Json.value?_decimalLiteral short zero value]

end LedEffect
