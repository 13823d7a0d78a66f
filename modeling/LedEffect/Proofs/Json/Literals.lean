import LedEffect.Json.Decode
import LedEffect.Json.Printer
import LedEffect.Proofs.Number.Digits

/-!
# Number literals

A number is printed as the text of a well-formed literal (`text_integerLiteral`,
`text_doubleLiteral`), and that text is read as the literal again, whatever stands behind it
(`readNumber?_text`).
-/

namespace LedEffect.Json

variable {rest digits : List Char}

/-- Whether a number that stands before a text ends there. -/
def Ends (rest : List Char) : Prop :=
  ∀ c ∈ rest.head?, c.isDigit = false ∧ c ≠ '.' ∧ c ≠ 'e' ∧ c ≠ 'E'

lemma ends_cons {c : Char} (mark : c.isDigit = false ∧ c ≠ '.' ∧ c ≠ 'e' ∧ c ≠ 'E') :
    Ends (c :: rest) := by
  rintro _ ⟨⟩
  exact mark

namespace NumberLiteral

/-- The text of a fraction, nothing when it has no digits. -/
def fractionText : List Char → List Char
  | [] => []
  | digits => '.' :: digits

/-- The text of an exponent with its sign. -/
def exponentText : Option (Bool × List Char) → List Char
  | none => []
  | some (negative, digits) => 'e' :: (if negative then '-' else '+') :: digits

/-- The text of a literal without its sign. -/
def body (n : NumberLiteral) : List Char :=
  n.whole ++ (fractionText n.fraction ++ exponentText n.exponent)

/-- The text of a literal. -/
def text (n : NumberLiteral) : List Char := if n.negative then '-' :: n.body else n.body

/-- Whether a literal keeps to the grammar: digits at their places, and no leading zero. -/
structure WellFormed (n : NumberLiteral) : Prop where
  whole : ∀ c ∈ n.whole, c.isDigit = true
  nonempty : n.whole ≠ []
  first : n.whole.head? = some '0' → n.whole = ['0']
  fraction : ∀ c ∈ n.fraction, c.isDigit = true
  exponent : ∀ e ∈ n.exponent, e.2 ≠ [] ∧ ∀ c ∈ e.2, c.isDigit = true

lemma WellFormed.exists_digit {n : NumberLiteral} (form : n.WellFormed) :
    ∃ c cs, n.whole = c :: cs ∧ c.isDigit = true := by
  obtain ⟨c, cs, whole⟩ := List.exists_cons_of_ne_nil form.nonempty
  exact ⟨c, cs, whole, form.whole c (whole ▸ List.mem_cons_self)⟩

end NumberLiteral

open NumberLiteral

variable {n : NumberLiteral}

/-- A fraction is read up to what follows it. -/
lemma readFraction?_text (all : ∀ c ∈ digits, c.isDigit = true)
    (ends : ∀ c ∈ rest.head?, c.isDigit = false ∧ c ≠ '.') :
    readFraction? (fractionText digits ++ rest) = some (digits, rest) := by
  cases digits with
  | nil =>
    rw [fractionText, List.nil_append, readFraction?.eq_2]
    rintro cs rfl
    exact (ends '.' rfl).2 rfl
  | cons c digits =>
    rw [fractionText, List.cons_append, readFraction?,
      spanDigits_append all fun c first => (ends c first).1]
    simp

/-- An exponent is read up to what follows it. -/
lemma readNumberExponent?_text {exponent : Option (Bool × List Char)}
    (all : ∀ e ∈ exponent, e.2 ≠ [] ∧ ∀ c ∈ e.2, c.isDigit = true) (ends : Ends rest) :
    readNumberExponent? (exponentText exponent ++ rest) = some (exponent, rest) := by
  cases exponent with
  | none =>
    rw [exponentText, List.nil_append]
    cases rest with
    | nil => rfl
    | cons c rest =>
      obtain ⟨-, -, small, large⟩ := ends c rfl
      simp [readNumberExponent?, small, large]
  | some e =>
    obtain ⟨negative, digits⟩ := e
    obtain ⟨some, all⟩ := all _ rfl
    obtain ⟨c, cs, rfl⟩ := List.exists_cons_of_ne_nil some
    have digits_eq : spanDigits (c :: (cs ++ rest)) = (c :: cs, rest) :=
      spanDigits_append all fun c first => (ends c first).1
    cases negative <;> simp [readNumberExponent?, exponentText, takeSign, digits_eq]

/-- What follows the whole part of a number is no digit. -/
lemma not_digit_behind_whole (ends : Ends rest) : ∀ c ∈
    (fractionText n.fraction ++ (exponentText n.exponent ++ rest)).head?, c.isDigit = false := by
  obtain ⟨negative, whole, fraction, exponent⟩ := n
  cases fraction with
  | cons d fraction =>
    rintro _ ⟨⟩
    rfl
  | nil =>
    cases exponent with
    | some e =>
      rintro _ ⟨⟩
      rfl
    | none => exact fun c first => (ends c first).1

/-- What follows the fraction of a number is neither a digit nor a point. -/
lemma not_digit_behind_fraction (ends : Ends rest) : ∀ c ∈
    (exponentText n.exponent ++ rest).head?, c.isDigit = false ∧ c ≠ '.' := by
  obtain ⟨negative, whole, fraction, exponent⟩ := n
  cases exponent with
  | some e =>
    rintro _ ⟨⟩
    decide
  | none => exact fun c first => ⟨(ends c first).1, (ends c first).2.1⟩

/-- The text of a well-formed literal is read as the literal. -/
lemma readNumber?_text (form : n.WellFormed) (ends : Ends rest) :
    readNumber? (n.text ++ rest) = some (n, rest) := by
  have span := spanDigits_append form.whole (not_digit_behind_whole (n := n) ends)
  have fraction := readFraction?_text form.fraction (not_digit_behind_fraction (n := n) ends)
  have exponent := readNumberExponent?_text form.exponent ends
  have leading : ∀ d ds, n.whole ≠ '0' :: d :: ds := by
    intro d ds eq
    have alone := form.first (by rw [eq]; rfl)
    rw [eq] at alone
    cases alone
  -- The part behind the sign is read alike with and without one.
  cases negative : n.negative with
  | true =>
    have eq : n.text ++ rest = '-' :: (n.whole ++
        (fractionText n.fraction ++ (exponentText n.exponent ++ rest))) := by
      simp [text, body, negative]
    rw [eq]
    simp only [readNumber?, span]
    split
    next none => exact absurd none form.nonempty
    next zero => exact absurd zero (leading _ _)
    next => simp [fraction, exponent, ← negative]
  | false =>
    obtain ⟨c, cs, whole, digit⟩ := form.exists_digit
    have eq : n.text ++ rest = n.whole ++
        (fractionText n.fraction ++ (exponentText n.exponent ++ rest)) := by
      simp [text, body, negative]
    have unsigned : ∀ cs', n.text ++ rest ≠ '-' :: cs' := by
      rintro cs' minus
      rw [eq, whole, List.cons_append, List.cons.injEq] at minus
      rw [minus.1] at digit
      cases digit
    unfold readNumber?
    split
    next sign =>
      split at sign
      next minus => exact absurd minus (unsigned _)
      next =>
        cases sign
        simp only [eq, span]
        split
        next none => exact absurd none form.nonempty
        next zero => exact absurd zero (leading _ _)
        next => simp [fraction, exponent, ← negative]

/-! ## Integers -/

/-- The literal that an integer is printed as. -/
def integerLiteral (n : Int) : NumberLiteral := ⟨n < 0, digitsOf n.natAbs, [], none⟩

lemma text_integerLiteral (n : Int) : (integerLiteral n).text = integerText n := by
  unfold integerText
  split
  next below => simp [text, body, integerLiteral, fractionText, exponentText, below]
  next above => simp [text, body, integerLiteral, fractionText, exponentText, above]

lemma wellFormed_integerLiteral (n : Int) : (integerLiteral n).WellFormed := by
  refine ⟨isDigit_digitsOf _, digitsOf_ne_nil _, fun zero => ?_, nofun, nofun⟩
  rcases eq_or_ne n.natAbs 0 with none | some
  · rw [integerLiteral, none, digitsOf_zero]
  · obtain ⟨c, cs, digits, first⟩ := exists_digitsOf some
    rw [integerLiteral, digits] at zero
    exact absurd (Option.some_inj.1 zero) first

/-! ## Doubles -/

variable {d : Decimal}

/-- The power of ten of the first digit of a decimal. -/
def leading (d : Decimal) : Int := ((digitsOf d.coefficient).length : Int) - 1 + d.exponent

/-- The literal of a decimal without an exponent. -/
def positionalLiteral (negative : Bool) (d : Decimal) : NumberLiteral :=
  let digits := digitsOf d.coefficient
  if leading d < 0 then
    ⟨negative, ['0'], List.replicate (leading d + 1).natAbs '0' ++ digits, none⟩
  else if d.exponent < 0 then
    ⟨negative, digits.take (leading d + 1).toNat, digits.drop (leading d + 1).toNat, none⟩
  else ⟨negative, digits ++ List.replicate d.exponent.toNat '0', ['0'], none⟩

/-- The literal of a decimal with one digit before the point and an exponent. -/
def scientificLiteral (negative : Bool) (d : Decimal) : NumberLiteral :=
  let digits := digitsOf d.coefficient
  ⟨negative, digits.take 1, digits.drop 1, some (leading d < 0, digitsOf (leading d).natAbs)⟩

/-- The literal that a decimal is printed as. -/
def decimalLiteral (negative : Bool) (d : Decimal) : NumberLiteral :=
  if d.coefficient = 0 then ⟨negative, ['0'], if d.exponent < 0 then [] else ['0'], none⟩
  else if -5 ≤ leading d ∧ leading d < 16 then positionalLiteral negative d
  else scientificLiteral negative d

lemma fractionText_of_ne_nil (some : digits ≠ []) : fractionText digits = '.' :: digits := by
  cases digits with
  | nil => exact absurd rfl some
  | cons => rfl

lemma body_positionalLiteral (negative : Bool) (some : d.coefficient ≠ 0) :
    (positionalLiteral negative d).body = if d.exponent < 0 then d.plain else d.plain ++ ['.', '0'] := by
  have digits := digitsOf_ne_nil d.coefficient
  have length := List.length_pos_iff.2 digits
  have place : ((digitsOf d.coefficient).length : Int) + d.exponent = leading d + 1 := by
    unfold leading
    omega
  rw [Decimal.plain, if_neg some, place, layOutPlain, positionalLiteral]
  by_cases small : leading d < 0
  · have point : d.exponent < 0 := by omega
    have short : leading d + 1 ≤ 0 := by omega
    rw [if_pos small, if_pos point, if_pos short, body,
      fractionText_of_ne_nil (List.append_ne_nil_of_right_ne_nil _ digits)]
    simp [exponentText]
  · have long : ¬leading d + 1 ≤ 0 := by omega
    rw [if_neg small, if_neg long]
    by_cases point : d.exponent < 0
    · have inside : ¬(digitsOf d.coefficient).length ≤ (leading d + 1).toNat := by omega
      rw [if_pos point, if_pos point, if_neg inside, body,
        fractionText_of_ne_nil (List.ne_nil_of_length_pos (by rw [List.length_drop]; omega))]
      simp [exponentText]
    · have behind : (digitsOf d.coefficient).length ≤ (leading d + 1).toNat := by omega
      have zeros : (leading d + 1).toNat - (digitsOf d.coefficient).length = d.exponent.toNat := by
        omega
      rw [if_neg point, if_neg point, if_pos behind, body, zeros]
      simp [fractionText, exponentText]

lemma body_scientificLiteral (negative : Bool) (d : Decimal) :
    (scientificLiteral negative d).body = scientific d := by
  rw [scientific, scientificLiteral, body, exponentText, ← leading]
  dsimp only
  have fraction : fractionText ((digitsOf d.coefficient).drop 1) =
      if (digitsOf d.coefficient).length ≤ 1 then []
      else '.' :: (digitsOf d.coefficient).drop 1 := by
    split
    next short => rw [List.drop_of_length_le short, fractionText]
    next long =>
      exact fractionText_of_ne_nil (List.ne_nil_of_length_pos (by rw [List.length_drop]; omega))
  rw [fraction]
  by_cases small : leading d < 0 <;> simp [small]

lemma negative_decimalLiteral (negative : Bool) (d : Decimal) :
    (decimalLiteral negative d).negative = negative := by
  unfold decimalLiteral positionalLiteral
  split_ifs <;> rfl

/-- A double is printed as the literal of its shortest decimal. -/
lemma text_decimalLiteral (negative : Bool) (m : Magnitude) :
    (decimalLiteral negative (m.shortest .even)).text = doubleText (.finite negative m) := by
  have body : (decimalLiteral negative (m.shortest .even)).body = magnitudeText m := by
    rw [magnitudeText, decimalLiteral, ← leading]
    by_cases zero : (m.shortest .even).coefficient = 0
    · have inside : (m.shortest .even).coefficient = 0 ∨
          -5 ≤ leading (m.shortest .even) ∧ leading (m.shortest .even) < 16 := .inl zero
      rw [if_pos zero, if_pos inside, Decimal.plain, if_pos zero]
      by_cases point : (m.shortest .even).exponent < 0 <;>
        simp [point, NumberLiteral.body, fractionText, exponentText]
    · rw [if_neg zero]
      by_cases positional : -5 ≤ leading (m.shortest .even) ∧ leading (m.shortest .even) < 16
      · have inside : (m.shortest .even).coefficient = 0 ∨
            -5 ≤ leading (m.shortest .even) ∧ leading (m.shortest .even) < 16 := .inr positional
        rw [if_pos positional, if_pos inside, body_positionalLiteral negative zero]
      · rw [if_neg positional, if_neg (not_or.2 ⟨zero, positional⟩), body_scientificLiteral]
  rw [text, negative_decimalLiteral, body, doubleText]

lemma wellFormed_positionalLiteral (negative : Bool) (some : d.coefficient ≠ 0) :
    (positionalLiteral negative d).WellFormed := by
  have zeros : ∀ k, ∀ c ∈ List.replicate k '0', c.isDigit = true := by
    intro k c mem
    rw [List.eq_of_mem_replicate mem]
    rfl
  obtain ⟨c, cs, digits, first⟩ := exists_digitsOf some
  have all := isDigit_digitsOf d.coefficient
  unfold positionalLiteral
  dsimp only
  split_ifs with small point
  · exact ⟨by simp, by simp, fun _ => rfl, List.forall_mem_append.2 ⟨zeros _, all⟩, nofun⟩
  · obtain ⟨k, place⟩ : ∃ k, (leading d + 1).toNat = k + 1 := ⟨(leading d).toNat, by omega⟩
    refine ⟨fun c mem => all c (List.mem_of_mem_take mem), ?_, fun zero => ?_,
      fun c mem => all c (List.mem_of_mem_drop mem), nofun⟩
    · simp [place, digits]
    · simp [place, digits, first] at zero
  · refine ⟨List.forall_mem_append.2 ⟨all, zeros _⟩, by simp [digits], fun zero => ?_, by simp, nofun⟩
    simp [digits, first] at zero

lemma wellFormed_decimalLiteral (negative : Bool) (d : Decimal) :
    (decimalLiteral negative d).WellFormed := by
  unfold decimalLiteral
  split
  next zero =>
    refine ⟨by simp, by simp, fun _ => rfl, ?_, nofun⟩
    dsimp only
    split <;> simp
  next some =>
    split
    · exact wellFormed_positionalLiteral negative some
    · obtain ⟨c, cs, digits, first⟩ := exists_digitsOf some
      have all := isDigit_digitsOf d.coefficient
      refine ⟨fun c mem => all c (List.mem_of_mem_take mem), by simp [scientificLiteral, digits],
        fun zero => ?_, fun c mem => all c (List.mem_of_mem_drop mem), ?_⟩
      · simp [scientificLiteral, digits, first] at zero
      · rintro _ ⟨⟩
        exact ⟨digitsOf_ne_nil _, isDigit_digitsOf _⟩

end LedEffect.Json
