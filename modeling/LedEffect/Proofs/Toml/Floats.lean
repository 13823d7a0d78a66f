import LedEffect.Proofs.Json.Short
import LedEffect.Proofs.Number.Whole
import LedEffect.Toml.Printer
import LedEffect.Toml.Reader

/-!
# TOML floats

A double is written as a literal with a point (`floatText_eq`), and such a literal is neither a date
nor an integer, so every double is read back as it is (`readValue?_float`): infinities, both zeros
and not-a-number too.
-/

namespace LedEffect.Toml

open Json (NumberLiteral Denotes positionalLiteral)

variable {digits rest : List Char} {n : NumberLiteral} {d : Decimal} {m : Magnitude}

/-! ## Digits -/

lemma spanGrouped_digits (all : ∀ c ∈ digits, c.isDigit = true)
    (ends : ∀ c ∈ rest.head?, c.isDigit = false ∧ c ≠ '_') :
    spanGrouped Char.isDigit (digits ++ rest) = (digits, rest) := by
  induction digits with
  | nil =>
    cases rest with
    | nil => rfl
    | cons c rest =>
      obtain ⟨other, mark⟩ := ends c rfl
      rw [List.nil_append, spanGrouped]
      · rw [if_neg (by simp [other])]
      · exact fun d cs eq _ => mark eq
  | cons c digits ih =>
    obtain ⟨digit, all⟩ := List.forall_mem_cons.1 all
    rw [List.cons_append, spanGrouped]
    · rw [if_pos digit, ih all]
    · rintro d cs rfl _
      cases digit

/-- A run of digits is read up to what is neither a digit nor an underscore. -/
lemma readDigits?_digits (some : digits ≠ []) (all : ∀ c ∈ digits, c.isDigit = true)
    (ends : ∀ c ∈ rest.head?, c.isDigit = false ∧ c ≠ '_') :
    readDigits? Char.isDigit (digits ++ rest) = .some (digits, rest) := by
  obtain ⟨c, cs, rfl⟩ := List.exists_cons_of_ne_nil some
  rw [readDigits?, spanGrouped_digits all ends]
  rintro more eq
  have digit := all c List.mem_cons_self
  rw [List.cons_append, List.cons.injEq] at eq
  rw [eq.1] at digit
  cases digit

/-! ## Literals with a point -/

/-- Whether a literal has a point and no exponent. -/
structure Pointed (n : NumberLiteral) : Prop extends n.WellFormed where
  fractional : n.fraction ≠ []
  plain : n.exponent = none

/-- A literal of that kind: a sign, digits, a point and digits. -/
lemma Pointed.text_eq (form : Pointed n) :
    n.text = (if n.negative then ['-'] else []) ++ (n.whole ++ '.' :: n.fraction) := by
  rw [NumberLiteral.text, NumberLiteral.body, form.plain,
    Json.fractionText_of_ne_nil form.fractional]
  cases n.negative <;> simp [NumberLiteral.exponentText]

lemma takeSign_of_digit {c : Char} {cs : List Char} (digit : c.isDigit = true) :
    takeSign (c :: cs) = (false, c :: cs) := by
  rw [takeSign]
  · rintro _ ⟨⟩
    cases digit
  · rintro _ ⟨⟩
    cases digit

lemma Pointed.takeSign_text (form : Pointed n) :
    takeSign (n.text ++ rest) = (n.negative, n.whole ++ '.' :: (n.fraction ++ rest)) := by
  obtain ⟨c, cs, whole, digit⟩ := form.exists_digit
  rw [form.text_eq]
  cases n.negative with
  | true => simp [takeSign]
  | false => simp [whole, takeSign_of_digit digit]

lemma Pointed.readWhole? (form : Pointed n) :
    readWhole? (n.whole ++ '.' :: rest) = some (n.whole, '.' :: rest) := by
  have digits : readDigits? Char.isDigit (n.whole ++ '.' :: rest) = some (n.whole, '.' :: rest) :=
    readDigits?_digits form.nonempty form.whole (by simp)
  obtain ⟨c, cs, whole⟩ := List.exists_cons_of_ne_nil form.nonempty
  by_cases zero : c = '0'
  · have alone := form.first (by rw [whole, zero]; rfl)
    rw [alone]
    rfl
  · rw [Toml.readWhole?, digits]
    rintro more eq
    rw [whole, List.cons_append, List.cons.injEq] at eq
    exact zero eq.1

/-- A literal with a point at the end of a line is a float, namely the double nearest to it. -/
lemma Pointed.readDecimal? (form : Pointed n) (denotes : Denotes n d)
    (read : d.toMagnitude? = some m) : readDecimal? (n.text ++ '\n' :: rest) =
      some (.float (.finite n.negative m), '\n' :: rest) := by
  have fraction : readDigits? Char.isDigit (n.fraction ++ '\n' :: rest) =
      some (n.fraction, '\n' :: rest) :=
    readDigits?_digits form.fractional form.fraction (by simp)
  have decimal : (⟨numberOf (n.whole ++ n.fraction), -(n.fraction.length : Int)⟩ : Decimal) = d := by
    have power : n.power = 0 := by rw [NumberLiteral.power, form.plain]
    have places := power ▸ denotes.power
    rw [Int.zero_sub] at places
    have word : numberOf (n.whole ++ n.fraction) = d.coefficient := denotes.word
    rw [places, word]
  have value : d.toBinary64 n.negative = .finite n.negative m := by
    rw [Decimal.toBinary64, read, Binary64.ofMagnitude?]
  simp [Toml.readDecimal?, form.takeSign_text, form.readWhole?, readFraction?, fraction,
    readExponent?, form.fractional, decimal, value]

lemma readSpecial?_of_digit {c : Char} {cs : List Char} {negative : Bool} (digit : c.isDigit = true) :
    readSpecial? negative (c :: cs) = none := by
  rw [readSpecial?]
  · rintro _ ⟨⟩
    cases digit
  · rintro _ ⟨⟩
    cases digit

lemma Pointed.readNumber? (form : Pointed n) (denotes : Denotes n d)
    (read : d.toMagnitude? = some m) : readNumber? (n.text ++ '\n' :: rest) =
      some (.float (.finite n.negative m), '\n' :: rest) := by
  obtain ⟨c, cs, whole, digit⟩ := form.exists_digit
  have special : readSpecial? n.negative (n.whole ++ '.' :: (n.fraction ++ '\n' :: rest)) = none := by
    rw [whole]
    exact readSpecial?_of_digit digit
  have decimal : Toml.readDecimal? (n.text ++ '\n' :: rest) =
      some (.float (.finite n.negative m), '\n' :: rest) := form.readDecimal? denotes read
  unfold Toml.readNumber?
  simp only [form.takeSign_text, special]
  split
  next mark more eq =>
    -- A zero in front stands alone, so no base follows it.
    have point : base? mark = none := by
      rw [form.text_eq] at eq
      cases negative : n.negative with
      | true => simp [negative] at eq
      | false =>
        simp only [negative, whole, Bool.false_eq_true, if_false, List.nil_append,
          List.cons_append, List.cons.injEq] at eq
        have alone := form.first (by rw [whole, eq.1]; rfl)
        rw [whole, List.cons.injEq] at alone
        rw [alone.2, List.nil_append, List.cons_append, List.cons.injEq] at eq
        rw [← eq.2.1]
        rfl
    rw [point]
    exact decimal
  next => exact decimal

/-! ## Neither dates nor times -/

/-- What is no digit does not begin a field. -/
lemma readField?_eq_none {c : Char} {count low high : Nat} (other : c.isDigit = false) :
    readField? (count + 1) low high (c :: rest) = none := by
  simp [readField?, other]

/-- Behind a field of a literal stands a digit or the point. -/
lemma head_of_readField? {count low high k : Nat} {cs : List Char}
    (field : readField? count low high (digits ++ '.' :: rest) = some (k, cs))
    (all : ∀ c ∈ digits, c.isDigit = true) : ∀ c ∈ cs.head?, c.isDigit = true ∨ c = '.' := by
  rw [readField?] at field
  split_ifs at field with fits
  obtain ⟨-, rfl⟩ := Prod.mk.inj (Option.some_inj.1 field)
  have inside : count ≤ digits.length := by
    by_contra beyond
    have point : '.' ∈ (digits ++ '.' :: rest).take count := by
      refine List.mem_of_getElem? (i := digits.length) ?_
      rw [List.getElem?_take_of_lt (by omega)]
      simp
    have digit := List.all_eq_true.1 fits.2.1 '.' point
    cases digit
  rw [List.drop_append_of_le_length inside]
  cases left : digits.drop count with
  | nil =>
    rintro _ ⟨⟩
    exact .inr rfl
  | cons c left =>
    rintro _ ⟨⟩
    exact .inl (all c (List.mem_of_mem_drop (left ▸ List.mem_cons_self)))

lemma skipChar?_eq_none {mark : Char} {cs : List Char}
    (heads : ∀ c ∈ cs.head?, c ≠ mark) : skipChar? mark cs = none := by
  cases cs with
  | nil => rfl
  | cons c cs => exact if_neg (heads c rfl)

/-- Digits that end at a point are neither a date nor a time. -/
lemma readDateTime?_point (all : ∀ c ∈ digits, c.isDigit = true) (rest : List Char) :
    readDateTime? (digits ++ '.' :: rest) = none := by
  have mark : ∀ {count low high k cs} {mark : Char}, mark ∈ ['-', ':'] →
      readField? count low high (digits ++ '.' :: rest) = some (k, cs) → skipChar? mark cs = none := by
    intro count low high k cs mark listed field
    refine skipChar?_eq_none fun c head => ?_
    rintro rfl
    rcases head_of_readField? field all c head with digit | rfl
    · simp only [List.mem_cons, List.not_mem_nil, or_false] at listed
      rcases listed with rfl | rfl <;> cases digit
    · simp at listed
  have date : skipDate? (digits ++ '.' :: rest) = none := by
    cases field : readField? 4 0 9999 (digits ++ '.' :: rest) with
    | none => simp [skipDate?, field]
    | some found => simp [skipDate?, field, mark (List.mem_cons_self) field]
  have time : skipTime? (digits ++ '.' :: rest) = none := by
    cases field : readField? 2 0 23 (digits ++ '.' :: rest) with
    | none => simp [skipTime?, field]
    | some found => simp [skipTime?, field, mark (List.mem_cons_of_mem _ List.mem_cons_self) field]
  simp [readDateTime?, date, time]

/-- What begins with no digit is neither a date nor a time. -/
lemma readDateTime?_of_not_digit {c : Char} (other : c.isDigit = false) :
    readDateTime? (c :: rest) = none := by
  simp [readDateTime?, skipDate?, skipTime?, readField?_eq_none other]

/-! ## Values -/

/-- What may begin a number is read as one. -/
lemma readValue?_number {fuel depth : Nat} {c : Char} (mark : c ∉ ['\x22', '\'', '[', '\x7b', 't', 'f'])
    (undated : readDateTime? (c :: rest) = none) :
    readValue? (fuel + 1) depth (c :: rest) = readNumber? (c :: rest) := by
  simp only [List.mem_cons, List.not_mem_nil, or_false, not_or] at mark
  simp [readValue?, mark, undated]

lemma Pointed.readValue? {fuel depth : Nat} (form : Pointed n) (denotes : Denotes n d)
    (read : d.toMagnitude? = some m) : readValue? (fuel + 1) depth (n.text ++ '\n' :: rest) =
      some (.float (.finite n.negative m), '\n' :: rest) := by
  rw [← form.readNumber? denotes read]
  obtain ⟨c, cs, whole, digit⟩ := form.exists_digit
  rw [form.text_eq]
  cases n.negative with
  | true => exact readValue?_number (by decide) (readDateTime?_of_not_digit rfl)
  | false =>
    have undated := readDateTime?_point form.whole (n.fraction ++ '\n' :: rest)
    simp only [Bool.false_eq_true, if_false, List.nil_append, List.append_assoc, List.cons_append]
    rw [whole, List.cons_append] at undated ⊢
    refine readValue?_number (fun mark => ?_) undated
    simp only [List.mem_cons, List.not_mem_nil, or_false] at mark
    rcases mark with rfl | rfl | rfl | rfl | rfl | rfl <;> cases digit

/-! ## Doubles -/

lemma isIntegral_finite {negative : Bool} :
    (Binary64.finite negative m).isIntegral = true ↔ 0 ≤ (m.shortest .up).exponent := by
  rw [Magnitude.exponent_shortest_nonneg_iff, Binary64.isIntegral, beq_iff_eq, Nat.dvd_iff_mod_eq_zero]

lemma toList_withSign (negative : Bool) (text : List Char) :
    (withSign negative text).toList = if negative then '-' :: text else text := by
  rw [withSign, String.toList_ofList]

/-- The text of a finite double: its shortest decimal, with a place behind the point in any case. -/
lemma floatText_finite (negative : Bool) (m : Magnitude) : (floatText (.finite negative m)).toList =
    (if negative then '-' :: (m.shortest .up).plain else (m.shortest .up).plain) ++
      if (m.shortest .up).exponent < 0 then [] else ['.', '0'] := by
  have whole : (Binary64.finite negative m).isIntegral = true ↔ ¬(m.shortest .up).exponent < 0 := by
    rw [isIntegral_finite, Int.not_lt]
  simp only [floatText]
  by_cases point : (m.shortest .up).exponent < 0
  · rw [if_neg (mt whole.1 (not_not_intro point)), if_pos point, Binary64.plain, toList_withSign,
      List.append_nil]
  · rw [if_pos (whole.2 point), if_neg point, String.toList_append, Binary64.plain, toList_withSign]
    rfl

lemma negative_positionalLiteral (negative : Bool) (d : Decimal) :
    (positionalLiteral negative d).negative = negative := by
  unfold positionalLiteral
  split_ifs <;> rfl

lemma exponent_positionalLiteral (negative : Bool) (d : Decimal) :
    (positionalLiteral negative d).exponent = none := by
  unfold positionalLiteral
  split_ifs <;> rfl

/-- A positional literal denotes a decimal that reads as the one it was made of. -/
lemma exists_denotes (negative : Bool) (d : Decimal) :
    ∃ d', Denotes (positionalLiteral negative d) d' ∧ d'.toMagnitude? = d.toMagnitude? := by
  by_cases point : d.exponent < 0
  · exact ⟨d, Json.denotes_positional point negative, rfl⟩
  · obtain ⟨c, e⟩ := d
    obtain ⟨k, rfl⟩ := Int.eq_ofNat_of_zero_le (Int.not_lt.1 point)
    have length := List.length_pos_iff.2 (digitsOf_ne_nil c)
    have above : 0 ≤ Json.leading ⟨c, k⟩ := by
      unfold Json.leading
      dsimp only
      omega
    refine ⟨_, Json.denotes_whole above negative, ?_⟩
    rw [Decimal.toMagnitude?_mul_ten_pow]
    congr 2
    omega

/-- A finite double is written as a literal with a point that denotes it. -/
lemma exists_literal (negative : Bool) (m : Magnitude) : ∃ n d, Pointed n ∧ Denotes n d ∧
    d.toMagnitude? = some m ∧ n.negative = negative ∧
      (floatText (.finite negative m)).toList = n.text := by
  have shortest := Magnitude.toMagnitude?_shortest .up m
  by_cases zero : (m.shortest .up).coefficient = 0
  · rw [Decimal.toMagnitude?, if_pos zero] at shortest
    obtain rfl := Option.some_inj.1 shortest
    have digit : ∀ c ∈ ['0'], c.isDigit = true := List.forall_mem_singleton.2 rfl
    have some : ['0'] ≠ [] := List.cons_ne_nil _ _
    refine ⟨⟨negative, ['0'], ['0'], none⟩, ⟨0, -1⟩, ⟨⟨digit, some, fun _ => rfl, digit,
      fun _ mem => absurd mem (Option.not_mem_none _)⟩, some, rfl⟩,
      ⟨rfl, rfl, Nat.zero_le _, .inl some⟩, ?_, rfl, ?_⟩
    · rw [Decimal.toMagnitude?, if_pos rfl]
    · have none : Magnitude.zero.shortest .up = ⟨0, 0⟩ := if_pos rfl
      rw [floatText_finite, none]
      cases negative <;> rfl
  · obtain ⟨d, denotes, same⟩ := exists_denotes negative (m.shortest .up)
    have form := Json.wellFormed_positionalLiteral negative zero
    have plain := exponent_positionalLiteral negative (m.shortest .up)
    have fractional := denotes.fractional.resolve_right (not_not_intro plain)
    have sign := negative_positionalLiteral negative (m.shortest .up)
    refine ⟨_, d, ⟨form, fractional, plain⟩, denotes, same.trans shortest, sign, ?_⟩
    rw [floatText_finite, NumberLiteral.text, sign, Json.body_positionalLiteral negative zero]
    cases negative <;> split_ifs <;> simp

/-- Every double is written as a literal that denotes it or by its name. -/
theorem readValue?_float (fuel depth : Nat) (x : Binary64) (rest : List Char) :
    readValue? (fuel + 1) depth ((floatText x).toList ++ '\n' :: rest) =
      some (.float x, '\n' :: rest) := by
  cases x with
  | nan negative =>
    cases negative
    · exact readValue?_number (by decide) (readDateTime?_of_not_digit rfl)
    · exact readValue?_number (by decide) (readDateTime?_of_not_digit rfl)
  | infinite negative =>
    cases negative
    · exact readValue?_number (by decide) (readDateTime?_of_not_digit rfl)
    · exact readValue?_number (by decide) (readDateTime?_of_not_digit rfl)
  | finite negative m =>
    obtain ⟨n, d, form, denotes, read, rfl, text⟩ := exists_literal negative m
    rw [text]
    exact form.readValue? denotes read

end LedEffect.Toml
