import LedEffect.Program.Printer
import LedEffect.Proofs.Effect.Ranges
import LedEffect.Proofs.Number.Digits
import LedEffect.Proofs.Number.Whole
import Std.Data.String.ToNat

/-!
# Float literals

A finite number is written with digits on both sides of a point, then a suffix, if it is broken or its
magnitude is below `10 ^ 15` (`isFloat_realText`). That is so of every parameter of a node in range
(`ResolvedNode.InRange.pointed`).
-/

namespace LedEffect

variable {digits : List Char} {place : Int} {m : Magnitude} {x : Binary64}

/-- Whether characters are digits with a point between two of them. -/
def IsPointed (cs : List Char) : Prop :=
  ∃ whole fraction, whole ≠ [] ∧ fraction ≠ [] ∧ (∀ c ∈ whole ++ fraction, c.isDigit = true) ∧
    cs = whole ++ '.' :: fraction

/-- Digits are laid out with a point when there are more of them than places before the point. -/
lemma isPointed_layOutPlain (all : ∀ c ∈ digits, c.isDigit = true) (short : place < digits.length)
    (some : digits ≠ []) : IsPointed (layOutPlain digits place) := by
  unfold layOutPlain
  split
  · refine ⟨['0'], List.replicate place.natAbs '0' ++ digits, by simp, by simp [some], ?_, rfl⟩
    intro c mem
    simp only [List.singleton_append, List.mem_cons, List.mem_append, List.mem_replicate] at mem
    rcases mem with rfl | ⟨-, rfl⟩ | mem
    · rfl
    · rfl
    · exact all c mem
  · dsimp only
    rw [if_neg (by omega)]
    refine ⟨digits.take place.toNat, digits.drop place.toNat, ?_, ?_, ?_, rfl⟩
    · rw [Ne, List.take_eq_nil_iff]
      exact fun none => none.elim (by omega) some
    · rw [Ne, List.drop_eq_nil_iff]
      omega
    · rw [List.take_append_drop]
      exact all

/-- A magnitude with one decimal place has digits on both sides of the point. -/
lemma Magnitude.isPointed_fixed (m : Magnitude) : IsPointed (m.fixed 1) := by
  have all := isDigit_digitsOf (roundHalfEven (m.units * 10 ^ 1) unitsPerOne)
  unfold Magnitude.fixed
  dsimp only
  generalize digitsOf (roundHalfEven (m.units * 10 ^ 1) unitsPerOne) = digits at all
  have length : 2 ≤ (List.replicate (1 + 1 - digits.length) '0' ++ digits).length := by
    rw [List.length_append, List.length_replicate]
    omega
  refine isPointed_layOutPlain (fun c mem => ?_) (by omega) (List.length_pos_iff.1 (by omega))
  rcases List.mem_append.1 mem with mem | mem
  · obtain ⟨-, rfl⟩ := List.mem_replicate.1 mem
    rfl
  · exact all c mem

/-- The fewest digits of a broken magnitude have some on both sides of the point. -/
lemma Magnitude.isPointed_plain (broken : ¬ unitsPerOne ∣ m.units) :
    IsPointed (m.shortest .up).plain := by
  have exponent : (m.shortest .up).exponent < 0 :=
    Int.not_le.1 (mt exponent_shortest_nonneg_iff.1 broken)
  have nonzero : (m.shortest .up).coefficient ≠ 0 := by
    intro zero
    have read := toMagnitude?_shortest .up m
    rw [Decimal.toMagnitude?, if_pos zero] at read
    cases read
    exact broken (units_zero ▸ Nat.dvd_zero _)
  rw [Decimal.plain, if_neg nonzero]
  exact isPointed_layOutPlain (isDigit_digitsOf _) (by omega) (digitsOf_ne_nil _)

namespace Binary64

/-- Whether a number is finite and, if it is whole, its magnitude is below `10 ^ 15`. -/
def Pointed (x : Binary64) : Prop :=
  x.isFinite = true ∧ (x.isIntegral = true → x.abs.lt 1e15 = true)

instance (x : Binary64) : Decidable x.Pointed := by
  unfold Pointed
  infer_instance

/-- A finite number is below another one when its units are fewer. -/
lemma lt_iff {x y : Binary64} (hx : x.isFinite = true) (hy : y.isFinite = true) :
    x.lt y = true ↔ x.units < y.units := by
  rw [← not_iff_not, Bool.not_eq_true, lt_eq_false_iff hx hy, le_iff hy hx, Int.not_lt]

protected lemma le_trans {x y z : Binary64} (hx : x.isFinite = true) (hy : y.isFinite = true)
    (hz : z.isFinite = true) (first : x.le y = true) (second : y.le z = true) : x.le z = true :=
  (le_iff hx hz).2 (((le_iff hx hy).1 first).trans ((le_iff hy hz).1 second))

lemma finite_thousand : (-1000 : Binary64).isFinite = true ∧ (1000 : Binary64).isFinite = true :=
  have short : 1000 < 2 ^ 53 := by decide
  ⟨(isFinite_neg 1000).trans (isFinite_ofNat short), isFinite_ofNat short⟩

/-- A number between -1000 and 1000 is finite and small. -/
lemma pointed_of_le (finite : x.isFinite = true) (least : (-1000 : Binary64).le x = true)
    (most : x.le 1000 = true) : x.Pointed := by
  refine ⟨finite, fun _ => ?_⟩
  have highUnits : (1000 : Binary64).units = 1000 * Magnitude.unitsPerOne := units_ofNat (by decide)
  have lowUnits : (-1000 : Binary64).units = -1000 * Magnitude.unitsPerOne := by
    rw [units_neg, highUnits, Int.neg_mul]
  have short : 10 ^ 15 < 2 ^ 53 := by decide
  have whole : (1e15 : Binary64) = ofNat (10 ^ 15) := ofScientific_whole 1 15
  have limit : (1e15 : Binary64).isFinite = true := whole ▸ isFinite_ofNat short
  have limitUnits : (1e15 : Binary64).units = 10 ^ 15 * Magnitude.unitsPerOne := whole ▸ units_ofNat short
  rw [le_iff finite_thousand.1 finite, lowUnits] at least
  rw [le_iff finite finite_thousand.2, highUnits] at most
  have positive := Magnitude.unitsPerOne_pos
  cases x with
  | finite s m =>
    have size : (Binary64.finite s m).abs.units = (m.units : Int) := rfl
    rw [lt_iff rfl limit, size, limitUnits]
    cases s <;> simp only [units, signedUnits, Bool.false_eq_true, if_true, if_false] at least most <;>
      omega
  | _ => cases finite

end Binary64

/-- The bounds of every parameter lie between -1000 and 1000. -/
lemma Kind.bounds_small (k : Kind) : ∀ p ∈ k.params,
    (-1000 : Binary64).le p.min = true ∧ p.max.le 1000 = true := by
  have small : ∀ k ∈ Kind.all, ∀ p ∈ k.params,
      (-1000 : Binary64).le p.min = true ∧ p.max.le 1000 = true := by
    decide +kernel
  exact small k k.mem_all

/-- What a schema of the catalog lets through is written with a point. -/
lemma ParamSpec.Holds.pointed {k : Kind} {p : ParamSpec} (holds : p.Holds x) (mem : p ∈ k.params) :
    x.Pointed := by
  obtain ⟨least, most⟩ := k.bounds_small p mem
  obtain ⟨hmin, hmax, -⟩ := k.bounds_hold p mem
  obtain ⟨low, high⟩ := Binary64.finite_thousand
  exact Binary64.pointed_of_le holds.finite (Binary64.le_trans low hmin holds.finite least holds.least)
    (Binary64.le_trans holds.finite hmax high holds.most most)

/-- The parameters of a node in range are written with a point. -/
lemma ResolvedNode.InRange.pointed {n : ResolvedNode} (range : n.InRange) {name : String}
    (declared : ∃ p ∈ n.kind.params, p.name = name) (value : n.param? name = some x) : x.Pointed := by
  obtain ⟨p, mem, rfl⟩ := declared
  exact (range.holds mem value).pointed mem

namespace Program

/-- Whether a text is a float literal: a minus if it is negative, digits, a point, digits, and the suffix. -/
def IsFloat (negative : Bool) (s : String) : Prop :=
  ∃ cs, IsPointed cs ∧ s = withSign negative (cs ++ ['f'])

lemma withSign_append (negative : Bool) (cs ds : List Char) :
    withSign negative (cs ++ ds) = withSign negative cs ++ String.ofList ds := by
  rw [← String.toList_inj]
  cases negative <;> simp [withSign]

/-- A literal is that of the magnitude behind the sign. -/
lemma realText_eq_withSign (finite : x.isFinite = true) :
    realText x = withSign x.isNegative (realText x.abs).toList := by
  cases x with
  | finite negative m =>
    have sign (cs : List Char) : withSign negative (withSign false cs).toList = withSign negative cs := by
      simp [withSign]
    rw [realText, realText, Binary64.isNegative, String.toList_append, withSign_append, String.ofList_toList,
      apply_ite fun s : String => withSign negative s.toList]
    -- The test looks at the magnitude only.
    exact congrArg (· ++ "f") (if_congr Iff.rfl (sign _).symm (sign _).symm)
  | _ => cases finite

/-- A literal without a sign becomes one with a sign. -/
lemma IsFloat.signed {s : String} (float : IsFloat false s) (negative : Bool) :
    IsFloat negative (withSign negative s.toList) := by
  obtain ⟨cs, pointed, rfl⟩ := float
  exact ⟨cs, pointed, by simp [withSign]⟩

lemma isFloat_abs (pointed : x.Pointed) : IsFloat false (realText x.abs) := by
  cases x with
  | finite negative m =>
    unfold realText
    by_cases whole : (Binary64.finite false m).isIntegral = true
    · have small : (Binary64.finite false m).abs.lt 1e15 = true := pointed.2 whole
      rw [Binary64.abs, whole, small]
      exact ⟨_, m.isPointed_fixed, (withSign_append false _ ['f']).symm⟩
    · have broken : ¬ Magnitude.unitsPerOne ∣ m.units := fun divides =>
        whole (beq_iff_eq.2 (Nat.mod_eq_zero_of_dvd divides))
      rw [Bool.not_eq_true] at whole
      rw [Binary64.abs, whole]
      exact ⟨_, Magnitude.isPointed_plain broken, (withSign_append false _ ['f']).symm⟩
  | _ => cases pointed.1

lemma isFloat_realText (pointed : x.Pointed) : IsFloat x.isNegative (realText x) := by
  rw [realText_eq_withSign pointed.1]
  exact (isFloat_abs pointed).signed _

/-! ## Whole numbers -/

lemma isDigit_toString (k : Nat) : ∀ c ∈ (toString k).toList, c.isDigit = true := by
  intro c mem
  exact Nat.isDigit_of_mem_toDigits (b := 10) (by decide) (by decide) (by simpa using mem)

/-- An integer is its magnitude behind its sign. -/
lemma toString_eq_withSign (k : Int) : toString k = withSign (k < 0) (toString k.natAbs).toList := by
  cases k with
  | ofNat k => exact String.ofList_toList.symm
  | negSucc k =>
    have sign : toString (Int.negSucc k) = "-" ++ toString (k + 1) := rfl
    rw [sign, ← String.toList_inj]
    simp [withSign]

/-- The literal of a whole number is that of its magnitude behind its sign. -/
lemma whole_eq_withSign (k : Int) : s!"{k}.0f" = withSign (k < 0) s!"{k.natAbs}.0f".toList := by
  have split : s!"{k}.0f" = toString k ++ ".0f" := rfl
  rw [split, toString_eq_withSign, ← String.toList_inj]
  cases decide (k < 0) <;> simp [withSign, toString]

lemma isFloat_natural (k : Nat) : IsFloat false s!"{k}.0f" := by
  have digit := isDigit_toString k
  have some : (toString k).toList ≠ [] := by simp
  refine ⟨(toString k).toList ++ '.' :: ['0'], ⟨_, ['0'], some, by simp, fun c mem => ?_, rfl⟩, ?_⟩
  · rcases List.mem_append.1 mem with mem | mem
    · exact digit c mem
    · obtain rfl := List.mem_singleton.1 mem
      rfl
  · rw [← String.toList_inj]
    simp [withSign, toString]

lemma isFloat_whole (k : Int) : IsFloat (k < 0) s!"{k}.0f" :=
  whole_eq_withSign k ▸ (isFloat_natural k.natAbs).signed _

end Program

end LedEffect
