import LedEffect.Number.Text
import Mathlib.Data.List.TakeDrop
import Mathlib.Tactic.Common

/-!
# Decimal digits

The digits of a natural number are digits indeed, do not begin with a zero unless they are that zero
alone, and write the number (`numberOf_digitsOf`). A run of digits is read up to the first other
character (`spanDigits_append`).
-/

namespace LedEffect

variable {n : Nat} {digits rest : List Char}

lemma digitsOf_ne_nil (n : Nat) : digitsOf n ≠ [] := Nat.toDigits_ne_nil

lemma isDigit_digitsOf (n : Nat) : ∀ c ∈ digitsOf n, c.isDigit = true :=
  fun _ => Nat.isDigit_of_mem_toDigits (by decide) (by decide)

@[simp] lemma digitsOf_zero : digitsOf 0 = ['0'] := rfl

/-- The digits of a number that is not zero begin with another digit than zero. -/
lemma exists_digitsOf (some : n ≠ 0) : ∃ c cs, digitsOf n = c :: cs ∧ c ≠ '0' := by
  induction n using Nat.strongRecOn with
  | ind n ih =>
    rw [digitsOf, Nat.toDigits_eq_if (by decide)]
    split
    next small =>
      have digit : ∀ k < 10, k ≠ 0 → Nat.digitChar k ≠ '0' := by decide
      exact ⟨_, [], rfl, digit n small some⟩
    next large =>
      obtain ⟨c, cs, digits, first⟩ := ih (n / 10) (by omega) (by omega)
      exact ⟨c, _, by rw [← digitsOf, digits, List.cons_append], first⟩

/-- The digits of a number write it. -/
lemma numberOf_digitsOf (n : Nat) : numberOf (digitsOf n) = n := by
  have step : (fun (n : Nat) (c : Char) => n * 10 + (c.toNat - 48)) =
      fun n c => 10 * n + (c.toNat - '0'.toNat) := by
    funext n c
    rw [Nat.mul_comm]
    rfl
  rw [numberOf, step]
  exact Nat.ofDigitChars_toDigits (by decide) (by decide)

/-- A run of digits is read up to the first other character. -/
lemma spanDigits_append (all : ∀ c ∈ digits, c.isDigit = true)
    (ends : ∀ c ∈ rest.head?, c.isDigit = false) : spanDigits (digits ++ rest) = (digits, rest) := by
  have none : rest.takeWhile Char.isDigit = [] ∧ rest.dropWhile Char.isDigit = rest := by
    cases rest with
    | nil => exact ⟨rfl, rfl⟩
    | cons c rest => simp [ends c rfl]
  rw [spanDigits, List.span_eq_takeWhile_dropWhile, List.takeWhile_append_of_pos all,
    List.dropWhile_append_of_pos all, none.1, none.2, List.append_nil]

end LedEffect
