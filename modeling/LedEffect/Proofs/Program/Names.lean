import LedEffect.Program.Printer
import Mathlib.Tactic.Common
import Std.Data.String.ToNat

/-!
# Names

The texts of generated names are all different (`Name.text_injective`), so under a profile whose
symbols differ from them (`TargetProfile.Separate`) the text of a generated name stands for that name
only (`TargetProfile.Separate.eq_of_text`).
-/

namespace LedEffect

namespace Program.Name

/-- Whether a name is generated for an effect of that many nodes; those of the firmware are not. -/
def Generated (nodes : Nat) : Name → Prop
  | symbol _ => False
  | temporary node | best node | table node => node < nodes
  | _ => True

lemma toDigits_injective {n m : Nat} (eq : Nat.toDigits 10 n = Nat.toDigits 10 m) : n = m :=
  Nat.repr_injective (by rw [Nat.repr, Nat.repr, eq])

/-- A number ends in no letters. -/
lemma toDigits_ne_append (n m : Nat) :
    Nat.toDigits 10 n ≠ Nat.toDigits 10 m ++ ['_', 'b', 'e', 's', 't'] := by
  intro eq
  have mem : '_' ∈ Nat.toDigits 10 n := by
    rw [eq]
    simp
  exact Nat.underscore_not_in_toDigits mem

/-- A number begins with no letter. -/
lemma cons_ne_toDigits_append {c : Char} (letter : c.isDigit = false) (n : Nat)
    (tail rest : List Char) : c :: tail ≠ Nat.toDigits 10 n ++ rest := by
  intro eq
  cases digits : Nat.toDigits 10 n with
  | nil => exact Nat.toDigits_ne_nil digits
  | cons d more =>
    rw [digits, List.cons_append, List.cons.injEq] at eq
    have digit : d.isDigit = true :=
      Nat.isDigit_of_mem_toDigits (b := 10) (by decide) (by decide) (digits ▸ List.mem_cons_self)
    rw [← eq.1, letter] at digit
    cases digit

/-- Generated names have different texts. -/
lemma text_injective {target : TargetProfile} {n m : Name} (hn : ∀ s, n ≠ symbol s)
    (hm : ∀ s, m ≠ symbol s) (eq : n.text target = m.text target) : n = m := by
  have plain : ∀ s : String, toString s = s := fun _ => rfl
  replace eq := congrArg String.toList eq
  cases n <;> cases m <;>
    simp [text, plain, toDigits_ne_append, (toDigits_ne_append _ _).symm] at eq hn hm ⊢
  all_goals exact toDigits_injective eq

end Program.Name

namespace TargetProfile

open Program

/-- Whether the symbols of a profile are identifiers that differ from the names generated for an
effect of that many nodes. -/
structure Separate (target : TargetProfile) (nodes : Nat) : Prop where
  identifier : ∀ s, isIdentifier (target.name s) = true
  apart : ∀ s n, Name.Generated nodes n → target.name s ≠ n.text target

/-- The text of a generated name is that of no other name. -/
lemma Separate.eq_of_text {target : TargetProfile} {nodes : Nat} (separate : target.Separate nodes)
    {n m : Name} (generated : n.Generated nodes) (eq : m.text target = n.text target) : m = n := by
  have hn : ∀ s, n ≠ .symbol s := by
    rintro s rfl
    exact generated
  cases m with
  | symbol s => exact absurd eq (separate.apart s n generated)
  | _ => exact Name.text_injective (fun s => nofun) hn eq

lemma separate_default (nodes : Nat) : default.Separate nodes := by
  refine ⟨fun s => by cases s <;> decide, fun s n generated eq => ?_⟩
  have plain : ∀ s : String, toString s = s := fun _ => rfl
  replace eq := congrArg String.toList eq
  cases n with
  | symbol => exact generated
  | temporary node =>
    cases s <;> simp [default, Symbol.defaultName, Name.text, plain] at eq
    exact @Name.cons_ne_toDigits_append 'u' (by decide) node _ [] (by simpa using eq)
  | best node =>
    cases s <;> simp [default, Symbol.defaultName, Name.text, plain] at eq
    exact @Name.cons_ne_toDigits_append 'u' (by decide) node _ _ eq
  | _ => cases s <;> simp [default, Symbol.defaultName, Name.text, plain] at eq

end TargetProfile

end LedEffect
