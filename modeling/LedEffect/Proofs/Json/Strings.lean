import LedEffect.Json.Decode
import LedEffect.Json.Printer
import Mathlib.Data.List.Basic
import Mathlib.Tactic.Common

/-!
# String literals

Every character of a text is read back as one item (`readItems?_quoted`), and the items denote the text
again (`decodeText?_items`). Only control characters without a short escape are written as units.
-/

namespace LedEffect.Json

variable {fuel : Nat} {done items : List StringItem} {rest cs : List Char}

/-- The item that the escape of a character is read as. -/
def stringItem (c : Char) : StringItem :=
  if c.toNat < 0x20 ∧ c ∉ ['\x08', '\x0C', '\n', '\r', '\t'] then .unit c.toNat else .char c

/-- The items of the literal of a text. -/
def stringItems (s : String) : List StringItem := s.toList.map stringItem

lemma hexDigit?_hexChar : ∀ n < 16, hexDigit? (hexChar n) = some n := by
  decide

attribute [local simp] readItems? decodeItems?

/-- The escape of a character is read in one step. -/
lemma readItems?_escapeChar (fuel : Nat) (done : List StringItem) (c : Char) (rest : List Char) :
    readItems? (fuel + 1) done (escapeChar c ++ rest) =
      readItems? fuel (stringItem c :: done) rest := by
  by_cases short : c ∈ ['\x22', '\\', '\x08', '\x0C', '\n', '\r', '\t']
  · simp only [List.mem_cons, List.not_mem_nil, or_false] at short
    rcases short with rfl | rfl | rfl | rfl | rfl | rfl | rfl <;> rfl
  · simp only [List.mem_cons, List.not_mem_nil, or_false, not_or] at short
    obtain ⟨quote, backslash, backspace, feed, line, carriage, tab⟩ := short
    simp only [escapeChar, quote, backslash, backspace, feed, line, carriage, tab, if_false]
    by_cases control : c.toNat < 0x20
    · have item : stringItem c = .unit c.toNat := by
        simp [stringItem, control, backspace, feed, line, carriage, tab]
      have code : readUnit? ('0' :: '0' :: hexChar (c.toNat / 16) :: hexChar (c.toNat % 16) :: rest) =
          some (c.toNat, rest) := by
        have zero : hexDigit? '0' = some 0 := by decide
        rw [readUnit?, zero, hexDigit?_hexChar _ (by omega), hexDigit?_hexChar _ (by omega)]
        simp only [Option.bind_eq_bind, Option.bind_some, Option.some_inj, Prod.mk.injEq, and_true]
        omega
      have escape : readEscape? ('u' :: '0' :: '0' :: hexChar (c.toNat / 16) ::
          hexChar (c.toNat % 16) :: rest) = some (.unit c.toNat, rest) := by
        rw [readEscape?, code]
        rfl
      rw [if_pos control, item]
      simp [escape]
    · have item : stringItem c = .char c := by simp [stringItem, control]
      rw [if_neg control, item, List.singleton_append, readItems?, if_neg quote, if_neg backslash,
        if_neg control]

/-- The items of a literal are read up to the quote that ends it. -/
lemma readItems?_quoted (enough : cs.length < fuel) :
    readItems? fuel done (cs.flatMap escapeChar ++ '\x22' :: rest) =
      some (done.reverse ++ cs.map stringItem, rest) := by
  induction cs generalizing fuel done with
  | nil =>
    obtain ⟨fuel, rfl⟩ := Nat.exists_eq_succ_of_ne_zero (Nat.ne_of_gt enough)
    simp
  | cons c cs ih =>
    rw [List.length_cons] at enough
    obtain ⟨fuel, rfl⟩ := Nat.exists_eq_succ_of_ne_zero (show fuel ≠ 0 by omega)
    rw [List.flatMap_cons, List.append_assoc, readItems?_escapeChar, ih (by omega)]
    simp

/-- A unit that is no surrogate stands for a character by itself. -/
lemma decodeItems?_unit {code : Nat} (low : code < 0xD800) (done : List Char) :
    decodeItems? done (.unit code :: items) = decodeItems? (Char.ofNat code :: done) items := by
  have high : isHighSurrogate code = false := by
    rw [isHighSurrogate, decide_eq_false (by omega), Bool.false_and]
  have second : isLowSurrogate code = false := by
    rw [isLowSurrogate, decide_eq_false (by omega), Bool.false_and]
  cases items with
  | nil => simp [high, second]
  | cons item items => cases item <;> simp [high, second]

lemma decodeItems?_items (done cs : List Char) :
    decodeItems? done (cs.map stringItem) = some (done.reverse ++ cs) := by
  induction cs generalizing done with
  | nil => simp
  | cons c cs ih =>
    rw [List.map_cons, stringItem]
    split
    next control =>
      rw [decodeItems?_unit (by omega), Char.ofNat_toNat, ih]
      simp
    next => simp [ih]

/-- The items of a literal denote its text. -/
lemma decodeText?_items (s : String) : decodeText? (stringItems s) = some s := by
  simp [decodeText?, stringItems, decodeItems?_items]

end LedEffect.Json
