import LedEffect.Proofs.Json.Printed
import LedEffect.Proofs.Traversal

/-!
# Values read back

What the syntax of a printed value denotes. Natural numbers that fit 64 bits denote themselves
(`value?_natural`), and containers denote what their parts do (`value?_array`, `value?_object`). A double
need not denote itself: its digits are read with two roundings.
-/

namespace LedEffect

namespace Json

/-! ## Integers -/

/-- The word that digits make of the word before them. -/
def wordOf (word : Nat) (digits : List Char) : Nat :=
  digits.foldl (fun n c => n * 10 + (c.toNat - 48)) word

lemma le_wordOf (word : Nat) (digits : List Char) : word ≤ wordOf word digits := by
  induction digits generalizing word with
  | nil => exact Nat.le_refl word
  | cons c digits ih => exact Nat.le_trans (by omega) (ih (word * 10 + (c.toNat - 48)))

/-- Digits that write a word are taken to the last one. -/
lemma takeWord_eq {word : Nat} {digits : List Char} (small : wordOf word digits ≤ wordLimit) :
    takeWord word digits = (wordOf word digits, []) := by
  induction digits generalizing word with
  | nil => rfl
  | cons c digits ih =>
    have fits : word * 10 + (c.toNat - 48) ≤ wordLimit := (le_wordOf _ digits).trans small
    rw [takeWord, if_pos fits, ih small]
    rfl

lemma takeWord_numberOf {digits : List Char} (small : numberOf digits ≤ wordLimit) :
    takeWord 0 digits = (numberOf digits, []) :=
  takeWord_eq small

variable {depth : Nat}

lemma value?_integerLiteral {n : Nat} (small : n ≤ wordLimit) :
    (integerLiteral n).value? = some (.integer n) := by
  have word : takeWord 0 (digitsOf n) = (n, []) := by
    rw [takeWord_numberOf] <;> rw [numberOf_digitsOf]
    exact small
  rw [NumberLiteral.value?]
  simp [integerLiteral, word]

attribute [local simp] Document.value? Document.values? Document.members?

/-- A natural number that fits a word denotes itself. -/
lemma value?_natural {n : Nat} (small : n ≤ wordLimit) :
    (document (.natural n)).value? depth = some (.natural n) := by
  rw [natural, document, Document.value?, value?_integerLiteral small]
  rfl

/-! ## Containers -/

lemma values?_eq (done : List Json) (items : List Document) :
    Document.values? depth done items =
      (items.mapM (Document.value? depth)).map (done.reverse ++ ·) := by
  induction items generalizing done with
  | nil => simp
  | cons item items ih =>
    rw [Document.values?, List.mapM_cons]
    cases item.value? depth with
    | none => rfl
    | some value =>
      simp only [ih]
      cases items.mapM (Document.value? depth) <;> simp

/-- A list of members with what their values denote. -/
def member? (depth : Nat) (member : List StringItem × Document) : Option (String × Json) := do
  let key ← decodeText? member.1
  let value ← member.2.value? depth
  some (key, value)

lemma members?_eq (done : List (String × Json)) (members : List (List StringItem × Document)) :
    Document.members? depth done members =
      (members.mapM (member? depth)).map (done.reverse ++ ·) := by
  induction members generalizing done with
  | nil => simp
  | cons member members ih =>
    obtain ⟨key, value⟩ := member
    rw [Document.members?, List.mapM_cons, member?]
    cases decodeText? key with
    | none => rfl
    | some key =>
      cases value.value? depth with
      | none => rfl
      | some value =>
        simp only [ih]
        cases members.mapM (member? depth) <;> simp

/-- An array denotes the list of what its elements denote. -/
lemma value?_array (items : List Json) : (document (.array items)).value? (depth + 1) =
    (items.mapM fun item => (document item).value? depth).map .array := by
  rw [document, Document.value?, values?_eq, documents_eq, List.mapM_map, Option.map_map]
  simp [Function.comp_def]

/-- An object denotes its members under their keys. -/
lemma value?_object (members : List (String × Json)) :
    (document (.object members)).value? (depth + 1) =
      (members.mapM fun member => ((document member.2).value? depth).map (member.1, ·)).map
        fun entries => .object (Keyed.ofList entries).entries := by
  have each : ∀ member : String × Json, member? depth (stringItems member.1, document member.2) =
      ((document member.2).value? depth).map (member.1, ·) := by
    intro member
    rw [member?, decodeText?_items]
    cases (document member.2).value? depth <;> rfl
  rw [document, Document.value?, members?_eq, memberDocuments_eq, List.mapM_map, Option.map_map]
  simp [Function.comp_def, each]

end Json

end LedEffect
