import LedEffect.Proofs.Program.Tokens
import Mathlib.Data.List.Basic

/-!
# Balanced delimiters

Tokens are balanced when each opening delimiter is closed by one of its kind (`Balanced`), and sealed when
moreover no operator stands outside of delimiters (`Sealed`). Both properties pass to tokens in a row, and
balanced tokens between delimiters are sealed, whatever they are (`Balanced.sealed`).
-/

namespace LedEffect.Token

/-- The delimiter that closes an opening one. -/
def closing? : Token → Option Token
  | .mark '(' => some (.mark ')')
  | .mark '[' => some (.mark ']')
  | .mark '{' => some (.mark '}')
  | _ => none

/-- Whether a token is a closing delimiter. -/
def isClosing (t : Token) : Bool := t ∈ [.mark ')', .mark ']', .mark '}']

/-- The closing delimiters that are due behind a token, the next one first. -/
def due? (due : List Token) (t : Token) : Option (List Token) :=
  match closing? t with
  | some close => some (close :: due)
  | none =>
    if isClosing t then
      match due with
      | close :: due => if close = t then some due else none
      | [] => none
    else some due

/-- Whether each delimiter is opened before it is closed, by one of its kind, none between two others. -/
def Balanced (ts : List Token) : Prop := ts.foldlM due? [] = some []

instance (ts : List Token) : Decidable (Balanced ts) := by
  unfold Balanced
  infer_instance

/-- Whether a token is neither a word or number nor a delimiter nor the point before a member. -/
def IsOperator : Token → Prop
  | .word _ | .number _ => False
  | .mark c => c ∉ ['(', ')', '[', ']', '{', '}', '.']
  | .pair _ _ => True

/-- Whether tokens are balanced and no operator stands outside of their delimiters. -/
structure Sealed (ts : List Token) : Prop where
  balanced : Balanced ts
  inside : ∀ before t after, ts = before ++ t :: after → IsOperator t →
    before.foldlM due? [] ≠ some []

variable {t opening close : Token} {ts us due due' : List Token}

/-! ## Balanced tokens -/

lemma due?_append (more : List Token) (step : due? due t = some due') :
    due? (due ++ more) t = some (due' ++ more) := by
  unfold due? at step ⊢
  split at step
  · obtain rfl := Option.some_inj.1 step
    rfl
  · split_ifs at step ⊢
    · cases due with
      | nil => cases step
      | cons close due =>
        dsimp only [List.cons_append] at step ⊢
        split_ifs at step ⊢
        obtain rfl := Option.some_inj.1 step
        rfl
    · obtain rfl := Option.some_inj.1 step
      rfl

/-- What is due before tokens stays due behind them, under what they leave open. -/
lemma foldlM_due?_append (more : List Token) (run : ts.foldlM due? due = some due') :
    ts.foldlM due? (due ++ more) = some (due' ++ more) := by
  induction ts generalizing due with
  | nil =>
    cases run
    rfl
  | cons t ts ih =>
    rw [List.foldlM_cons] at run ⊢
    obtain ⟨next, step, run⟩ := Option.bind_eq_some_iff.1 run
    exact Option.bind_eq_some_iff.2 ⟨next ++ more, due?_append more step, ih run⟩

namespace Balanced

/-- Balanced tokens leave due what was due before. -/
lemma run (balanced : Balanced ts) (due : List Token) : ts.foldlM due? due = some due :=
  foldlM_due?_append due balanced

lemma append (first : Balanced ts) (second : Balanced us) : Balanced (ts ++ us) := by
  rw [Balanced, List.foldlM_append, first.run]
  exact second

/-- A token that is no delimiter is balanced. -/
lemma single (plain : closing? t = none) (other : isClosing t = false) : Balanced [t] := by
  simp [Balanced, due?, plain, other]

/-- What closes an opening delimiter is a closing one. -/
lemma isClosing_of_closing? (closes : closing? opening = some close) :
    closing? close = none ∧ isClosing close = true := by
  unfold closing? at closes
  split at closes <;> cases closes <;> decide

/-- Balanced tokens between delimiters of one kind are balanced. -/
lemma enclosed (balanced : Balanced ts) (closes : closing? opening = some close) :
    Balanced (opening :: ts ++ [close]) := by
  obtain ⟨last, closing⟩ := isClosing_of_closing? closes
  have first : due? [] opening = some [close] := by rw [due?, closes]
  have final : due? [close] close = some [] := by simp [due?, last, closing]
  simp [Balanced, List.foldlM_append, first, balanced.run, final]

/-- Behind a part of balanced tokens all is still due that was due before. -/
lemma run_prefix {before : List Token} (balanced : Balanced ts) (inside : before <+: ts)
    (due : List Token) : ∃ more, before.foldlM due? due = some (more ++ due) := by
  obtain ⟨after, rfl⟩ := inside
  rw [Balanced, List.foldlM_append] at balanced
  obtain ⟨more, run, -⟩ := Option.bind_eq_some_iff.1 balanced
  exact ⟨more, foldlM_due?_append due run⟩

/-- Balanced tokens between delimiters are sealed, whatever they are. -/
lemma sealed (balanced : Balanced ts) (closes : closing? opening = some close) :
    Sealed (opening :: ts ++ [close]) := by
  refine ⟨balanced.enclosed closes, fun before t after split operator => ?_⟩
  cases before with
  | nil =>
    cases split
    unfold closing? at closes
    split at closes <;> simp_all [IsOperator]
  | cons first before =>
    -- Before the closing delimiter it is due, whatever else is.
    obtain ⟨rfl, within⟩ := List.cons.inj split
    have inside : before <+: ts := by
      rcases List.append_eq_append_iff.1 within with ⟨more, rfl, rest⟩ | ⟨more, rfl, rest⟩
      · cases more with
        | nil => simp
        | cons first more => simp at rest
      · exact List.prefix_append before more
    obtain ⟨more, run⟩ := balanced.run_prefix inside [close]
    have first : due? [] opening = some [close] := by rw [due?, closes]
    simp [first, run]

end Balanced

/-! ## Sealed tokens -/

lemma Sealed.single (plain : ¬ IsOperator t) (balanced : Balanced [t]) : Sealed [t] := by
  refine ⟨balanced, fun before u after split operator => ?_⟩
  cases before with
  | nil =>
    cases split
    exact absurd operator plain
  | cons first before => simp at split

lemma Sealed.append (first : Sealed ts) (second : Sealed us) : Sealed (ts ++ us) := by
  refine ⟨first.balanced.append second.balanced, fun before t after split operator => ?_⟩
  rcases List.append_eq_append_iff.1 split with ⟨more, rfl, rest⟩ | ⟨more, rfl, rest⟩
  · rw [List.foldlM_append, first.balanced]
    exact second.inside more t after rest operator
  · cases more with
    | nil => exact absurd rfl (second.inside [] t after rest.symm operator)
    | cons u more =>
      obtain ⟨rfl, -⟩ := List.cons.inj rest
      exact first.inside before t more rfl operator

end LedEffect.Token
