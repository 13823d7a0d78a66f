import Mathlib.Data.List.Forall2
import Mathlib.Tactic.Common

/-!
# Runs that succeed

A sequence of steps succeeds when each step does, and a traversal when every element does. A fold
runs to its end when its steps carry an invariant on (`exists_foldlM`, `exists_turns`).
-/

namespace LedEffect

variable {α β ε : Type}

lemma bind_eq_ok {x : Except ε α} {f : α → Except ε β} {b : β} :
    x >>= f = .ok b ↔ ∃ a, x = .ok a ∧ f a = .ok b := by
  cases x <;> simp [bind, Except.bind]

lemma bind_eq_error {x : Except ε α} {f : α → Except ε β} {fault : ε} :
    x >>= f = .error fault ↔ x = .error fault ∨ ∃ a, x = .ok a ∧ f a = .error fault := by
  cases x <;> simp [bind, Except.bind]

lemma pure_eq_ok {a b : α} : (pure a : Except ε α) = .ok b ↔ a = b := by
  simp [pure, Except.pure]

lemma map_eq_ok {x : Except ε α} {f : α → β} {b : β} :
    x.map f = .ok b ↔ ∃ a, x = .ok a ∧ f a = b := by
  cases x <;> simp [Except.map]

lemma mapError_eq_ok {δ : Type} {x : Except ε α} {f : ε → δ} {a : α} :
    x.mapError f = .ok a ↔ x = .ok a := by
  cases x <;> simp [Except.mapError]

lemma not_exists_of_error {x : Except ε α} {fault : ε} (failed : x = .error fault) :
    ¬ ∃ a, x = .ok a := by
  rintro ⟨a, run⟩
  cases failed.symm.trans run

lemma exists_of_isOk {x : Except ε α} (ok : x.isOk = true) : ∃ a, x = .ok a := by
  cases x with
  | ok a => exact ⟨a, rfl⟩
  | error fault => cases ok

/-- A run that is seen to succeed with a property does so. -/
lemma exists_of_any {x : Except ε α} {p : α → Bool} (seen : x.toOption.any p = true) :
    ∃ a, x = .ok a ∧ p a = true := by
  cases x with
  | ok a => exact ⟨a, rfl, seen⟩
  | error fault => cases seen

lemma mapM_eq_ok {f : α → Except ε β} {xs : List α} {ys : List β} :
    xs.mapM f = .ok ys ↔ List.Forall₂ (fun x y => f x = .ok y) xs ys := by
  induction xs generalizing ys with
  | nil => simp [pure, Except.pure, eq_comm]
  | cons x xs ih =>
    rw [List.mapM_cons, bind_eq_ok, List.forall₂_cons_left_iff]
    refine exists_congr fun y => ?_
    rw [bind_eq_ok]
    simp only [ih, pure_eq_ok]
    refine ⟨fun ⟨here, zs, rest, eq⟩ => ⟨zs, here, rest, eq.symm⟩, fun ⟨zs, here, rest, eq⟩ =>
      ⟨here, zs, rest, eq.symm⟩⟩

/-- A traversal fails with the first element that does. -/
lemma mapM_eq_error {f : α → Except ε β} {xs : List α} {fault : ε} (run : xs.mapM f = .error fault) :
    ∃ (i : Nat) (x : α), xs[i]? = some x ∧ f x = .error fault ∧
      ∀ j < i, ∀ y, xs[j]? = some y → ∃ b, f y = .ok b := by
  induction xs with
  | nil => cases run
  | cons x xs ih =>
    rw [List.mapM_cons] at run
    rcases bind_eq_error.1 run with here | ⟨b, first, run⟩
    · exact ⟨0, x, rfl, here, fun j lt => absurd lt (Nat.not_lt_zero j)⟩
    · rcases bind_eq_error.1 run with later | ⟨bs, -, eq⟩
      · obtain ⟨i, y, place, fails, before⟩ := ih later
        refine ⟨i + 1, y, place, fails, fun j lt z there => ?_⟩
        cases j with
        | zero =>
          cases there
          exact ⟨b, first⟩
        | succ j => exact before j (Nat.lt_of_succ_lt_succ lt) z there
      · cases eq

lemma mapM_eq_some {f : α → Option β} {xs : List α} {ys : List β} :
    xs.mapM f = some ys ↔ List.Forall₂ (fun x y => f x = some y) xs ys := by
  induction xs generalizing ys with
  | nil => simp [eq_comm]
  | cons x xs ih =>
    rw [List.mapM_cons, Option.bind_eq_bind, Option.bind_eq_some_iff, List.forall₂_cons_left_iff]
    refine exists_congr fun y => ?_
    rw [Option.bind_eq_bind, Option.bind_eq_some_iff]
    simp only [ih, Option.pure_def, Option.some_inj]
    refine ⟨fun ⟨here, zs, rest, eq⟩ => ⟨zs, here, rest, eq.symm⟩, fun ⟨zs, here, rest, eq⟩ =>
      ⟨here, zs, rest, eq.symm⟩⟩

lemma mapM_eq_none {f : α → Option β} {xs : List α} :
    xs.mapM f = none ↔ ∃ x ∈ xs, f x = none := by
  induction xs with
  | nil => exact iff_of_false nofun nofun
  | cons x xs ih =>
    rw [List.mapM_cons, List.exists_mem_cons_iff, ← ih]
    cases f x with
    | none => exact iff_of_true rfl (.inl rfl)
    | some y =>
      cases List.mapM f xs with
      | none => exact iff_of_true rfl (.inr rfl)
      | some ys => exact iff_of_false nofun (by rintro (h | h) <;> cases h)

/-- Related lists are related place by place. -/
lemma forall₂_iff_getElem? {R : α → β → Prop} {xs : List α} {ys : List β} :
    List.Forall₂ R xs ys ↔ xs.length = ys.length ∧
      ∀ (i : Nat) x y, xs[i]? = some x → ys[i]? = some y → R x y := by
  rw [List.forall₂_iff_get]
  refine and_congr_right fun length => ⟨fun h i x y hx hy => ?_, fun h i hi hj => ?_⟩
  · obtain ⟨hi, rfl⟩ := List.getElem?_eq_some_iff.1 hx
    obtain ⟨hj, rfl⟩ := List.getElem?_eq_some_iff.1 hy
    exact h i hi hj
  · exact h i _ _ (List.getElem?_eq_getElem hi) (List.getElem?_eq_getElem hj)

/-- Every element of the first of two related lists has a partner. -/
lemma Forall₂.exists_right {R : α → β → Prop} {xs : List α} {ys : List β}
    (h : List.Forall₂ R xs ys) {i : Nat} {x : α} (place : xs[i]? = some x) :
    ∃ y, ys[i]? = some y ∧ R x y := by
  obtain ⟨length, related⟩ := forall₂_iff_getElem?.1 h
  have bound : i < ys.length := by
    rw [← length]
    exact (List.getElem?_eq_some_iff.1 place).1
  exact ⟨ys[i], List.getElem?_eq_getElem bound,
    related i x _ place (List.getElem?_eq_getElem bound)⟩

lemma Forall₂.exists_left {R : α → β → Prop} {xs : List α} {ys : List β}
    (h : List.Forall₂ R xs ys) {i : Nat} {y : β} (place : ys[i]? = some y) :
    ∃ x, xs[i]? = some x ∧ R x y :=
  Forall₂.exists_right h.flip place

lemma Forall₂.exists_mem_right {R : α → β → Prop} {xs : List α} {ys : List β}
    (h : List.Forall₂ R xs ys) {x : α} (mem : x ∈ xs) : ∃ y ∈ ys, R x y := by
  obtain ⟨i, place⟩ := List.getElem?_of_mem mem
  obtain ⟨y, partner, related⟩ := Forall₂.exists_right h place
  exact ⟨y, List.mem_of_getElem? partner, related⟩

lemma Forall₂.exists_mem_left {R : α → β → Prop} {xs : List α} {ys : List β}
    (h : List.Forall₂ R xs ys) {y : β} (mem : y ∈ ys) : ∃ x ∈ xs, R x y :=
  Forall₂.exists_mem_right h.flip mem

/-- Lists of partners that agree on a property list the same properties. -/
lemma Forall₂.map_eq {γ : Type} {f : α → γ} {g : β → γ} {xs : List α} {ys : List β}
    (h : List.Forall₂ (fun x y => g y = f x) xs ys) : ys.map g = xs.map f := by
  induction h with
  | nil => rfl
  | cons here _ ih => rw [List.map_cons, List.map_cons, here, ih]

/-- What partners make together is related to the second of them. -/
lemma Forall₂.zipWith_left {γ : Type} {R : α → β → Prop} {S : γ → β → Prop} {f : α → β → γ}
    {xs : List α} {ys : List β} (h : List.Forall₂ R xs ys) (made : ∀ x y, R x y → S (f x y) y) :
    List.Forall₂ S (List.zipWith f xs ys) ys := by
  induction h with
  | nil => exact .nil
  | cons here _ ih => exact .cons (made _ _ here) ih

/-- Partners of the same elements are related when partners of one element are. -/
lemma Forall₂.meet {γ : Type} {R : α → β → Prop} {S : α → γ → Prop} {T : β → γ → Prop} {xs : List α}
    {ys : List β} {zs : List γ} (first : List.Forall₂ R xs ys) (second : List.Forall₂ S xs zs)
    (meet : ∀ x ∈ xs, ∀ y z, R x y → S x z → T y z) : List.Forall₂ T ys zs := by
  induction first generalizing zs with
  | nil =>
    cases second
    exact .nil
  | cons here _ ih =>
    cases second with
    | cons here' rest' =>
      obtain ⟨head, tail⟩ := List.forall_mem_cons.1 meet
      exact .cons (head _ _ here here') (ih rest' tail)

/-- Partners that are images of others are together the images of a list. -/
lemma Forall₂.exists_map {γ : Type} {R : α → β → Prop} {S : α → γ → Prop} {f : γ → β} {xs : List α}
    {ys : List β} (h : List.Forall₂ R xs ys)
    (lift : ∀ x ∈ xs, ∀ y, R x y → ∃ z, S x z ∧ f z = y) :
    ∃ zs, List.Forall₂ S xs zs ∧ zs.map f = ys := by
  induction h with
  | nil => exact ⟨[], .nil, rfl⟩
  | cons here _ ih =>
    obtain ⟨head, tail⟩ := List.forall_mem_cons.1 lift
    obtain ⟨z, first, rfl⟩ := head _ here
    obtain ⟨zs, rest, rfl⟩ := ih tail
    exact ⟨z :: zs, .cons first rest, rfl⟩

/-- A list whose elements all have a partner is related to a list of partners. -/
lemma exists_forall₂ {R : α → β → Prop} {xs : List α} (h : ∀ x ∈ xs, ∃ y, R x y) :
    ∃ ys, List.Forall₂ R xs ys := by
  induction xs with
  | nil => exact ⟨[], .nil⟩
  | cons x xs ih =>
    obtain ⟨⟨y, here⟩, rest⟩ := List.forall_mem_cons.1 h
    obtain ⟨ys, related⟩ := ih rest
    exact ⟨y :: ys, .cons here related⟩

/-! ## Invariants of folds -/

section Folds

variable {σ : Type} {s : σ}

/-- A fold whose steps carry on an invariant of what is done runs to its end. -/
lemma exists_foldlM {step : σ → α → Option σ} {I : List α → σ → Prop} (xs : List α)
    (next : ∀ done a rest s, xs = done ++ a :: rest → I done s →
      ∃ s', step s a = some s' ∧ I (done ++ [a]) s')
    (initial : I [] s) : ∃ s', xs.foldlM step s = some s' ∧ I xs s' := by
  suffices run : ∀ rest done s, xs = done ++ rest → I done s →
      ∃ s', rest.foldlM step s = some s' ∧ I xs s' from run xs [] s rfl initial
  intro rest
  induction rest with
  | nil =>
    intro done s split inv
    rw [List.append_nil] at split
    exact ⟨s, rfl, split ▸ inv⟩
  | cons a rest ih =>
    intro done s split inv
    obtain ⟨s', here, inv'⟩ := next done a rest s split inv
    obtain ⟨final, run, last⟩ := ih (done ++ [a]) s' (by simpa using split) inv'
    exact ⟨final, by rw [List.foldlM_cons, here]; exact run, last⟩

/-- Turns that carry on an invariant of their number run to the last one. -/
lemma exists_turns {step : σ → Nat → Option σ} {I : Nat → σ → Prop} {head : Nat}
    (next : ∀ head s, I head s → ∃ s', step s head = some s' ∧ I (head + 1) s') (inv : I head s)
    (count : Nat) : ∃ s', (List.range' head count).foldlM step s = some s' ∧ I (head + count) s' := by
  induction count generalizing head s with
  | zero => exact ⟨s, rfl, inv⟩
  | succ count ih =>
    obtain ⟨s', here, inv'⟩ := next head s inv
    obtain ⟨final, run, last⟩ := ih inv'
    refine ⟨final, ?_, by rwa [Nat.add_right_comm] at last⟩
    rw [List.range'_succ, List.foldlM_cons, here]
    exact run

end Folds

end LedEffect
