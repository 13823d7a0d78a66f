import LedEffect.Proofs.Json.Doubles
import LedEffect.Proofs.Number.Accuracy
import Mathlib.Algebra.BigOperators.Ring.List

/-!
# Sums

Doubles are added up in their order, and every addition is rounded. The sum of weights is the rounded
exact sum, whatever the order, if no addition before the last one loses anything (`sum_perm`), and it
is near the exact sum in any case (`tracks_sum`).
-/

namespace LedEffect.Binary64

variable {ws ws' part : List Binary64} {w x y : Binary64} {m : Magnitude}

/-- Numbers added up in their order. -/
def sum (ws : List Binary64) : Binary64 := ws.foldl (· + ·) zero

/-- The units of numbers added up exactly. -/
def total (ws : List Binary64) : Nat := (ws.map absUnits).sum

lemma sum_snoc (ws : List Binary64) (w : Binary64) : sum (ws ++ [w]) = sum ws + w := by
  rw [sum, List.foldl_append]
  rfl

lemma total_snoc (ws : List Binary64) (w : Binary64) : total (ws ++ [w]) = total ws + w.absUnits := by
  simp [total]

lemma total_perm (perm : ws.Perm ws') : total ws = total ws' := (perm.map absUnits).sum_eq

lemma total_part_le (before : part <+: ws) : total part ≤ total ws := by
  obtain ⟨rest, rfl⟩ := before
  simp [total]

/-! ## Exact sums -/

/-- Numbers whose sums lose nothing before the last addition: at most two of them, or multiples of one
power of two whose sum is no longer than a significand. -/
def Settled (ws : List Binary64) : Prop :=
  ws.length ≤ 2 ∨ ∃ places, (∀ w ∈ ws, 2 ^ places ∣ w.absUnits) ∧ total ws < 2 ^ (53 + places)

lemma Settled.perm (settled : Settled ws) (perm : ws.Perm ws') : Settled ws' := by
  rcases settled with few | ⟨places, multiples, short⟩
  · exact .inl (perm.length_eq ▸ few)
  · exact .inr ⟨places, fun w mem => multiples w (perm.mem_iff.2 mem), total_perm perm ▸ short⟩

lemma rounded_absUnits (w : Binary64) : Magnitude.rounded w.absUnits = w.absUnits := by
  cases w with
  | finite s m => exact (Magnitude.rounded_units m).1
  | _ => exact Magnitude.rounded_eq_self (show 0 < 2 ^ 53 by decide) 0

/-- The sum of what comes before one of the numbers is a double itself. -/
lemma Settled.rounded_total (settled : Settled ws) (before : part ++ [w] <+: ws) :
    Magnitude.rounded (total part) = total part := by
  rcases settled with few | ⟨places, multiples, short⟩
  · have length := before.length_le
    rw [List.length_append, List.length_singleton] at length
    match part, (by omega : part.length ≤ 1) with
    | [], _ => exact Magnitude.rounded_eq_self (show 0 < 2 ^ 53 by decide) 0
    | [v], _ =>
      rw [show total [v] = v.absUnits by simp [total]]
      exact rounded_absUnits v
  · have inside : part <+: ws := (List.prefix_append part [w]).trans before
    have divides : 2 ^ places ∣ total part := by
      refine List.dvd_sum fun units listed => ?_
      obtain ⟨v, mem, rfl⟩ := List.mem_map.1 listed
      exact multiples v (inside.subset mem)
    obtain ⟨count, units⟩ := divides
    rw [Nat.mul_comm] at units
    have bound := (total_part_le inside).trans_lt short
    rw [units, Nat.pow_add] at bound
    rw [units]
    exact Magnitude.rounded_eq_self (Nat.lt_of_mul_lt_mul_right bound) places

/-- The exact sum of weights, rounded once. -/
def nearestTotal (ws : List Binary64) : Binary64 :=
  ofMagnitude? false (Magnitude.nearest? (total ws) 1)

/-- When the sum so far is a double, adding a weight rounds the exact sum once. -/
lemma nearestTotal_add (weight : w.IsWeight) (exact : Magnitude.rounded (total ws) = total ws) :
    nearestTotal ws + w = nearestTotal (ws ++ [w]) := by
  rw [nearestTotal, nearestTotal, total_snoc]
  rcases Magnitude.nearest?_eq (total ws) with ⟨none, past⟩ | ⟨m, some, units, -⟩
  · rw [none]
    rcases Magnitude.nearest?_eq (total ws + w.absUnits) with ⟨none', -⟩ | ⟨_, _, _, below⟩
    · rw [none']
      exact weight.infinite_add
    · have := Magnitude.rounded_mono (Nat.le_add_right (total ws) w.absUnits)
      omega
  · rw [some]
    refine (weight.finite_add m).trans ?_
    rw [units, exact]

/-- The sum of weights is exact up to its last addition, if what comes before is. -/
lemma sum_eq_nearestTotal (weights : ∀ w ∈ ws, w.IsWeight)
    (exact : ∀ part w, part ++ [w] <+: ws → Magnitude.rounded (total part) = total part) :
    sum ws = nearestTotal ws := by
  induction ws using List.reverseRecOn with
  | nil => rfl
  | append_singleton ws w ih =>
    obtain ⟨before, last⟩ := List.forall_mem_append.1 weights
    have inside : ∀ part v, part ++ [v] <+: ws → Magnitude.rounded (total part) = total part :=
      fun part v here => exact part v (here.trans (List.prefix_append ws [w]))
    rw [sum_snoc, ih before inside, nearestTotal_add (last w List.mem_cons_self)
      (exact ws w (List.prefix_refl _))]

/-- Settled weights have one sum in any order. -/
lemma sum_perm (settled : Settled ws) (weights : ∀ w ∈ ws, w.IsWeight) (perm : ws.Perm ws') :
    sum ws' = sum ws := by
  have weights' : ∀ w ∈ ws', w.IsWeight := fun w mem => weights w (perm.mem_iff.2 mem)
  rw [sum_eq_nearestTotal weights fun part w => settled.rounded_total,
    sum_eq_nearestTotal weights' fun part w => (settled.perm perm).rounded_total, nearestTotal,
    nearestTotal, total_perm perm]

/-! ## Operations on finite numbers -/

open Magnitude (unitsPerOne)

lemma finite_mul (a b : Magnitude) : finite false a * finite false b =
    ofMagnitude? false (Magnitude.nearest? (a.units * b.units) unitsPerOne) := by
  change Binary64.mul _ _ = _
  rw [Binary64.mul, bne_self_eq_false]

lemma infinite_mul (pos : 0 < m.units) : infinite false * finite false m = infinite false := by
  change Binary64.mul _ _ = _
  rw [Binary64.mul, if_neg pos.ne', bne_self_eq_false]

lemma finite_div (a : Magnitude) (pos : 0 < m.units) : finite false a / finite false m =
    ofMagnitude? false (Magnitude.nearest? (a.units * unitsPerOne) m.units) := by
  change Binary64.div _ _ = _
  rw [Binary64.div, if_neg pos.ne', bne_self_eq_false]

lemma roundToCounter_finite (m : Magnitude) : (finite false m).roundToCounter =
    Min.min Json.wordLimit ((2 * m.units + unitsPerOne) / (2 * unitsPerOne)) := by
  rw [roundToCounter, if_neg Bool.false_ne_true, Json.wordLimit]

/-! ## Accuracy -/

/-- The number that a double stands for; what is not finite stands for zero. -/
def value : Binary64 → ℚ
  | finite s m => signedUnits s m / unitsPerOne
  | _ => 0

lemma abs_sub_div_unitsPerOne {a b c : ℚ} (le : |a - b| ≤ c) :
    |a / unitsPerOne - b / unitsPerOne| ≤ c / unitsPerOne := by
  rw [← sub_div, abs_div, abs_of_pos Magnitude.cast_unitsPerOne_pos]
  exact div_le_div_of_nonneg_right le Magnitude.cast_unitsPerOne_pos.le

lemma IsWeight.value_eq (hw : w.IsWeight) : w.value = w.absUnits / unitsPerOne := by
  cases w with
  | finite s m =>
    rw [value, hw.signedUnits_eq, Int.cast_natCast]
    rfl
  | _ => cases hw.isFinite

lemma IsWeight.value_nonneg (hw : w.IsWeight) : 0 ≤ w.value := by
  rw [hw.value_eq]
  exact div_nonneg (Nat.cast_nonneg _) Magnitude.cast_unitsPerOne_pos.le

lemma value_finite (m : Magnitude) : (finite false m).value = m.units / unitsPerOne :=
  (Json.isWeight_finite m).value_eq

/-- Doubles are smaller than the units in one by at least fifty places. -/
lemma value_mul_le (m : Magnitude) : (finite false m).value * 2 ^ 50 ≤ unitsPerOne := by
  have below : m.units * 2 ^ 50 ≤ unitsPerOne * unitsPerOne := by
    calc m.units * 2 ^ 50 ≤ Magnitude.limit * 2 ^ 50 :=
          Nat.mul_le_mul_right _ (Magnitude.rounded_units m).2.le
      _ = unitsPerOne * unitsPerOne := by
          rw [Magnitude.limit, unitsPerOne, ← Nat.pow_add, ← Nat.pow_add]
  have cast : (m.units * 2 ^ 50 : ℚ) ≤ unitsPerOne * unitsPerOne := by exact_mod_cast below
  rwa [value_finite, div_mul_eq_mul_div, div_le_iff₀ Magnitude.cast_unitsPerOne_pos]

/-- What was computed of a number from zero up with some roundings and a slack: either a double near it,
or infinity. -/
def Tracks (roundings : ℕ) (slack x : ℚ) (y : Binary64) : Prop :=
  y = infinite false ∨ ∃ m, y = finite false m ∧ Near roundings slack x (m.units / unitsPerOne)

namespace Tracks

variable {roundings n : ℕ} {slack slack' x : ℚ}

lemma loosen (tracks : Tracks roundings slack x y) (le : slack ≤ slack') :
    Tracks roundings slack' x y := by
  obtain rfl | ⟨m, rfl, near⟩ := tracks
  · exact .inl rfl
  · exact .inr ⟨m, rfl, near.loosen le⟩

/-- The double nearest to a fraction is off by one rounding and half a unit. -/
lemma of_near {num den : ℕ} (near : Near roundings slack x (num / den / unitsPerOne))
    (slack_nonneg : 0 ≤ slack) (pos : 0 < den) : Tracks (roundings + 1)
      (2 * slack + 1 / 2 / unitsPerOne) x (ofMagnitude? false (Magnitude.nearest? num den)) := by
  cases rounding : Magnitude.nearest? num den with
  | none => exact .inl rfl
  | some k =>
    refine .inr ⟨k, rfl, near.round slack_nonneg ?_⟩
    have units := abs_sub_div_unitsPerOne (Magnitude.abs_units_sub_le pos rounding)
    rwa [add_div, div_right_comm _ (2 ^ 53 : ℚ)] at units

/-- A sum with a weight is off by one rounding more. -/
lemma add (tracks : Tracks roundings 0 x y) (weight : w.IsWeight) :
    Tracks (roundings + 1) 0 (x + w.value) (y + w) := by
  obtain rfl | ⟨m, rfl, near⟩ := tracks
  · exact .inl weight.infinite_add
  · rw [weight.finite_add m]
    rcases Magnitude.nearest?_eq (m.units + w.absUnits) with ⟨none, -⟩ | ⟨k, some, units, -⟩
    · rw [none]
      exact .inl rfl
    · rw [some]
      have rounded := abs_sub_div_unitsPerOne
        (Magnitude.abs_rounded_sub_le (m.units + w.absUnits))
      rw [div_right_comm _ (2 ^ 53 : ℚ), ← units, Nat.cast_add, add_div _ (w.absUnits : ℚ),
        ← weight.value_eq] at rounded
      have round := (near.add_right weight.value_nonneg).round le_rfl (c := 0) (by rwa [add_zero])
      rw [mul_zero, add_zero] at round
      exact .inr ⟨k, rfl, round⟩

/-- A quotient by a counter is off by two roundings more, one of them for the counter itself. -/
lemma div_ofNat (tracks : Tracks roundings slack x y) (slack_nonneg : 0 ≤ slack) (pos : 0 < n)
    (counter : n ≤ Json.wordLimit) : Tracks (roundings + 2)
      (2 * (2 * (slack / n)) + 1 / 2 / unitsPerOne) (x / n) (y / ofNat n) := by
  obtain ⟨b, eq, units⟩ := Json.exists_word counter
  have rounded := abs_sub_div_unitsPerOne (Magnitude.abs_rounded_sub_le (n * unitsPerOne))
  rw [div_right_comm _ (2 ^ 53 : ℚ), ← units, Nat.cast_mul,
    mul_div_cancel_right₀ _ Magnitude.cast_unitsPerOne_pos.ne'] at rounded
  have n_pos : (0 : ℚ) < n := by exact_mod_cast pos
  have b_pos : 0 < b.units := by
    calc 0 < unitsPerOne := Magnitude.unitsPerOne_pos
      _ = Magnitude.rounded unitsPerOne := Magnitude.rounded_unitsPerOne.symm
      _ ≤ Magnitude.rounded (n * unitsPerOne) :=
        Magnitude.rounded_mono (Nat.le_mul_of_pos_left _ pos)
      _ = b.units := units.symm
  rw [eq]
  obtain rfl | ⟨a, rfl, near⟩ := tracks
  · exact .inl rfl
  · have quotient := near.div_right slack_nonneg n_pos rounded
    rw [finite_div a b_pos]
    refine of_near ?_ (mul_nonneg two_pos.le (div_nonneg slack_nonneg n_pos.le)) b_pos
    have same : ((a.units * unitsPerOne : ℕ) / b.units / unitsPerOne : ℚ) =
        a.units / unitsPerOne / (b.units / unitsPerOne) := by
      have b_pos : (0 : ℚ) < b.units := by exact_mod_cast b_pos
      have one := Magnitude.cast_unitsPerOne_pos
      rw [Nat.cast_mul]
      field_simp
    rwa [same]

/-- A product with a positive number is off by one rounding more. -/
lemma mul (tracks : Tracks roundings slack x y) (slack_nonneg : 0 ≤ slack) (pos : 0 < m.units) :
    Tracks (roundings + 1) (2 * (slack * (finite false m).value) + 1 / 2 / unitsPerOne)
      (x * (finite false m).value) (y * finite false m) := by
  have nonneg : 0 ≤ (finite false m).value := (Json.isWeight_finite m).value_nonneg
  obtain rfl | ⟨a, rfl, near⟩ := tracks
  · exact .inl (infinite_mul pos)
  · rw [finite_mul]
    refine of_near ?_ (mul_nonneg slack_nonneg nonneg) Magnitude.unitsPerOne_pos
    have same : ((a.units * m.units : ℕ) / unitsPerOne / unitsPerOne : ℚ) =
        a.units / unitsPerOne * (finite false m).value := by
      rw [value_finite, Nat.cast_mul]
      ring
    rw [same]
    exact near.mul_right nonneg

/-- A counter is off by half of one more, unless it is the greatest one. -/
lemma roundToCounter (tracks : Tracks roundings slack x y)
    (below : y.roundToCounter < Json.wordLimit) :
    Near roundings (slack + 1 / 2) x y.roundToCounter := by
  obtain rfl | ⟨m, rfl, near⟩ := tracks
  · exact absurd below (Nat.lt_irrefl _)
  · rw [roundToCounter_finite] at below ⊢
    rw [Nat.min_eq_right (le_of_lt (by omega))]
    exact near.shift (abs_div_sub_le m.units Magnitude.unitsPerOne_pos)

end Tracks

/-- The sum of weights is off by one rounding for each of them. -/
lemma tracks_sum (weights : ∀ w ∈ ws, w.IsWeight) : Tracks ws.length 0 (ws.map value).sum (sum ws) := by
  induction ws using List.reverseRecOn with
  | nil =>
    refine .inr ⟨.zero, rfl, ?_⟩
    have zero : (Magnitude.zero.units / unitsPerOne : ℚ) = 0 := by
      rw [show Magnitude.zero.units = 0 from Nat.zero_mul _, Nat.cast_zero, zero_div]
    rw [zero]
    exact .refl le_rfl
  | append_singleton ws w ih =>
    obtain ⟨before, last⟩ := List.forall_mem_append.1 weights
    rw [sum_snoc, List.length_append, List.map_append, List.sum_append, List.map_singleton,
      List.sum_singleton]
    exact (ih before).add (last w List.mem_cons_self)

end LedEffect.Binary64
