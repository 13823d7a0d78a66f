import LedEffect.Cost.Estimate
import LedEffect.Proofs.Keyed
import Mathlib.Algebra.BigOperators.Group.Finset.Basic
import Mathlib.Algebra.GroupWithZero.Nat

/-!
# Totals

A counter that is added to stays at its greatest value once it would pass it, so it does not matter
in which order numbers are added, nor how they are grouped: the counter is their sum, or its greatest
value if that is less. `Sums` says so of all that is kept while the nodes of a graph are charged, and
`sums_totals` shows it along the list.
-/

namespace LedEffect

/-! ## Counters -/

/-- A counter that already stands at its greatest value loses nothing that matters. -/
lemma addCounters_min_left (a b : Nat) :
    addCounters (min a Json.wordLimit) b = min (a + b) Json.wordLimit := by
  unfold addCounters
  omega

lemma addCounters_min_min (a b : Nat) :
    addCounters (min a Json.wordLimit) (min b Json.wordLimit) = min (a + b) Json.wordLimit := by
  unfold addCounters
  omega

/-- Summands may be held at a limit before the sum is. -/
lemma min_sum_map_min {α : Type} (f : α → Nat) (limit : Nat) (l : List α) :
    min (l.map fun x => min (f x) limit).sum limit = min (l.map f).sum limit := by
  induction l with
  | nil => rfl
  | cons x l ih =>
    simp only [List.map_cons, List.sum_cons]
    omega

namespace Estimator

variable {m : CostModel} {kinds kinds' : List String} {t t' : Totals}

/-! ## What is charged -/

/-- What nodes of these kinds are charged in one coefficient, however much that is. -/
def charged (m : CostModel) (kinds : List String) (part : Coefficients → Nat) : Nat :=
  (kinds.map fun kind => part (CostModel.lookup m kind).1).sum

/-- What the nodes of one kind among these are charged. -/
def costOf (m : CostModel) (kinds : List String) (kind : String) : KindCost :=
  ⟨kinds.count kind, min (kinds.count kind * (CostModel.lookup m kind).1.ops) Json.wordLimit⟩

lemma charged_append (m : CostModel) (kinds kinds' : List String) (part : Coefficients → Nat) :
    charged m (kinds ++ kinds') part = charged m kinds part + charged m kinds' part := by
  simp [charged]

lemma charged_perm (perm : kinds.Perm kinds') (part : Coefficients → Nat) :
    charged m kinds part = charged m kinds' part :=
  (perm.map _).sum_eq

/-- A counter of what is charged, with one more node. -/
lemma counter_snoc {part : Coefficients → Nat} {counter : Nat}
    (sum : counter = min (charged m kinds part) Json.wordLimit) (kind : String) :
    addCounters counter (part (CostModel.lookup m kind).1) =
      min (charged m (kinds ++ [kind]) part) Json.wordLimit := by
  have one : charged m [kind] part = part (CostModel.lookup m kind).1 := by simp [charged]
  rw [sum, addCounters_min_left, charged_append, one]

/-- Counters of what is charged for two lists add up to that of both. -/
lemma counter_append {part : Coefficients → Nat} {counter counter' : Nat}
    (sum : counter = min (charged m kinds part) Json.wordLimit)
    (sum' : counter' = min (charged m kinds' part) Json.wordLimit) :
    min (charged m (kinds ++ kinds') part) Json.wordLimit = addCounters counter counter' := by
  rw [sum, sum', addCounters_min_min, charged_append]

/-- A counter of what is charged does not depend on the order. -/
lemma counter_perm {part : Coefficients → Nat} {counter counter' : Nat}
    (perm : kinds.Perm kinds') (sum : counter = min (charged m kinds part) Json.wordLimit)
    (sum' : counter' = min (charged m kinds' part) Json.wordLimit) : counter' = counter := by
  rw [sum, sum', charged_perm perm]

lemma costOf_perm (perm : kinds.Perm kinds') (kind : String) :
    costOf m kinds kind = costOf m kinds' kind := by
  unfold costOf
  rw [perm.count_eq kind]

/-- One more node of a kind is counted, and its operations are added. -/
lemma costOf_snoc_self (m : CostModel) (kinds : List String) (kind : String) :
    costOf m (kinds ++ [kind]) kind =
      ⟨(costOf m kinds kind).count + 1,
        addCounters (costOf m kinds kind).ops (CostModel.lookup m kind).1.ops⟩ := by
  have count : (kinds ++ [kind]).count kind = kinds.count kind + 1 := by
    rw [List.count_append, List.count_singleton_self]
  unfold costOf
  rw [count, addCounters_min_left, Nat.succ_mul]

/-- A node of another kind changes nothing. -/
lemma costOf_snoc_of_ne {kind other : String} (differ : kind ≠ other) :
    costOf m (kinds ++ [kind]) other = costOf m kinds other := by
  have count : (kinds ++ [kind]).count other = kinds.count other := by
    rw [List.count_append, List.count_singleton, if_neg (by simpa using differ), Nat.add_zero]
  unfold costOf
  rw [count]

/-- A kind without nodes costs nothing. -/
lemma costOf_of_not_mem {kind : String} (absent : kind ∉ kinds) : costOf m kinds kind = ⟨0, 0⟩ := by
  unfold costOf
  rw [List.count_eq_zero_of_not_mem absent, Nat.zero_mul, Nat.zero_min]

/-- Coefficients come from the fallback for the kinds that a model does not have. -/
lemma lookup_fallback_iff {kind : String} :
    (CostModel.lookup m kind).2 = .fallback ↔ m.get? kind = none := by
  unfold CostModel.lookup
  cases m.get? kind with
  | none => exact iff_of_true rfl rfl
  | some c => exact iff_of_false nofun nofun

/-! ## The sums along a list -/

/-- What is kept while kinds are charged: each counter is the sum of its coefficients or stands at its
greatest value, the unknown kinds are listed once, and the breakdown has an entry for each kind. -/
structure Sums (m : CostModel) (kinds : List String) (t : Totals) : Prop where
  ops : t.ops = min (charged m kinds Coefficients.ops) Json.wordLimit
  memReads : t.memReads = min (charged m kinds Coefficients.memReads) Json.wordLimit
  memWrites : t.memWrites = min (charged m kinds Coefficients.memWrites) Json.wordLimit
  ioCalls : t.ioCalls = min (charged m kinds Coefficients.ioCalls) Json.wordLimit
  nodup : t.fallbackKinds.Nodup
  unknown : ∀ kind, kind ∈ t.fallbackKinds ↔ kind ∈ kinds ∧ m.get? kind = none
  entry : ∀ kind, t.breakdown.get? kind = if kind ∈ kinds then some (costOf m kinds kind) else none

namespace Sums

/-- The entry of a kind, from nothing where there is none. -/
lemma getD_entry (s : Sums m kinds t) (kind : String) :
    (t.breakdown.get? kind).getD ⟨0, 0⟩ = costOf m kinds kind := by
  rw [s.entry kind]
  split
  · rfl
  next absent => exact (costOf_of_not_mem absent).symm

/-- Nothing is charged for no nodes. -/
lemma empty (m : CostModel) : Sums m [] ⟨0, 0, 0, 0, [], .empty⟩ where
  ops := rfl
  memReads := rfl
  memWrites := rfl
  ioCalls := rfl
  nodup := .nil
  unknown _ := by simp
  entry _ := rfl

/-- The unknown kinds after one more node: its kind is put in front if it is new and unknown. -/
lemma unknown_charge (s : Sums m kinds t) (kind : String) :
    (t.charge m kind).fallbackKinds.Nodup ∧ ∀ other, other ∈ (t.charge m kind).fallbackKinds ↔
      other ∈ kinds ++ [kind] ∧ m.get? other = none := by
  have listed : kind ∉ t.fallbackKinds → m.get? kind = none → kind ∉ kinds := by
    intro new unknown mem
    exact new ((s.unknown kind).2 ⟨mem, unknown⟩)
  have front : (t.charge m kind).fallbackKinds =
      if m.get? kind = none ∧ kind ∉ t.fallbackKinds then kind :: t.fallbackKinds
      else t.fallbackKinds := by
    simp [Totals.charge, lookup_fallback_iff]
  rw [front]
  split
  next new =>
    refine ⟨List.nodup_cons.2 ⟨new.2, s.nodup⟩, fun other => ?_⟩
    rw [List.mem_cons, s.unknown other, List.mem_append, List.mem_singleton]
    constructor
    · rintro (rfl | ⟨mem, unknown⟩)
      · exact ⟨.inr rfl, new.1⟩
      · exact ⟨.inl mem, unknown⟩
    · rintro ⟨mem | rfl, unknown⟩
      · exact .inr ⟨mem, unknown⟩
      · exact .inl rfl
  next old =>
    refine ⟨s.nodup, fun other => ?_⟩
    rw [s.unknown other, List.mem_append, List.mem_singleton]
    constructor
    · rintro ⟨mem, unknown⟩
      exact ⟨.inl mem, unknown⟩
    · rintro ⟨mem | rfl, unknown⟩
      · exact ⟨mem, unknown⟩
      -- An unknown kind that is not put in front is listed already.
      · have mem : other ∈ t.fallbackKinds := by
          by_contra new
          exact old ⟨unknown, new⟩
        exact (s.unknown other).1 mem

/-- The breakdown after one more node. -/
lemma entry_charge (s : Sums m kinds t) (kind other : String) :
    (t.charge m kind).breakdown.get? other =
      if other ∈ kinds ++ [kind] then some (costOf m (kinds ++ [kind]) other) else none := by
  show (t.breakdown.update kind ⟨0, 0⟩ _).get? other = _
  rw [Keyed.get?_update]
  by_cases same : kind = other
  · subst same
    rw [if_pos rfl, if_pos (List.mem_append_right _ (List.mem_singleton_self _)), s.getD_entry,
      costOf_snoc_self]
    rfl
  · rw [if_neg same, s.entry other, costOf_snoc_of_ne same]
    have mem : other ∈ kinds ++ [kind] ↔ other ∈ kinds := by
      rw [List.mem_append, List.mem_singleton, or_iff_left (Ne.symm same)]
    simp only [mem]

/-- Charging a node keeps the sums. -/
lemma charge (s : Sums m kinds t) (kind : String) : Sums m (kinds ++ [kind]) (t.charge m kind) where
  ops := counter_snoc s.ops kind
  memReads := counter_snoc s.memReads kind
  memWrites := counter_snoc s.memWrites kind
  ioCalls := counter_snoc s.ioCalls kind
  nodup := (s.unknown_charge kind).1
  unknown := (s.unknown_charge kind).2
  entry := s.entry_charge kind

/-- Charging the nodes of a list keeps the sums. -/
lemma foldl (s : Sums m kinds t) (rest : List String) :
    Sums m (kinds ++ rest) (rest.foldl (Totals.charge m) t) := by
  induction rest generalizing kinds t with
  | nil => rwa [List.append_nil]
  | cons kind rest ih =>
    have charged := ih (s.charge kind)
    rwa [List.append_assoc] at charged

/-- The sums do not depend on the order in which nodes are charged; the unknown kinds may be listed in
another order. -/
lemma perm_unique (perm : kinds.Perm kinds') (s : Sums m kinds t) (s' : Sums m kinds' t') :
    t' = { t with fallbackKinds := t'.fallbackKinds } ∧ t.fallbackKinds.Perm t'.fallbackKinds := by
  have breakdown : t'.breakdown = t.breakdown := by
    apply Keyed.ext_get?
    intro kind
    rw [s'.entry kind, s.entry kind, costOf_perm perm kind]
    simp only [perm.mem_iff]
  have unknown : t.fallbackKinds.Perm t'.fallbackKinds := by
    apply (List.perm_ext_iff_of_nodup s.nodup s'.nodup).2
    intro kind
    rw [s.unknown kind, s'.unknown kind, perm.mem_iff]
  refine ⟨?_, unknown⟩
  cases t'
  simp only [Totals.mk.injEq, true_and]
  exact ⟨counter_perm perm s.ops s'.ops, counter_perm perm s.memReads s'.memReads,
    counter_perm perm s.memWrites s'.memWrites, counter_perm perm s.ioCalls s'.ioCalls, breakdown⟩

end Sums

/-- What is kept for a list of kinds are its sums. -/
theorem sums_totals (m : CostModel) (kinds : List String) : Sums m kinds (totals m kinds) := by
  have run := (Sums.empty m).foldl kinds
  rwa [List.nil_append] at run

end Estimator

end LedEffect
