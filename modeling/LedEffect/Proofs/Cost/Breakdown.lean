import LedEffect.Proofs.Cost.Totals

/-!
# Breakdowns

The breakdown of an estimate has an entry for every kind that was charged and for no other, and each
counts how often its kind was charged (`tallies_totals`). The counts add up to the number of nodes
(`Tallies.sum_counts`), and the operations to the operations of all nodes (`Sums.ops_eq_breakdown`).
-/

namespace LedEffect.Estimator

variable {m : CostModel} {kinds : List String} {breakdown : Keyed KindCost} {t : Totals}

/-- A sum over the entries of the kinds of a list is a sum over the kinds. -/
lemma sum_entries {part : KindCost → Nat} {each : String → Nat}
    (keys : ∀ kind, kind ∈ breakdown.keys ↔ kind ∈ kinds)
    (entry : ∀ kind cost, (kind, cost) ∈ breakdown.entries → part cost = each kind) :
    (breakdown.entries.map fun entry => part entry.2).sum = (kinds.dedup.map each).sum := by
  have listed : breakdown.entries.map (fun entry => part entry.2) = breakdown.keys.map each := by
    rw [Keyed.keys, List.map_map]
    exact List.map_congr_left fun found mem => entry found.1 found.2 mem
  have perm : breakdown.keys.Perm kinds.dedup :=
    (List.perm_ext_iff_of_nodup breakdown.nodup_keys kinds.nodup_dedup).2 fun kind => by
      rw [keys kind, List.mem_dedup]
  rw [listed, (perm.map _).sum_eq]

/-- Whether a breakdown counts how often each kind occurs in a list. -/
def Tallies (breakdown : Keyed KindCost) (kinds : List String) : Prop :=
  ∀ kind, (breakdown.get? kind).map KindCost.count =
    if kind ∈ kinds then some (kinds.count kind) else none

namespace Tallies

lemma mem_keys_iff (inv : Tallies breakdown kinds) {kind : String} :
    kind ∈ breakdown.keys ↔ kind ∈ kinds := by
  rw [Keyed.mem_keys_iff, ← Option.isSome_iff_exists, ← Option.isSome_map, inv kind]
  split <;> simp [*]

lemma count_eq (inv : Tallies breakdown kinds) {kind : String} {cost : KindCost}
    (entry : (kind, cost) ∈ breakdown.entries) : cost.count = kinds.count kind := by
  have found := inv kind
  rw [Keyed.get?_eq_some_iff.2 entry] at found
  split at found
  · exact Option.some_inj.1 found
  · cases found

/-- A kind without an entry does not occur. -/
lemma getD_count (inv : Tallies breakdown kinds) (kind : String) :
    ((breakdown.get? kind).map KindCost.count).getD 0 = kinds.count kind := by
  rw [inv kind]
  split
  · rfl
  next absent => exact (List.count_eq_zero_of_not_mem absent).symm

/-- The counts of all kinds add up to the number of occurrences. -/
lemma sum_counts (inv : Tallies breakdown kinds) :
    (breakdown.entries.map fun entry => entry.2.count).sum = kinds.length := by
  rw [sum_entries (fun _ => inv.mem_keys_iff) fun _ _ => inv.count_eq]
  exact List.sum_map_count_dedup_eq_length kinds

end Tallies

namespace Sums

lemma tallies (s : Sums m kinds t) : Tallies t.breakdown kinds := by
  intro kind
  rw [s.entry kind]
  split <;> rfl

lemma mem_entries_iff (s : Sums m kinds t) {kind : String} {cost : KindCost} :
    (kind, cost) ∈ t.breakdown.entries ↔ kind ∈ kinds ∧ cost = costOf m kinds kind := by
  rw [← Keyed.get?_eq_some_iff, s.entry kind]
  split
  next mem => exact ⟨fun same => ⟨mem, (Option.some.inj same).symm⟩, fun same => by rw [same.2]⟩
  next absent => exact iff_of_false nofun fun present => absent present.1

/-- All nodes together are charged the operations of each kind as often as it occurs. -/
lemma charged_eq_sum_dedup (m : CostModel) (kinds : List String) (part : Coefficients → Nat) :
    charged m kinds part =
      (kinds.dedup.map fun kind => kinds.count kind * part (CostModel.lookup m kind).1).sum := by
  have distinct : kinds.dedup.toFinset = kinds.toFinset := by
    ext kind
    rw [List.mem_toFinset, List.mem_dedup, List.mem_toFinset]
  rw [charged, Finset.sum_list_map_count, ← List.sum_toFinset _ kinds.nodup_dedup, distinct]
  rfl

/-- The counter of operations is the sum of the breakdown: that each entry stops at the greatest
counter on its own does not show in it. -/
lemma ops_eq_breakdown (s : Sums m kinds t) :
    t.ops = min (t.breakdown.entries.map fun entry => entry.2.ops).sum Json.wordLimit := by
  have entries := sum_entries (fun _ => s.tallies.mem_keys_iff)
    fun kind cost entry => congrArg KindCost.ops (s.mem_entries_iff.1 entry).2
  rw [entries, s.ops, charged_eq_sum_dedup]
  exact (min_sum_map_min _ Json.wordLimit kinds.dedup).symm

end Sums

/-- The breakdown counts how often each kind was charged. -/
theorem tallies_totals (m : CostModel) (kinds : List String) :
    Tallies (totals m kinds).breakdown kinds :=
  (sums_totals m kinds).tallies

end LedEffect.Estimator
