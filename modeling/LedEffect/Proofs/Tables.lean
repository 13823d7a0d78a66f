import Mathlib.Data.Finset.Basic
import Mathlib.Data.Finset.Range
import Mathlib.Data.List.Perm.Subperm
import Mathlib.Tactic.Common

/-!
# Tables

What writing at one place of a table does to the places that hold a value, and to counters of the
elements of a list. A list of distinct places is no longer than the table.
-/

namespace LedEffect

/-- Writing a value adds the place that is written to those that hold it. -/
lemma getElem?_set!_eq_some {α : Type} {table : Array α} {i j : Nat} {x : α}
    (small : i < table.size) :
    (table.set! i x)[j]? = some x ↔ j = i ∨ table[j]? = some x := by
  rw [Array.set!_eq_setIfInBounds, Array.getElem?_setIfInBounds]
  split
  next same =>
    subst same
    simp
  next differ => simp [Ne.symm differ]

/-- Writing another value takes the place that is written off those that hold a value. -/
lemma filter_set!_eq_erase {α : Type} [DecidableEq α] {x y : α} (other : y ≠ x) (table : Array α)
    (i n : Nat) :
    (Finset.range n).filter ((table.set! i y)[·]? = some x) =
      ((Finset.range n).filter (table[·]? = some x)).erase i := by
  ext j
  rw [Finset.mem_erase, Finset.mem_filter, Finset.mem_filter, Array.set!_eq_setIfInBounds]
  rcases eq_or_ne j i with rfl | differ
  · simp [Array.getElem?_setIfInBounds, other]
  · simp [differ, differ.symm]

/-- Raising the counter of an element counts the list with that element at its end. -/
lemma getElem?_set!_count {counted : List Nat} {counts : Array Nat}
    (sofar : ∀ v < counts.size, counts[v]? = some (counted.count v)) (w : Nat) :
    ∀ v < counts.size,
      (counts.set! w (counted.count w + 1))[v]? = some ((counted ++ [w]).count v) := by
  intro v small
  rw [Array.set!_eq_setIfInBounds, Array.getElem?_setIfInBounds]
  split
  next same =>
    subst same
    simp [small]
  next differ => simp [sofar v small, differ]

section Places

variable {places : List Nat} {size i : Nat}

lemma subperm_range (nodup : places.Nodup) (inside : ∀ i ∈ places, i < size) :
    places.Subperm (List.range size) :=
  List.subperm_of_subset nodup fun i mem => List.mem_range.2 (inside i mem)

lemma length_le_of_nodup (nodup : places.Nodup) (inside : ∀ i ∈ places, i < size) :
    places.length ≤ size := by
  simpa using (subperm_range nodup inside).length_le

/-- Distinct places leave room when one is missing. -/
lemma length_lt_of_nodup (nodup : places.Nodup) (inside : ∀ i ∈ places, i < size) (small : i < size)
    (absent : i ∉ places) : places.length < size :=
  length_le_of_nodup (List.nodup_cons.2 ⟨absent, nodup⟩) (List.forall_mem_cons.2 ⟨small, inside⟩)

end Places

end LedEffect
