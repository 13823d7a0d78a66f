import LedEffect.Grouping
import Mathlib.Data.List.Basic
import Mathlib.Tactic.Common

/-!
# Groups

Each group of `groupInto` is the part of the list with its number, in list order.
-/

namespace LedEffect

variable {α : Type} {groups : Nat} {items : List (Nat × α)}

/-- The items of a list with a number. -/
def numbered (items : List (Nat × α)) (n : Nat) : List α :=
  items.filterMap fun item => if item.1 = n then some item.2 else none

@[simp] lemma numbered_nil (n : Nat) : numbered ([] : List (Nat × α)) n = [] := rfl

lemma numbered_cons (item : Nat × α) (n : Nat) :
    numbered (item :: items) n = (if item.1 = n then [item.2] else []) ++ numbered items n := by
  by_cases h : item.1 = n <;> simp [numbered, h]

/-- Sorting more items into rows appends to every row those with its number. -/
lemma getElem?_foldl_modify (rows : Array (Array α)) (n : Nat) :
    (items.foldl (fun rows item => rows.modify item.1 (·.push item.2)) rows)[n]? =
      rows[n]?.map fun row => row ++ (numbered items n).toArray := by
  induction items generalizing rows with
  | nil => simp
  | cons item items ih =>
    rw [List.foldl_cons, ih, Array.getElem?_modify, numbered_cons]
    by_cases h : item.1 = n <;> simp [h, Function.comp_def]

@[simp] lemma size_groupInto : (groupInto groups items).size = groups := by
  have size : ∀ rows : Array (Array α),
      (items.foldl (fun rows item => rows.modify item.1 (·.push item.2)) rows).size = rows.size := by
    induction items with
    | nil => simp
    | cons item items ih =>
      intro rows
      rw [List.foldl_cons, ih, Array.size_modify]
  rw [groupInto, size, Array.size_replicate]

/-- A group holds the items with its number, in list order. -/
lemma getElem?_groupInto {n : Nat} (small : n < groups) :
    (groupInto groups items)[n]? = some (numbered items n).toArray := by
  rw [groupInto, getElem?_foldl_modify]
  simp [small]

end LedEffect
