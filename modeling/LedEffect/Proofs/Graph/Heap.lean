import LedEffect.Graph.Heap
import Mathlib.Algebra.Order.Group.Multiset
import Mathlib.Tactic.Common

/-!
# The heap of tentative distances

Merging heaps puts their entries together and keeps a nearest entry at every root (`Heap.Ordered`), so
what comes out of an ordered heap is one of its nearest entries (`Heap.Ordered.pop`).
-/

namespace LedEffect.Graph

/-- Whether an entry is at most as far away as another. -/
def Tentative.Near (a b : Tentative) : Prop := a.distance.rank ≤ b.distance.rank

namespace Tentative

variable {a b : Tentative}

lemma near_of_precedes (first : a.precedes b = true) : a.Near b := by
  unfold precedes Binary64.totalCompare at first
  unfold Near
  split at first
  next less => exact Int.le_of_lt (Int.compare_eq_lt.1 less)
  next => cases first
  next same => exact Int.le_of_eq (Int.compare_eq_eq.1 same)

lemma near_of_not_precedes (later : ¬a.precedes b = true) : b.Near a := by
  unfold precedes Binary64.totalCompare at later
  unfold Near
  split at later
  next => exact absurd rfl later
  next greater => exact Int.le_of_lt (Int.compare_eq_gt.1 greater)
  next same => exact Int.le_of_eq (Int.compare_eq_eq.1 same).symm

end Tentative

namespace Heap

variable {a b h rest : Heap} {x entry : Tentative}

/-- The entries of a heap, each as often as it was put in. -/
def entries : Heap → Multiset Tentative
  | leaf => 0
  | node _ entry left right => entry ::ₘ (left.entries + right.entries)

@[simp] lemma entries_leaf : leaf.entries = 0 := rfl

@[simp] lemma entries_node (r : Nat) (x : Tentative) (left right : Heap) :
    (node r x left right).entries = x ::ₘ (left.entries + right.entries) := rfl

lemma entries_join (x : Tentative) (a b : Heap) :
    (join x a b).entries = x ::ₘ (a.entries + b.entries) := by
  unfold join
  split
  · rfl
  · rw [entries_node, Multiset.add_comm]

/-- Merging puts the entries of two heaps together. -/
lemma entries_merge (a b : Heap) : (merge a b).entries = a.entries + b.entries := by
  fun_induction merge a b with
  | case1 b => rw [entries_leaf, Multiset.zero_add]
  | case2 a => rw [entries_leaf, Multiset.add_zero]
  | case3 r x left right s y left' right' first ih =>
    rw [entries_join, ih, entries_node r, Multiset.cons_add, Multiset.add_assoc]
  | case4 r x left right s y left' right' later ih =>
    rw [entries_join, ih, add_left_comm, ← Multiset.add_cons, entries_node s]

lemma entries_insert (x : Tentative) (h : Heap) : (insert x h).entries = x ::ₘ h.entries := by
  rw [insert, entries_merge, entries_node, entries_leaf, Multiset.add_zero, Multiset.cons_add,
    Multiset.zero_add]

lemma card_entries (h : Heap) : h.entries.card = h.size := by
  induction h with
  | leaf => rfl
  | node r x left right ihLeft ihRight =>
    rw [entries_node, Multiset.card_cons, Multiset.card_add, ihLeft, ihRight, size]

/-- Whether the entry at every root is at most as far away as those below it. -/
inductive Ordered : Heap → Prop
  | leaf : Ordered leaf
  | node {rank : Nat} {entry : Tentative} {left right : Heap} (ordered_left : Ordered left)
      (ordered_right : Ordered right) (near : ∀ x ∈ left.entries + right.entries, entry.Near x) :
      Ordered (node rank entry left right)

namespace Ordered

lemma join (ordered : a.Ordered) (ordered' : b.Ordered)
    (near : ∀ y ∈ a.entries + b.entries, x.Near y) : (Heap.join x a b).Ordered := by
  unfold Heap.join
  split
  · exact .node ordered ordered' near
  · exact .node ordered' ordered (Multiset.add_comm _ _ ▸ near)

/-- What is near the root of an ordered heap is near all its entries. -/
lemma near_entries {r : Nat} {y : Tentative} {left right : Heap}
    (ordered : (Heap.node r y left right).Ordered) (near : x.Near y) :
    ∀ z ∈ (Heap.node r y left right).entries, x.Near z := by
  intro z mem
  cases ordered with
  | node _ _ below =>
    rcases Multiset.mem_cons.1 mem with rfl | mem
    · exact near
    · exact Int.le_trans near (below z mem)

lemma merge (ordered : a.Ordered) (ordered' : b.Ordered) : (Heap.merge a b).Ordered := by
  fun_induction Heap.merge a b with
  | case1 b => exact ordered'
  | case2 a => exact ordered
  | case3 r x left right s y left' right' first ih =>
    have below := ordered'.near_entries (Tentative.near_of_precedes first)
    cases ordered with
    | node ordered_left ordered_right near =>
      refine .join ordered_left (ih ordered_right ordered') fun z mem => ?_
      rw [entries_merge, ← Multiset.add_assoc] at mem
      rcases Multiset.mem_add.1 mem with mem | mem
      · exact near z mem
      · exact below z mem
  | case4 r x left right s y left' right' later ih =>
    have below := ordered.near_entries (Tentative.near_of_not_precedes later)
    cases ordered' with
    | node ordered_left ordered_right near =>
      refine .join ordered_left (ih ordered ordered_right) fun z mem => ?_
      rw [entries_merge, add_left_comm] at mem
      rcases Multiset.mem_add.1 mem with mem | mem
      · exact below z mem
      · exact near z mem

lemma insert (ordered : h.Ordered) (x : Tentative) : (Heap.insert x h).Ordered :=
  .merge (.node .leaf .leaf nofun) ordered

/-- What comes out of an ordered heap is one of its nearest entries. -/
lemma pop (ordered : h.Ordered) (popped : h.pop? = some (entry, rest)) :
    h.entries = entry ::ₘ rest.entries ∧ rest.Ordered ∧ ∀ x ∈ rest.entries, entry.Near x := by
  cases ordered with
  | leaf => cases popped
  | node ordered_left ordered_right near =>
    cases popped
    rw [entries_merge]
    exact ⟨rfl, ordered_left.merge ordered_right, near⟩

/-- What comes out of a heap was in it, and so was what is left. -/
lemma mem_of_pop (ordered : h.Ordered) (popped : h.pop? = some (entry, rest)) :
    entry ∈ h.entries ∧ ∀ x ∈ rest.entries, x ∈ h.entries := by
  rw [(ordered.pop popped).1]
  exact ⟨Multiset.mem_cons_self _ _, fun _ => Multiset.mem_cons_of_mem⟩

end Ordered

lemma pop?_eq_none (h : Heap) : h.pop? = none ↔ h.entries = 0 := by
  cases h with
  | leaf => exact iff_of_true rfl rfl
  | node => exact iff_of_false nofun (Multiset.cons_ne_zero)

end Heap

end LedEffect.Graph
