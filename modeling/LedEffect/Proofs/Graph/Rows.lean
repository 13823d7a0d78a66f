import LedEffect.Graph.Basic
import Mathlib.Algebra.Order.Ring.Int
import Mathlib.Logic.Relation
import Mathlib.Order.Defs.PartialOrder
import Mathlib.Data.List.Chain
import Mathlib.Data.List.Induction
import Mathlib.Tactic.Common

/-!
# Rows of a graph

What the evidence in a `Graph` says about its arrays. Every node has a row of targets (`row`), the
accessors answer with it, the rows one after the other are the flat array of targets (`flatMap_row`),
and so the edges, read as a relation (`Adjacent`), stay among the nodes. A graph is cyclic when some
node reaches itself over at least one edge (`Cyclic`).
-/

namespace LedEffect

namespace Rows

lemma decreasing?_eq_none {index : Nat} {previous : UInt32} {offsets : List UInt32} :
    decreasing? index previous offsets = none ↔ List.IsChain (· ≤ ·) (previous :: offsets) := by
  induction offsets generalizing index previous with
  | nil => exact iff_of_true rfl (.singleton _)
  | cons offset rest ih =>
    rw [decreasing?, List.isChain_cons_cons, ← UInt32.not_lt]
    split
    next below => exact iff_of_false nofun fun chain => chain.1 below
    next ascends => rw [ih, and_iff_right ascends]

lemma findIndexed?_eq_none {α : Type} {p : α → Bool} {index : Nat} {xs : List α} :
    findIndexed? p index xs = none ↔ ∀ x ∈ xs, p x = false := by
  induction xs generalizing index with
  | nil => exact iff_of_true rfl (List.forall_mem_nil _)
  | cons x xs ih =>
    rw [findIndexed?, List.forall_mem_cons]
    cases here : p x with
    | true => exact iff_of_false nofun fun all => Bool.noConfusion all.1
    | false => simpa using ih

/-- What arrays without a fault look like: offsets from zero up to the number of edges, and targets
that are nodes. -/
structure WellFormed (offsets edges : Array UInt32) : Prop where
  nonempty : 0 < offsets.size
  first : offsets[0]? = some 0
  ascending : offsets.toList.Pairwise (· ≤ ·)
  last : (offsets[offsets.size - 1]?).map UInt32.toNat = some edges.size
  inside : ∀ v ∈ edges.toList, v.toNat < offsets.size - 1

/-- Arrays without a fault are well formed. -/
lemma WellFormed.of_fault? {offsets edges : Array UInt32} {weights : Option (Array Binary64)}
    (h : fault? offsets edges weights = none) : WellFormed offsets edges := by
  obtain ⟨offsets⟩ := offsets
  unfold fault? at h
  split at h
  · cases h
  next first rest eq =>
    obtain rfl : offsets = first :: rest := eq
    split at h
    · cases h
    next zero =>
      split at h
      · cases h
      next chain =>
        dsimp only at h
        split at h
        · cases h
        next last =>
          split at h
          · cases h
          next inside =>
            obtain rfl : first = 0 := not_ne_iff.1 zero
            have sorted := (decreasing?_eq_none.1 chain).pairwise
            refine ⟨by simp, by simp, sorted, ?_, ?_⟩
            · rw [not_ne_iff] at last
              rw [← last]
              cases rest using List.reverseRecOn <;> simp
            · intro v mem
              have := findIndexed?_eq_none.1 inside v mem
              simpa using this

/-- Well-formed arrays have no fault but those of their weights. -/
lemma WellFormed.fault?_eq {offsets edges : Array UInt32} (inv : WellFormed offsets edges)
    (weights : Option (Array Binary64)) :
    fault? offsets edges weights = weights.bind (weightFault? · edges.size) := by
  obtain ⟨offsets⟩ := offsets
  obtain ⟨nonempty, first, ascending, last, inside⟩ := inv
  cases offsets with
  | nil => simp at nonempty
  | cons zero rest =>
    obtain rfl : zero = 0 := by simpa using first
    have last : (rest.getLastD 0).toNat = edges.size := by
      cases rest using List.reverseRecOn <;> simpa using last
    have inside : findIndexed? (fun v => rest.length ≤ v.toNat) 0 edges.toList = none := by
      refine findIndexed?_eq_none.2 fun v mem => ?_
      simpa using inside v mem
    unfold fault?
    simp only [ne_eq, not_true_eq_false, if_false, decreasing?_eq_none.2 ascending.isChain,
      last, inside]

end Rows

namespace Graph

variable {g : Graph} {u v : Nat}

/-- The targets of a node's edges; none for a number that is no node. -/
def row (g : Graph) (u : Nat) : List Nat := (g.neighbors? u).getD []

/-- Whether an edge leads from one node to another. -/
def Adjacent (g : Graph) (u v : Nat) : Prop := v ∈ g.row u

/-- Whether a node reaches itself over at least one edge. -/
def Cyclic (g : Graph) : Prop := ∃ u, Relation.TransGen g.Adjacent u u

/-- The number of edges that leave the nodes below `u`. -/
def start (g : Graph) (u : Nat) : Nat := (g.offsets.getD u 0).toNat

/-- The graph of three arrays is the one that holds them. -/
lemma ofRows_eq_ok {directed : Bool} {offsets edges : Array UInt32}
    {weights : Option (Array Binary64)} : ofRows directed offsets edges weights = .ok g ↔
      g.directed = directed ∧ g.offsets = offsets ∧ g.edges = edges ∧ g.weights = weights := by
  unfold ofRows
  split
  next faultless =>
    constructor
    · rintro ⟨⟩
      exact ⟨rfl, rfl, rfl, rfl⟩
    · rintro ⟨rfl, rfl, rfl, rfl⟩
      rfl
  next fault faulty =>
    refine iff_of_false nofun ?_
    rintro ⟨rfl, rfl, rfl, rfl⟩
    cases g.checked.symm.trans faulty

lemma ofRows_self (g : Graph) : ofRows g.directed g.offsets g.edges g.weights = .ok g :=
  ofRows_eq_ok.2 ⟨rfl, rfl, rfl, rfl⟩

lemma wellFormed (g : Graph) : Rows.WellFormed g.offsets g.edges := .of_fault? g.checked

lemma size_offsets (g : Graph) : g.offsets.size = g.nodeCount + 1 := by
  have := g.wellFormed.nonempty
  unfold nodeCount
  omega

@[simp] lemma start_zero (g : Graph) : g.start 0 = 0 := by
  simp [start, Array.getD_eq_getD_getElem?, g.wellFormed.first]

@[simp] lemma start_nodeCount (g : Graph) : g.start g.nodeCount = g.edgeCount := by
  have last := g.wellFormed.last
  have size := g.size_offsets
  rw [size, Nat.add_sub_cancel, Array.getElem?_eq_getElem (by omega)] at last
  simpa [start, size, edgeCount] using last

/-- Rows follow each other in the flat array. -/
lemma start_mono (small : v ≤ g.nodeCount) (le : u ≤ v) : g.start u ≤ g.start v := by
  have size := g.size_offsets
  rcases Nat.eq_or_lt_of_le le with rfl | lt
  · exact Nat.le_refl _
  · have pairs := List.pairwise_iff_getElem.1 g.wellFormed.ascending
    have := pairs u v (by simp; omega) (by simp; omega) lt
    have bound : u < g.offsets.size := by omega
    have bound' : v < g.offsets.size := by omega
    simpa [start, bound, bound', UInt32.le_iff_toNat_le] using this

lemma start_le_edgeCount (small : u ≤ g.nodeCount) : g.start u ≤ g.edgeCount :=
  g.start_nodeCount ▸ start_mono (Nat.le_refl _) small

lemma edgeRange?_eq (node : u < g.nodeCount) :
    g.edgeRange? u = some (g.start u, g.start (u + 1)) := by
  have size := g.size_offsets
  have bound : u < g.offsets.size := by omega
  have bound' : u + 1 < g.offsets.size := by omega
  simp [edgeRange?, start, bound, bound']

/-- A node's row is a piece of the flat array. -/
lemma neighbors?_eq_slice (node : u < g.nodeCount) :
    g.neighbors? u = some (((g.edges.toList.take (g.start (u + 1))).drop (g.start u)).map
      UInt32.toNat) := by
  have le : g.start u ≤ g.start (u + 1) := start_mono node (Nat.le_succ u)
  have bound : g.start (u + 1) ≤ g.edges.size := start_le_edgeCount node
  simp [neighbors?, edgeRange?_eq node, slice?, le, bound, List.drop_take]

lemma neighbors?_eq_row (node : u < g.nodeCount) : g.neighbors? u = some (g.row u) := by
  simp [row, neighbors?_eq_slice node]

lemma row_eq_slice (node : u < g.nodeCount) :
    g.row u = ((g.edges.toList.take (g.start (u + 1))).drop (g.start u)).map UInt32.toNat := by
  simp [row, neighbors?_eq_slice node]

lemma row_eq_nil (outside : g.nodeCount ≤ u) : g.row u = [] := by
  have size := g.size_offsets
  have : g.offsets[u + 1]? = none := Array.getElem?_eq_none (by omega)
  simp [row, neighbors?, edgeRange?, this]

/-- The rows of the nodes below `u` are the beginning of the flat array. -/
lemma flatMap_row_range (small : u ≤ g.nodeCount) :
    (List.range u).flatMap g.row = (g.edges.toList.take (g.start u)).map UInt32.toNat := by
  induction u with
  | zero => simp
  | succ u ih =>
    have le : g.start u ≤ g.start (u + 1) := start_mono small (Nat.le_succ u)
    rw [List.range_succ, List.flatMap_append, ih (by omega), List.flatMap_singleton,
      row_eq_slice small, ← List.map_append]
    congr 1
    conv_rhs => rw [← List.take_append_drop (g.start u) (g.edges.toList.take (g.start (u + 1)))]
    rw [List.take_take, Nat.min_eq_left le]

/-- The rows one after the other are the flat array of targets. -/
lemma flatMap_row (g : Graph) :
    (List.range g.nodeCount).flatMap g.row = g.edges.toList.map UInt32.toNat := by
  rw [flatMap_row_range (Nat.le_refl _), start_nodeCount, List.take_of_length_le]
  simp [edgeCount]

lemma length_row (node : u < g.nodeCount) :
    (g.row u).length = g.start (u + 1) - g.start u := by
  have bound : g.start (u + 1) ≤ g.edges.toList.length := start_le_edgeCount node
  rw [row_eq_slice node, List.length_map, List.length_drop, List.length_take, Nat.min_eq_left bound]

/-- The out-degree of a node is the length of its row. -/
lemma outDegree?_eq (node : u < g.nodeCount) : g.outDegree? u = some (g.row u).length := by
  have le : g.start u ≤ g.start (u + 1) := start_mono node (Nat.le_succ u)
  simp [outDegree?, edgeRange?_eq node, le, length_row node]

/-- The edges of a graph are as many as its 32-bit offsets can count. -/
lemma edgeCount_le (g : Graph) : g.edgeCount ≤ counterLimit := by
  rw [← g.start_nodeCount]
  exact Nat.le_pred_of_lt (UInt32.toNat_lt _)

lemma Adjacent.source (edge : g.Adjacent u v) : u < g.nodeCount := by
  by_contra outside
  rw [Adjacent, row_eq_nil (Nat.le_of_not_lt outside)] at edge
  cases edge

lemma Adjacent.target (edge : g.Adjacent u v) : v < g.nodeCount := by
  have mem : v ∈ (List.range g.nodeCount).flatMap g.row :=
    List.mem_flatMap.2 ⟨u, List.mem_range.2 edge.source, edge⟩
  rw [flatMap_row] at mem
  obtain ⟨w, stored, rfl⟩ := List.mem_map.1 mem
  exact g.wellFormed.inside w (by simpa using stored)

end Graph

end LedEffect
