import LedEffect.Proofs.Graph.Rows
import LedEffect.Proofs.Number.Rounding

/-!
# Weights of a graph

Weights have no fault just when they are as many as the edges and each is the weight of an edge
(`weightFault?_eq_none`), so every edge has a weight (`exists_weightAt?`).
-/

namespace LedEffect

open Binary64

/-- Weights without a fault are as many as the edges, and weights indeed. -/
lemma Rows.weightFault?_eq_none {weights : Array Binary64} {count : Nat} :
    weightFault? weights count = none ↔ weights.size = count ∧ ∀ w ∈ weights.toList, w.IsWeight := by
  have bad : ∀ w : Binary64, (!w.isFinite || w.lt .zero) = false ↔ w.IsWeight := by
    intro w
    rw [Bool.or_eq_false_iff, Bool.not_eq_false', isWeight_iff]
  unfold weightFault?
  split
  next differ => exact iff_of_false nofun fun good => differ good.1
  next same =>
    rw [Option.map_eq_none_iff]
    refine ⟨fun faultless => ⟨not_ne_iff.1 same, fun w mem => ?_⟩, fun good => ?_⟩
    · exact (bad w).1 (findIndexed?_eq_none.1 faultless w mem)
    · exact findIndexed?_eq_none.2 fun w mem => (bad w).2 (good.2 w mem)

namespace Graph

variable {g : Graph} {edge : Nat}

/-- The weights of a graph are as many as its edges, and weights indeed. -/
lemma weights_sound {weights : Array Binary64} (eq : g.weights = some weights) :
    weights.size = g.edgeCount ∧ ∀ w ∈ weights.toList, w.IsWeight := by
  have faultless := g.wellFormed.fault?_eq g.weights
  rw [g.checked, eq, Option.bind_some] at faultless
  exact Rows.weightFault?_eq_none.1 faultless.symm

/-- Every edge has a weight; an edge without one of its own weighs one. -/
lemma exists_weightAt? (bound : edge < g.edgeCount) :
    ∃ w, g.weightAt? edge = some w ∧ w.IsWeight := by
  unfold weightAt?
  cases eq : g.weights with
  | none => exact ⟨1, rfl, isWeight_one⟩
  | some weights =>
    obtain ⟨size, all⟩ := weights_sound eq
    have small : edge < weights.size := size ▸ bound
    exact ⟨weights[edge], Array.getElem?_eq_getElem small, all _ (Array.getElem_mem_toList small)⟩

end Graph

end LedEffect
