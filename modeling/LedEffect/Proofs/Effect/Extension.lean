import LedEffect.Proofs.Effect.WellFormed
import LedEffect.Proofs.Graph.Extension

/-!
# Appended nodes

Nodes that are appended to an effect may read its nodes but are not read by them. The graph of
dependencies is then extended by their numbers (`Checks.extends`), so the nodes of the effect keep
their order (`filter_order_of_appended`).
-/

namespace LedEffect.Effect

variable {e e' : Effect} {r r' : ResolvedEffect} {nodes : Array ResolvedNode} {view view' : Graph}
  {u : Nat}

/-- The row of a node lists the consumers of its operand slots. -/
lemma Checks.row (checks : e.Checks nodes.toList)
    (made : Graph.ofEdges nodes.size (dependencies nodes) = .ok view) (small : u < nodes.size) :
    view.row u = ((slots nodes.toList 0).filter fun slot => slot.1 = u).map (·.2) := by
  obtain ⟨few, size⟩ := Graph.few_of_ofEdges made
  rw [dependencies_eq, List.length_map, length_slots] at few
  obtain ⟨view, made', -, rows⟩ := dependencies_rows size few checks.inside
  obtain rfl := Except.ok.inj (made'.symm.trans made)
  exact rows u small

lemma slots_append (first : Nat) (nodes added : List ResolvedNode) :
    slots (nodes ++ added) first = slots nodes first ++ slots added (first + nodes.length) := by
  rw [slots, List.zipIdx_append, List.flatMap_append]
  rfl

lemma slots_behind {first : Nat} {nodes : List ResolvedNode} {slot : Nat × Nat}
    (mem : slot ∈ slots nodes first) : first ≤ slot.2 := by
  obtain ⟨⟨n, consumer⟩, place, mem⟩ := List.mem_flatMap.1 mem
  obtain ⟨input, -, rfl⟩ := List.mem_map.1 mem
  exact (List.mem_zipIdx place).1

/-- Appended nodes extend the graph. -/
lemma Checks.extends {nodes' : Array ResolvedNode} {added : List ResolvedNode}
    (checks : e.Checks nodes.toList) (checks' : e'.Checks nodes'.toList)
    (appended : nodes'.toList = nodes.toList ++ added)
    (made : Graph.ofEdges nodes.size (dependencies nodes) = .ok view)
    (made' : Graph.ofEdges nodes'.size (dependencies nodes') = .ok view') : view.Extends view' := by
  obtain ⟨count, -, -⟩ := checks.view made
  obtain ⟨count', -, -⟩ := checks'.view made'
  have size : nodes'.size = nodes.size + added.length := by
    rw [← Array.length_toList, appended, List.length_append, Array.length_toList]
  have row' : ∀ u < nodes'.size, view'.row u =
      ((slots nodes.toList 0).filter fun slot => slot.1 = u).map (·.2) ++
        ((slots added nodes.size).filter fun slot => slot.1 = u).map (·.2) := by
    intro u small
    rw [checks'.row made' small, appended, slots_append, List.filter_append, List.map_append,
      Nat.zero_add, Array.length_toList]
  have behind : ∀ u, ∀ v ∈ ((slots added nodes.size).filter fun slot => slot.1 = u).map (·.2),
      nodes.size ≤ v := by
    intro u v mem
    obtain ⟨slot, listed, rfl⟩ := List.mem_map.1 mem
    exact slots_behind (List.mem_of_mem_filter listed)
  refine ⟨by omega, fun u small => ?_, fun u large v edge => ?_⟩
  · rw [count] at small ⊢
    have old : ∀ v ∈ view.row u, v < nodes.size := fun v edge => count ▸ Graph.Adjacent.target edge
    rw [checks.row made small] at old ⊢
    have new : (((slots added nodes.size).filter fun slot => slot.1 = u).map (·.2)).filter
        (· < nodes.size) = [] :=
      List.filter_eq_nil_iff.2 fun v mem => by simpa using behind u v mem
    rw [row' u (by omega), List.filter_append, new, List.append_nil]
    exact List.filter_eq_self.2 fun v mem => by simpa using old v mem
  · rw [count] at large ⊢
    have small := count' ▸ Graph.Adjacent.source edge
    rw [row' u small] at edge
    rcases List.mem_append.1 edge with mem | mem
    · obtain ⟨slot, listed, -⟩ := List.mem_map.1 mem
      obtain ⟨listed, same⟩ := List.mem_filter.1 listed
      have inside := (slot_inside checks.inside listed).1
      have same : slot.1 = u := of_decide_eq_true same
      omega
    · exact behind u v mem

/-- Nodes keep their order when others are appended. -/
lemma filter_order_of_appended {added : List ResolvedNode} (run : e.resolve = .ok r)
    (run' : e'.resolve = .ok r') (appended : r'.nodes.toList = r.nodes.toList ++ added) :
    r'.order.toList.filter (· < r.nodes.size) = r.order.toList := by
  obtain ⟨checks, -, made, sorted⟩ := resolve_eq_ok.1 run
  obtain ⟨checks', -, made', sorted'⟩ := resolve_eq_ok.1 run'
  obtain ⟨count, -, -⟩ := checks.view made
  obtain ⟨-, small', -⟩ := checks'.view made'
  have order := (checks.extends checks' appended made made').filter_order small' sorted sorted'
  rwa [count] at order

end LedEffect.Effect
