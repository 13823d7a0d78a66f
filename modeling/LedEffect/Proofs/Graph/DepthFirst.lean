import LedEffect.Graph.Search
import LedEffect.Proofs.Graph.Reach
import LedEffect.Proofs.Tables

/-!
# Depth-first search

What the search has visited is closed under edges but for what is on the stack (`Visiting`), so at the
end it has listed exactly the nodes that the source reaches, each once (`dfs_spec`).
-/

namespace LedEffect.Graph

variable {g : Graph} {source u v : Nat} {stack : List Nat} {visited : Array Bool} {order : Array Nat}

lemma filterAuxM_unvisited {nodes : List Nat} (inside : ∀ v ∈ nodes, v < visited.size)
    (kept : List Nat) : nodes.filterAuxM (fun v => visited[v]?.map (!·)) kept =
      some ((nodes.filter fun v => visited[v]? = some false).reverse ++ kept) := by
  induction nodes generalizing kept with
  | nil => rfl
  | cons w nodes ih =>
    obtain ⟨small, rest⟩ := List.forall_mem_cons.1 inside
    have mark : visited[w]? = some visited[w] := Array.getElem?_eq_getElem small
    rw [List.filterAuxM, mark, Option.map_some, Option.bind_eq_bind, Option.bind_some, ih rest,
      List.filter_cons, mark]
    cases visited[w] <;> simp

/-- The neighbours that are not visited are put on the stack. -/
lemma filterM_unvisited {nodes : List Nat} (inside : ∀ v ∈ nodes, v < visited.size) :
    nodes.filterM (fun v => visited[v]?.map (!·)) =
      some (nodes.filter fun v => visited[v]? = some false) := by
  rw [List.filterM, filterAuxM_unvisited inside []]
  simp

/-- What holds during the search: marks are of the nodes that are listed, these are reached from the
source, and their neighbours are listed or on the stack. -/
structure Visiting (g : Graph) (source : Nat) (stack : List Nat) (visited : Array Bool)
    (order : Array Nat) : Prop where
  size : visited.size = g.nodeCount
  marked : ∀ v : Nat, visited[v]? = some true ↔ v ∈ order.toList
  nodup : order.toList.Nodup
  origin : source ∈ stack ∨ source ∈ order.toList
  stacked : ∀ v ∈ stack, v < g.nodeCount ∧ g.Reaches source v
  sound : ∀ v ∈ order.toList, g.Reaches source v
  closed : ∀ u ∈ order.toList, ∀ v, g.Adjacent u v → v ∈ order.toList ∨ v ∈ stack

namespace Visiting

/-- A node that was visited before is taken off the stack. -/
lemma skip (inv : Visiting g source (u :: stack) visited order) (old : visited[u]? = some true) :
    Visiting g source stack visited order := by
  have listed := (inv.marked u).1 old
  refine ⟨inv.size, inv.marked, inv.nodup, ?_, fun v mem => inv.stacked v (.tail _ mem), inv.sound,
    fun w mem v edge => ?_⟩
  · rcases inv.origin with mem | mem
    · rcases List.mem_cons.1 mem with rfl | mem
      · exact .inr listed
      · exact .inl mem
    · exact .inr mem
  · rcases inv.closed w mem v edge with mem | mem
    · exact .inl mem
    · rcases List.mem_cons.1 mem with rfl | mem
      · exact .inl listed
      · exact .inr mem

/-- A node is listed on its first turn, and its fresh neighbours come on top of the stack. -/
lemma visit (inv : Visiting g source (u :: stack) visited order) (new : visited[u]? = some false) :
    Visiting g source ((g.row u).filter (fun v => (visited.set! u true)[v]? = some false) ++ stack)
      (visited.set! u true) (order.push u) := by
  have bound : u < visited.size := (Array.getElem?_eq_some_iff.1 new).1
  have reached := (inv.stacked u List.mem_cons_self).2
  have marked : ∀ v : Nat, (visited.set! u true)[v]? = some true ↔ v ∈ (order.push u).toList := by
    intro v
    rw [getElem?_set!_eq_some bound, inv.marked, Array.toList_push, List.mem_append,
      List.mem_singleton, or_comm]
  have unlisted : u ∉ order.toList := by
    rw [← inv.marked, new]
    simp
  refine
    { size := by simpa using inv.size
      marked := marked
      nodup := ?nodup, origin := ?origin, stacked := ?stacked, sound := ?sound, closed := ?closed }
  case nodup =>
    rw [Array.toList_push, List.nodup_append_comm]
    exact List.nodup_cons.2 ⟨unlisted, inv.nodup⟩
  case origin =>
    rw [Array.toList_push, List.mem_append, List.mem_append, List.mem_singleton]
    rcases inv.origin with mem | mem
    · rcases List.mem_cons.1 mem with rfl | mem
      · exact .inr (.inr rfl)
      · exact .inl (.inr mem)
    · exact .inr (.inl mem)
  case stacked =>
    intro v mem
    rcases List.mem_append.1 mem with mem | mem
    · have edge : g.Adjacent u v := List.mem_of_mem_filter mem
      exact ⟨edge.target, reached.tail edge⟩
    · exact inv.stacked v (.tail _ mem)
  case sound =>
    intro v mem
    rw [Array.toList_push, List.mem_append, List.mem_singleton] at mem
    rcases mem with mem | rfl
    · exact inv.sound v mem
    · exact reached
  case closed =>
    intro w mem v edge
    by_cases listed : v ∈ (order.push u).toList
    · exact .inl listed
    · refine .inr ?_
      rw [Array.toList_push, List.mem_append, List.mem_singleton] at mem
      rcases mem with mem | rfl
      · -- An old edge whose target is not `u` leads to the rest of the stack.
        rw [Array.toList_push, List.mem_append, not_or, List.mem_singleton] at listed
        rcases inv.closed w mem v edge with old | old
        · exact absurd old listed.1
        · exact List.mem_append_right _ ((List.mem_cons.1 old).resolve_left listed.2)
      · have small : v < (visited.set! w true).size := by
          rw [Array.set!_eq_setIfInBounds, Array.size_setIfInBounds, inv.size]
          exact edge.target
        refine List.mem_append_left _ (List.mem_filter.2 ⟨edge, decide_eq_true ?_⟩)
        rw [← marked, Array.getElem?_eq_getElem small] at listed
        rw [Array.getElem?_eq_getElem small]
        simpa using listed

/-- The search finishes within as many steps as there are entries on the stack and pending edges. -/
lemma run {fuel : Nat} (inv : Visiting g source stack visited order)
    (enough : stack.length + g.pending visited ≤ fuel) :
    ∃ order' visited', g.visit? fuel stack visited order = some order' ∧
      Visiting g source [] visited' order' := by
  induction fuel generalizing stack visited order with
  | zero =>
    obtain rfl : stack = [] := List.eq_nil_of_length_eq_zero (by omega)
    exact ⟨order, visited, by simp [visit?], inv⟩
  | succ fuel ih =>
    cases stack with
    | nil => exact ⟨order, visited, by simp [visit?], inv⟩
    | cons u stack =>
      rw [List.length_cons] at enough
      have node : u < g.nodeCount := (inv.stacked u List.mem_cons_self).1
      have bound : u < visited.size := inv.size ▸ node
      have mark : visited[u]? = some visited[u] := Array.getElem?_eq_getElem bound
      cases old : visited[u] with
      | true =>
        obtain ⟨order', visited', rest, done⟩ := ih (inv.skip (by rw [mark, old])) (by omega)
        exact ⟨order', visited', by rw [visit?]; simp [mark, old, rest], done⟩
      | false =>
        rw [old] at mark
        have filtered := @filterM_unvisited (visited.set! u true) (g.row u) fun v edge => by
          rw [Array.set!_eq_setIfInBounds, Array.size_setIfInBounds, inv.size]
          exact Adjacent.target edge
        have less := pending_mark node mark
        have few := List.length_filter_le
          (fun v => decide ((visited.set! u true)[v]? = some false)) (g.row u)
        obtain ⟨order', visited', rest, done⟩ := ih (inv.visit mark) (by
          rw [List.length_append]
          omega)
        refine ⟨order', visited', ?_, done⟩
        rw [visit?]
        simp only [mark, neighbors?_eq_row node, filtered, Option.bind_eq_bind, Option.bind_some]
        exact rest

end Visiting

/-- The search lists the nodes that the source reaches, each once. -/
theorem dfs_spec (node : source < g.nodeCount) :
    ∃ order, g.dfs source = .ok order ∧ order.toList.Nodup ∧
      ∀ v, v ∈ order.toList ↔ g.Reaches source v := by
  have start : Visiting g source [source] (Array.replicate g.nodeCount false) #[] := by
    refine ⟨by simp, fun v => ?_, List.nodup_nil, .inl (List.mem_singleton.2 rfl), fun v mem => ?_,
      nofun, nofun⟩
    · rw [Array.getElem?_replicate]
      split <;> simp
    · rw [List.mem_singleton.1 mem]
      exact ⟨node, .refl⟩
  have enough : [source].length + g.pending (Array.replicate g.nodeCount false) ≤ g.edgeCount + 1 := by
    rw [pending_blank, List.length_singleton, Nat.add_comm]
  obtain ⟨order, visited, run, done⟩ := start.run enough
  refine ⟨order, ?_, done.nodup, fun v => ⟨done.sound v, fun path => ?_⟩⟩
  · rw [dfs, checkSource, if_pos node, preorder?, run]
    rfl
  · induction path with
    | refl => exact done.origin.resolve_left List.not_mem_nil
    | tail _ edge ih => exact (done.closed _ ih _ edge).resolve_right List.not_mem_nil

end LedEffect.Graph
