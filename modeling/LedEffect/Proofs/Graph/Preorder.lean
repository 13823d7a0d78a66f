import LedEffect.Proofs.Graph.DepthFirst
import LedEffect.Proofs.Traversal

/-!
# The recursive preorder

The recursive search takes the nodes of a list in turn. One that is listed already is skipped; another
one is listed, and the search goes on with its row before it comes to the rest (`Graph.searched`). The
search with a stack lists the same nodes in the same order (`dfs_recursive`): to work off the nodes on
top of the stack is to search from them, and both skip a node that was visited in between.
-/

namespace LedEffect.Graph

variable {g : Graph} {source v : Nat} {listed seen nodes stack : List Nat} {visited : Array Bool}
  {order final : Array Nat}

/-! ## The recursion -/

/-- The nodes of a graph that are not in a list. -/
def unlisted (g : Graph) (listed : List Nat) : Finset Nat :=
  (Finset.range g.nodeCount).filter (· ∉ listed)

lemma unlisted_subset {more : List Nat} (sub : listed ⊆ more) :
    g.unlisted more ⊆ g.unlisted listed := by
  intro v mem
  obtain ⟨node, fresh⟩ := Finset.mem_filter.1 mem
  exact Finset.mem_filter.2 ⟨node, fun old => fresh (sub old)⟩

lemma card_unlisted_le {more : List Nat} (sub : listed ⊆ more) :
    (g.unlisted more).card ≤ (g.unlisted listed).card :=
  Finset.card_le_card (unlisted_subset sub)

lemma card_unlisted_lt (node : v < g.nodeCount) (new : v ∉ listed) :
    (g.unlisted (listed ++ [v])).card < (g.unlisted listed).card := by
  apply Finset.card_lt_card
  refine (Finset.ssubset_iff_of_subset (unlisted_subset (List.subset_append_left _ _))).2 ⟨v, ?_, ?_⟩
  · simp [unlisted, node, new]
  · simp [unlisted]

/-- What is listed when the recursive search has been through a list of nodes: what was listed before,
and behind it the other nodes that it came to, in the order of their first visit. -/
def searched (g : Graph) (listed : List Nat) : List Nat → {all : List Nat // listed ⊆ all}
  | [] => ⟨listed, List.Subset.refl _⟩
  | v :: nodes =>
    if v ∈ listed then g.searched listed nodes
    else
      let below := g.searched (listed ++ [v]) (g.row v)
      let rest := g.searched below.1 nodes
      ⟨rest.1, fun _ mem => rest.2 (below.2 (List.mem_append_left _ mem))⟩
termination_by nodes => ((g.unlisted listed).card, nodes.length)
decreasing_by
  · exact .right _ (Nat.lt_succ_self _)
  · rcases Nat.lt_or_ge v g.nodeCount with node | outside
    · exact .left _ _ (card_unlisted_lt node ‹_›)
    · rw [row_eq_nil outside]
      exact .right' _ (card_unlisted_le (List.subset_append_left _ _)) (Nat.succ_pos _)
  · refine .right' _ (card_unlisted_le fun _ mem => ?_) (Nat.lt_succ_self _)
    exact below.2 (List.mem_append_left _ mem)

/-- The nodes in the order in which the recursive search from a source visits them first. -/
def preorder (g : Graph) (source : Nat) : List Nat := (g.searched [] [source]).1

lemma searched_nil (g : Graph) (listed : List Nat) : (g.searched listed []).1 = listed := by
  rw [searched]

lemma searched_of_mem (old : v ∈ listed) :
    g.searched listed (v :: nodes) = g.searched listed nodes := by
  rw [searched, if_pos old]

lemma searched_of_not_mem (new : v ∉ listed) : (g.searched listed (v :: nodes)).1 =
    (g.searched (g.searched (listed ++ [v]) (g.row v)).1 nodes).1 := by
  rw [searched, if_neg new]

/-- Nodes that were listed before may be left out of the list that is gone through. -/
lemma searched_filter (sub : seen ⊆ listed) :
    (g.searched listed (nodes.filter (· ∉ seen))).1 = (g.searched listed nodes).1 := by
  induction nodes generalizing listed with
  | nil => rfl
  | cons v nodes ih =>
    by_cases old : v ∈ listed
    · rw [searched_of_mem old, ← ih sub, List.filter_cons]
      split
      · rw [searched_of_mem old]
      · rfl
    · have kept : v ∉ seen := fun mem => old (sub mem)
      rw [List.filter_cons_of_pos (by simpa using kept), searched_of_not_mem old,
        searched_of_not_mem old]
      apply ih
      intro w mem
      exact (g.searched _ _).2 (List.mem_append_left _ (sub mem))

/-! ## The stack -/

/-- Whether the marks are those of the nodes that are listed. -/
structure Marks (g : Graph) (visited : Array Bool) (order : Array Nat) : Prop where
  size : visited.size = g.nodeCount
  marked : ∀ v : Nat, visited[v]? = some true ↔ v ∈ order.toList

lemma Marks.push (marks : Marks g visited order) (node : v < g.nodeCount) :
    Marks g (visited.set! v true) (order.push v) where
  size := by simpa using marks.size
  marked w := by
    rw [getElem?_set!_eq_some (marks.size ▸ node), marks.marked, Array.toList_push, List.mem_append,
      List.mem_singleton, or_comm]

/-- The marks tell which nodes of a row are new. -/
lemma Marks.filter_row (marks : Marks g visited order) (u : Nat) :
    (g.row u).filter (fun v => visited[v]? = some false) =
      (g.row u).filter (· ∉ order.toList) := by
  apply List.filter_congr
  intro v edge
  have bound : v < visited.size := marks.size ▸ Adjacent.target edge
  have mark : visited[v]? = some visited[v] := Array.getElem?_eq_getElem bound
  rw [decide_eq_decide, ← marks.marked, mark]
  cases visited[v] <;> simp

/-- When the nodes on top of the stack are worked off, the search has listed what the recursive search
from these nodes lists. -/
lemma visit?_append {fuel : Nat} (marks : Marks g visited order) (inside : ∀ v ∈ nodes, v < g.nodeCount)
    (run : g.visit? fuel (nodes ++ stack) visited order = some final) :
    ∃ fuel' visited' order', fuel' ≤ fuel ∧ g.visit? fuel' stack visited' order' = some final ∧
      Marks g visited' order' ∧ order'.toList = (g.searched order.toList nodes).1 := by
  induction fuel using Nat.strongRecOn generalizing nodes stack visited order with
  | ind fuel ih =>
    cases nodes with
    | nil => exact ⟨fuel, visited, order, Nat.le_refl _, run, marks, (searched_nil _ _).symm⟩
    | cons v nodes =>
      obtain ⟨node, inside⟩ := List.forall_mem_cons.1 inside
      have bound : v < visited.size := marks.size ▸ node
      have mark : visited[v]? = some visited[v] := Array.getElem?_eq_getElem bound
      cases fuel with
      | zero => simp [visit?] at run
      | succ fuel =>
        rw [List.cons_append, visit?, mark, Option.bind_eq_bind, Option.bind_some] at run
        cases old : visited[v] with
        | true =>
          have listed : v ∈ order.toList := (marks.marked v).1 (mark.trans (congrArg some old))
          rw [old, if_pos rfl] at run
          obtain ⟨fuel', visited', order', le, rest, marks', eq⟩ :=
            ih fuel (Nat.lt_succ_self _) marks inside run
          exact ⟨fuel', visited', order', Nat.le_succ_of_le le, rest, marks', by
            rw [eq, searched_of_mem listed]⟩
        | false =>
          have new : v ∉ order.toList := by
            rw [← marks.marked, mark, old]
            simp
          have marks₁ := marks.push node
          have filtered := @filterM_unvisited (visited.set! v true) (g.row v) fun w edge => by
            rw [marks₁.size]
            exact Adjacent.target edge
          simp only [old, Bool.false_eq_true, if_false, neighbors?_eq_row node, filtered,
            Option.bind_eq_bind, Option.bind_some, marks₁.filter_row] at run
          -- First the fresh neighbours are worked off, then the rest of the nodes.
          obtain ⟨fuel₁, visited₁, order₁, le₁, run₁, marks₁', eq₁⟩ :=
            ih fuel (Nat.lt_succ_self _) marks₁
              (fun w mem => Adjacent.target (List.mem_of_mem_filter mem)) run
          obtain ⟨fuel₂, visited₂, order₂, le₂, run₂, marks₂, eq₂⟩ :=
            ih fuel₁ (Nat.lt_succ_of_le le₁) marks₁' inside run₁
          refine ⟨fuel₂, visited₂, order₂, by omega, run₂, marks₂, ?_⟩
          rw [searched_filter (List.Subset.refl _), Array.toList_push] at eq₁
          rw [eq₂, eq₁, searched_of_not_mem new]

/-- The search with a stack lists exactly the preorder of the recursive search, in which every node that
the source reaches stands once, and no other node. -/
theorem dfs_recursive (node : source < g.nodeCount) :
    ∃ order, g.dfs source = .ok order ∧ order.toList = g.preorder source ∧ order.toList.Nodup ∧
      ∀ v, v ∈ order.toList ↔ g.Reaches source v := by
  obtain ⟨order, run, nodup, reached⟩ := dfs_spec node
  refine ⟨order, run, ?_, nodup, reached⟩
  have marks : Marks g (Array.replicate g.nodeCount false) #[] := by
    refine ⟨by simp, fun v => ?_⟩
    rw [Array.getElem?_replicate]
    split <;> simp
  rw [dfs, checkSource, if_pos node] at run
  cases stop : g.preorder? source with
  | none =>
    rw [stop] at run
    cases run
  | some listed =>
    rw [stop] at run
    obtain rfl := Except.ok.inj run
    obtain ⟨fuel, visited', order', -, rest, -, eq⟩ := @visit?_append g [source] [] _ _ listed _ marks
      (List.forall_mem_singleton.2 node) stop
    rw [visit?] at rest
    obtain rfl := Option.some_inj.1 rest
    exact eq

/-- A node that waits on the stack while a way round leads to it, a cycle, and a node apart. -/
def branched : Graph := ⟨true, #[0, 2, 4, 4, 5, 6, 7], #[1, 4, 2, 3, 4, 1, 0], none, by decide⟩

/-- The waiting node is listed where the recursion comes to it, at the end of the way round. -/
theorem dfs_branched :
    0 < branched.nodeCount ∧ branched.dfs 0 = .ok #[0, 1, 2, 3, 4] ∧
      branched.preorder 0 = [0, 1, 2, 3, 4] ∧ ¬ branched.Reaches 0 5 := by
  have seen : (branched.dfs 0).toOption.any (· == #[0, 1, 2, 3, 4]) = true := by decide
  obtain ⟨listed, run', same⟩ := exists_of_any seen
  obtain rfl := eq_of_beq same
  obtain ⟨order, run, eq, -, reached⟩ := @dfs_recursive branched 0 (by decide)
  obtain rfl := Except.ok.inj (run'.symm.trans run)
  refine ⟨by decide, run, eq.symm, fun path => ?_⟩
  exact absurd ((reached 5).2 path) (by decide)

end LedEffect.Graph
