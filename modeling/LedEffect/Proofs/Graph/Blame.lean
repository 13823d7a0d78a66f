import LedEffect.Proofs.Graph.Acyclic
import LedEffect.Proofs.Graph.Reach
import Mathlib.Data.Set.Card

/-!
# Who is blamed for a stall

Sorting leaves over exactly the nodes that a cycle reaches (`Sorting.not_mem_queue_iff`): whatever lies
behind a cycle waits for it, and the walk backwards from a node that waits comes round on a cycle. Among
the leftovers only a node that is itself on a cycle is named (`topoSort_blamed`).
-/

namespace LedEffect.Graph

variable {g : Graph} {k : Kahn} {known : Array (Option Nat)} {inside : Nat → Prop} {back : Nat → Nat}
  {u v : Nat}

/-- Whether a cycle reaches a node: it is on one, or behind one. -/
def BehindCycle (g : Graph) (v : Nat) : Prop := ∃ u, Relation.TransGen g.Adjacent u u ∧ g.Reaches u v

/-- The node to which so many steps backwards lead. -/
def stepsBack? (known : Array (Option Nat)) (node : Nat) : Nat → Option Nat
  | 0 => some node
  | steps + 1 => (stepsBack? known node steps).bind (stepBack? known)

/-- What sorting says when it stalls in a state, and how it came to say it. The walk backwards from the
first leftover node has a next step at each node it comes to, all of which are left over, and has come
round when it has taken as many steps as there are nodes. -/
structure Blamed (g : Graph) (final : Kahn) (sorted total node : Nat) : Prop where
  total : total = g.nodeCount
  sorted : sorted = {v | v < g.nodeCount ∧ ¬ g.BehindCycle v}.ncard
  unsorted : ∀ v < g.nodeCount, v ∉ final.queue.toList ↔ g.BehindCycle v
  walk : ∃ known start, g.predecessors? final.degrees = some known ∧
    (List.range g.nodeCount).find? (isStuck final.degrees) = some start ∧
    (∀ steps, ∃ v, stepsBack? known start steps = some v ∧ v < g.nodeCount ∧
      v ∉ final.queue.toList) ∧
    ∃ met entry turn, stepsBack? known start entry = some met ∧ stepsBack? known met turn = some met ∧
      0 < turn ∧ entry + turn ≤ g.nodeCount
  cycle : Relation.TransGen (fun u v => g.Adjacent u v ∧ (u ∉ final.queue.toList ∧ node ≤ u) ∧
    v ∉ final.queue.toList ∧ node ≤ v) node node

/-! ## The walk backwards -/

lemma Walk.stepsBack?_eq (walk : Walk g known inside back) (start : inside v) (steps : Nat) :
    stepsBack? known v steps = some (back^[steps] v) := by
  induction steps with
  | zero => rfl
  | succ steps ih =>
    rw [stepsBack?, ih, Option.bind_some, walk.step _ (walk.iterate start steps),
      Function.iterate_succ_apply']

/-- The walk comes from where it ends. -/
lemma Walk.reaches (walk : Walk g known inside back) (start : inside v) (steps : Nat) :
    g.Reaches (back^[steps] v) v := by
  induction steps with
  | zero => exact .refl
  | succ steps ih =>
    rw [Function.iterate_succ_apply']
    exact .head (walk.edge _ (walk.iterate start steps)) ih

/-- Where the walk comes round it is on a cycle. -/
lemma Walk.behindCycle (walk : Walk g known inside back) (start : inside v) : g.BehindCycle v := by
  obtain ⟨entry, turn, -, positive, -, round⟩ := walk.comes_round start
  have met := walk.iterate start entry
  refine ⟨back^[entry] v, ?_, walk.reaches start entry⟩
  have edges : ∀ i, g.Adjacent (back^[i + 1] (back^[entry] v)) (back^[i] (back^[entry] v)) := by
    intro i
    rw [Function.iterate_succ_apply']
    exact walk.edge _ (walk.iterate met i)
  exact Walk.cycle (i := 0) round positive edges

/-! ## What is left over -/

namespace Sorting

variable {done part : List Nat}

/-- Whatever leads to a node of the queue stands before it. -/
lemma mem_queue_of_reaches (inv : Sorting g done part k) (path : g.Reaches u v)
    (mem : v ∈ k.queue.toList) : u ∈ k.queue.toList := by
  induction path using Relation.ReflTransGen.head_induction_on with
  | refl => exact mem
  | head edge _ ih => exact (inv.idxOf_lt ih edge).1

lemma idxOf_lt_of_transGen (inv : Sorting g done part k) (path : Relation.TransGen g.Adjacent u v)
    (mem : v ∈ k.queue.toList) : k.queue.toList.idxOf u < k.queue.toList.idxOf v := by
  induction path using Relation.TransGen.head_induction_on with
  | single edge => exact (inv.idxOf_lt mem edge).2
  | head edge path ih =>
    exact (inv.idxOf_lt (inv.mem_queue_of_reaches path.to_reflTransGen mem) edge).2.trans ih

/-- The nodes that are left over are those that a cycle reaches. -/
lemma not_mem_queue_iff (inv : Sorting g k.queue.toList [] k) (node : v < g.nodeCount) :
    v ∉ k.queue.toList ↔ g.BehindCycle v := by
  constructor
  · intro left
    obtain ⟨known, back, -, walk⟩ := inv.exists_walk
    exact walk.behindCycle (inv.isStuck_iff.2 ⟨node, left⟩)
  · rintro ⟨u, cycle, path⟩ mem
    exact lt_irrefl _ (inv.idxOf_lt_of_transGen cycle (inv.mem_queue_of_reaches path mem))

lemma ncard_sorted (inv : Sorting g k.queue.toList [] k) :
    {v | v < g.nodeCount ∧ ¬ g.BehindCycle v}.ncard = k.queue.size := by
  have eq : {v | v < g.nodeCount ∧ ¬ g.BehindCycle v} = ↑k.queue.toList.toFinset := by
    ext v
    rw [Set.mem_ofPred_eq, Finset.mem_coe, List.mem_toFinset]
    constructor
    · rintro ⟨node, free⟩
      by_contra left
      exact free ((inv.not_mem_queue_iff node).1 left)
    · intro mem
      have node := inv.nodes v mem
      exact ⟨node, fun behind => (inv.not_mem_queue_iff node).2 behind mem⟩
  rw [eq, Set.ncard_coe_finset, List.toFinset_card_of_nodup inv.nodup, Array.length_toList]

end Sorting

/-- When sorting fails it counts the nodes that no cycle reaches and names the least node of a cycle. -/
theorem topoSort_blamed {fault : GraphError} (small : g.nodeCount < 2 ^ 32)
    (fails : g.topoSort = .error fault) : ∃ final sorted total node,
      g.kahn? = some final ∧ fault = .cycle sorted total node ∧ g.Blamed final sorted total node := by
  obtain ⟨k, run, inv⟩ := kahn?_spec small
  rcases Nat.lt_or_ge k.queue.size g.nodeCount with short | full
  · obtain ⟨least, stop, cycle⟩ := inv.stalled small run short
    obtain ⟨known, back, table, walk⟩ := inv.exists_walk
    obtain ⟨start, first⟩ := inv.exists_first short
    have left : isStuck k.degrees start = true := List.find?_some first
    obtain ⟨entry, turn, -, positive, few, round⟩ := walk.comes_round left
    refine ⟨k, k.queue.size, g.nodeCount, least, run, Except.error.inj (fails.symm.trans stop),
      { total := rfl
        sorted := inv.ncard_sorted.symm
        unsorted := fun v node => inv.not_mem_queue_iff node
        walk := ⟨known, start, table, first, fun steps => ?_, back^[entry] start, entry, turn, ?_, ?_,
          positive, few⟩
        cycle := ?_ }⟩
    · exact ⟨_, walk.stepsBack?_eq left steps, inv.isStuck_iff.1 (walk.iterate left steps)⟩
    · exact walk.stepsBack?_eq left entry
    · rw [walk.stepsBack?_eq (walk.iterate left entry), round]
    · refine cycle.lift id fun u v ⟨edge, ⟨stuck, above⟩, stuck', above'⟩ => ?_
      exact ⟨edge, ⟨(inv.isStuck_iff.1 stuck).2, above⟩, (inv.isStuck_iff.1 stuck').2, above'⟩
  · rw [topoSort, run] at fails
    simp [inBounds, Nat.not_lt.2 full, bind, Except.bind] at fails

end LedEffect.Graph
