import LedEffect.Proofs.Graph.BreadthFirst
import LedEffect.Proofs.Traversal
import Mathlib.Order.Bounds.Basic

/-!
# Hops

In a graph within the limit breadth-first search finds the least numbers of edges, and on the way no
check of it fails (`bfs_hops`): the queue has room, the distance of no node in it is too great to be
raised, and no node is as far away as the sentinel says.

In a graph past the limit the last distance before the sentinel may be offered the sentinel itself. The
search does not survive that: a node with the sentinel for a distance is then left in the queue, whose
own turn must fail (`Overdue`). So whatever distances a search of any graph gives are least numbers of
edges (`least_of_bfs`).
-/

namespace LedEffect.Graph

variable {g : Graph} {source head u v : Nat} {f f' : Frontier}

/-! ## Turns -/

/-- The state when so many places of the queue are expanded. -/
def Frontier.after? (g : Graph) (source turns : Nat) : Option Frontier := do
  let start ← Frontier.reach? g.nodeCount 0 ⟨Array.replicate g.nodeCount unreachable, #[]⟩ source
  (List.range turns).foldlM (Frontier.expand? g) start

lemma hops?_eq_after : g.hops? source = (Frontier.after? g source g.nodeCount).map (·.distances) := by
  simp only [hops?, Frontier.after?, Option.bind_eq_bind, Option.map_eq_bind, Option.bind_assoc,
    Function.comp_def]

lemma Frontier.after?_succ (turns : Nat) :
    after? g source (turns + 1) = (after? g source turns).bind (expand? g · turns) := by
  simp only [after?, List.range_succ, List.foldlM_append, List.foldlM_cons, List.foldlM_nil,
    Option.bind_eq_bind, Option.bind_assoc]
  simp

lemma bfs_eq_ok {hops : Array Nat} : g.bfs source = .ok hops ↔ source < g.nodeCount ∧
    ∃ f, Frontier.after? g source g.nodeCount = some f ∧ f.distances = hops := by
  rw [bfs, checkSource, hops?_eq_after]
  split
  next node =>
    cases Frontier.after? g source g.nodeCount with
    | none => simp [inBounds, bind, Except.bind]
    | some f => simp [inBounds, node, bind, Except.bind]
  next out => simp [out, bind, Except.bind]

/-- In a graph within the limit every turn succeeds. -/
lemma Spreading.after (small : g.nodeCount < 2 ^ 32) (node : source < g.nodeCount) (turns : Nat) :
    ∃ f, Frontier.after? g source turns = some f ∧ Spreading g source turns f := by
  obtain ⟨start, first, inv⟩ := Spreading.initial node
  obtain ⟨f, run, inv'⟩ := inv.expandAll small turns
  refine ⟨f, ?_, inv'⟩
  rw [Frontier.after?, first]
  exact run

/-- When all places are expanded, distances are least numbers of edges. -/
lemma Spreading.hops_spec (inv : Spreading g source g.nodeCount f) (node : v < g.nodeCount) :
    (f.hops v = unreachable ↔ ∀ k, ¬ Hops g source v k) ∧
      (f.hops v ≠ unreachable → IsLeast {k | Hops g source v k} (f.hops v)) := by
  have reached := inv.reached v node
  constructor
  · constructor
    · intro never k walk
      exact reached.1 (inv.least walk).1 never
    · intro none
      by_contra some
      exact none _ (inv.sound v (reached.2 some))
  · intro some
    exact ⟨inv.sound v (reached.2 some), fun k walk => (inv.least walk).2⟩

/-! ## The sentinel as a distance -/

/-- What holds when a node was offered the sentinel by one that is expanded: it is left in the queue,
and so are none but the farthest nodes. -/
structure Overdue (g : Graph) (head : Nat) (f : Frontier) : Prop where
  size : f.distances.size = g.nodeCount
  room : f.queue.size ≤ g.nodeCount
  nodes : ∀ v ∈ f.queue.toList, v < g.nodeCount
  late : ∀ v ∈ f.queue.toList.drop head, unreachable ≤ f.hops v + 1
  lost : ∃ v ∈ f.queue.toList.drop head, f.hops v = unreachable

/-- Nodes that are offered the sentinel keep their distances, and those which had it before come to the
end of the queue. -/
lemma Frontier.offer_sentinel {nodes : List Nat} (inside : ∀ v ∈ nodes, v < f.distances.size)
    (run : nodes.foldlM (Frontier.reach? g.nodeCount unreachable) f = some f') :
    f'.distances = f.distances ∧
      f'.queue.toList = f.queue.toList ++ nodes.filter (f.hops · = unreachable) ∧
      (f.queue.size ≤ g.nodeCount → f'.queue.size ≤ g.nodeCount) := by
  induction nodes generalizing f with
  | nil =>
    obtain rfl := Option.some_inj.1 run
    exact ⟨rfl, (List.append_nil _).symm, id⟩
  | cons v nodes ih =>
    obtain ⟨bound, inside⟩ := List.forall_mem_cons.1 inside
    have known : f.distances[v]? = some (f.hops v) := by
      simp [Frontier.hops, bound]
    simp only [List.foldlM_cons, Frontier.reach?, known, Option.bind_eq_bind, Option.bind_some] at run
    by_cases fresh : f.hops v = unreachable
    · rw [if_pos fresh] at run
      split at run
      next room =>
        have same : f.distances.set! v unreachable = f.distances := by
          rw [fresh] at known
          obtain ⟨_, place⟩ := Array.getElem?_eq_some_iff.1 known
          rw [Array.set!_eq_setIfInBounds, Array.setIfInBounds_def, dif_pos bound, ← place,
            Array.set_getElem_self]
        rw [Option.bind_some, same] at run
        obtain ⟨distances, queue, fits⟩ := ih (f := ⟨f.distances, f.queue.push v⟩) inside run
        refine ⟨distances, ?_, fun _ => fits (by rw [Array.size_push]; exact room)⟩
        rw [queue, Array.toList_push, List.filter_cons_of_pos (by simpa using fresh),
          List.append_assoc, List.singleton_append]
        rfl
      next => cases run
    · rw [if_neg fresh, Option.bind_some] at run
      rw [List.filter_cons_of_neg (by simpa using fresh)]
      exact ih inside run

namespace Overdue

/-- When all places are expanded, none is left. -/
lemma not_complete (inv : Overdue g g.nodeCount f) : False := by
  obtain ⟨v, mem, -⟩ := inv.lost
  rw [List.drop_eq_nil_of_le (by simpa using inv.room)] at mem
  exact List.not_mem_nil mem

/-- The neighbours of the node whose turn it is are offered the sentinel, which one of them has, or a
node behind that one. -/
lemma offer (size : f.distances.size = g.nodeCount) (room : f.queue.size ≤ g.nodeCount)
    (nodes : ∀ v ∈ f.queue.toList, v < g.nodeCount) (here : head < f.queue.toList.length)
    (late : ∀ v ∈ f.queue.toList.drop (head + 1), unreachable ≤ f.hops v + 1)
    (lost : (∃ v ∈ f.queue.toList.drop (head + 1), f.hops v = unreachable) ∨
      ∃ v ∈ g.row u, f.hops v = unreachable)
    (run : (g.row u).foldlM (Frontier.reach? g.nodeCount unreachable) f = some f') :
    Overdue g (head + 1) f' := by
  obtain ⟨distances, queue, fits⟩ := Frontier.offer_sentinel
    (fun v edge => size ▸ Adjacent.target edge) run
  have same : f'.hops = f.hops := by
    funext v
    rw [Frontier.hops, distances, Frontier.hops]
  have left : f'.queue.toList.drop (head + 1) = f.queue.toList.drop (head + 1) ++
      (g.row u).filter (f.hops · = unreachable) := by
    rw [queue, List.drop_append_of_le_length here]
  refine
    { size := by rw [distances, size]
      room := fits room
      nodes := ?nodes, late := ?late, lost := ?lost }
  case nodes =>
    rw [queue]
    exact List.forall_mem_append.2 ⟨nodes, fun v mem => Adjacent.target (List.mem_of_mem_filter mem)⟩
  case late =>
    rw [left, same]
    refine List.forall_mem_append.2 ⟨late, fun v mem => ?_⟩
    have sentinel : f.hops v = unreachable := by simpa using List.of_mem_filter mem
    exact sentinel ▸ Nat.le_succ _
  case lost =>
    rw [left, same]
    rcases lost with ⟨v, mem, far⟩ | ⟨v, edge, far⟩
    · exact ⟨v, List.mem_append_left _ mem, far⟩
    · exact ⟨v, List.mem_append_right _ (List.mem_filter.2 ⟨edge, by simpa using far⟩), far⟩

/-- A turn that succeeds leaves what has the sentinel in the queue. -/
lemma expand (inv : Overdue g head f) (run : f.expand? g head = some f') :
    Overdue g (head + 1) f' := by
  obtain ⟨v, mem, far⟩ := inv.lost
  have here : head < f.queue.toList.length := by
    by_contra past
    rw [List.drop_eq_nil_of_le (Nat.le_of_not_lt past)] at mem
    exact List.not_mem_nil mem
  have turn : f.queue.toList[head]? = some f.queue.toList[head] := List.getElem?_eq_getElem here
  have rest : f.queue.toList.drop head = f.queue.toList[head] :: f.queue.toList.drop (head + 1) :=
    List.drop_eq_getElem_cons here
  generalize f.queue.toList[head] = u at turn rest
  have node : u < g.nodeCount := inv.nodes u (List.mem_of_getElem? turn)
  have late := inv.late
  rw [rest] at mem late
  obtain ⟨late, lates⟩ := List.forall_mem_cons.1 late
  rw [Frontier.expand?_some inv.size node turn, increment?] at run
  split at run
  next below =>
    have next : f.hops u + 1 = unreachable := le_antisymm below late
    rw [Option.bind_some, next] at run
    refine offer inv.size inv.room inv.nodes here lates (.inl ⟨v, ?_, far⟩) run
    refine (List.mem_cons.1 mem).resolve_left ?_
    rintro rfl
    exact absurd below (far ▸ lt_irrefl _)
  next => cases run

end Overdue

namespace Spreading

/-- The nodes behind the one whose turn it is are no nearer. -/
lemma hops_le_of_mem_drop (inv : Spreading g source head f)
    (turn : f.queue.toList[head]? = some u) (mem : v ∈ f.queue.toList.drop (head + 1)) :
    f.hops u ≤ f.hops v := by
  obtain ⟨here, rfl⟩ := List.getElem?_eq_some_iff.1 turn
  have ascending := inv.ascending.drop (i := head)
  rw [List.drop_eq_getElem_cons here] at ascending
  exact List.rel_of_pairwise_cons ascending mem

/-- A turn that succeeds gives right distances, or somewhere the sentinel for one. -/
lemma expand_or (inv : Spreading g source head f) (run : f.expand? g head = some f') :
    Spreading g source (head + 1) f' ∨ Overdue g (head + 1) f' := by
  cases turn : f.queue.toList[head]? with
  | none =>
    rw [Frontier.expand?_none turn] at run
    obtain rfl := Option.some_inj.1 run
    exact .inl (inv.idle (List.getElem?_eq_none_iff.1 turn))
  | some u =>
    have here : head < f.queue.toList.length := (List.getElem?_eq_some_iff.1 turn).1
    have node := inv.nodes u (List.mem_of_getElem? turn)
    rw [Frontier.expand?_some inv.size node turn, increment?] at run
    split at run
    next below =>
      rw [Option.bind_some] at run
      by_cases near : ∀ v ∈ g.row u, v ∉ f.queue.toList → f.hops u + 1 ≠ unreachable
      · obtain ⟨f'', run', inv', grows, -, reached⟩ := inv.row turn (fun v edge => edge) near
        obtain rfl := Option.some_inj.1 (run'.symm.trans run)
        obtain ⟨fresh, eq⟩ := grows
        refine .inl (inv'.finish ?_ reached)
        rw [← eq, List.getElem?_append_left here, turn]
      · push Not at near
        obtain ⟨v, edge, absent, next⟩ := near
        rw [next] at run
        have far : f.hops v = unreachable := by
          by_contra some
          exact absent ((inv.reached v (Adjacent.target edge)).2 some)
        refine .inr (.offer inv.size inv.size_le inv.nodes here (fun w mem => ?_) (.inr ⟨v, edge, far⟩)
          run)
        exact next ▸ Nat.succ_le_succ (inv.hops_le_of_mem_drop turn mem)
    next => cases run

/-- The turns of a search that succeeds. -/
lemma after_or {turns : Nat} (node : source < g.nodeCount)
    (run : Frontier.after? g source turns = some f) :
    Spreading g source turns f ∨ Overdue g turns f := by
  induction turns generalizing f with
  | zero =>
    obtain ⟨start, first, inv⟩ := initial node
    rw [Frontier.after?, first] at run
    obtain rfl := Option.some_inj.1 run
    exact .inl inv
  | succ turns ih =>
    rw [Frontier.after?_succ] at run
    obtain ⟨f', before, step⟩ := Option.bind_eq_some_iff.1 run
    rcases ih before with inv | inv
    · exact inv.expand_or step
    · exact .inr (inv.expand step)

end Spreading

/-- The distances that a search gives, of a graph of any size, are least numbers of edges, and the
sentinel for nodes out of reach. -/
lemma least_of_bfs {hops : Array Nat} (run : g.bfs source = .ok hops) (node : v < g.nodeCount) :
    ∃ d, hops[v]? = some d ∧ (d = unreachable ↔ ∀ k, ¬ Hops g source v k) ∧
      (d ≠ unreachable → IsLeast {k | Hops g source v k} d) := by
  obtain ⟨source_node, f, after, rfl⟩ := bfs_eq_ok.1 run
  have inv := (Spreading.after_or source_node after).resolve_right Overdue.not_complete
  exact ⟨f.hops v, by simp [Frontier.hops, inv.size ▸ node], inv.hops_spec node⟩

/-- Breadth-first search gives every node the least number of edges of a walk to it from the source, and
the sentinel exactly when there is no walk. However many turns it has taken, each node is in the queue
but once, so that there is room, and its distance can be raised. No least number of edges is the
sentinel. -/
theorem bfs_hops (few : g.nodeCount ≤ counterLimit) (node : source < g.nodeCount) :
    (∃ hops, g.bfs source = .ok hops ∧ hops.size = g.nodeCount ∧ ∀ v < g.nodeCount, ∃ d,
      hops[v]? = some d ∧ (d = unreachable ↔ ∀ k, ¬ Hops g source v k) ∧
        (d ≠ unreachable → IsLeast {k | Hops g source v k} d)) ∧
    (∀ turns, ∃ f, Frontier.after? g source turns = some f ∧ f.queue.toList.Nodup ∧
      f.queue.size ≤ g.nodeCount ∧
      ∀ u ∈ f.queue.toList, increment? (f.hops u) = some (f.hops u + 1)) ∧
    ∀ v k, IsLeast {k | Hops g source v k} k → k < unreachable := by
  have small : g.nodeCount < 2 ^ 32 := by
    rw [counterLimit] at few
    omega
  obtain ⟨final, after, inv⟩ := Spreading.after small node g.nodeCount
  have run : g.bfs source = .ok final.distances := bfs_eq_ok.2 ⟨node, final, after, rfl⟩
  refine ⟨⟨final.distances, run, inv.size, fun v inside => least_of_bfs run inside⟩, fun turns => ?_,
    fun v k least => ?_⟩
  · obtain ⟨f, after, inv⟩ := Spreading.after small node turns
    exact ⟨f, after, inv.nodup, inv.size_le, fun u mem => if_pos (inv.hops_lt small mem)⟩
  · obtain ⟨mem, -⟩ := inv.least least.1
    exact (least.2 (inv.sound v mem)).trans_lt (inv.hops_lt small mem)

/-- Two ways to a node, and a node apart. -/
theorem bfs_hops_diamond :
    ∃ g, ofRows true #[0, 2, 3, 4, 4, 4] #[1, 2, 3, 3] none = .ok g ∧ g.nodeCount ≤ counterLimit ∧
      0 < g.nodeCount ∧ g.bfs 0 = .ok #[0, 1, 1, 2, unreachable] ∧
      IsLeast {k | Hops g 0 3 k} 2 ∧ ∀ k, ¬ Hops g 0 4 k := by
  obtain ⟨g, rows, seen⟩ := exists_of_any
    (x := ofRows true #[0, 2, 3, 4, 4, 4] #[1, 2, 3, 3] none)
    (p := fun g => g.nodeCount = 5 && (g.bfs 0).toOption.any (· == #[0, 1, 1, 2, unreachable]))
    (by decide +kernel)
  rw [Bool.and_eq_true, decide_eq_true_iff] at seen
  obtain ⟨nodes, seen⟩ := seen
  obtain ⟨hops', run', same⟩ := exists_of_any seen
  obtain rfl := eq_of_beq same
  have few : g.nodeCount ≤ counterLimit := by
    rw [nodes]
    decide
  have node : 0 < g.nodeCount := by
    rw [nodes]
    decide
  obtain ⟨⟨hops, run, -, spec⟩, -⟩ := bfs_hops few node
  obtain rfl := Except.ok.inj (run'.symm.trans run)
  obtain ⟨near, near_eq, -, least⟩ := spec 3 (by omega)
  obtain rfl := Option.some_inj.1 near_eq
  obtain ⟨far, far_eq, none, -⟩ := spec 4 (by omega)
  obtain rfl := Option.some_inj.1 far_eq
  exact ⟨g, rows, few, node, run, least (by decide), none.1 rfl⟩

end LedEffect.Graph
