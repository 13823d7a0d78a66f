import LedEffect.Graph.Cycle
import LedEffect.Proofs.Graph.Rows
import LedEffect.Proofs.Tables
import Mathlib.Algebra.BigOperators.Group.Finset.Basic
import Mathlib.Algebra.Order.BigOperators.Group.Finset

/-!
# The three-colour search

The invariant of the search (`Exploring`) ties the colours to the stack: the gray nodes are those
with an exit mark, an exit mark reaches whatever lies above it, and the black nodes are closed under
edges and lie on no cycle. A step either keeps it or shows a cycle. Each step also lowers the work
that is left (`work`), so the bound on the number of steps is never met, and the search answers
exactly whether a node that it starts from leads to a cycle (`cyclic?_eq_roots`), which is whether the
graph is cyclic when it starts from all nodes (`cyclic?_eq`).
-/

namespace LedEffect.Graph

variable {g : Graph} {stack : List Task} {colours : Array Colour} {u v : Nat}

def Task.node : Task → Nat
  | enter u | exit u => u

@[simp] lemma Task.node_enter (u : Nat) : (Task.enter u).node = u := rfl

@[simp] lemma Task.node_exit (u : Nat) : (Task.exit u).node = u := rfl

/-- What holds before every step of the search. -/
structure Exploring (g : Graph) (stack : List Task) (colours : Array Colour) : Prop where
  size : colours.size = g.nodeCount
  nodes : ∀ task ∈ stack, task.node < g.nodeCount
  gray : ∀ u, colours[u]? = some .gray ↔ .exit u ∈ stack
  path : stack.Pairwise fun above below =>
    ∀ u, below = .exit u → above.node ≠ u ∧ Relation.TransGen g.Adjacent u above.node
  pending : ∀ above u below, stack = above ++ .exit u :: below →
    ∀ v, g.Adjacent u v → colours[v]? = some .black ∨ .enter v ∈ above ∨ .exit v ∈ above
  closed : ∀ u v, colours[u]? = some .black → g.Adjacent u v → colours[v]? = some .black
  acyclic : ∀ u, colours[u]? = some .black → ¬ Relation.TransGen g.Adjacent u u

/-! ## Steps -/

/-- The neighbours on top of the stack are the white ones, in row order, unless one is gray. -/
lemma pushNeighbours?_eq {nodes : List Nat} (inside : ∀ v ∈ nodes, v < colours.size) :
    pushNeighbours? colours stack nodes =
      if ∃ v ∈ nodes, colours[v]? = some .gray then some none
      else some (some
        (((nodes.filter fun v => colours[v]? = some .white).reverse.map .enter) ++ stack)) := by
  induction nodes generalizing stack with
  | nil => simp [pushNeighbours?]
  | cons v nodes ih =>
    obtain ⟨bound, inside⟩ := List.forall_mem_cons.1 inside
    have known : colours[v]? = some colours[v] := Array.getElem?_eq_getElem bound
    unfold pushNeighbours?
    cases colour : colours[v] with
    | gray => simp [known, colour]
    | white => simp [known, colour, ih inside]
    | black => simp [known, colour, ih inside]

/-- Paths from a set of nodes that is closed under edges stay inside. -/
lemma black_of_transGen (closed : ∀ u v, colours[u]? = some .black → g.Adjacent u v →
    colours[v]? = some .black) (black : colours[u]? = some .black)
    (path : Relation.TransGen g.Adjacent u v) : colours[v]? = some .black := by
  induction path with
  | single edge => exact closed _ _ black edge
  | tail _ edge ih => exact closed _ _ ih edge

lemma Exploring.inside {task : Task} (inv : Exploring g (task :: stack) colours) :
    task.node < colours.size := by
  rw [inv.size]
  exact inv.nodes task List.mem_cons_self

/-- A node that was entered before its entry is popped is black: were it gray, its exit mark would
lie below its entry. -/
lemma Exploring.black (inv : Exploring g (.enter u :: stack) colours)
    (entered : colours[u]? ≠ some .white) : colours[u]? = some .black := by
  obtain ⟨above, -⟩ := List.pairwise_cons.1 inv.path
  have bound : u < colours.size := inv.inside
  cases colour : colours[u]? with
  | none => simp at colour; omega
  | some c =>
    cases c with
    | white => exact absurd colour entered
    | black => rfl
    | gray =>
      have mark : Task.exit u ∈ stack := by simpa using (inv.gray u).1 colour
      exact absurd rfl (above _ mark u rfl).1

lemma Exploring.skip (inv : Exploring g (.enter u :: stack) colours)
    (entered : colours[u]? ≠ some .white) : Exploring g stack colours := by
  obtain ⟨-, tail⟩ := List.pairwise_cons.1 inv.path
  have black := inv.black entered
  refine ⟨inv.size, fun task mem => inv.nodes task (List.mem_cons_of_mem _ mem), ?_, tail, ?_,
    inv.closed, inv.acyclic⟩
  · intro w
    simpa using inv.gray w
  · intro before w after eq x edge
    rcases inv.pending (.enter u :: before) w after (by rw [eq]; rfl) x edge with h | h | h
    · exact .inl h
    · rcases List.mem_cons.1 h with h | h
      · cases h
        exact .inl black
      · exact .inr (.inl h)
    · exact .inr (.inr (by simpa using h))

lemma Exploring.leave (inv : Exploring g (.exit u :: stack) colours) :
    Exploring g stack (colours.set! u Colour.black) := by
  obtain ⟨above, tail⟩ := List.pairwise_cons.1 inv.path
  have bound : u < colours.size := inv.inside
  have gray : colours[u]? = some .gray := (inv.gray u).2 List.mem_cons_self
  have apart : Task.exit u ∉ stack := fun mark => (above _ mark u rfl).1 rfl
  -- All tasks above the mark are done, so every neighbour is black.
  have done : ∀ v, g.Adjacent u v → colours[v]? = some .black := by
    intro v edge
    simpa using inv.pending [] u stack rfl v edge
  have keeps : ∀ v : Nat, colours[v]? = some .black →
      (colours.set! u Colour.black)[v]? = some Colour.black :=
    fun v black => (getElem?_set!_eq_some bound).2 (.inr black)
  refine ⟨by simpa using inv.size, fun task mem => inv.nodes task (List.mem_cons_of_mem _ mem), ?_,
    tail, ?_, ?_, ?_⟩
  · intro w
    rw [Array.set!_eq_setIfInBounds, Array.getElem?_setIfInBounds]
    split
    next eq =>
      subst eq
      simp [apart]
    next differ =>
      rw [inv.gray w, List.mem_cons]
      refine ⟨fun h => ?_, .inr⟩
      rcases h with h | h
      · cases h
        exact absurd rfl differ
      · exact h
  · intro before w after eq x edge
    rcases inv.pending (.exit u :: before) w after (by rw [eq]; rfl) x edge with h | h | h
    · exact .inl (keeps x h)
    · exact .inr (.inl (by simpa using h))
    · rcases List.mem_cons.1 h with h | h
      · cases h
        exact .inl (by simp [bound])
      · exact .inr (.inr h)
  · intro w x black edge
    rcases (getElem?_set!_eq_some bound).1 black with rfl | black
    · exact keeps x (done x edge)
    · exact keeps x (inv.closed w x black edge)
  · intro w black cycle
    rcases (getElem?_set!_eq_some bound).1 black with rfl | black
    · -- A cycle through the node would come back to it over black nodes only, but it is gray.
      obtain ⟨x, edge, back⟩ := Relation.TransGen.head'_iff.1 cycle
      have blackEnd : colours[w]? = some .black := by
        rcases Relation.reflTransGen_iff_eq_or_transGen.1 back with rfl | back
        · exact done _ edge
        · exact black_of_transGen inv.closed (done x edge) back
      rw [gray] at blackEnd
      cases blackEnd
    · exact inv.acyclic w black cycle

/-- An exit mark below some entries is the first mark or lies below it. -/
lemma split_at_mark {nodes : List Nat} {before after : List Task} {w : Nat}
    (eq : nodes.map .enter ++ .exit u :: stack = before ++ .exit w :: after) :
    (before = nodes.map .enter ∧ w = u) ∨
      ∃ extra, before = nodes.map .enter ++ .exit u :: extra ∧ stack = extra ++ .exit w :: after := by
  induction nodes generalizing before with
  | nil =>
    cases before with
    | nil =>
      cases eq
      exact .inl ⟨rfl, rfl⟩
    | cons task before =>
      obtain ⟨rfl, rest⟩ := List.cons.inj eq
      exact .inr ⟨before, rfl, rest⟩
  | cons v nodes ih =>
    cases before with
    | nil => cases eq
    | cons task before =>
      obtain ⟨rfl, rest⟩ := List.cons.inj eq
      rcases ih rest with ⟨rfl, rfl⟩ | ⟨extra, rfl, below⟩
      · exact .inl ⟨rfl, rfl⟩
      · exact .inr ⟨extra, rfl, below⟩

lemma black_enter_iff (white : colours[u]? = some .white) :
    (colours.set! u Colour.gray)[v]? = some Colour.black ↔ colours[v]? = some .black := by
  rcases eq_or_ne v u with rfl | differ
  · have bound : v < colours.size := (Array.getElem?_eq_some_iff.1 white).1
    rw [white]
    simp [bound]
  · simp [differ.symm]

/-- The marks below reach the neighbours that come on top of the mark of an entered node. -/
lemma Exploring.enter_path (inv : Exploring g (.enter u :: stack) colours) {nodes : List Nat}
    (fresh : ∀ v ∈ nodes, g.Adjacent u v ∧ v ≠ u ∧ colours[v]? = some .white) :
    (nodes.map Task.enter ++ .exit u :: stack).Pairwise fun above below =>
      ∀ u, below = .exit u → above.node ≠ u ∧ Relation.TransGen g.Adjacent u above.node := by
  obtain ⟨above, tail⟩ := List.pairwise_cons.1 inv.path
  refine List.pairwise_append.2 ⟨?_, List.pairwise_cons.2 ⟨above, tail⟩, ?_⟩
  · -- No two entries are ordered: neither is a mark.
    refine List.Pairwise.imp_of_mem (R := fun _ _ => True) ?_ (List.pairwise_of_forall (by simp))
    intro a b _ mem _ w eq
    obtain ⟨x, _, rfl⟩ := List.mem_map.1 mem
    cases eq
  · -- A path from an older mark goes on over the edge to the new entry.
    intro task mem mark markMem w eq
    obtain ⟨v, listed, rfl⟩ := List.mem_map.1 mem
    obtain ⟨edge, differ, white⟩ := fresh v listed
    rcases List.mem_cons.1 markMem with rfl | markMem
    · cases eq
      exact ⟨differ, .single edge⟩
    · subst eq
      obtain ⟨-, path⟩ := above _ markMem w rfl
      refine ⟨?_, path.tail edge⟩
      rintro rfl
      have gray := (inv.gray v).2 (List.mem_cons_of_mem _ markMem)
      rw [white] at gray
      cases gray

/-- A neighbour of a marked node is black or above the mark, also after a node is entered. -/
lemma Exploring.enter_pending (inv : Exploring g (.enter u :: stack) colours) {nodes : List Nat}
    (known : ∀ v, g.Adjacent u v → colours[v]? = some .black ∨ v ∈ nodes)
    {before after : List Task} {w : Nat}
    (eq : nodes.map .enter ++ .exit u :: stack = before ++ .exit w :: after)
    (edge : g.Adjacent w v) :
    colours[v]? = some .black ∨ .enter v ∈ before ∨ .exit v ∈ before := by
  rcases split_at_mark eq with ⟨rfl, rfl⟩ | ⟨extra, rfl, rest⟩
  · exact (known v edge).imp id fun mem => .inl (List.mem_map_of_mem mem)
  · rcases inv.pending (.enter u :: extra) w after (by rw [rest]; rfl) v edge with h | h | h
    · exact .inl h
    · rcases List.mem_cons.1 h with h | h
      · cases h
        exact .inr (.inr (by simp))
      · exact .inr (.inl (by simp [h]))
    · have h : Task.exit v ∈ extra := by simpa using h
      exact .inr (.inr (by simp [h]))

/-- Entering a white node turns it gray; its white neighbours come on top of its exit mark. -/
lemma Exploring.enter (inv : Exploring g (.enter u :: stack) colours)
    (white : colours[u]? = some .white)
    (noGray : ∀ v, g.Adjacent u v → (colours.set! u Colour.gray)[v]? ≠ some .gray) :
    Exploring g
      (((g.row u).filter fun v => (colours.set! u Colour.gray)[v]? = some .white).map .enter ++
        .exit u :: stack) (colours.set! u Colour.gray) := by
  have bound : u < colours.size := inv.inside
  have at_u : (colours.set! u Colour.gray)[u]? = some Colour.gray := by simp [bound]
  have at_other : ∀ v : Nat, v ≠ u → (colours.set! u Colour.gray)[v]? = colours[v]? := by
    intro v differ
    simp [differ.symm]
  have fresh : ∀ v ∈ (g.row u).filter fun v => (colours.set! u Colour.gray)[v]? = some .white,
      g.Adjacent u v ∧ v ≠ u ∧ colours[v]? = some .white := by
    intro v mem
    obtain ⟨edge, colour⟩ := List.mem_filter.1 mem
    have colour : (colours.set! u Colour.gray)[v]? = some Colour.white := of_decide_eq_true colour
    have differ : v ≠ u := by
      rintro rfl
      rw [at_u] at colour
      cases colour
    exact ⟨edge, differ, at_other v differ ▸ colour⟩
  have known : ∀ v, g.Adjacent u v → colours[v]? = some .black ∨
      v ∈ (g.row u).filter fun v => (colours.set! u Colour.gray)[v]? = some .white := by
    intro v edge
    have target : v < (colours.set! u Colour.gray).size := by simpa [inv.size] using edge.target
    have here := Array.getElem?_eq_getElem target
    cases colour : (colours.set! u Colour.gray)[v] with
    | white => exact .inr (List.mem_filter.2 ⟨edge, decide_eq_true (by rw [here, colour])⟩)
    | gray => exact absurd (here.trans (by rw [colour])) (noGray v edge)
    | black => exact .inl ((black_enter_iff white).1 (here.trans (by rw [colour])))
  refine ⟨by simpa using inv.size, ?_, ?_, inv.enter_path fresh, ?_, ?_, ?_⟩
  · intro task mem
    rcases List.mem_append.1 mem with mem | mem
    · obtain ⟨v, listed, rfl⟩ := List.mem_map.1 mem
      exact (fresh v listed).1.target
    · rcases List.mem_cons.1 mem with rfl | mem
      · exact inv.nodes (.enter u) List.mem_cons_self
      · exact inv.nodes task (List.mem_cons_of_mem _ mem)
  · intro v
    rcases eq_or_ne v u with rfl | differ
    · rw [at_u]
      simp
    · rw [at_other v differ, inv.gray v]
      simp [differ]
  · intro before w after eq v edge
    rw [black_enter_iff white]
    exact inv.enter_pending known eq edge
  · intro v w black edge
    rw [black_enter_iff white] at black ⊢
    exact inv.closed v w black edge
  · intro v black
    exact inv.acyclic v ((black_enter_iff white).1 black)

/-- Whether a node reaches a cycle. -/
def LeadsToCycle (g : Graph) (u : Nat) : Prop :=
  ∃ v, Relation.ReflTransGen g.Adjacent u v ∧ Relation.TransGen g.Adjacent v v

lemma LeadsToCycle.head (edge : g.Adjacent u v) : g.LeadsToCycle v → g.LeadsToCycle u :=
  fun ⟨w, path, cycle⟩ => ⟨w, .head edge path, cycle⟩

/-- An edge from a white node to a gray one, the node itself included, closes a cycle. -/
lemma Exploring.cycle (inv : Exploring g (.enter u :: stack) colours) (edge : g.Adjacent u v)
    (gray : (colours.set! u .gray)[v]? = some .gray) :
    ∃ task ∈ Task.enter u :: stack, g.LeadsToCycle task.node := by
  obtain ⟨above, -⟩ := List.pairwise_cons.1 inv.path
  rcases eq_or_ne v u with rfl | differ
  · exact ⟨.enter v, List.mem_cons_self, v, .refl, .single edge⟩
  · have gray : colours[v]? = some .gray := by simpa [differ.symm] using gray
    have mark : Task.exit v ∈ stack := by simpa using (inv.gray v).1 gray
    exact ⟨.exit v, List.mem_cons_of_mem _ mark, v, .refl, (above _ mark v rfl).2.tail edge⟩

section Steps

attribute [local simp] explore?

lemma explore?_nil (fuel : Nat) : g.explore? fuel [] colours = some (some colours) := by
  cases fuel <;> simp

lemma explore?_exit {fuel : Nat} (bound : u < colours.size) :
    g.explore? (fuel + 1) (.exit u :: stack) colours =
      g.explore? fuel stack (colours.set! u .black) := by
  simp [bound]

lemma explore?_stale {fuel : Nat} (black : colours[u]? = some .black) :
    g.explore? (fuel + 1) (.enter u :: stack) colours = g.explore? fuel stack colours := by
  simp [black]

/-- Entering a white node fails on a gray neighbour and pushes the white ones otherwise. -/
lemma explore?_white {fuel : Nat} (size : colours.size = g.nodeCount) (bound : u < g.nodeCount)
    (white : colours[u]? = some .white) :
    g.explore? (fuel + 1) (.enter u :: stack) colours =
      if ∃ v ∈ g.row u, (colours.set! u .gray)[v]? = some .gray then some none
      else g.explore? fuel
        (((g.row u).filter fun v => (colours.set! u .gray)[v]? = some .white).map .enter ++
          .exit u :: stack) (colours.set! u .gray) := by
  have inside : ∀ v ∈ (g.row u).reverse, v < (colours.set! u .gray).size := by
    intro v mem
    have edge : g.Adjacent u v := List.mem_reverse.1 mem
    simpa [size] using edge.target
  have pushed := @pushNeighbours?_eq (.exit u :: stack) _ _ inside
  simp only [List.mem_reverse, ← List.filter_reverse, List.reverse_reverse] at pushed
  rw [explore?]
  simp only [white, neighbors?_eq_row bound, Option.bind_eq_bind, Option.bind_some, ne_eq,
    not_true_eq_false, if_false, pushed]
  split
  · rfl
  · rfl

end Steps

/-! ## Termination -/

/-- What the white nodes can still add to the stack: themselves and their neighbours. -/
def work (g : Graph) (colours : Array Colour) : Nat :=
  ∑ u ∈ (Finset.range g.nodeCount).filter (colours[·]? = some .white), ((g.row u).length + 1)

lemma sum_length_row {k : Nat} (small : k ≤ g.nodeCount) :
    ∑ u ∈ Finset.range k, (g.row u).length = g.start k := by
  induction k with
  | zero => simp
  | succ k ih =>
    have le : g.start k ≤ g.start (k + 1) := start_mono small (Nat.le_succ k)
    rw [Finset.sum_range_succ, ih (by omega), length_row small]
    omega

lemma work_le (g : Graph) (colours : Array Colour) :
    g.work colours ≤ g.edgeCount + g.nodeCount := by
  calc g.work colours
      ≤ ∑ u ∈ Finset.range g.nodeCount, ((g.row u).length + 1) :=
        Finset.sum_le_sum_of_subset (Finset.filter_subset _ _)
    _ = g.edgeCount + g.nodeCount := by
        rw [Finset.sum_add_distrib, sum_length_row (Nat.le_refl _), g.start_nodeCount]
        simp

/-- Turning a white node gray takes its share off the work. -/
lemma work_enter (bound : u < g.nodeCount) (white : colours[u]? = some .white) :
    g.work (colours.set! u .gray) + ((g.row u).length + 1) = g.work colours := by
  have mem : u ∈ (Finset.range g.nodeCount).filter (colours[·]? = some .white) := by
    simp [bound, white]
  rw [work, filter_set!_eq_erase (by decide), work, Finset.sum_erase_add _ _ mem]

lemma work_leave (g : Graph) (colours : Array Colour) (u : Nat) :
    g.work (colours.set! u .black) ≤ g.work colours := by
  rw [work, filter_set!_eq_erase (by decide), work]
  exact Finset.sum_le_sum_of_subset (Finset.erase_subset _ _)

/-! ## Runs -/

/-- Whether a node is black or has a task. -/
def Covered (stack : List Task) (colours : Array Colour) (u : Nat) : Prop :=
  colours[u]? = some .black ∨ ∃ task ∈ stack, task.node = u

lemma covered_skip (black : colours[u]? = some .black)
    (covered : Covered (.enter u :: stack) colours v) : Covered stack colours v := by
  rcases covered with h | ⟨task, mem, rfl⟩
  · exact .inl h
  · rcases List.mem_cons.1 mem with rfl | mem
    · exact .inl black
    · exact .inr ⟨task, mem, rfl⟩

lemma covered_leave (bound : u < colours.size) (covered : Covered (.exit u :: stack) colours v) :
    Covered stack (colours.set! u Colour.black) v := by
  rcases covered with h | ⟨task, mem, rfl⟩
  · exact .inl ((getElem?_set!_eq_some bound).2 (.inr h))
  · rcases List.mem_cons.1 mem with rfl | mem
    · exact .inl ((getElem?_set!_eq_some bound).2 (.inl rfl))
    · exact .inr ⟨task, mem, rfl⟩

lemma covered_enter (white : colours[u]? = some .white) {tasks : List Task}
    (covered : Covered (.enter u :: stack) colours v) :
    Covered (tasks ++ .exit u :: stack) (colours.set! u Colour.gray) v := by
  rcases covered with h | ⟨task, mem, rfl⟩
  · exact .inl ((black_enter_iff white).2 h)
  · rcases List.mem_cons.1 mem with rfl | mem
    · exact .inr ⟨.exit u, by simp, rfl⟩
    · exact .inr ⟨task, by simp [mem], rfl⟩

/-- What an answer of the search means: a task leads to a cycle, or an empty stack with all nodes that
were covered coloured black. -/
def Explored (g : Graph) (stack : List Task) (colours : Array Colour) :
    Option (Array Colour) → Prop
  | none => ∃ task ∈ stack, g.LeadsToCycle task.node
  | some final => Exploring g [] final ∧ ∀ u, Covered stack colours u → final[u]? = some .black

/-- An answer is as good for a task list of which fewer nodes are to be black, and no fewer lead to a
cycle. -/
lemma Explored.mono {stack' : List Task} {colours' : Array Colour}
    {answer : Option (Array Colour)} (explored : Explored g stack colours answer)
    (fewer : ∀ u, Covered stack' colours' u → Covered stack colours u)
    (leads : ∀ task ∈ stack, g.LeadsToCycle task.node →
      ∃ task ∈ stack', g.LeadsToCycle task.node) :
    Explored g stack' colours' answer := by
  cases answer with
  | none =>
    obtain ⟨task, mem, cycle⟩ := explored
    exact leads task mem cycle
  | some final => exact ⟨explored.1, fun u h => explored.2 u (fewer u h)⟩

lemma Explored.initial (inv : Exploring g [] colours) : Explored g [] colours (some colours) :=
  ⟨inv, fun _ covered => covered.elim id (by simp)⟩

/-- The search ends within the bound, with the right answer. -/
lemma explore?_spec (fuel : Nat) (inv : Exploring g stack colours)
    (enough : stack.length + g.work colours ≤ fuel) :
    ∃ answer, g.explore? fuel stack colours = some answer ∧ Explored g stack colours answer := by
  -- Every step takes a task off the stack; what a white node puts there is paid by its work.
  induction fuel generalizing stack colours with
  | zero =>
    obtain rfl : stack = [] := List.length_eq_zero_iff.1 (by omega)
    exact ⟨some colours, explore?_nil _, .initial inv⟩
  | succ fuel ih =>
    cases stack with
    | nil => exact ⟨some colours, explore?_nil _, .initial inv⟩
    | cons task stack =>
      have node := inv.nodes task List.mem_cons_self
      have later : ∀ top, ∀ task ∈ stack, g.LeadsToCycle task.node →
          ∃ task ∈ top :: stack, g.LeadsToCycle task.node :=
        fun _ task mem cycle => ⟨task, List.mem_cons_of_mem _ mem, cycle⟩
      rw [List.length_cons] at enough
      cases task with
      | exit u =>
        have bound : u < colours.size := inv.inside
        have less := work_leave g colours u
        obtain ⟨answer, run, explored⟩ := ih inv.leave (by omega)
        exact ⟨answer, by rw [explore?_exit bound, run],
          explored.mono (fun v => covered_leave bound) (later _)⟩
      | enter u =>
        have node : u < g.nodeCount := node
        rcases Classical.em (colours[u]? = some .white) with white | entered
        · rw [explore?_white inv.size node white]
          split
          next back =>
            obtain ⟨v, edge, gray⟩ := back
            exact ⟨none, rfl, inv.cycle edge gray⟩
          next noGray =>
            have enter := inv.enter white fun v edge gray => noGray ⟨v, edge, gray⟩
            have less := work_enter node white
            have few := List.length_filter_le
              (fun v => decide ((colours.set! u .gray)[v]? = some .white)) (g.row u)
            obtain ⟨answer, run, explored⟩ := ih enter (by
              rw [List.length_append, List.length_map, List.length_cons]
              omega)
            refine ⟨answer, run, explored.mono (fun v => covered_enter white) fun task mem cycle => ?_⟩
            rcases List.mem_append.1 mem with mem | mem
            · obtain ⟨v, listed, rfl⟩ := List.mem_map.1 mem
              exact ⟨.enter u, List.mem_cons_self, cycle.head (List.mem_filter.1 listed).1⟩
            · rcases List.mem_cons.1 mem with rfl | mem
              · exact ⟨.enter u, List.mem_cons_self, cycle⟩
              · exact later _ task mem cycle
        · have black := inv.black entered
          obtain ⟨answer, run, explored⟩ := ih (inv.skip entered) (by omega)
          exact ⟨answer, by rw [explore?_stale black, run],
            explored.mono (fun v => covered_skip black) (later _)⟩

/-- Between two roots the stack is empty: nothing is gray. -/
lemma Exploring.root (inv : Exploring g [] colours) (node : u < g.nodeCount) :
    Exploring g [.enter u] colours := by
  refine ⟨inv.size, by simpa using node, fun v => by simpa using inv.gray v, by simp, ?_,
    inv.closed, inv.acyclic⟩
  intro above v below eq
  cases above with
  | nil => cases eq
  | cons task above => simp at eq

lemma exploreAll?_spec (roots : List Nat) (inv : Exploring g [] colours)
    (nodes : ∀ u ∈ roots, u < g.nodeCount) :
    g.exploreAll? colours roots = some true ∧ (∃ root ∈ roots, g.LeadsToCycle root) ∨
      g.exploreAll? colours roots = some false ∧ ∃ final, Exploring g [] final ∧
        ∀ u, colours[u]? = some .black ∨ u ∈ roots → final[u]? = some .black := by
  induction roots generalizing colours with
  | nil => exact .inr ⟨rfl, colours, inv, by simp⟩
  | cons root roots ih =>
    obtain ⟨node, nodes⟩ := List.forall_mem_cons.1 nodes
    rcases Classical.em (colours[root]? = some .white) with white | entered
    · have less := g.work_le colours
      obtain ⟨answer, run, explored⟩ := explore?_spec (2 * g.nodeCount + g.edgeCount + 1)
        (inv.root node) (by simp; omega)
      cases answer with
      | none =>
        obtain ⟨task, mem, cycle⟩ := explored
        obtain rfl := List.mem_singleton.1 mem
        exact .inl ⟨by simp [exploreAll?, white, run], root, List.mem_cons_self, cycle⟩
      | some colours' =>
        obtain ⟨inv', black⟩ := explored
        rcases ih inv' nodes with ⟨rest, later, mem, cycle⟩ | ⟨rest, final, invFinal, all⟩
        · exact .inl ⟨by simpa [exploreAll?, white, run] using rest, later,
            List.mem_cons_of_mem _ mem, cycle⟩
        · refine .inr ⟨by simpa [exploreAll?, white, run] using rest, final, invFinal, ?_⟩
          rintro u (h | h)
          · exact all u (.inl (black u (.inl h)))
          · rcases List.mem_cons.1 h with rfl | h
            · exact all u (.inl (black u (.inr ⟨.enter u, by simp, rfl⟩)))
            · exact all u (.inr h)
    · -- Nothing is gray between roots, so a root that was entered before is black.
      have black : colours[root]? = some .black := (inv.root node).black entered
      have same : g.exploreAll? colours (root :: roots) = g.exploreAll? colours roots := by
        simp [exploreAll?, black]
      rw [same]
      refine (ih inv nodes).imp
        (fun ⟨rest, later, mem, cycle⟩ => ⟨rest, later, List.mem_cons_of_mem _ mem, cycle⟩)
        fun ⟨rest, final, invFinal, all⟩ => ⟨rest, final, invFinal, ?_⟩
      rintro u (h | h)
      · exact all u (.inl h)
      · rcases List.mem_cons.1 h with rfl | h
        · exact all u (.inl black)
        · exact all u (.inr h)

lemma Exploring.initial (g : Graph) : Exploring g [] (Array.replicate g.nodeCount .white) := by
  refine ⟨by simp, by simp, ?_, .nil, by simp, ?_, ?_⟩ <;>
    simp [Array.getElem?_replicate]

lemma nodeWord_of_lt (small : u < 2 ^ 32) : nodeWord u = u := Nat.mod_eq_of_lt small

/-- The search tells exactly whether one of the nodes it starts from leads to a cycle. -/
lemma cyclic?_eq_roots [Decidable (∃ root < nodeWord g.nodeCount, g.LeadsToCycle root)] :
    g.cyclic? = some (decide (∃ root < nodeWord g.nodeCount, g.LeadsToCycle root)) := by
  have roots : ∀ root ∈ List.range (nodeWord g.nodeCount), root < g.nodeCount :=
    fun root mem => (List.mem_range.1 mem).trans_le (Nat.mod_le _ _)
  rw [cyclic?]
  rcases exploreAll?_spec _ (.initial g) roots with
    ⟨run, root, mem, cycle⟩ | ⟨run, final, inv, all⟩
  · rw [run, decide_eq_true ⟨root, List.mem_range.1 mem, cycle⟩]
  · -- Whatever a black node reaches is black, and on no cycle.
    have acyclic : ¬ ∃ root < nodeWord g.nodeCount, g.LeadsToCycle root := by
      rintro ⟨root, mem, u, path, cycle⟩
      have black : final[u]? = some .black := by
        have start := all root (.inr (List.mem_range.2 mem))
        rcases Relation.reflTransGen_iff_eq_or_transGen.1 path with rfl | path
        · exact start
        · exact black_of_transGen inv.closed start path
      exact inv.acyclic u black cycle
    rw [run, decide_eq_false acyclic]

/-- With fewer than 2^32 nodes the search tells exactly whether the graph is cyclic. -/
lemma cyclic?_eq (small : g.nodeCount < 2 ^ 32) [Decidable g.Cyclic] :
    g.cyclic? = some (decide g.Cyclic) := by
  classical
  have iff : (∃ root < nodeWord g.nodeCount, g.LeadsToCycle root) ↔ g.Cyclic := by
    rw [nodeWord_of_lt small]
    constructor
    · rintro ⟨-, -, u, -, cycle⟩
      exact ⟨u, cycle⟩
    · rintro ⟨u, cycle⟩
      obtain ⟨v, edge, -⟩ := Relation.TransGen.head'_iff.1 cycle
      exact ⟨u, edge.source, u, .refl, cycle⟩
  rw [cyclic?_eq_roots, decide_eq_decide.2 iff]

end LedEffect.Graph
