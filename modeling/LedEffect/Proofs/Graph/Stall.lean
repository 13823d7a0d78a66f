import LedEffect.Proofs.Graph.Order
import Mathlib.Dynamics.PeriodicPts.Defs

/-!
# Blame for a stall

When Kahn's algorithm stalls, every leftover node has a leftover predecessor. The walk backwards
over these predecessors meets a node again within as many steps as there are nodes, and the turn it
has then closed is a cycle of leftover nodes. The node that is named is on that cycle and no node of
the cycle is below it (`Sorting.stalled`).
-/

namespace LedEffect.Graph

variable {g : Graph} {degrees : Array Nat} {known : Array (Option Nat)} {u v : Nat}

/-! ## Leftover predecessors -/

/-- What the table of predecessors says when the edges `seen` have been looked at. -/
structure Linked (g : Graph) (degrees : Array Nat) (seen : List (Nat × Nat))
    (known : Array (Option Nat)) : Prop where
  size : known.size = g.nodeCount
  sound : ∀ v u, known[v]? = some (some u) →
    isStuck degrees v = true ∧ isStuck degrees u = true ∧ g.Adjacent u v
  complete : ∀ edge ∈ seen, isStuck degrees edge.2 = true → ∃ u, known[edge.2]? = some (some u)

/-- Looking at one edge of a leftover node: it is the predecessor unless one is known already. -/
lemma Linked.edge {seen : List (Nat × Nat)} (inv : Linked g degrees seen known)
    (left : isStuck degrees u = true) (edge : g.Adjacent u v) {entry : Option Nat}
    (here : known[v]? = some entry) :
    Linked g degrees (seen ++ [(u, v)])
      (if isStuck degrees v ∧ entry = none then known.set! v (some u) else known) := by
  have bound : v < known.size := (Array.getElem?_eq_some_iff.1 here).1
  split
  next free =>
    refine ⟨by simpa using inv.size, fun w x eq => ?_, fun e mem stuck => ?_⟩
    · rw [Array.set!_eq_setIfInBounds, Array.getElem?_setIfInBounds] at eq
      split at eq
      next same =>
        subst same
        obtain rfl : u = x := by simpa [bound] using eq
        exact ⟨free.1, left, edge⟩
      next => exact inv.sound w x eq
    · rw [Array.set!_eq_setIfInBounds, Array.getElem?_setIfInBounds]
      split
      next => exact ⟨u, by simp⟩
      next differ =>
        rcases List.mem_append.1 mem with mem | mem
        · exact inv.complete e mem stuck
        · rw [List.mem_singleton.1 mem] at differ
          exact absurd rfl differ
  next taken =>
    refine ⟨inv.size, inv.sound, fun e mem stuck => ?_⟩
    rcases List.mem_append.1 mem with mem | mem
    · exact inv.complete e mem stuck
    · obtain rfl := List.mem_singleton.1 mem
      rw [here]
      cases value : entry with
      | none => exact absurd ⟨stuck, value⟩ taken
      | some w => exact ⟨w, rfl⟩

/-- Looking at the edges of a leftover node. -/
lemma Linked.row {seen : List (Nat × Nat)} {nodes : List Nat} (inv : Linked g degrees seen known)
    (left : isStuck degrees u = true) (edges : ∀ v ∈ nodes, g.Adjacent u v) :
    ∃ known',
      nodes.foldlM (fun known v => do
        let entry ← known[v]?
        some (if isStuck degrees v ∧ entry = none then known.set! v (some u) else known)) known =
          some known' ∧
      Linked g degrees (seen ++ nodes.map (u, ·)) known' := by
  refine exists_foldlM (I := fun part known => Linked g degrees (seen ++ part.map (u, ·)) known)
    nodes ?_ (by simpa using inv)
  intro part v rest known split inv
  have edge : g.Adjacent u v := edges v (by simp [split])
  have bound : v < known.size := by
    rw [inv.size]
    exact edge.target
  have entry : known[v]? = some known[v] := Array.getElem?_eq_getElem bound
  refine ⟨_, by rw [entry]; rfl, ?_⟩
  simpa using inv.edge left edge entry

lemma Linked.rows {seen : List (Nat × Nat)} {nodes : List Nat}
    (node : ∀ u, isStuck degrees u = true → u < g.nodeCount) (inv : Linked g degrees seen known)
    (left : ∀ u ∈ nodes, isStuck degrees u = true) :
    ∃ known',
      nodes.foldlM (fun known u => do
        (← g.neighbors? u).foldlM (fun known v => do
          let entry ← known[v]?
          some (if isStuck degrees v ∧ entry = none then known.set! v (some u) else known))
          known) known = some known' ∧
      Linked g degrees (seen ++ nodes.flatMap fun u => (g.row u).map (u, ·)) known' := by
  refine exists_foldlM (I := fun part known =>
    Linked g degrees (seen ++ part.flatMap fun u => (g.row u).map (u, ·)) known)
    nodes ?_ (by simpa using inv)
  intro part u rest known split inv
  have stuck : isStuck degrees u = true := left u (by simp [split])
  obtain ⟨known', step, inv'⟩ := inv.row stuck fun v (mem : v ∈ g.row u) => mem
  refine ⟨known', ?_, by simpa using inv'⟩
  rw [neighbors?_eq_row (node u stuck)]
  exact step

lemma predecessors?_spec (node : ∀ u, isStuck degrees u = true → u < g.nodeCount) :
    ∃ known, g.predecessors? degrees = some known ∧
      (∀ v u, stepBack? known v = some u →
        isStuck degrees u = true ∧ g.Adjacent u v) ∧
      ∀ u v, isStuck degrees u = true → isStuck degrees v = true → g.Adjacent u v →
        ∃ w, stepBack? known v = some w := by
  have blank : Linked g degrees [] (Array.replicate g.nodeCount none) :=
    ⟨by simp, by simp [Array.getElem?_replicate], by simp⟩
  obtain ⟨known, run, inv⟩ := @Linked.rows _ _ _ _ ((List.range g.nodeCount).filter
    (isStuck degrees)) node blank fun u mem => (List.mem_filter.1 mem).2
  refine ⟨known, run, fun v u step => ?_, fun u v left stuck edge => ?_⟩
  · exact (inv.sound v u (Option.join_eq_some_iff.1 step)).2
  · have seen : (u, v) ∈ [] ++ ((List.range g.nodeCount).filter (isStuck degrees)).flatMap
        fun u => (g.row u).map (u, ·) := by
      refine List.mem_flatMap.2 ⟨u, List.mem_filter.2 ⟨?_, left⟩, List.mem_map.2 ⟨v, edge, rfl⟩⟩
      exact List.mem_range.2 (node u left)
    obtain ⟨w, eq⟩ := inv.complete _ seen stuck
    exact ⟨w, Option.join_eq_some_iff.2 eq⟩

/-! ## The walk backwards -/

/-- A way backwards that never leaves a set of nodes. -/
structure Walk (g : Graph) (known : Array (Option Nat)) (inside : Nat → Prop)
    (back : Nat → Nat) : Prop where
  node : ∀ v, inside v → v < g.nodeCount
  step : ∀ v, inside v → stepBack? known v = some (back v)
  stays : ∀ v, inside v → inside (back v)
  edge : ∀ v, inside v → g.Adjacent (back v) v

variable {inside : Nat → Prop} {back : Nat → Nat}

lemma Walk.iterate (walk : Walk g known inside back) (start : inside v) (steps : Nat) :
    inside (back^[steps] v) := by
  induction steps generalizing v with
  | zero => exact start
  | succ steps ih => exact ih (walk.stays v start)

/-- Distinct nodes of the walk are no more than there are nodes. -/
lemma Walk.steps_le {steps : Nat} (walk : Walk g known inside back) (start : inside v)
    (distinct : ((List.range steps).map fun i => back^[i] v).Nodup) : steps ≤ g.nodeCount := by
  have nodes : ∀ u ∈ (List.range steps).map fun i => back^[i] v, u < g.nodeCount := by
    intro u mem
    obtain ⟨i, -, rfl⟩ := List.mem_map.1 mem
    exact walk.node _ (walk.iterate start i)
  simpa using length_le_of_nodup distinct nodes

/-- The nodes after one more step are distinct when the last of them is new. -/
lemma nodup_walk_succ {steps : Nat} (distinct : ((List.range steps).map fun i => back^[i] v).Nodup)
    (fresh : ¬ ∃ i < steps, back^[i] v = back^[steps] v) :
    ((List.range (steps + 1)).map fun i => back^[i] v).Nodup := by
  rw [List.range_succ, List.map_append, List.nodup_append]
  refine ⟨distinct, by simp, ?_⟩
  intro a mem b single eq
  obtain ⟨i, lt, rfl⟩ := List.mem_map.1 mem
  apply fresh
  exact ⟨i, List.mem_range.1 lt, by simpa [eq] using single⟩

/-- Marking the node of a step marks the nodes of one step more. -/
lemma marks_succ {steps : Nat} {seen : Array Bool}
    (marks : ∀ u, seen[u]? = some true ↔ ∃ i < steps, back^[i] v = u)
    (bound : back^[steps] v < seen.size) (u : Nat) :
    (seen.set! (back^[steps] v) true)[u]? = some true ↔ ∃ i < steps + 1, back^[i] v = u := by
  rw [getElem?_set!_eq_some bound, marks u]
  constructor
  · rintro (rfl | ⟨i, lt, eq⟩)
    · exact ⟨steps, Nat.lt_succ_self _, rfl⟩
    · exact ⟨i, by omega, eq⟩
  · rintro ⟨i, lt, eq⟩
    rcases Nat.lt_succ_iff_lt_or_eq.1 lt with lt | rfl
    · exact .inr ⟨i, lt, eq⟩
    · exact .inl eq.symm

/-- The walk meets a node again, from which it turns round, and has taken no more steps by then than
there are nodes. -/
lemma revisited?_spec {fuel steps : Nat} {seen : Array Bool} (walk : Walk g known inside back)
    (start : inside v) (size : seen.size = g.nodeCount)
    (marks : ∀ u, seen[u]? = some true ↔ ∃ i < steps, back^[i] v = u)
    (distinct : ((List.range steps).map fun i => back^[i] v).Nodup)
    (enough : g.nodeCount < fuel + steps) :
    ∃ entry turn, revisited? known fuel seen (back^[steps] v) = some (back^[entry] v) ∧
      0 < turn ∧ entry + turn ≤ g.nodeCount ∧ back^[turn] (back^[entry] v) = back^[entry] v := by
  -- Were the marked nodes all distinct when the fuel ends, there would be more than all nodes.
  induction fuel generalizing steps seen with
  | zero =>
    have few := walk.steps_le start distinct
    omega
  | succ fuel ih =>
    have here := walk.iterate start steps
    have bound : back^[steps] v < seen.size := by
      rw [size]
      exact walk.node _ here
    have few := walk.steps_le start distinct
    cases mark : seen[back^[steps] v] with
    | true =>
      obtain ⟨i, lt, eq⟩ := (marks _).1 ((Array.getElem?_eq_getElem bound).trans (by rw [mark]))
      refine ⟨i, steps - i, ?_, by omega, by omega, ?_⟩
      · simp [revisited?, bound, mark, eq]
      · rw [← Function.iterate_add_apply, Nat.sub_add_cancel (Nat.le_of_lt lt), eq]
    | false =>
      have fresh : ¬ ∃ i < steps, back^[i] v = back^[steps] v := by
        rw [← marks, Array.getElem?_eq_getElem bound, mark]
        simp
      have next := @ih (steps + 1) (seen.set! (back^[steps] v) true) (by simpa using size)
        (marks_succ marks bound) (nodup_walk_succ distinct fresh) (by omega)
      rw [Function.iterate_succ_apply'] at next
      obtain ⟨entry, turn, run, rest⟩ := next
      refine ⟨entry, turn, ?_, rest⟩
      simp only [revisited?, Array.getElem?_eq_getElem bound, mark, Option.bind_eq_bind,
        Option.bind_some, walk.step _ here, Bool.false_eq_true, if_false]
      exact run

/-- So does the walk from any node on which nothing is marked yet. -/
lemma Walk.comes_round (walk : Walk g known inside back) (start : inside v) :
    ∃ entry turn,
      revisited? known (g.nodeCount + 1) (Array.replicate g.nodeCount false) v =
        some (back^[entry] v) ∧
      0 < turn ∧ entry + turn ≤ g.nodeCount ∧ back^[turn] (back^[entry] v) = back^[entry] v :=
  @revisited?_spec g known v inside back (g.nodeCount + 1) 0 (Array.replicate g.nodeCount false) walk
    start (by simp) (by simp [Array.getElem?_replicate]) (by simp) (by omega)

/-- The least of a bound and the nodes on the way backwards to a goal. -/
lemma lowestUntil?_spec {fuel steps lowest goal : Nat} (walk : Walk g known inside back)
    (start : inside v) (reaches : back^[steps] v = goal) (enough : steps < fuel) :
    ∃ least count, lowestUntil? known goal fuel lowest v = some least ∧ back^[count] v = goal ∧
      least ≤ lowest ∧ (∀ i < count, least ≤ back^[i] v) ∧
      (least = lowest ∨ ∃ i < count, least = back^[i] v) := by
  induction steps generalizing fuel lowest v with
  | zero =>
    obtain ⟨fuel, rfl⟩ : ∃ f, fuel = f + 1 := ⟨fuel - 1, by omega⟩
    have here : v = goal := reaches
    exact ⟨lowest, 0, by simp [lowestUntil?, here], here, Nat.le_refl _, by simp, .inl rfl⟩
  | succ steps ih =>
    obtain ⟨fuel, rfl⟩ : ∃ f, fuel = f + 1 := ⟨fuel - 1, by omega⟩
    rcases eq_or_ne v goal with here | away
    · exact ⟨lowest, 0, by simp [lowestUntil?, here], here, Nat.le_refl _, by simp, .inl rfl⟩
    · -- Otherwise the first node counts, and the way on is one step shorter.
      obtain ⟨least, count, run, arrives, le, below, found⟩ :=
        @ih (back v) fuel (min lowest v) (walk.stays v start) reaches (by omega)
      refine ⟨least, count + 1, ?_, arrives, by omega, ?_, ?_⟩
      · simp only [lowestUntil?, away, if_false, walk.step v start, Option.bind_eq_bind,
          Option.bind_some]
        exact run
      · intro i lt
        cases i with
        | zero => exact le.trans (Nat.min_le_right _ _)
        | succ i => exact below i (by omega)
      · rcases found with rfl | ⟨i, lt, rfl⟩
        · rcases Nat.le_total lowest v with small | small
          · exact .inl (Nat.min_eq_left small)
          · exact .inr ⟨0, by omega, Nat.min_eq_right small⟩
        · exact .inr ⟨i + 1, by omega, rfl⟩

/-- A turn of the walk is a cycle through any of its nodes. -/
lemma Walk.cycle {turn i : Nat} {R : Nat → Nat → Prop} (start : back^[turn] u = u)
    (positive : 0 < turn) (edges : ∀ i, R (back^[i + 1] u) (back^[i] u)) :
    Relation.TransGen R (back^[i] u) (back^[i] u) := by
  have path : ∀ steps i, Relation.TransGen R (back^[i + (steps + 1)] u) (back^[i] u) := by
    intro steps
    induction steps with
    | zero => exact fun i => .single (edges i)
    | succ steps ih =>
      intro i
      have first := edges (i + (steps + 1))
      exact .head first (ih i)
  obtain ⟨steps, rfl⟩ : ∃ s, turn = s + 1 := ⟨turn - 1, by omega⟩
  have round := path steps i
  rwa [Function.iterate_add_apply, start] at round

/-- Leftover nodes that all have leftover predecessors can be walked backwards for ever. -/
lemma exists_walk (node : ∀ u, isStuck degrees u = true → u < g.nodeCount)
    (stuck : ∀ v, isStuck degrees v = true → ∃ u, g.Adjacent u v ∧ isStuck degrees u = true) :
    ∃ known back, g.predecessors? degrees = some known ∧
      Walk g known (isStuck degrees · = true) back := by
  obtain ⟨known, table, sound, complete⟩ := predecessors?_spec node
  refine ⟨known, fun v => (stepBack? known v).getD 0, table, node, ?_, ?_, ?_⟩ <;>
    intro v left <;>
    obtain ⟨u, edge, pred⟩ := stuck v left <;>
    obtain ⟨w, step⟩ := complete u v pred left edge <;>
    simp only [step, Option.getD_some]
  · exact (sound v w step).1
  · exact (sound v w step).2

/-- An edge between leftover nodes of which none is below `least`. -/
def LeftoverEdge (g : Graph) (degrees : Array Nat) (least u v : Nat) : Prop :=
  g.Adjacent u v ∧ (isStuck degrees u = true ∧ least ≤ u) ∧ isStuck degrees v = true ∧ least ≤ v

/-- The node named for a stall is the least node of a cycle of leftover nodes, in which the walk
backwards from the first leftover node ends. -/
lemma cycleNode?_spec (small : g.nodeCount < 2 ^ 32)
    (walk : Walk g known (isStuck degrees · = true) back)
    (table : g.predecessors? degrees = some known)
    (first : (List.range g.nodeCount).find? (isStuck degrees) = some v) :
    ∃ least, g.cycleNode? degrees = some least ∧
      Relation.TransGen (g.LeftoverEdge degrees least) least least := by
  have left : isStuck degrees v = true := List.find?_some first
  have word : nodeWord v = v := Nat.mod_eq_of_lt (Nat.lt_trans (walk.node v left) small)
  obtain ⟨entry, turn, met, positive, few, round⟩ := walk.comes_round left
  have inside := walk.iterate left entry
  generalize back^[entry] v = u at met round inside
  obtain ⟨turn, rfl⟩ : ∃ t, turn = t + 1 := ⟨turn - 1, by omega⟩
  obtain ⟨least, count, run, arrives, le, below, found⟩ :=
    @lowestUntil?_spec g known _ _ back (g.nodeCount + 1) turn u u walk (walk.stays u inside) round
      (by omega)
  refine ⟨least, ?_, ?_⟩
  · simp only [cycleNode?, first, table, word, Option.bind_eq_bind, Option.bind_some, met,
      walk.step u inside]
    exact run
  · -- The least node is on the turn from `u` back to `u`, all nodes of which are at least it.
    have turn : Function.IsPeriodicPt back (count + 1) u := arrives
    have bound : ∀ i, least ≤ back^[i] u := by
      intro i
      rw [← turn.iterate_mod_apply]
      have lt : i % (count + 1) < count + 1 := Nat.mod_lt _ (by omega)
      generalize i % (count + 1) = j at lt
      cases j with
      | zero => exact le
      | succ j => exact below j (by omega)
    have edges : ∀ i, g.LeftoverEdge degrees least (back^[i + 1] u) (back^[i] u) := by
      intro i
      refine ⟨?_, ⟨walk.iterate inside _, bound _⟩, walk.iterate inside _, bound _⟩
      rw [Function.iterate_succ_apply']
      exact walk.edge _ (walk.iterate inside i)
    obtain ⟨i, eq⟩ : ∃ i, least = back^[i] u := by
      rcases found with rfl | ⟨i, -, eq⟩
      · exact ⟨0, rfl⟩
      · exact ⟨i + 1, eq⟩
    have cycle := @Walk.cycle u back (count + 1) i _ arrives (Nat.succ_pos count) edges
    rwa [← eq] at cycle

namespace Sorting

variable {k : Kahn}

/-- The nodes that are left over can be walked backwards for ever. -/
lemma exists_walk (inv : Sorting g k.queue.toList [] k) :
    ∃ known back, g.predecessors? k.degrees = some known ∧
      Walk g known (isStuck k.degrees · = true) back := by
  refine Graph.exists_walk (fun u stuck => (inv.isStuck_iff.1 stuck).1) fun v stuck => ?_
  obtain ⟨node, left⟩ := inv.isStuck_iff.1 stuck
  obtain ⟨u, edge, waiting⟩ := inv.exists_stuck node left
  exact ⟨u, edge, inv.isStuck_iff.2 ⟨edge.source, waiting⟩⟩

/-- When the queue has not taken in all nodes there is a first one that is left over. -/
lemma exists_first (inv : Sorting g k.queue.toList [] k) (short : k.queue.size < g.nodeCount) :
    ∃ v, (List.range g.nodeCount).find? (isStuck k.degrees) = some v := by
  obtain ⟨v, node, left⟩ := exists_left short
  refine Option.isSome_iff_exists.1 (List.find?_isSome.2 ⟨v, List.mem_range.2 node, ?_⟩)
  exact inv.isStuck_iff.2 ⟨node, left⟩

/-- A stall is blamed on the least node of a cycle of leftover nodes. -/
lemma stalled (inv : Sorting g k.queue.toList [] k) (small : g.nodeCount < 2 ^ 32)
    (run : g.kahn? = some k) (short : k.queue.size < g.nodeCount) :
    ∃ least, g.topoSort = .error (.cycle k.queue.size g.nodeCount least) ∧
      Relation.TransGen (g.LeftoverEdge k.degrees least) least least := by
  obtain ⟨known, back, table, walk⟩ := inv.exists_walk
  obtain ⟨v, first⟩ := inv.exists_first short
  obtain ⟨least, named, cycle⟩ := cycleNode?_spec small walk table first
  refine ⟨least, ?_, cycle⟩
  simp [topoSort, run, inBounds, short, named, bind, Except.bind]

end Sorting

end LedEffect.Graph
