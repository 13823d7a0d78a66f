import LedEffect.Graph.ShortestPath
import LedEffect.Proofs.Graph.Heap
import LedEffect.Proofs.Graph.Reach
import LedEffect.Proofs.Graph.Weights
import LedEffect.Proofs.Tables

/-!
# Shortest paths

The weights along a walk are added up one after the other from zero (`Graph.Sums`). While the heap is
worked off, the edges of settled nodes offer no improvement, and whatever else has a finite distance is
in the heap (`Nearing`). So the distance of a node is the least sum of a walk to it
(`dijkstraBy_spec`), by whatever operation that suits distances the weights are added
(`Binary64.Accumulates`). When they are added as numbers, the sum is what the walk costs
(`Graph.Costs`), which is infinite when it overflows.
-/

namespace LedEffect

namespace Graph

open Binary64

variable {g : Graph} {sum : Binary64 → Binary64 → Binary64} {source u v edge : Nat} {x w : Binary64}
  {s : Settling} {todo : List Nat}

/-! ## Walks -/

/-- Whether the edge at an index leads from one node to another, and weighs so much. -/
structure Link (g : Graph) (u edge v : Nat) (w : Binary64) : Prop where
  first : g.start u ≤ edge
  last : edge < g.start (u + 1)
  target : (g.edges[edge]?).map UInt32.toNat = some v
  weight : g.weightAt? edge = some w

/-- What the weights along a walk from a source to a node add up to. -/
inductive Sums (g : Graph) (sum : Binary64 → Binary64 → Binary64) (source : Nat) :
    Nat → Binary64 → Prop
  | start : Sums g sum source source .zero
  | step {u edge v : Nat} {x w : Binary64} (walk : Sums g sum source u x) (node : u < g.nodeCount)
      (link : g.Link u edge v w) : Sums g sum source v (sum x w)

/-- What a walk from a source to a node costs. -/
inductive Costs (g : Graph) (source : Nat) : Nat → Binary64 → Prop
  | start : Costs g source source .zero
  | step {u edge v : Nat} {x w : Binary64} (walk : Costs g source u x) (node : u < g.nodeCount)
      (link : g.Link u edge v w) : Costs g source v (x + w)

/-- The row of a node holds the targets of its edges. -/
lemma adjacent_iff_edge (node : u < g.nodeCount) : g.Adjacent u v ↔
    ∃ edge, g.start u ≤ edge ∧ edge < g.start (u + 1) ∧
      (g.edges[edge]?).map UInt32.toNat = some v := by
  rw [Adjacent, row_eq_slice node, List.mem_iff_getElem?]
  simp only [List.getElem?_map, List.getElem?_drop]
  constructor
  · rintro ⟨i, place⟩
    refine ⟨g.start u + i, by omega, ?_, ?_⟩
    · by_contra past
      rw [List.getElem?_take, if_neg past] at place
      cases place
    · rw [List.getElem?_take] at place
      split at place
      · simpa using place
      · cases place
  · rintro ⟨edge, first, last, place⟩
    refine ⟨edge - g.start u, ?_⟩
    rw [Nat.add_sub_cancel' first, List.getElem?_take, if_pos last]
    simpa using place

namespace Link

lemma adjacent (link : g.Link u edge v w) (node : u < g.nodeCount) : g.Adjacent u v :=
  (adjacent_iff_edge node).2 ⟨edge, link.first, link.last, link.target⟩

lemma isWeight (link : g.Link u edge v w) : w.IsWeight := by
  have bound : edge < g.edgeCount := by
    obtain ⟨_, place, -⟩ := Option.map_eq_some_iff.1 link.target
    exact (Array.getElem?_eq_some_iff.1 place).1
  obtain ⟨w', weight, isWeight⟩ := exists_weightAt? bound
  rwa [Option.some_inj.1 (link.weight.symm.trans weight)]

/-- Every edge that leaves a node has a target and a weight. -/
lemma exists_of_range (node : u < g.nodeCount) (first : g.start u ≤ edge)
    (last : edge < g.start (u + 1)) : ∃ v w, g.Link u edge v w := by
  have bound : edge < g.edgeCount := last.trans_le (start_le_edgeCount node)
  obtain ⟨w, weight, -⟩ := exists_weightAt? bound
  exact ⟨_, w, first, last, by rw [Array.getElem?_eq_getElem bound, Option.map_some], weight⟩

end Link

namespace Sums

lemma isDistance (adds : Accumulates sum) (walk : g.Sums sum source v x) : x.IsDistance := by
  induction walk with
  | start => exact isDistance_zero
  | step _ _ link ih => exact adds.isDistance ih link.isWeight

lemma target (walk : g.Sums sum source v x) (node : source < g.nodeCount) : v < g.nodeCount := by
  cases walk with
  | start => exact node
  | step _ inside link => exact (link.adjacent inside).target

/-- The nodes with a walk to them are those the source reaches. -/
lemma exists_iff : (∃ x, g.Sums sum source v x) ↔ g.Reaches source v := by
  constructor
  · rintro ⟨x, walk⟩
    induction walk with
    | start => exact .refl
    | step _ node link ih => exact ih.tail (link.adjacent node)
  · intro path
    induction path with
    | refl => exact ⟨_, .start⟩
    | tail _ adjacent ih =>
      obtain ⟨x, walk⟩ := ih
      obtain ⟨edge, first, last, target⟩ := (adjacent_iff_edge adjacent.source).1 adjacent
      obtain ⟨v', w, link⟩ := Link.exists_of_range adjacent.source first last
      obtain rfl := Option.some_inj.1 (target.symm.trans link.target)
      exact ⟨sum x w, walk.step adjacent.source link⟩

end Sums

/-- A walk costs what its weights add up to as numbers. -/
lemma costs_iff : g.Costs source v x ↔ g.Sums (· + ·) source v x := by
  constructor
  · intro walk
    induction walk with
    | start => exact .start
    | step _ node link ih => exact ih.step node link
  · intro walk
    induction walk with
    | start => exact .start
    | step _ node link ih => exact ih.step node link

lemma Costs.isDistance (walk : g.Costs source v x) : x.IsDistance :=
  (costs_iff.1 walk).isDistance .add

lemma Costs.exists_iff : (∃ x, g.Costs source v x) ↔ g.Reaches source v := by
  simp only [costs_iff, Sums.exists_iff]

/-! ## The invariant -/

/-- The distance of a node so far. -/
def Settling.distance (s : Settling) (v : Nat) : Binary64 := s.distances.getD v (infinite false)

/-- Whether the edges of a node have been or are being relaxed. -/
def Settling.Settled (s : Settling) (v : Nat) : Prop := s.settled[v]? = some true

/-- The state in which a node has got a distance that is entered in the heap. -/
def Settling.enter (s : Settling) (x : Binary64) (v : Nat) : Settling :=
  { s with distances := s.distances.set! v x, heap := s.heap.insert ⟨x, v⟩ }

lemma Settling.distance_enter (bound : v < s.distances.size) (a : Nat) :
    (s.enter x v).distance a = if a = v then x else s.distance a := by
  simp only [enter, distance, Array.getD_eq_getD_getElem?, Array.set!_eq_setIfInBounds,
    Array.getElem?_setIfInBounds]
  rcases eq_or_ne a v with rfl | differ
  · simp [bound]
  · simp [differ, differ.symm]

/-- A node that is no farther than the new distance keeps its own. -/
lemma Settling.distance_enter_of_le (bound : v < s.distances.size)
    (less : x.rank < (s.distance v).rank) {a : Nat} (le : (s.distance a).rank ≤ x.rank) :
    (s.enter x v).distance a = s.distance a := by
  rw [distance_enter bound, if_neg]
  rintro rfl
  exact absurd le less.not_ge

/-- The state in which a node is settled that came out of the heap. -/
def Settling.settle (s : Settling) (v : Nat) (rest : Heap) : Settling :=
  ⟨s.distances, s.settled.set! v true, rest⟩

@[simp] lemma Settling.distance_settle (s : Settling) (v : Nat) (rest : Heap) (a : Nat) :
    (s.settle v rest).distance a = s.distance a := rfl

/-- The state before any node has a distance. -/
def Settling.blank (g : Graph) : Settling :=
  ⟨Array.replicate g.nodeCount (infinite false), Array.replicate g.nodeCount false, .leaf⟩

lemma Settling.distance_blank (v : Nat) : (blank g).distance v = infinite false := by
  rw [distance, blank, Array.getD_eq_getD_getElem?, Array.getElem?_replicate]
  split <;> rfl

/-- What holds when only the edges `todo` of the node `u` are still to be relaxed among those of the
settled nodes. -/
structure Nearing (g : Graph) (sum : Binary64 → Binary64 → Binary64) (source u : Nat)
    (todo : List Nat) (s : Settling) : Prop where
  size : s.distances.size = g.nodeCount
  marks : s.settled.size = g.nodeCount
  ordered : s.heap.Ordered
  origin : (s.distance source).rank ≤ Binary64.zero.rank
  sound : ∀ v, s.distance v = infinite false ∨ g.Sums sum source v (s.distance v)
  entered : ∀ e ∈ s.heap.entries, g.Sums sum source e.node e.distance ∧
    (s.distance e.node).rank ≤ e.distance.rank
  waiting : ∀ v, s.settled[v]? = some false → s.distance v ≠ infinite false →
    ⟨s.distance v, v⟩ ∈ s.heap.entries
  level : ∀ a, s.Settled a → ∀ e ∈ s.heap.entries, (s.distance a).rank ≤ e.distance.rank
  relaxed : ∀ a, s.Settled a → ∀ edge v w, g.Link a edge v w →
    (a = u ∧ edge ∈ todo) ∨ (s.distance v).rank ≤ (sum (s.distance a) w).rank

namespace Nearing

lemma isDistance (adds : Accumulates sum) (inv : Nearing g sum source u todo s) (v : Nat) :
    (s.distance v).IsDistance := by
  rcases inv.sound v with past | walk
  · rw [past]
    exact isDistance_infinite
  · exact walk.isDistance adds

/-- A node gets a lesser distance, which is still beyond those of the settled nodes. -/
lemma enter (inv : Nearing g sum source u todo s) (node : v < g.nodeCount)
    (walk : g.Sums sum source v x) (less : x.rank < (s.distance v).rank)
    (beyond : ∀ a, s.Settled a → (s.distance a).rank ≤ x.rank) :
    Nearing g sum source u todo (s.enter x v) := by
  have bound : v < s.distances.size := inv.size ▸ node
  have distance := Settling.distance_enter (s := s) (x := x) bound
  have falls : ∀ a, ((s.enter x v).distance a).rank ≤ (s.distance a).rank := by
    intro a
    rw [distance]
    split
    next same => exact same ▸ less.le
    next => exact le_rfl
  -- A settled node is not the one that gets a lesser distance.
  have kept : ∀ a, s.Settled a → (s.enter x v).distance a = s.distance a := fun a settled =>
    Settling.distance_enter_of_le bound less (beyond a settled)
  have entries : (s.enter x v).heap.entries = ⟨x, v⟩ ::ₘ s.heap.entries := Heap.entries_insert _ _
  refine
    { size := by simpa [Settling.enter] using inv.size
      marks := inv.marks
      ordered := inv.ordered.insert _
      origin := (falls source).trans inv.origin
      sound := ?sound, entered := ?entered, waiting := ?waiting, level := ?level
      relaxed := ?relaxed }
  case sound =>
    intro a
    rw [distance]
    split
    next same => exact .inr (same ▸ walk)
    next => exact inv.sound a
  case entered =>
    intro e mem
    rw [entries] at mem
    rcases Multiset.mem_cons.1 mem with rfl | mem
    · exact ⟨walk, by rw [distance, if_pos rfl]⟩
    · obtain ⟨walk', le⟩ := inv.entered e mem
      exact ⟨walk', (falls _).trans le⟩
  case waiting =>
    intro a fresh finite
    rw [entries]
    rw [distance] at finite ⊢
    split
    next same => exact same ▸ Multiset.mem_cons_self _ _
    next differ =>
      rw [if_neg differ] at finite
      exact Multiset.mem_cons_of_mem (inv.waiting a fresh finite)
  case level =>
    intro a settled e mem
    rw [kept a settled]
    rw [entries] at mem
    rcases Multiset.mem_cons.1 mem with rfl | mem
    · exact beyond a settled
    · exact inv.level a settled e mem
  case relaxed =>
    intro a settled edge b w link
    rw [kept a settled]
    exact (inv.relaxed a settled edge b w link).imp_right (falls b).trans

/-- An edge that offers no improvement is done with. -/
lemma tick (inv : Nearing g sum source u (edge :: todo) s) (link : g.Link u edge v w)
    (done : (s.distance v).rank ≤ (sum (s.distance u) w).rank) : Nearing g sum source u todo s := by
  refine { inv with relaxed := fun a settled edge' v' w' link' => ?_ }
  rcases inv.relaxed a settled edge' v' w' link' with ⟨same, mem⟩ | le
  · rcases List.mem_cons.1 mem with rfl | mem
    · obtain rfl := Option.some_inj.1 (link.target.symm.trans link'.target)
      obtain rfl := Option.some_inj.1 (link.weight.symm.trans link'.weight)
      exact .inr (same ▸ done)
    · exact .inl ⟨same, mem⟩
  · exact .inr le

/-- The target of an edge is offered the distance by way of the edge. -/
lemma relax (adds : Accumulates sum) (inv : Nearing g sum source u (edge :: todo) s)
    (node : u < g.nodeCount)
    (settled : s.Settled u) (walk : g.Sums sum source u (s.distance u))
    (farthest : ∀ a, s.Settled a → (s.distance a).rank ≤ (s.distance u).rank)
    (link : g.Link u edge v w) :
    ∃ s', s.relax? g sum (s.distance u) edge = some s' ∧ Nearing g sum source u todo s' ∧
      s'.settled = s.settled ∧ (∀ a, s.Settled a → s'.distance a = s.distance a) ∧
      s'.heap.size ≤ s.heap.size + 1 := by
  have target : v < g.nodeCount := (link.adjacent node).target
  have bound : v < s.distances.size := inv.size ▸ target
  have known : s.distances[v]? = some (s.distance v) := by
    simp [Settling.distance, bound]
  have offers : s.relax? g sum (s.distance u) edge =
      if (sum (s.distance u) w).lt (s.distance v) then some (s.enter (sum (s.distance u) w) v)
      else some s := by
    rw [Settling.relax?, link.target, link.weight]
    simp only [Option.bind_eq_bind, Option.bind_some, known]
    rfl
  have longer := walk.step node link
  have better := (longer.isDistance adds).lt_iff (inv.isDistance adds v)
  have more : (s.distance u).rank ≤ (sum (s.distance u) w).rank :=
    adds.rank_le_sum (inv.isDistance adds u) link.isWeight
  rw [offers]
  split
  next less =>
    have less := better.1 less
    have beyond := fun a settled => (farthest a settled).trans more
    have kept : ∀ a, s.Settled a →
        (s.enter (sum (s.distance u) w) v).distance a = s.distance a := fun a settled =>
      Settling.distance_enter_of_le bound less (beyond a settled)
    refine ⟨_, rfl, (inv.enter target longer less beyond).tick link ?_, rfl, kept, ?_⟩
    · rw [kept u settled, Settling.distance_enter bound, if_pos rfl]
    · rw [Settling.enter, ← Heap.card_entries, Heap.entries_insert, Multiset.card_cons,
        Heap.card_entries]
  next notLess =>
    refine ⟨s, rfl, inv.tick link (not_lt.1 fun less => notLess (better.2 less)), rfl,
      fun _ _ => rfl, Nat.le_succ _⟩

/-- The edges that are left to a settled node are relaxed one after the other. -/
lemma relaxAll (adds : Accumulates sum) (inv : Nearing g sum source u todo s)
    (node : u < g.nodeCount)
    (settled : s.Settled u) (walk : g.Sums sum source u (s.distance u))
    (farthest : ∀ a, s.Settled a → (s.distance a).rank ≤ (s.distance u).rank)
    (range : ∀ edge ∈ todo, g.start u ≤ edge ∧ edge < g.start (u + 1)) :
    ∃ s', todo.foldlM (Settling.relax? g sum (s.distance u)) s = some s' ∧
      Nearing g sum source u [] s' ∧ s'.settled = s.settled ∧
      s'.heap.size ≤ s.heap.size + todo.length := by
  induction todo generalizing s with
  | nil => exact ⟨s, rfl, inv, rfl, le_rfl⟩
  | cons edge todo ih =>
    obtain ⟨⟨first, last⟩, range⟩ := List.forall_mem_cons.1 range
    obtain ⟨v, w, link⟩ := Link.exists_of_range node first last
    obtain ⟨s', run, inv', marks, kept, grown⟩ := inv.relax adds node settled walk farthest link
    have same : ∀ a, s'.Settled a ↔ s.Settled a := fun a => by
      rw [Settling.Settled, marks, Settling.Settled]
    obtain ⟨s'', rest, final, marks', grown'⟩ := ih inv' ((same u).2 settled)
      (by rwa [kept u settled]) (fun a settled' => by
        rw [kept u settled, kept a ((same a).1 settled')]
        exact farthest a ((same a).1 settled')) range
    refine ⟨s'', ?_, final, marks'.trans marks, ?_⟩
    · rw [List.foldlM_cons, run]
      rwa [kept u settled] at rest
    · rw [List.length_cons]
      omega

variable {entry : Tentative} {rest : Heap}

/-- The entry of a node that was settled before is discarded. -/
lemma discard (inv : Nearing g sum source u [] s) (popped : s.heap.pop? = some (entry, rest))
    (old : s.Settled entry.node) : Nearing g sum source u [] { s with heap := rest } := by
  obtain ⟨entries, ordered, -⟩ := inv.ordered.pop popped
  obtain ⟨-, sub⟩ := inv.ordered.mem_of_pop popped
  refine { inv with
    ordered := ordered
    entered := fun e mem => inv.entered e (sub e mem)
    waiting := fun v fresh finite => ?_
    level := fun a settled e mem => inv.level a settled e (sub e mem) }
  have mem := inv.waiting v fresh finite
  rw [entries] at mem
  refine (Multiset.mem_cons.1 mem).resolve_left ?_
  rintro rfl
  exact absurd (old.symm.trans fresh) (by simp)

/-- The distance in the nearest entry of a node is the one the node has. -/
lemma distance_entry (adds : Accumulates sum) (inv : Nearing g sum source u [] s)
    (popped : s.heap.pop? = some (entry, rest)) (fresh : s.settled[entry.node]? = some false) :
    s.distance entry.node = entry.distance := by
  obtain ⟨entries, -, near⟩ := inv.ordered.pop popped
  obtain ⟨walk, le⟩ := inv.entered entry (inv.ordered.mem_of_pop popped).1
  have entered := walk.isDistance adds
  refine (inv.isDistance adds _).rank_inj entered (le.antisymm ?_)
  by_cases finite : s.distance entry.node = infinite false
  · rw [finite]
    exact entered.rank_le
  · have mem := inv.waiting entry.node fresh finite
    rw [entries] at mem
    rcases Multiset.mem_cons.1 mem with same | mem
    · exact (congrArg (·.distance.rank) same).ge
    · exact near _ mem

/-- The node of the nearest entry is settled, and its edges are to be relaxed. -/
lemma settle (adds : Accumulates sum) (inv : Nearing g sum source u [] s)
    (popped : s.heap.pop? = some (entry, rest)) (fresh : s.settled[entry.node]? = some false) :
    Nearing g sum source entry.node
      (List.range' (g.start entry.node) (g.start (entry.node + 1) - g.start entry.node))
      (s.settle entry.node rest) ∧
    ∀ a, (s.settle entry.node rest).Settled a →
      (s.distance a).rank ≤ (s.distance entry.node).rank := by
  obtain ⟨entries, ordered, near⟩ := inv.ordered.pop popped
  have own := inv.distance_entry adds popped fresh
  obtain ⟨mem, sub⟩ := inv.ordered.mem_of_pop popped
  have bound : entry.node < s.settled.size := (Array.getElem?_eq_some_iff.1 fresh).1
  have settled : ∀ a, (s.settle entry.node rest).Settled a ↔ a = entry.node ∨ s.Settled a :=
    fun a => getElem?_set!_eq_some bound
  refine ⟨
    { size := inv.size
      marks := by simpa [Settling.settle] using inv.marks
      ordered := ordered
      origin := inv.origin
      sound := inv.sound
      entered := fun e mem => inv.entered e (sub e mem)
      waiting := ?waiting, level := ?level, relaxed := ?relaxed }, ?farthest⟩
  case waiting =>
    intro v unsettled finite
    have differ : v ≠ entry.node := by
      rintro rfl
      exact absurd (((settled entry.node).2 (.inl rfl)).symm.trans unsettled) (by simp)
    have before : s.settled[v]? = some false := by
      simpa [Settling.settle, differ.symm] using unsettled
    have waits := inv.waiting v before finite
    rw [entries] at waits
    exact (Multiset.mem_cons.1 waits).resolve_left fun same => differ (congrArg (·.node) same)
  case level =>
    intro a done e mem
    rw [Settling.distance_settle]
    rcases (settled a).1 done with rfl | old
    · rw [own]
      exact near e mem
    · exact inv.level a old e (sub e mem)
  case relaxed =>
    intro a done edge v w link
    rcases (settled a).1 done with rfl | old
    · refine .inl ⟨rfl, List.mem_range'_1.2 ⟨link.first, ?_⟩⟩
      have last := link.last
      have first := link.first
      omega
    · exact .inr ((inv.relaxed a old edge v w link).resolve_left fun left =>
        List.not_mem_nil left.2)
  case farthest =>
    intro a done
    rw [own]
    rcases (settled a).1 done with rfl | old
    · rw [own]
    · exact inv.level a old entry mem

/-- An empty list of edges is left to any node. -/
lemma rename (inv : Nearing g sum source u [] s) (b : Nat) : Nearing g sum source b [] s := by
  refine { inv with relaxed := fun a settled edge v w link => .inr ?_ }
  exact (inv.relaxed a settled edge v w link).resolve_left fun left => List.not_mem_nil left.2

/-- The heap is worked off within as many steps as it has entries and unsettled nodes have edges. -/
lemma run {fuel : Nat} (adds : Accumulates sum) (inv : Nearing g sum source u [] s)
    (node : source < g.nodeCount) (enough : s.heap.size + g.pending s.settled ≤ fuel) :
    ∃ s', g.settle? sum fuel s = some s'.distances ∧ Nearing g sum source u [] s' ∧
      s'.heap.entries = 0 := by
  induction fuel generalizing s with
  | zero =>
    have empty : s.heap.entries = 0 := Multiset.card_eq_zero.1 (by
      rw [Heap.card_entries]
      omega)
    refine ⟨s, ?_, inv, empty⟩
    rw [settle?, (Heap.pop?_eq_none _).2 empty]
  | succ fuel ih =>
    rw [settle?]
    cases popped : s.heap.pop? with
    | none => exact ⟨s, rfl, inv, (Heap.pop?_eq_none _).1 popped⟩
    | some result =>
      obtain ⟨entry, rest⟩ := result
      obtain ⟨entries, -, -⟩ := inv.ordered.pop popped
      have fewer : s.heap.size = rest.size + 1 := by
        rw [← Heap.card_entries, entries, Multiset.card_cons, Heap.card_entries]
      obtain ⟨walk, -⟩ := inv.entered entry (inv.ordered.mem_of_pop popped).1
      have inside : entry.node < g.nodeCount := walk.target node
      have bound : entry.node < s.settled.size := inv.marks ▸ inside
      have mark : s.settled[entry.node]? = some s.settled[entry.node] :=
        Array.getElem?_eq_getElem bound
      cases old : s.settled[entry.node] with
      | true =>
        rw [old] at mark
        obtain ⟨s', more, final⟩ := ih (inv.discard popped mark) (by
          dsimp only
          omega)
        refine ⟨s', ?_, final⟩
        simpa [mark] using more
      | false =>
        rw [old] at mark
        have own := inv.distance_entry adds popped mark
        obtain ⟨inv', farthest⟩ := inv.settle adds popped mark
        have first : g.start entry.node ≤ g.start (entry.node + 1) :=
          start_mono inside (Nat.le_succ _)
        obtain ⟨s', relaxed, inv'', marks, grown⟩ := inv'.relaxAll adds inside
          ((getElem?_set!_eq_some bound).2 (.inl rfl))
          (by rwa [Settling.distance_settle, own]) farthest fun edge mem => by
            have range := List.mem_range'_1.1 mem
            omega
        rw [Settling.distance_settle, own] at relaxed
        have handed := pending_mark inside mark
        rw [length_row inside] at handed
        simp only [List.length_range', Settling.settle] at grown marks
        obtain ⟨s'', more, final⟩ := ih (inv''.rename u) (by
          rw [marks]
          omega)
        refine ⟨s'', ?_, final⟩
        simp only [mark, edgeRange?_eq inside, Option.bind_eq_bind, Option.bind_some]
        rw [Settling.settle] at relaxed
        simp only [Bool.false_eq_true, if_false, relaxed, Option.bind_some]
        exact more

/-- The distances that are left when the heap is empty are least costs. -/
lemma least (adds : Accumulates sum) (inv : Nearing g sum source u [] s)
    (empty : s.heap.entries = 0) (walk : g.Sums sum source v x) : (s.distance v).rank ≤ x.rank := by
  induction walk with
  | start => exact inv.origin
  | @step a edge b y w walk node link ih =>
    have near := inv.isDistance adds a
    refine le_trans ?_ (adds.rank_mono near (walk.isDistance adds) link.isWeight ih)
    by_cases finite : s.distance a = infinite false
    · -- What is added to infinity leaves it as it is.
      calc (s.distance b).rank ≤ (infinite false).rank := (inv.isDistance adds b).rank_le
        _ = (s.distance a).rank := by rw [finite]
        _ ≤ (sum (s.distance a) w).rank := adds.rank_le_sum near link.isWeight
    · -- A node with a finite distance that is not settled would be in the heap.
      have bound : a < s.settled.size := inv.marks ▸ node
      have mark : s.settled[a]? = some s.settled[a] := Array.getElem?_eq_getElem bound
      have settled : s.Settled a := by
        cases old : s.settled[a] with
        | true => rw [Settling.Settled, mark, old]
        | false =>
          have mem := inv.waiting a (mark.trans (congrArg some old)) finite
          rw [empty] at mem
          exact absurd mem (Multiset.notMem_zero _)
      exact (inv.relaxed a settled edge b w link).resolve_left fun left =>
        List.not_mem_nil left.2

/-- The search starts with the source alone in the heap. -/
lemma initial (node : source < g.nodeCount) :
    Nearing g sum source source [] ((Settling.blank g).enter .zero source) := by
  have distance : ∀ v, ((Settling.blank g).enter .zero source).distance v =
      if v = source then .zero else infinite false := by
    intro v
    have bound : source < (Settling.blank g).distances.size := by simpa [Settling.blank] using node
    rw [Settling.distance_enter bound, Settling.distance_blank]
  have entries : ((Settling.blank g).enter .zero source).heap.entries = {⟨.zero, source⟩} :=
    Heap.entries_insert _ _
  have none : ∀ v, ¬((Settling.blank g).enter .zero source).Settled v := by
    intro v settled
    rw [Settling.Settled, Settling.enter, Settling.blank, Array.getElem?_replicate] at settled
    split at settled <;> cases settled
  refine ⟨by simp [Settling.enter, Settling.blank], by simp [Settling.enter, Settling.blank],
    Heap.Ordered.leaf.insert _, ?_, fun v => ?_, fun e mem => ?_, fun v _ finite => ?_,
    fun v settled => absurd settled (none v), fun v settled => absurd settled (none v)⟩
  · rw [distance, if_pos rfl]
  · rw [distance]
    split
    next same => exact .inr (same ▸ .start)
    next => exact .inl rfl
  · rw [entries, Multiset.mem_singleton] at mem
    subst mem
    exact ⟨.start, by rw [distance, if_pos rfl]⟩
  · rw [distance] at finite ⊢
    rw [entries, Multiset.mem_singleton]
    split at finite
    next same => rw [if_pos same, same]
    next => exact absurd rfl finite

end Nearing

/-- The distance of every node is the least sum of a walk from the source to it, and infinity if there
is none. -/
theorem dijkstraBy_spec (adds : Accumulates sum) (node : source < g.nodeCount) :
    ∃ distances, g.dijkstraBy sum source = .ok distances ∧ distances.size = g.nodeCount ∧
      ∀ v < g.nodeCount, ∃ d, distances[v]? = some d ∧
        (d = infinite false ∨ g.Sums sum source v d) ∧
        ∀ x, g.Sums sum source v x → d.rank ≤ x.rank := by
  have enough : ((Settling.blank g).enter .zero source).heap.size +
      g.pending ((Settling.blank g).enter .zero source).settled ≤ g.edgeCount + 1 := by
    rw [← Heap.card_entries]
    simp only [Settling.enter, Settling.blank, Heap.entries_insert, pending_blank, Heap.entries]
    rw [Multiset.card_cons, Multiset.card_zero, Nat.add_comm]
  obtain ⟨s, run, inv, empty⟩ := (Nearing.initial node).run adds node enough
  rw [Settling.enter, Settling.blank] at run
  refine ⟨s.distances, ?_, inv.size, fun v small => ⟨s.distance v, ?_, inv.sound v, fun x walk =>
    inv.least adds empty walk⟩⟩
  · rw [dijkstraBy, checkSource, if_pos node, distances?, if_pos node, run]
    rfl
  · have bound : v < s.distances.size := inv.size ▸ small
    simp [Settling.distance, bound]

/-- The distance of every node is the least cost of a walk from the source to it, and infinity if there
is none. -/
theorem dijkstra_spec (node : source < g.nodeCount) :
    ∃ distances, g.dijkstra source = .ok distances ∧ distances.size = g.nodeCount ∧
      ∀ v < g.nodeCount, ∃ d, distances[v]? = some d ∧
        (d = infinite false ∨ g.Costs source v d) ∧
        ∀ x, g.Costs source v x → d.rank ≤ x.rank := by
  simp only [costs_iff]
  exact dijkstraBy_spec .add node

end Graph

end LedEffect
