import LedEffect.Proofs.Graph.Hops
import LedEffect.Proofs.Graph.ShortestPath

/-!
# Optimality of shortest paths

By whatever operation that suits distances the weights are added, the distance of a node is the least
sum of a walk to it (`dijkstra_optimal`), infinite when no walk has a finite sum. Where every edge weighs
one, a walk of so many edges adds up to so many ones (`sums_iff_hops`), and the least sum is the one of
the walk with the least number of edges.
-/

namespace LedEffect

open Binary64

namespace Graph

variable {g : Graph} {sum : Binary64 → Binary64 → Binary64} {source u v edge : Nat} {x w : Binary64}

/-- Whether every edge weighs one: the graph has no weights, or they are all one. -/
def AllOnes (g : Graph) : Prop := ∀ weights, g.weights = some weights → ∀ w ∈ weights.toList, w = 1

lemma AllOnes.weightAt? (ones : g.AllOnes) (bound : edge < g.edgeCount) : g.weightAt? edge = some 1 := by
  unfold Graph.weightAt?
  cases eq : g.weights with
  | none => rfl
  | some weights =>
    obtain ⟨size, -⟩ := weights_sound eq
    have small : edge < weights.size := size ▸ bound
    have mem : weights[edge] ∈ weights.toList := Array.getElem_mem_toList small
    change weights[edge]? = some 1
    rw [Array.getElem?_eq_getElem small, ones weights eq _ mem]

/-- Where every edge weighs one, a walk adds up to as many ones as it has edges. -/
lemma sums_iff_hops (ones : g.AllOnes) :
    g.Sums sum source v x ↔ ∃ k, Hops g source v k ∧ (sum · 1)^[k] zero = x := by
  constructor
  · intro walk
    induction walk with
    | start => exact ⟨0, .start, rfl⟩
    | step _ node link ih =>
      obtain ⟨k, hops, rfl⟩ := ih
      have weight := ones.weightAt? (link.last.trans_le (start_le_edgeCount node))
      obtain rfl := Option.some_inj.1 (weight.symm.trans link.weight)
      exact ⟨k + 1, hops.step (link.adjacent node), Function.iterate_succ_apply' ..⟩
  · rintro ⟨k, hops, rfl⟩
    induction hops with
    | start => exact .start
    | step _ edge ih =>
      obtain ⟨e, first, last, target⟩ := (adjacent_iff_edge edge.source).1 edge
      have weight := ones.weightAt? (last.trans_le (start_le_edgeCount edge.source))
      rw [Function.iterate_succ_apply']
      exact ih.step edge.source ⟨first, last, target, weight⟩

/-! ## Least sums -/

/-- Whether a number is what the search leaves as the distance of a node: no sum of a walk to the node is
less, and it is one of them if it is not infinite. -/
structure LeastSum (g : Graph) (sum : Binary64 → Binary64 → Binary64) (source v : Nat) (d : Binary64) :
    Prop where
  reached : d = infinite false ∨ g.Sums sum source v d
  below : ∀ x, g.Sums sum source v x → d.rank ≤ x.rank

namespace LeastSum

variable {d : Binary64} {h : Nat}

lemma isDistance (least : g.LeastSum sum source v d) (adds : Accumulates sum) : d.IsDistance := by
  rcases least.reached with rfl | walk
  · exact isDistance_infinite
  · exact walk.isDistance adds

lemma le (least : g.LeastSum sum source v d) (adds : Accumulates sum) (walk : g.Sums sum source v x) :
    d.le x :=
  ((least.isDistance adds).le_iff (walk.isDistance adds)).2 (least.below x walk)

/-- The least sum is infinite when all are. -/
lemma eq_infinite_iff (least : g.LeastSum sum source v d) (adds : Accumulates sum) :
    d = infinite false ↔ ∀ x, g.Sums sum source v x → x.isFinite = false := by
  constructor
  · rintro rfl x walk
    have distance := walk.isDistance adds
    exact distance.isFinite_eq_false.2
      (distance.rank_inj isDistance_infinite (distance.rank_le.antisymm (least.below x walk)))
  · intro all
    exact least.reached.elim id fun walk =>
      (least.isDistance adds).isFinite_eq_false.1 (all d walk)

/-- Where there is a walk the least sum is that of one. -/
lemma attained (least : g.LeastSum sum source v d) (adds : Accumulates sum)
    (walk : g.Sums sum source v x) : g.Sums sum source v d := by
  rcases least.reached with past | walk'
  · have overflow := (least.eq_infinite_iff adds).1 past x walk
    rwa [past, ← (walk.isDistance adds).isFinite_eq_false.1 overflow]
  · exact walk'

/-- Where every edge weighs one the least sum is that of a walk with the fewest edges. -/
lemma eq_ones (least : g.LeastSum sum source v d) (adds : Accumulates sum) (ones : g.AllOnes)
    (fewest : IsLeast {k | Hops g source v k} h) : d = (sum · 1)^[h] zero := by
  have walk : g.Sums sum source v ((sum · 1)^[h] zero) := (sums_iff_hops ones).2 ⟨h, fewest.1, rfl⟩
  obtain ⟨k, path, same⟩ := (sums_iff_hops ones).1 (least.attained adds walk)
  refine (least.isDistance adds).rank_inj (adds.isDistance_ones h) ?_
  apply (least.below _ walk).antisymm
  rw [← same]
  exact adds.rank_ones_le (fewest.2 path)

/-- Where every edge weighs one and no walk leads to the node there is no sum. -/
lemma eq_infinite (least : g.LeastSum sum source v d) (adds : Accumulates sum) (ones : g.AllOnes)
    (none : ∀ k, ¬ Hops g source v k) : d = infinite false := by
  refine (least.eq_infinite_iff adds).2 fun x walk => ?_
  obtain ⟨k, path, -⟩ := (sums_iff_hops ones).1 walk
  exact absurd path (none k)

end LeastSum

/-- By whatever operation that suits distances the weights are added, the distance of a node is the least
sum of a walk to it from the source, and infinite when no walk has a finite sum. Where every edge weighs
one it is the sum of as many ones as breadth-first search counts hops. The addition of numbers is such an
operation and the one the search uses, and by it ones add up to their number. -/
theorem dijkstra_optimal (node : source < g.nodeCount) :
    (∀ sum, Accumulates sum → ∃ distances, g.dijkstraBy sum source = .ok distances ∧
      distances.size = g.nodeCount ∧ ∀ v < g.nodeCount, ∃ d, distances[v]? = some d ∧
        ((∃ x, g.Sums sum source v x) → g.Sums sum source v d) ∧
        (∀ x, g.Sums sum source v x → d.le x) ∧
        (d = infinite false ↔ ∀ x, g.Sums sum source v x → x.isFinite = false) ∧
        ∀ hops h, g.AllOnes → g.bfs source = .ok hops → hops[v]? = some h →
          d = if h = unreachable then infinite false else (sum · 1)^[h] zero) ∧
    Accumulates (· + ·) ∧ g.dijkstra source = g.dijkstraBy (· + ·) source ∧
    ∀ h ≤ 2 ^ 53, (· + 1)^[h] zero = ofNat h := by
  refine ⟨fun sum adds => ?_, .add, rfl, fun h => iterate_add_one⟩
  obtain ⟨distances, run, size, spec⟩ := dijkstraBy_spec adds node
  refine ⟨distances, run, size, fun v inside => ?_⟩
  obtain ⟨d, d_eq, reached, below⟩ := spec v inside
  have least : g.LeastSum sum source v d := ⟨reached, below⟩
  refine ⟨d, d_eq, fun ⟨x, walk⟩ => least.attained adds walk, fun x walk => least.le adds walk,
    least.eq_infinite_iff adds, fun hops h ones counts h_eq => ?_⟩
  obtain ⟨h', h'_eq, far, near⟩ := least_of_bfs counts inside
  obtain rfl := Option.some_inj.1 (h'_eq.symm.trans h_eq)
  split
  next sentinel => exact least.eq_infinite adds ones (far.1 sentinel)
  next reached => exact least.eq_ones adds ones (near reached)

/-- Parallel edges, a cycle, an edge that weighs nothing and a node apart; a graph without weights. -/
theorem dijkstra_optimal_parallel :
    (∃ g, ofRows true #[0, 2, 3, 5, 5, 5] #[1, 1, 2, 1, 3] (some #[4, 1, 0, 0.5, 2]) = .ok g ∧
      0 < g.nodeCount ∧ g.dijkstra 0 = .ok #[0, 1, 1, 3, infinite false] ∧
      g.Sums (· + ·) 0 3 3 ∧ (∀ x, g.Sums (· + ·) 0 3 x → (3 : Binary64).le x) ∧
      ∀ x, g.Sums (· + ·) 0 4 x → x.isFinite = false) ∧
    ∃ g, ofRows true #[0, 2, 3, 4, 4, 4] #[1, 2, 3, 3] none = .ok g ∧ 0 < g.nodeCount ∧ g.AllOnes ∧
      ∃ distances, g.dijkstra 0 = .ok distances ∧ g.bfs 0 = .ok #[0, 1, 1, 2, unreachable] ∧
        distances[3]? = some ((· + 1)^[2] zero) ∧ distances[4]? = some (infinite false) := by
  constructor
  · obtain ⟨g, rows, seen⟩ := exists_of_any
      (x := ofRows true #[0, 2, 3, 5, 5, 5] #[1, 1, 2, 1, 3] (some #[4, 1, 0, 0.5, 2]))
      (p := fun g => g.nodeCount = 5 &&
        (g.dijkstra 0).toOption.any (· = #[0, 1, 1, 3, infinite false]))
      (by decide +kernel)
    rw [Bool.and_eq_true, decide_eq_true_iff] at seen
    obtain ⟨nodes, seen⟩ := seen
    obtain ⟨distances', run', same⟩ := exists_of_any seen
    obtain rfl := of_decide_eq_true same
    have node : 0 < g.nodeCount := by omega
    obtain ⟨optimal, adds, searches, -⟩ := dijkstra_optimal node
    obtain ⟨distances, run, -, spec⟩ := optimal (· + ·) adds
    obtain rfl := Except.ok.inj (run'.symm.trans (searches.trans run))
    obtain ⟨near, near_eq, least, lower, finite, -⟩ := spec 3 (by omega)
    obtain rfl : 3 = near := by simpa using near_eq
    obtain ⟨far, far_eq, -, -, past, -⟩ := spec 4 (by omega)
    obtain rfl : infinite false = far := by simpa using far_eq
    refine ⟨g, rows, node, run', least ?_, lower, past.1 rfl⟩
    by_contra none
    exact absurd (finite.2 fun x walk => absurd ⟨x, walk⟩ none) (by decide +kernel)
  · obtain ⟨g, rows, seen⟩ := exists_of_any
      (x := ofRows true #[0, 2, 3, 4, 4, 4] #[1, 2, 3, 3] none)
      (p := fun g => g.nodeCount = 5 && g.weights.isNone &&
        (g.bfs 0).toOption.any (· == #[0, 1, 1, 2, unreachable]))
      (by decide +kernel)
    rw [Bool.and_eq_true, Bool.and_eq_true, decide_eq_true_iff] at seen
    obtain ⟨⟨nodes, plain⟩, seen⟩ := seen
    obtain ⟨hops, counts, same⟩ := exists_of_any seen
    obtain rfl := eq_of_beq same
    have node : 0 < g.nodeCount := by omega
    have ones : g.AllOnes := by
      intro weights eq
      rw [eq] at plain
      cases plain
    obtain ⟨optimal, adds, searches, -⟩ := dijkstra_optimal node
    obtain ⟨distances, run, -, spec⟩ := optimal (· + ·) adds
    obtain ⟨near, near_eq, -, -, -, near_ones⟩ := spec 3 (by omega)
    obtain ⟨far, far_eq, -, -, -, far_ones⟩ := spec 4 (by omega)
    refine ⟨g, rows, node, ones, distances, searches.trans run, counts, ?_, ?_⟩
    · rw [near_eq, near_ones _ 2 ones counts rfl]
      rfl
    · rw [far_eq, far_ones _ unreachable ones counts rfl]
      rfl

end Graph

end LedEffect
