import LedEffect.Command.Inspect
import LedEffect.Proofs.Graph.BreadthFirst
import LedEffect.Proofs.Graph.DepthFirst
import LedEffect.Proofs.Graph.ShortestPath
import LedEffect.Proofs.Traversal

/-!
# Nodes out of reach

Each search has its own way to say that the source does not reach a node: no number of hops, no place
in the preorder, an infinite distance. They agree but for one case (`searches_agree`): the distance of
a node is also infinite when it is reached and the weights along every walk to it sum up past the
largest double.
-/

namespace LedEffect

open Binary64

/-- The value of a node in one of the arrays of a printed analysis. -/
def Command.Analysis.listed? (a : Command.Analysis) (name : String) (v : Nat) : Option Json :=
  match a.toValue with
  | .object members =>
    match Graph.member? members name with
    | some (.array items) => items[v]?
    | _ => none
  | _ => none

namespace Command.Analysis

variable {α : Type} {a : Analysis} {g : Graph} {source v : Nat}

attribute [local simp] listed? toValue Graph.member?

lemma listed?_hops (a : Analysis) (v : Nat) :
    a.listed? "bfsLevels" v = (a.hops[v]?).map (nullable .natural) := by
  simp

lemma listed?_distances (a : Analysis) (v : Nat) :
    a.listed? "distances" v = (a.distances[v]?).map (nullable .double) := by
  simp

/-- A value that is no null itself is printed as null when it is missing. -/
lemma map_nullable_eq_null {toValue : α → Json} (solid : ∀ x, toValue x ≠ .null)
    (x : Option (Option α)) : x.map (nullable toValue) = some .null ↔ x = some none := by
  rcases x with - | - | x
  · simp
  · simp [nullable]
  · simpa [nullable] using solid x

/-- The analysis of a graph consists of the answers of the searches. -/
lemma ofGraph_eq {hops order : Array Nat} {distances : Array Binary64} (hhops : g.bfs source = .ok hops)
    (horder : g.dfs source = .ok order) (hdistances : g.dijkstra source = .ok distances) :
    ofGraph g source = .ok ⟨source, hops.toList.map fun d => if d = Graph.unreachable then none else some d,
      order.toList, distances.toList.map fun d => if d.isFinite then some d else none,
      g.topoSort.map Array.toList⟩ := by
  rw [ofGraph, hhops, horder, hdistances]
  rfl

end Command.Analysis

namespace Graph

open Command

variable {g : Graph} {source v : Nat}

/-- The searches from a source agree on the nodes that it does not reach. The distance of such a node
is infinite, and so is that of a node to which no walk has a finite sum of weights, but of no other
node. The analysis says null where a node has no hops, and where its distance is infinite. -/
theorem searches_agree (small : g.nodeCount < 2 ^ 32) (node : source < g.nodeCount) :
    ∃ hops order distances analysis, g.bfs source = .ok hops ∧ g.dfs source = .ok order ∧
      g.dijkstra source = .ok distances ∧ Analysis.ofGraph g source = .ok analysis ∧
      ∀ v < g.nodeCount,
        (hops[v]? = some unreachable ↔ v ∉ order.toList) ∧
        (v ∉ order.toList → distances[v]? = some (infinite false)) ∧
        (distances[v]? = some (infinite false) ↔ ∀ x, g.Costs source v x → x = infinite false) ∧
        (analysis.listed? "bfsLevels" v = some .null ↔ hops[v]? = some unreachable) ∧
        (analysis.listed? "distances" v = some .null ↔ distances[v]? = some (infinite false)) := by
  obtain ⟨hops, hhops, -, counted⟩ := bfs_spec small node
  obtain ⟨order, horder, -, listed⟩ := dfs_spec node
  obtain ⟨distances, hdistances, -, measured⟩ := dijkstra_spec node
  refine ⟨hops, order, distances, _, hhops, horder, hdistances,
    Analysis.ofGraph_eq hhops horder hdistances, fun v inside => ?_⟩
  obtain ⟨hop, hop_eq, walk, least⟩ := counted v inside
  obtain ⟨d, d_eq, reached, below⟩ := measured v inside
  have distance : d.IsDistance := by
    rcases reached with rfl | walk
    · exact isDistance_infinite
    · exact walk.isDistance
  have overflow : d = infinite false ↔ ∀ x, g.Costs source v x → x = infinite false := by
    constructor
    · rintro rfl x walk
      exact walk.isDistance.rank_inj isDistance_infinite
        (walk.isDistance.rank_le.antisymm (below x walk))
    · intro all
      exact reached.elim id (all d)
  rw [Analysis.listed?_hops, Analysis.listed?_distances, Analysis.map_nullable_eq_null nofun,
    Analysis.map_nullable_eq_null nofun, listed, ← Costs.exists_iff]
  simp only [List.getElem?_map, Array.getElem?_toList, hop_eq, d_eq, Option.map_some,
    Option.some_inj]
  refine ⟨?_, fun unreached => ?_, overflow, ?_, ?_⟩
  · rw [Costs.exists_iff, ← exists_hops_iff]
    refine ⟨fun none ⟨k, path⟩ => (least k path).1 none, fun unreached => ?_⟩
    by_contra some
    exact unreached ⟨hop, walk some⟩
  · exact overflow.2 fun x walk => absurd ⟨x, walk⟩ unreached
  · simp
  · rw [← distance.isFinite_eq_false]
    cases d.isFinite <;> simp

/-- A graph of one edge and a node apart from it. -/
theorem searches_agree_apart :
    ∃ g, ofRows true #[0, 1, 1, 1] #[1] none = .ok g ∧ g.nodeCount < 2 ^ 32 ∧ 0 < g.nodeCount ∧
      ∃ hops order distances, g.bfs 0 = .ok hops ∧ g.dfs 0 = .ok order ∧
        g.dijkstra 0 = .ok distances ∧ hops[2]? = some unreachable ∧ 2 ∉ order.toList ∧
        distances[2]? = some (infinite false) := by
  obtain ⟨g, rows, runs⟩ := exists_of_any (x := ofRows true #[0, 1, 1, 1] #[1] none)
    (p := fun g => g.nodeCount = 3 && (g.dfs 0).toOption.any (fun order => 2 ∉ order.toList))
    (by decide +kernel)
  rw [Bool.and_eq_true, decide_eq_true_iff] at runs
  obtain ⟨nodes, missed⟩ := runs
  have small : g.nodeCount < 2 ^ 32 := by omega
  have node : 0 < g.nodeCount := by omega
  obtain ⟨order', horder', missed⟩ := exists_of_any missed
  obtain ⟨hops, order, distances, _, hhops, horder, hdistances, -, agree⟩ :=
    searches_agree small node
  obtain rfl := Except.ok.inj (horder.symm.trans horder')
  have missed := of_decide_eq_true missed
  obtain ⟨hop, distance, -⟩ := agree 2 (by omega)
  exact ⟨g, rows, small, node, hops, order, distances, hhops, horder, hdistances, hop.2 missed, missed,
    distance missed⟩

/-- On the way along two edges a search meets a node whose distance is past the largest double. -/
theorem reached_at_infinity :
    ∃ g, ofRows true #[0, 1, 2, 2] #[1, 2] (some #[1e308, 1e308]) = .ok g ∧
      ∃ hops order distances, g.bfs 0 = .ok hops ∧ g.dfs 0 = .ok order ∧
        g.dijkstra 0 = .ok distances ∧ hops[2]? ≠ some unreachable ∧ 2 ∈ order.toList ∧
        distances[2]? = some (infinite false) := by
  obtain ⟨g, rows, runs⟩ := exists_of_any
    (x := ofRows true #[0, 1, 2, 2] #[1, 2] (some #[1e308, 1e308]))
    (p := fun g => (g.bfs 0).toOption.any (fun hops => hops[2]? ≠ some unreachable) &&
      (g.dfs 0).toOption.any (fun order => 2 ∈ order.toList) &&
      (g.dijkstra 0).toOption.any (fun distances => distances[2]? = some (infinite false)))
    (by decide +kernel)
  rw [Bool.and_eq_true, Bool.and_eq_true] at runs
  obtain ⟨⟨hops, order⟩, distances⟩ := runs
  obtain ⟨hops, hhops, counted⟩ := exists_of_any hops
  obtain ⟨order, horder, listed⟩ := exists_of_any order
  obtain ⟨distances, hdistances, measured⟩ := exists_of_any distances
  exact ⟨g, rows, hops, order, distances, hhops, horder, hdistances, of_decide_eq_true counted,
    of_decide_eq_true listed, of_decide_eq_true measured⟩

end Graph

end LedEffect
