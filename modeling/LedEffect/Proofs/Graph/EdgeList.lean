import LedEffect.Proofs.Graph.CountingSort
import LedEffect.Proofs.Graph.Weights

/-!
# Graphs from edge lists

An edge list makes a graph just when its counts fit 32 bits, its endpoints are nodes and its weights
are weights, and the graph groups it: the row of a node is the part of the list that leaves the node,
in list order, with the weights beside it (`Groups`). Listed row by row, the edges of the graph make
the same graph again (`edgeLists_grouped`).
-/

namespace LedEffect

/-- An edge without its weight. -/
def Edge.ends (e : Edge) : UInt32 × UInt32 := (e.source, e.target)

/-- An edge of weight one. -/
def Edge.unit (ends : UInt32 × UInt32) : Edge := ⟨ends.1, ends.2, 1⟩

namespace Graph

/-! ## Flattened arrays -/

section Flattened

variable {rows : List (List Edge)} {flat : Flat} {g : Graph} {u j : Nat}

/-- The offsets of flat arrays with few edges are the numbers of edges before the rows. -/
lemma Flattened.toNat_offset (inv : Flattened rows flat) (few : rows.flatten.length ≤ counterLimit)
    (le : j ≤ rows.length) :
    (flat.offsets[j]?).map UInt32.toNat = some (rows.take j).flatten.length := by
  have total : (rows.take j).flatten.length ≤ (rows.take rows.length).flatten.length :=
    length_take_flatten_le le
  rw [List.take_length] at total
  have size : UInt32.size = counterLimit + 1 := rfl
  rw [inv.offset j le, Option.map_some, UInt32.toNat_ofNat_of_lt' (by omega)]

/-- Flat arrays with few edges into the nodes are well formed. -/
lemma Flattened.wellFormed (inv : Flattened rows flat) (few : rows.flatten.length ≤ counterLimit)
    (inside : ∀ e ∈ rows.flatten, e.target.toNat < rows.length) :
    Rows.WellFormed flat.offsets flat.edges := by
  have count : flat.edges.size = rows.flatten.length := by
    rw [← Array.length_toList, inv.edges, List.length_map]
  refine ⟨by rw [inv.size]; omega, by simpa using inv.offset 0 (Nat.zero_le _), ?_, ?_, ?_⟩
  · refine List.pairwise_iff_getElem.2 fun i j hi hj lt => ?_
    rw [Array.length_toList, inv.size] at hi hj
    have first := inv.toNat_offset few (Nat.le_of_lt_succ hi)
    have second := inv.toNat_offset few (Nat.le_of_lt_succ hj)
    have le : (rows.take i).flatten.length ≤ (rows.take j).flatten.length :=
      length_take_flatten_le (Nat.le_of_lt lt)
    rw [Array.getElem?_eq_getElem (by rw [inv.size]; exact hi), Option.map_some,
      Option.some_inj] at first
    rw [Array.getElem?_eq_getElem (by rw [inv.size]; exact hj), Option.map_some,
      Option.some_inj] at second
    rw [Array.getElem_toList, Array.getElem_toList, UInt32.le_iff_toNat_le, first, second]
    exact le
  · rw [inv.size, Nat.add_sub_cancel, inv.toNat_offset few (Nat.le_refl _), List.take_length, count]
  · intro v mem
    rw [inv.edges] at mem
    obtain ⟨e, edge, rfl⟩ := List.mem_map.1 mem
    rw [inv.size]
    exact inside e edge

/-- The rows of a graph with flattened arrays start where the rows before them end. -/
lemma Flattened.start_eq (inv : Flattened rows flat) (few : rows.flatten.length ≤ counterLimit)
    (offsets : g.offsets = flat.offsets) (le : j ≤ rows.length) :
    g.start j = (rows.take j).flatten.length := by
  have here := inv.toNat_offset few le
  rw [← offsets] at here
  rw [start, Array.getD_eq_getD_getElem?]
  cases value : g.offsets[j]? with
  | none => simp [value] at here
  | some offset => simpa [value] using here

/-- What stands between the offsets of a node is what its row was flattened to. -/
lemma Flattened.slice?_eq {α : Type} {a : Array α} {part : Edge → α} (inv : Flattened rows flat)
    (few : rows.flatten.length ≤ counterLimit) (offsets : g.offsets = flat.offsets)
    (filled : a.toList = rows.flatten.map part) (small : u < rows.length) :
    slice? a (g.start u, g.start (u + 1)) = some (rows[u].map part) := by
  have next : (rows.take (u + 1)).flatten = (rows.take u).flatten ++ rows[u] := by
    rw [List.take_add_one, List.getElem?_eq_getElem small, List.flatten_append]
    simp
  have all : rows.flatten = (rows.take (u + 1)).flatten ++ (rows.drop (u + 1)).flatten := by
    rw [← List.flatten_append, List.take_append_drop]
  have first := inv.start_eq few offsets (Nat.le_of_lt small)
  have last := inv.start_eq few offsets small
  have le : g.start u ≤ g.start (u + 1) := by
    rw [first, last]
    exact length_take_flatten_le (Nat.le_succ u)
  have bound : g.start (u + 1) ≤ a.size := by
    rw [last, ← Array.length_toList, filled, List.length_map, all, List.length_append]
    exact Nat.le_add_right _ _
  have piece : (a.extract (g.start u) (g.start (u + 1))).toList =
      (a.toList.take (g.start (u + 1))).drop (g.start u) := by
    simp [List.drop_take]
  rw [slice?, if_pos ⟨le, bound⟩, piece, first, last, filled, all, List.map_append,
    List.take_left' (by rw [List.length_map]), next, List.map_append,
    List.drop_left' (by rw [List.length_map])]

end Flattened

/-! ## Grouped edges -/

variable {nodes u : Nat} {edges : List Edge} {g : Graph}

/-- How a graph groups an edge list: the edges of a node are those that leave it, in list order. -/
structure Groups (g : Graph) (nodes : Nat) (edges : List Edge) : Prop where
  directed : g.directed = true
  nodeCount : g.nodeCount = nodes
  edgeCount : g.edgeCount = edges.length
  neighbors : ∀ u < nodes,
    g.neighbors? u = some ((leaving edges u).map fun e => e.target.toNat)
  outDegree : ∀ u < nodes, g.outDegree? u = some (edges.countP fun e => e.source.toNat = u)
  inDegrees : ∃ degrees, g.inDegrees? = some degrees ∧ degrees.size = nodes ∧
    ∀ v < nodes, degrees[v]? = some (edges.countP fun e => e.target.toNat = v)

/-- The graph of flat arrays groups the edges, and the slices of its weights are those of the
edges. -/
lemma Flattened.groups {flat : Flat} (inv : Flattened (rowsOf nodes edges) flat)
    (few : edges.length ≤ counterLimit) (inside : Inside nodes edges) (directed : g.directed = true)
    (offsets : g.offsets = flat.offsets) (targets : g.edges = flat.edges) :
    Groups g nodes edges ∧ ∀ u < nodes, slice? flat.weights (g.start u, g.start (u + 1)) =
      some ((leaving edges u).map Edge.weight) := by
  have perm := flatten_rowsOf_perm fun e mem => (inside e mem).1
  have total := perm.length_eq.trans_le few
  have nodeCount : g.nodeCount = nodes := by
    rw [Graph.nodeCount, offsets, inv.size, length_rowsOf, Nat.add_sub_cancel]
  have slices : ∀ {α : Type} {a : Array α} {part : Edge → α},
      a.toList = (rowsOf nodes edges).flatten.map part → ∀ u < nodes,
      slice? a (g.start u, g.start (u + 1)) = some ((leaving edges u).map part) := by
    intro α a part filled u node
    have small : u < (rowsOf nodes edges).length := by rwa [length_rowsOf]
    rw [inv.slice?_eq total offsets filled small]
    simp [rowsOf]
  have row : ∀ u < nodes,
      g.neighbors? u = some ((leaving edges u).map fun e => e.target.toNat) := by
    intro u node
    rw [neighbors?, edgeRange?_eq (nodeCount ▸ node)]
    simp only [Option.bind_eq_bind, Option.bind_some, targets, slices inv.edges u node,
      List.map_map, Function.comp_def]
  have rows : ∀ u < nodes, g.row u = (leaving edges u).map fun e => e.target.toNat := by
    intro u node
    rw [Graph.row, row u node, Option.getD_some]
  refine ⟨⟨directed, nodeCount, ?_, row, fun u node => ?_, ?_⟩, slices inv.weights⟩
  · rw [edgeCount, targets, ← Array.length_toList, inv.edges, List.length_map, perm.length_eq]
  · rw [outDegree?_eq (nodeCount ▸ node), rows u node, List.length_map, leaving,
      List.countP_eq_length_filter]
  · obtain ⟨degrees, run, size, counts⟩ := g.inDegrees?_eq
    have listed : g.targets = (rowsOf nodes edges).flatten.map fun e => e.target.toNat := by
      rw [Graph.targets, nodeCount, rowsOf, ← List.flatMap_def, List.map_flatMap]
      exact List.flatMap_congr fun u mem => rows u (List.mem_range.1 mem)
    refine ⟨degrees, run, size.trans nodeCount, fun v node => ?_⟩
    rw [counts v (nodeCount ▸ node), listed, List.count, List.countP_map, perm.countP_eq]
    exact congrArg some (List.countP_congr fun e _ => by simp)

/-- Listed row by row, the edges have the same flat arrays. -/
lemma flatten_rowsOf (few : edges.length ≤ counterLimit) (small : nodes ≤ counterLimit)
    (inside : Inside nodes edges) :
    flatten nodes (rowsOf nodes edges).flatten = flatten nodes edges := by
  have length := (flatten_rowsOf_perm fun e mem => (inside e mem).1).length_eq
  obtain ⟨flat, run, inv⟩ := flatten_eq few small inside
  obtain ⟨flat', run', inv'⟩ := flatten_eq (length.trans_le few) small inside.rows
  rw [rowsOf_flatten] at inv'
  rw [run, run', inv'.unique inv]

/-! ## Row by row -/

/-- The edges of a node as the accessors tell them; an edge without a weight weighs one. -/
def edgesAt (g : Graph) (u : Nat) : List Edge :=
  match g.neighbors? u, g.edgeWeights? u with
  | some targets, some none => targets.map fun v => ⟨UInt32.ofNat u, UInt32.ofNat v, 1⟩
  | some targets, some (some weights) =>
    targets.zipWith (fun v w => ⟨UInt32.ofNat u, UInt32.ofNat v, w⟩) weights
  | _, _ => []

/-- The edges of a graph row by row. -/
def rowEdges (g : Graph) : List Edge := (List.range g.nodeCount).flatMap g.edgesAt

lemma source_of_mem_leaving {e : Edge} (mem : e ∈ leaving edges u) : e.source.toNat = u := by
  simpa using (List.mem_filter.1 mem).2

/-- The accessors of a weighted graph tell the edges that it groups. -/
lemma Groups.edgesAt_weighted (groups : Groups g nodes edges) (node : u < nodes)
    (weights : g.edgeWeights? u = some (some ((leaving edges u).map Edge.weight))) :
    g.edgesAt u = leaving edges u := by
  rw [edgesAt, groups.neighbors u node, weights]
  dsimp only
  rw [List.zipWith_map, List.zipWith_self]
  refine (List.map_congr_left fun e mem => ?_).trans (List.map_id _)
  obtain rfl := source_of_mem_leaving mem
  simp

/-- The accessors of a graph without weights tell the edges that it groups. -/
lemma Groups.edgesAt_unweighted {pairs : List (UInt32 × UInt32)}
    (groups : Groups g nodes (pairs.map Edge.unit)) (node : u < nodes)
    (weights : g.edgeWeights? u = some none) :
    g.edgesAt u = leaving (pairs.map Edge.unit) u := by
  rw [edgesAt, groups.neighbors u node, weights]
  dsimp only
  rw [List.map_map]
  refine (List.map_congr_left fun e mem => ?_).trans (List.map_id _)
  obtain ⟨ends, -, rfl⟩ := List.mem_map.1 (List.mem_of_mem_filter mem)
  obtain rfl := source_of_mem_leaving mem
  simp [Edge.unit]

lemma Groups.rowEdges_eq (groups : Groups g nodes edges)
    (rows : ∀ u < nodes, g.edgesAt u = leaving edges u) :
    g.rowEdges = (rowsOf nodes edges).flatten := by
  rw [rowEdges, groups.nodeCount, rowsOf, ← List.flatMap_def]
  exact List.flatMap_congr fun u mem => rows u (List.mem_range.1 mem)

/-! ## Finished graphs -/

lemma edgeWeights?_eq_none (unweighted : g.weights = none) (node : u < g.nodeCount) :
    g.edgeWeights? u = some none := by
  rw [edgeWeights?, edgeRange?_eq node, unweighted]
  rfl

lemma edgeWeights?_eq_some {weights : Array Binary64} {ws : List Binary64}
    (weighted : g.weights = some weights) (node : u < g.nodeCount)
    (slice : slice? weights (g.start u, g.start (u + 1)) = some ws) :
    g.edgeWeights? u = some (some ws) := by
  rw [edgeWeights?, edgeRange?_eq node, weighted]
  simp [slice]

/-- An edge list whose counts fit 32 bits and whose endpoints are nodes has faultless rows. -/
lemma Flattened.fault?_eq {flat : Flat} (inv : Flattened (rowsOf nodes edges) flat)
    (few : edges.length ≤ counterLimit) (inside : Inside nodes edges)
    (weights : Option (Array Binary64)) :
    Rows.fault? flat.offsets flat.edges weights =
      weights.bind (Rows.weightFault? · edges.length) := by
  have perm := flatten_rowsOf_perm fun e mem => (inside e mem).1
  have wellFormed := inv.wellFormed (perm.length_eq.trans_le few) fun e mem => by
    rw [length_rowsOf]
    exact (inside.rows e mem).2
  have count : flat.edges.size = edges.length := by
    rw [← Array.length_toList, inv.edges, List.length_map, perm.length_eq]
  rw [wellFormed.fault?_eq, count]

section Unweighted

variable {pairs : List (UInt32 × UInt32)}

lemma inside_unit : Inside nodes (pairs.map Edge.unit) ↔
    ∀ e ∈ pairs, e.1.toNat < nodes ∧ e.2.toNat < nodes := by
  rw [Inside, List.forall_mem_map]
  rfl

lemma ofEdges_eq : ofEdges nodes pairs =
    flatten nodes (pairs.map Edge.unit) >>= fun flat => ofRows true flat.offsets flat.edges none :=
  rfl

/-- The graph of an edge list groups it. -/
lemma groups_of_ofEdges (made : ofEdges nodes pairs = .ok g) :
    Groups g nodes (pairs.map Edge.unit) ∧ g.weights = none := by
  obtain ⟨flat, run, made⟩ := bind_eq_ok.1 (ofEdges_eq ▸ made)
  obtain ⟨few, -, inside, inv⟩ := flattened_of_ok run
  obtain ⟨directed, offsets, edges, weights⟩ := ofRows_eq_ok.1 made
  exact ⟨(inv.groups few inside directed offsets edges).1, weights⟩

/-- An edge list makes a graph when its counts fit 32 bits and its endpoints are nodes. -/
lemma exists_ofEdges_iff : (∃ g, ofEdges nodes pairs = .ok g) ↔
    pairs.length ≤ counterLimit ∧ nodes ≤ counterLimit ∧
      ∀ e ∈ pairs, e.1.toNat < nodes ∧ e.2.toNat < nodes := by
  rw [← inside_unit, ← List.length_map Edge.unit]
  refine Iff.trans ⟨?_, ?_⟩ exists_flatten_iff
  · rintro ⟨g, made⟩
    obtain ⟨flat, run, -⟩ := bind_eq_ok.1 (ofEdges_eq ▸ made)
    exact ⟨flat, run⟩
  · rintro ⟨flat, run⟩
    obtain ⟨few, -, inside, inv⟩ := flattened_of_ok run
    exact ⟨⟨true, flat.offsets, flat.edges, none, inv.fault?_eq few inside none⟩,
      ofEdges_eq.trans (bind_eq_ok.2 ⟨flat, run, ofRows_eq_ok.2 ⟨rfl, rfl, rfl, rfl⟩⟩)⟩

/-- An edge list whose counts fit 32 bits and whose endpoints are nodes makes a graph in which the
targets of a node are those of its edges, in list order. -/
lemma ofEdges_spec (few : pairs.length ≤ counterLimit) (small : nodes ≤ counterLimit)
    (inside : ∀ e ∈ pairs, e.1.toNat < nodes ∧ e.2.toNat < nodes) :
    ∃ g, ofEdges nodes pairs = .ok g ∧ g.nodeCount = nodes ∧
      ∀ u < nodes, g.row u =
        (pairs.filter fun e => e.1.toNat = u).map fun e => e.2.toNat := by
  obtain ⟨g, made⟩ := exists_ofEdges_iff.2 ⟨few, small, inside⟩
  obtain ⟨groups, -⟩ := groups_of_ofEdges made
  refine ⟨g, made, groups.nodeCount, fun u node => ?_⟩
  rw [row, groups.neighbors u node, Option.getD_some, leaving, List.filter_map, List.map_map]
  rfl

/-- Edge lists that make a graph have few edges between few nodes. -/
lemma few_of_ofEdges (made : ofEdges nodes pairs = .ok g) :
    pairs.length ≤ counterLimit ∧ nodes ≤ counterLimit := by
  obtain ⟨few, small, -⟩ := exists_ofEdges_iff.1 ⟨g, made⟩
  exact ⟨few, small⟩

/-- A graph has as many edges as the list that it is made of. -/
lemma edgeCount_ofEdges (made : ofEdges nodes pairs = .ok g) : g.edgeCount = pairs.length := by
  rw [(groups_of_ofEdges made).1.edgeCount, List.length_map]

/-- The edges of a graph, row by row, make the same graph. -/
lemma ofEdges_rowEdges (made : ofEdges nodes pairs = .ok g) :
    ofEdges nodes (g.rowEdges.map Edge.ends) = .ok g := by
  obtain ⟨groups, unweighted⟩ := groups_of_ofEdges made
  obtain ⟨few, small, inside⟩ := exists_ofEdges_iff.1 ⟨g, made⟩
  have rows := groups.rowEdges_eq fun u node =>
    groups.edgesAt_unweighted node (edgeWeights?_eq_none unweighted (groups.nodeCount ▸ node))
  have units : (g.rowEdges.map Edge.ends).map Edge.unit = g.rowEdges := by
    rw [List.map_map]
    refine (List.map_congr_left fun e mem => ?_).trans (List.map_id _)
    rw [rows] at mem
    obtain ⟨row, listed, mem⟩ := List.mem_flatten.1 mem
    obtain ⟨u, -, rfl⟩ := List.mem_map.1 listed
    obtain ⟨ends, -, rfl⟩ := List.mem_map.1 (List.mem_of_mem_filter mem)
    rfl
  rw [ofEdges_eq, units, rows,
    flatten_rowsOf (by rwa [List.length_map]) small (inside_unit.2 inside), ← ofEdges_eq, made]

end Unweighted

section Weighted

/-- The graph of a list of edges with weights groups them, with the weights beside them. -/
lemma groups_of_ofWeightedEdges (made : ofWeightedEdges nodes edges = .ok g) :
    Groups g nodes edges ∧ ∀ u < nodes,
      g.edgeWeights? u = some (some ((leaving edges u).map Edge.weight)) := by
  obtain ⟨flat, run, made⟩ := bind_eq_ok.1 made
  obtain ⟨few, -, inside, inv⟩ := flattened_of_ok run
  obtain ⟨directed, offsets, targets, weights⟩ := ofRows_eq_ok.1 made
  obtain ⟨groups, slices⟩ := inv.groups few inside directed offsets targets
  exact ⟨groups, fun u node =>
    edgeWeights?_eq_some weights (groups.nodeCount ▸ node) (slices u node)⟩

/-- A list of edges with weights makes a graph when its counts fit 32 bits, its endpoints are nodes
and its weights are weights. -/
lemma exists_ofWeightedEdges_iff : (∃ g, ofWeightedEdges nodes edges = .ok g) ↔
    edges.length ≤ counterLimit ∧ nodes ≤ counterLimit ∧ Inside nodes edges ∧
      ∀ e ∈ edges, e.weight.IsWeight := by
  -- The weights of the flat arrays are those of the list.
  have weights_iff : ∀ {flat : Flat}, Flattened (rowsOf nodes edges) flat → Inside nodes edges →
      (Rows.weightFault? flat.weights edges.length = none ↔ ∀ e ∈ edges, e.weight.IsWeight) := by
    intro flat inv inside
    have perm := flatten_rowsOf_perm fun e mem => (inside e mem).1
    have count : flat.weights.size = edges.length := by
      rw [← Array.length_toList, inv.weights, List.length_map, perm.length_eq]
    rw [Rows.weightFault?_eq_none, inv.weights, List.forall_mem_map]
    simp [count, perm.mem_iff]
  constructor
  · rintro ⟨g, made⟩
    obtain ⟨flat, run, made⟩ := bind_eq_ok.1 made
    obtain ⟨few, small, inside, inv⟩ := flattened_of_ok run
    obtain ⟨-, offsets, targets, weights⟩ := ofRows_eq_ok.1 made
    have faultless := g.checked
    rw [offsets, targets, weights, inv.fault?_eq few inside, Option.bind_some] at faultless
    exact ⟨few, small, inside, (weights_iff inv inside).1 faultless⟩
  · rintro ⟨few, small, inside, weights⟩
    obtain ⟨flat, run, inv⟩ := flatten_eq few small inside
    have faultless := inv.fault?_eq few inside (some flat.weights)
    rw [Option.bind_some, (weights_iff inv inside).2 weights] at faultless
    exact ⟨⟨true, flat.offsets, flat.edges, some flat.weights, faultless⟩,
      bind_eq_ok.2 ⟨flat, run, ofRows_eq_ok.2 ⟨rfl, rfl, rfl, rfl⟩⟩⟩

/-- The edges of a weighted graph, row by row, make the same graph. -/
lemma ofWeightedEdges_rowEdges (made : ofWeightedEdges nodes edges = .ok g) :
    ofWeightedEdges nodes g.rowEdges = .ok g := by
  obtain ⟨groups, weights⟩ := groups_of_ofWeightedEdges made
  obtain ⟨few, small, inside, -⟩ := exists_ofWeightedEdges_iff.1 ⟨g, made⟩
  have rows := groups.rowEdges_eq fun u node => groups.edgesAt_weighted node (weights u node)
  rw [ofWeightedEdges, rows, flatten_rowsOf few small inside]
  exact made

end Weighted

/-- Edge lists make graphs just when their counts fit 32 bits, their endpoints are nodes and their
weights are finite and not negative. The graph groups the edges by their source, in list order and
with the weights beside them, and its edges, row by row, make the same graph again. -/
theorem edgeLists_grouped (nodes : Nat) :
    (∀ pairs : List (UInt32 × UInt32),
      ((∃ g, ofEdges nodes pairs = .ok g) ↔ pairs.length ≤ counterLimit ∧ nodes ≤ counterLimit ∧
        ∀ e ∈ pairs, e.1.toNat < nodes ∧ e.2.toNat < nodes) ∧
      ∀ g, ofEdges nodes pairs = .ok g →
        Groups g nodes (pairs.map Edge.unit) ∧ (∀ u < nodes, g.edgeWeights? u = some none) ∧
        ofEdges nodes (g.rowEdges.map Edge.ends) = .ok g) ∧
    ∀ edges : List Edge,
      ((∃ g, ofWeightedEdges nodes edges = .ok g) ↔
        edges.length ≤ counterLimit ∧ nodes ≤ counterLimit ∧
        (∀ e ∈ edges, e.source.toNat < nodes ∧ e.target.toNat < nodes) ∧
        ∀ e ∈ edges, e.weight.isFinite = true ∧ e.weight.lt .zero = false) ∧
      ∀ g, ofWeightedEdges nodes edges = .ok g →
        Groups g nodes edges ∧
        (∀ u < nodes, g.edgeWeights? u = some (some ((leaving edges u).map Edge.weight))) ∧
        ofWeightedEdges nodes g.rowEdges = .ok g := by
  refine ⟨fun pairs => ⟨exists_ofEdges_iff, fun g made => ?_⟩, fun edges => ⟨?_, fun g made => ?_⟩⟩
  · obtain ⟨groups, unweighted⟩ := groups_of_ofEdges made
    exact ⟨groups, fun u node => edgeWeights?_eq_none unweighted (groups.nodeCount ▸ node),
      ofEdges_rowEdges made⟩
  · simp only [exists_ofWeightedEdges_iff, Binary64.isWeight_iff]
    rfl
  · obtain ⟨groups, weights⟩ := groups_of_ofWeightedEdges made
    exact ⟨groups, weights, ofWeightedEdges_rowEdges made⟩

/-- Edges of three nodes whose sources alternate, two of them parallel. -/
def interleaved : List Edge := [⟨2, 0, 1.5⟩, ⟨0, 1, 0.5⟩, ⟨2, 1, 0⟩, ⟨0, 1, 2⟩]

/-- The alternating edges make a graph in which each node has its own, in list order. -/
theorem interleaved_grouped : ∃ g, ofWeightedEdges 3 interleaved = .ok g ∧
    Groups g 3 interleaved ∧ g.edgeWeights? 0 = some (some [0.5, 2]) ∧
    g.edgeWeights? 2 = some (some [1.5, 0]) ∧ ofWeightedEdges 3 g.rowEdges = .ok g := by
  obtain ⟨accepted, grouped⟩ := (edgeLists_grouped 3).2 interleaved
  obtain ⟨g, made⟩ := accepted.2 (by decide +kernel)
  obtain ⟨groups, weights, rows⟩ := grouped g made
  exact ⟨g, made, groups, weights 0 (by decide), weights 2 (by decide), rows⟩

end Graph

end LedEffect
