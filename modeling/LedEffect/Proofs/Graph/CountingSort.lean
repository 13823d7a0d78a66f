import LedEffect.Graph.EdgeList
import LedEffect.Proofs.Graph.Order
import LedEffect.Proofs.Grouping
import Mathlib.Data.List.Perm.Basic

/-!
# Counting sort

Carrying the counts on gives every row the number of edges before it (`foldlM_carry?`). While edges
are put into the flat arrays, the cursor of a row stands behind those of its edges that have been put
(`Filled`): no two edges share a slot, and a row keeps the order of the list. In the end the rows
stand one after the other (`Flattened`), so flattening succeeds just when the counts fit their words
and every endpoint is a node (`exists_flatten_iff`).
-/

namespace LedEffect.Graph

variable {nodes u v i j : Nat} {edges done rest : List Edge} {e : Edge} {f : Filling}

/-! ## Rows of an edge list -/

/-- The edges that leave a node, in list order. -/
def leaving (edges : List Edge) (u : Nat) : List Edge := edges.filter fun e => e.source.toNat = u

/-- The rows of an edge list. -/
def rowsOf (nodes : Nat) (edges : List Edge) : List (List Edge) :=
  (List.range nodes).map (leaving edges)

/-- The number of edges in the rows before a node's. -/
def rowStart (nodes : Nat) (edges : List Edge) (u : Nat) : Nat :=
  ((rowsOf nodes edges).take u).flatten.length

/-- Whether both ends of every edge are nodes. -/
def Inside (nodes : Nat) (edges : List Edge) : Prop :=
  ∀ e ∈ edges, e.source.toNat < nodes ∧ e.target.toNat < nodes

lemma find?_isOutside : edges.find? (isOutside nodes) = none ↔ Inside nodes edges := by
  simp [Inside, isOutside]

lemma leaving_append : leaving (done ++ rest) u = leaving done u ++ leaving rest u :=
  List.filter_append ..

lemma leaving_cons :
    leaving (e :: rest) u = (if e.source.toNat = u then [e] else []) ++ leaving rest u := by
  by_cases h : e.source.toNat = u <;> simp [leaving, h]

@[simp] lemma length_rowsOf : (rowsOf nodes edges).length = nodes := by simp [rowsOf]

lemma getElem?_rowsOf (small : u < nodes) : (rowsOf nodes edges)[u]? = some (leaving edges u) := by
  simp [rowsOf, small]

lemma numbered_source (edges : List Edge) (u : Nat) :
    numbered (edges.map fun e => (e.source.toNat, e)) u = leaving edges u := by
  induction edges with
  | nil => rfl
  | cons e edges ih => rw [List.map_cons, numbered_cons, ih, leaving_cons]

lemma flatMap_range_ite {α : Type} {groups n : Nat} (small : n < groups) (xs : List α) :
    (List.range groups).flatMap (fun m => if n = m then xs else []) = xs := by
  induction groups with
  | zero => cases small
  | succ groups ih =>
    rw [List.range_succ, List.flatMap_append, List.flatMap_singleton]
    rcases Nat.lt_succ_iff_lt_or_eq.1 small with lt | eq
    · rw [ih lt, if_neg (Nat.ne_of_lt lt), List.append_nil]
    · have none : ∀ m ∈ List.range groups, (if n = m then xs else []) = [] := by
        intro m mem
        have lt := List.mem_range.1 mem
        rw [if_neg (by omega)]
      rw [if_pos eq, List.flatMap_eq_nil_iff.2 none, List.nil_append]

/-- The items of all groups are the items of the list. -/
lemma flatMap_numbered_perm {α : Type} {groups : Nat} {items : List (Nat × α)}
    (inside : ∀ item ∈ items, item.1 < groups) :
    ((List.range groups).flatMap (numbered items)).Perm (items.map (·.2)) := by
  induction items with
  | nil => simp
  | cons item items ih =>
    obtain ⟨here, inside⟩ := List.forall_mem_cons.1 inside
    -- Each group is the part of the first item, which is empty but for one group, and the rest.
    have parts := List.flatMap_append_perm (List.range groups)
      (fun n => if item.1 = n then [item.2] else []) (numbered items)
    rw [flatMap_range_ite here] at parts
    simp only [← numbered_cons] at parts
    exact parts.symm.trans ((ih inside).cons _)

lemma flatten_rowsOf_perm (inside : ∀ e ∈ edges, e.source.toNat < nodes) :
    (rowsOf nodes edges).flatten.Perm edges := by
  have perm := @flatMap_numbered_perm Edge nodes (edges.map fun e => (e.source.toNat, e))
    (by simpa using inside)
  simpa [rowsOf, List.flatMap_def, numbered_source, funext (numbered_source edges),
    Function.comp_def] using perm

lemma Inside.rows (inside : Inside nodes edges) : Inside nodes (rowsOf nodes edges).flatten :=
  fun e mem => inside e ((flatten_rowsOf_perm fun e mem => (inside e mem).1).mem_iff.1 mem)

/-- Listing the edges row by row keeps the rows. -/
lemma rowsOf_flatten : rowsOf nodes (rowsOf nodes edges).flatten = rowsOf nodes edges := by
  refine List.map_congr_left fun u mem => ?_
  have own : ∀ v, leaving (leaving edges v) u = if u = v then leaving edges u else [] := by
    intro v
    rw [leaving, leaving, List.filter_filter]
    split
    next same =>
      subst same
      simp [leaving]
    next differ =>
      refine List.filter_eq_nil_iff.2 fun e _ => ?_
      simp only [Bool.and_eq_true, decide_eq_true_eq]
      rintro ⟨rfl, rfl⟩
      exact differ rfl
  rw [← flatMap_range_ite (List.mem_range.1 mem) (leaving edges u), ← funext own, rowsOf, leaving,
    ← List.flatMap_def, List.filter_flatMap]
  rfl

/-! ## Slots -/

@[simp] lemma rowStart_zero : rowStart nodes edges 0 = 0 := by simp [rowStart]

lemma rowStart_succ (small : u < nodes) :
    rowStart nodes edges (u + 1) = rowStart nodes edges u + (leaving edges u).length := by
  rw [rowStart, rowStart, List.take_add_one, getElem?_rowsOf small, List.flatten_append,
    List.length_append]
  simp

lemma rowStart_nodes (inside : Inside nodes edges) : rowStart nodes edges nodes = edges.length := by
  rw [rowStart, List.take_of_length_le (by rw [length_rowsOf])]
  exact (flatten_rowsOf_perm fun e mem => (inside e mem).1).length_eq

/-- Later rows have more elements before them. -/
lemma length_take_flatten_le {α : Type} {rows : List (List α)} (le : i ≤ j) :
    (rows.take i).flatten.length ≤ (rows.take j).flatten.length := by
  rw [← List.take_append_drop i (rows.take j), List.take_take, Nat.min_eq_left le,
    List.flatten_append, List.length_append]
  exact Nat.le_add_right _ _

/-- A place of a row comes before the next row. -/
lemma slot_lt (small : u < nodes) (place : i < (leaving edges u).length) (le : u < v) :
    rowStart nodes edges u + i < rowStart nodes edges v := by
  have next : rowStart nodes edges (u + 1) ≤ rowStart nodes edges v := length_take_flatten_le le
  rw [rowStart_succ small] at next
  omega

/-- No two places of rows share a slot. -/
lemma slot_injective (hu : u < nodes) (hv : v < nodes) (hi : i < (leaving edges u).length)
    (hj : j < (leaving edges v).length)
    (same : rowStart nodes edges u + i = rowStart nodes edges v + j) : u = v ∧ i = j := by
  rcases Nat.lt_trichotomy u v with lt | rfl | lt
  · have below := slot_lt hu hi lt
    omega
  · exact ⟨rfl, by omega⟩
  · have below := slot_lt hv hj lt
    omega

/-- Every slot is a place of a row. -/
lemma exists_slot (inside : Inside nodes edges) (small : i < edges.length) :
    ∃ u < nodes, ∃ j < (leaving edges u).length, i = rowStart nodes edges u + j := by
  have rows : ∀ n ≤ nodes, i < rowStart nodes edges n →
      ∃ u < n, ∃ j < (leaving edges u).length, i = rowStart nodes edges u + j := by
    intro n
    induction n with
    | zero => simp
    | succ n ih =>
      intro le lt
      rcases Nat.lt_or_ge i (rowStart nodes edges n) with here | past
      · obtain ⟨u, earlier, place⟩ := ih (Nat.le_of_succ_le le) here
        exact ⟨u, Nat.lt_succ_of_lt earlier, place⟩
      · rw [rowStart_succ le] at lt
        exact ⟨n, Nat.lt_succ_self n, i - rowStart nodes edges n, by omega, by omega⟩
  exact rows nodes (Nat.le_refl _) (by rwa [rowStart_nodes inside])

/-- The rows one after the other hold at a slot what the row holds at its place. -/
lemma getElem?_slot (small : u < nodes) (place : j < (leaving edges u).length) :
    (rowsOf nodes edges).flatten[rowStart nodes edges u + j]? = (leaving edges u)[j]? := by
  have bound : u < (rowsOf nodes edges).length := by rwa [length_rowsOf]
  have row : (rowsOf nodes edges)[u] = leaving edges u := by simp [rowsOf]
  have split : (rowsOf nodes edges).flatten = ((rowsOf nodes edges).take u).flatten ++
      (leaving edges u ++ ((rowsOf nodes edges).drop (u + 1)).flatten) := by
    conv_lhs => rw [← List.take_append_drop u (rowsOf nodes edges), List.drop_eq_getElem_cons bound,
      row]
    rw [List.flatten_append, List.flatten_cons]
  rw [split, rowStart, List.getElem?_append_right (Nat.le_add_right _ _), Nat.add_sub_cancel_left,
    List.getElem?_append_left place]

/-! ## Counts -/

/-- What the counters hold when all edges are counted. -/
lemma exists_counts (few : edges.length ≤ counterLimit) (inside : Inside nodes edges) :
    ∃ counts, edges.foldlM countEdge? (Array.replicate (nodes + 1) 0) = some counts ∧
      counts.size = nodes + 1 ∧ counts[0]? = some 0 ∧
      ∀ u < nodes, counts[u + 1]? = some (leaving edges u).length := by
  obtain ⟨counts, run, size, count⟩ := @foldlM_bump? (edges.map fun e => e.source.toNat + 1)
    (Array.replicate (nodes + 1) 0)
    (by simpa using fun e mem => (inside e mem).1) (by simp +contextual) (by simpa using few)
  rw [Array.size_replicate] at size count
  refine ⟨counts, by rw [← run, List.foldlM_map]; rfl, size, ?_, fun u small => ?_⟩
  · rw [count 0 (Nat.succ_pos _), Option.some_inj, List.count_eq_zero]
    simp
  · rw [count (u + 1) (by omega), Option.some_inj, List.count, List.countP_map,
      leaving, ← List.countP_eq_length_filter]
    exact List.countP_congr fun e _ => by simp

/-- Carrying the counts on gives every row the number of edges before it. -/
lemma foldlM_carry? {counts : Array Nat} (few : edges.length ≤ counterLimit)
    (inside : Inside nodes edges) (size : counts.size = nodes + 1) (first : counts[0]? = some 0)
    (count : ∀ u < nodes, counts[u + 1]? = some (leaving edges u).length) :
    ∃ offsets, (List.range nodes).foldlM carry? counts = some offsets ∧
      offsets.size = nodes + 1 ∧ ∀ u ≤ nodes, offsets[u]? = some (rowStart nodes edges u) := by
  -- After `n` steps the counts up to `n` are carried, and the others are as before.
  have steps : ∀ n ≤ nodes, ∃ offsets, (List.range n).foldlM carry? counts = some offsets ∧
      offsets.size = nodes + 1 ∧ (∀ u ≤ n, offsets[u]? = some (rowStart nodes edges u)) ∧
      ∀ u, n < u → offsets[u]? = counts[u]? := by
    intro n
    induction n with
    | zero =>
      refine fun _ => ⟨counts, rfl, size, fun u le => ?_, fun _ _ => rfl⟩
      rw [Nat.le_zero.1 le, first, rowStart_zero]
    | succ n ih =>
      intro le
      obtain ⟨offsets, run, size, carried, kept⟩ := ih (Nat.le_of_succ_le le)
      have total : rowStart nodes edges (n + 1) ≤ rowStart nodes edges nodes :=
        length_take_flatten_le le
      rw [rowStart_nodes inside] at total
      have sum := @rowStart_succ nodes n edges le
      have bound : n + 1 < offsets.size := by omega
      have step : carry? offsets n =
          some (offsets.set! (n + 1) (rowStart nodes edges (n + 1))) := by
        rw [carry?, carried n (Nat.le_refl n), kept (n + 1) (Nat.lt_succ_self n), count n le]
        simp only [Option.bind_eq_bind, Option.bind_some]
        rw [Nat.add_comm _ (rowStart nodes edges n), ← sum, if_pos (by omega)]
      refine ⟨offsets.set! (n + 1) (rowStart nodes edges (n + 1)), ?_, by simpa using size,
        fun u small => ?_, fun u past => ?_⟩
      · rw [List.range_succ, List.foldlM_append, run]
        simpa using step
      · rw [Array.set!_eq_setIfInBounds, Array.getElem?_setIfInBounds]
        split
        next same =>
          subst same
          rfl
        next differ => exact carried u (by omega)
      · rw [Array.set!_eq_setIfInBounds, Array.getElem?_setIfInBounds, if_neg (by omega)]
        exact kept u (by omega)
  obtain ⟨offsets, run, size, carried, -⟩ := steps nodes (Nat.le_refl _)
  exact ⟨offsets, run, size, carried⟩

/-! ## Filling -/

/-- What the flat arrays and the cursors are when the edges `done` of a list are put. -/
structure Filled (nodes : Nat) (edges done : List Edge) (f : Filling) : Prop where
  cursor : ∀ u < nodes, f.cursors[u]? =
    some (rowStart nodes edges u + (leaving done u).length)
  size : f.edges.size = edges.length ∧ f.weights.size = edges.length
  put : ∀ u < nodes, ∀ j e, (leaving done u)[j]? = some e →
    f.edges[rowStart nodes edges u + j]? = some e.target ∧
      f.weights[rowStart nodes edges u + j]? = some e.weight

/-- The next edge of a list finds a slot of its own row, which is free. -/
lemma Filled.next (inv : Filled nodes edges done f) (split : edges = done ++ e :: rest)
    (few : edges.length ≤ counterLimit) (inside : Inside nodes edges) :
    ∃ f', f.put? e = some f' ∧ Filled nodes edges (done ++ [e]) f' := by
  have node : e.source.toNat < nodes := (inside e (by simp [split])).1
  have free : (leaving done e.source.toNat).length < (leaving edges e.source.toNat).length := by
    rw [split, leaving_append, leaving_cons, if_pos rfl]
    simp
  have earlier : ∀ u j, j < (leaving done u).length → j < (leaving edges u).length := by
    intro u j small
    rw [split, leaving_append, List.length_append]
    omega
  generalize slot_eq : rowStart nodes edges e.source.toNat +
    (leaving done e.source.toNat).length = slot
  have cursor : f.cursors[e.source.toNat]? = some slot := slot_eq ▸ inv.cursor _ node
  have small : slot < edges.length := by
    rw [← slot_eq, ← rowStart_nodes inside]
    exact slot_lt node free node
  have moved : bump? f.cursors e.source.toNat =
      some (f.cursors.set! e.source.toNat (slot + 1)) := by
    simp [bump?, cursor, increment?, Nat.lt_of_lt_of_le small few]
  have snoc : ∀ u, leaving (done ++ [e]) u =
      leaving done u ++ if e.source.toNat = u then [e] else [] := by
    intro u
    rw [leaving_append, leaving_cons]
    simp [leaving]
  refine ⟨⟨f.cursors.set! e.source.toNat (slot + 1), f.edges.set! slot e.target,
    f.weights.set! slot e.weight⟩, ?_, fun u hu => ?_, by simpa using inv.size,
    fun u hu j x here => ?_⟩
  · rw [Filling.put?, cursor]
    simp only [Option.bind_eq_bind, Option.bind_some, inv.size, small, and_self, if_true, moved]
  · rw [Array.set!_eq_setIfInBounds, Array.getElem?_setIfInBounds, snoc]
    split
    next same =>
      subst same
      rw [if_pos (Array.getElem?_eq_some_iff.1 cursor).1, List.length_append, ← slot_eq]
      rfl
    next => rw [List.append_nil, inv.cursor u hu]
  · dsimp only
    rw [Array.set!_eq_setIfInBounds, Array.set!_eq_setIfInBounds, Array.getElem?_setIfInBounds,
      Array.getElem?_setIfInBounds, inv.size.1, inv.size.2]
    by_cases same : slot = rowStart nodes edges u + j
    · -- The slot belongs to one place of one row, the first that is not filled.
      have place : j < (leaving edges u).length := by
        have bound := (List.getElem?_eq_some_iff.1 here).1
        rw [snoc, List.length_append] at bound
        split at bound
        next own =>
          subst own
          rw [List.length_singleton] at bound
          omega
        next => exact earlier u j (by simpa using bound)
      obtain ⟨rfl, rfl⟩ := slot_injective node hu free place (slot_eq.trans same)
      rw [snoc, if_pos rfl, List.getElem?_concat_length, Option.some_inj] at here
      rw [if_pos same, if_pos small, if_pos same, if_pos small, here]
      exact ⟨rfl, rfl⟩
    · rw [if_neg same, if_neg same]
      refine inv.put u hu j x ?_
      rw [snoc] at here
      split at here
      next own =>
        subst own
        have bound := (List.getElem?_eq_some_iff.1 here).1
        rw [List.length_append, List.length_singleton] at bound
        rwa [List.getElem?_append_left (by omega)] at here
      next => rwa [List.append_nil] at here

/-- Putting the edges of a list one after the other. -/
lemma Filled.run (inv : Filled nodes edges [] f) (few : edges.length ≤ counterLimit)
    (inside : Inside nodes edges) :
    ∃ f', edges.foldlM Filling.put? f = some f' ∧ Filled nodes edges edges f' :=
  exists_foldlM edges (fun _ _ _ _ split inv => inv.next split few inside) inv

/-- Arrays that are filled are the rows one after the other. -/
lemma Filled.toList_eq (inv : Filled nodes edges edges f) (inside : Inside nodes edges) :
    f.edges.toList = (rowsOf nodes edges).flatten.map Edge.target ∧
      f.weights.toList = (rowsOf nodes edges).flatten.map Edge.weight := by
  have total := (flatten_rowsOf_perm fun e mem => (inside e mem).1).length_eq
  have slots : ∀ i < edges.length, ∃ e, (rowsOf nodes edges).flatten[i]? = some e ∧
      f.edges[i]? = some e.target ∧ f.weights[i]? = some e.weight := by
    intro i small
    obtain ⟨u, node, j, place, rfl⟩ := exists_slot inside small
    have here := List.getElem?_eq_getElem place
    exact ⟨_, (getElem?_slot node place).trans here, inv.put u node j _ here⟩
  have listed : ∀ {α : Type} {a : Array α} {part : Edge → α}, a.size = edges.length →
      (∀ i < edges.length, ∃ e, (rowsOf nodes edges).flatten[i]? = some e ∧
        a[i]? = some (part e)) → a.toList = (rowsOf nodes edges).flatten.map part := by
    intro α a part size places
    refine List.ext_getElem? fun i => ?_
    rw [Array.getElem?_toList, List.getElem?_map]
    rcases Nat.lt_or_ge i edges.length with small | large
    · obtain ⟨e, row, here⟩ := places i small
      rw [row, here, Option.map_some]
    · rw [Array.getElem?_eq_none (size ▸ large), List.getElem?_eq_none (total ▸ large)]
      rfl
  refine ⟨listed inv.size.1 fun i small => ?_, listed inv.size.2 fun i small => ?_⟩
  · obtain ⟨e, row, target, -⟩ := slots i small
    exact ⟨e, row, target⟩
  · obtain ⟨e, row, -, weight⟩ := slots i small
    exact ⟨e, row, weight⟩

/-! ## Flat arrays -/

/-- What flat arrays of rows hold. -/
structure Flattened (rows : List (List Edge)) (flat : Flat) : Prop where
  edges : flat.edges.toList = rows.flatten.map Edge.target
  weights : flat.weights.toList = rows.flatten.map Edge.weight
  size : flat.offsets.size = rows.length + 1
  offset : ∀ j ≤ rows.length,
    flat.offsets[j]? = some (UInt32.ofNat ((rows.take j).flatten.length))

/-- Rows have one form as flat arrays. -/
lemma Flattened.unique {rows : List (List Edge)} {flat flat' : Flat} (h : Flattened rows flat)
    (h' : Flattened rows flat') : flat = flat' := by
  have offsets : flat.offsets = flat'.offsets := by
    refine Array.ext_getElem? fun j => ?_
    rcases Nat.lt_or_ge rows.length j with past | le
    · rw [Array.getElem?_eq_none (h.size ▸ past), Array.getElem?_eq_none (h'.size ▸ past)]
    · rw [h.offset j le, h'.offset j le]
  have edges := Array.toList_inj.1 (h.edges.trans h'.edges.symm)
  have weights := Array.toList_inj.1 (h.weights.trans h'.weights.symm)
  cases flat
  cases flat'
  congr

/-- Flattening succeeds when the counts fit 32 bits and every endpoint is a node. -/
lemma flatten_eq (few : edges.length ≤ counterLimit) (small : nodes ≤ counterLimit)
    (inside : Inside nodes edges) :
    ∃ flat, flatten nodes edges = .ok flat ∧ Flattened (rowsOf nodes edges) flat := by
  obtain ⟨counts, counted, width, first, count⟩ := exists_counts few inside
  obtain ⟨offsets, carried, size, start⟩ := foldlM_carry? few inside width first count
  have blank : Filled nodes edges [] ⟨offsets.extract 0 nodes, Array.replicate edges.length 0,
      Array.replicate edges.length .zero⟩ := by
    refine ⟨fun u node => ?_, by simp, fun u node j e here => by simp [leaving] at here⟩
    rw [Array.getElem?_extract, if_pos (by omega), Nat.zero_add, start u (Nat.le_of_lt node)]
    rfl
  obtain ⟨filled, run, inv⟩ := blank.run few inside
  obtain ⟨targets, weights⟩ := inv.toList_eq inside
  refine ⟨⟨offsets.map UInt32.ofNat, filled.edges, filled.weights⟩, ?_, targets, weights,
    by simpa using size, fun j le => ?_⟩
  · have placed : arrange? nodes edges =
        some ⟨offsets.map UInt32.ofNat, filled.edges, filled.weights⟩ := by
      simp only [arrange?, counted, carried, run, Option.bind_eq_bind, Option.bind_some]
    rw [flatten, if_neg (by omega), find?_isOutside.2 inside, placed]
    rfl
  · rw [length_rowsOf] at le
    rw [Array.getElem?_map, start j le]
    rfl

/-- An endpoint that is no node is refused. -/
lemma flatten_outside (few : edges.length ≤ counterLimit) (small : nodes ≤ counterLimit)
    (outside : ¬ Inside nodes edges) :
    ∃ u v, flatten nodes edges = .error (.invalid (.endpointOutOfRange u v nodes)) := by
  obtain ⟨e, found⟩ := Option.ne_none_iff_exists'.1 (mt find?_isOutside.1 outside)
  exact ⟨e.source, e.target, by rw [flatten, if_neg (by omega), found]⟩

/-- Flattening succeeds just when the counts fit 32 bits and every endpoint is a node. -/
lemma exists_flatten_iff : (∃ flat, flatten nodes edges = .ok flat) ↔
    edges.length ≤ counterLimit ∧ nodes ≤ counterLimit ∧ Inside nodes edges := by
  constructor
  · rintro ⟨flat, run⟩
    by_cases fits : edges.length ≤ counterLimit ∧ nodes ≤ counterLimit
    · refine ⟨fits.1, fits.2, by_contra fun outside => ?_⟩
      obtain ⟨u, v, refused⟩ := flatten_outside fits.1 fits.2 outside
      cases refused.symm.trans run
    · rw [flatten, if_pos (by omega)] at run
      cases run
  · rintro ⟨few, small, inside⟩
    obtain ⟨flat, run, -⟩ := flatten_eq few small inside
    exact ⟨flat, run⟩

/-- What flattening returns holds the rows one after the other. -/
lemma flattened_of_ok {flat : Flat} (run : flatten nodes edges = .ok flat) :
    edges.length ≤ counterLimit ∧ nodes ≤ counterLimit ∧ Inside nodes edges ∧
      Flattened (rowsOf nodes edges) flat := by
  obtain ⟨few, small, inside⟩ := exists_flatten_iff.1 ⟨flat, run⟩
  obtain ⟨flat', run', inv⟩ := flatten_eq few small inside
  obtain rfl := Except.ok.inj (run'.symm.trans run)
  exact ⟨few, small, inside, inv⟩

/-- What flattening refuses is invalid. -/
lemma invalid_of_flatten {error : GraphError} (run : flatten nodes edges = .error error) :
    ∃ fault, error = .invalid fault := by
  by_cases fits : edges.length ≤ counterLimit ∧ nodes ≤ counterLimit
  · by_cases inside : Inside nodes edges
    · obtain ⟨flat, run', -⟩ := flatten_eq fits.1 fits.2 inside
      cases run'.symm.trans run
    · obtain ⟨u, v, refused⟩ := flatten_outside fits.1 fits.2 inside
      exact ⟨_, Except.error.inj (run.symm.trans refused)⟩
  · rw [flatten, if_pos (by omega)] at run
    exact ⟨_, (Except.error.inj run).symm⟩

end LedEffect.Graph
