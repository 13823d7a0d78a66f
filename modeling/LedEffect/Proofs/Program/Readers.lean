import LedEffect.Proofs.Program.Operations
import LedEffect.Proofs.Program.Total

/-!
# Readers of operations

An operation is a node that computes with its inputs, so it has a variable just when operand slots of
live nodes read it twice (`IsOperation.materialized_iff`). A live node that is not read twice has one
reader, which reads it in one slot (`existsUnique_slot`).
-/

namespace LedEffect

namespace ResolvedEffect

variable {r : ResolvedEffect} {u v w : Nat} {n : ResolvedNode}

/-! ## Operations -/

/-- Whether a number is that of a node that computes with its inputs. -/
def IsOperation (r : ResolvedEffect) (v : Nat) : Prop :=
  ∃ n, r.nodes[v]? = some n ∧ n.kind ∈ [Kind.add, .multiply, .clamp, .modulo, .scale, .sin]

/-- A kind that is no sink takes inputs when it is one of an operation, and then it must have some. -/
lemma operation_kinds (k : Kind) (value : k.isSink = false) :
    (k ∈ [Kind.add, .multiply, .clamp, .modulo, .scale, .sin] ↔ 0 < k.minInputs) ∧
      (k.maxInputs = 0 ∨ 0 < k.minInputs) := by
  revert value
  cases k <;> decide

/-- The nodes with inputs are the operations and sinks. -/
lemma isOperation_iff (wf : r.WellFormed) (place : r.nodes[v]? = some n)
    (value : n.kind.isSink = false) : r.IsOperation v ↔ n.inputs ≠ [] := by
  have kinds : r.IsOperation v ↔
      n.kind ∈ [Kind.add, .multiply, .clamp, .modulo, .scale, .sin] := by
    simp [IsOperation, place]
  obtain ⟨least, most⟩ := wf.arity v n place
  obtain ⟨takes, some⟩ := operation_kinds n.kind value
  rw [kinds, takes, ← List.length_pos_iff]
  omega

lemma IsOperation.value (operation : r.IsOperation v) (place : r.nodes[v]? = some n) :
    n.kind.isSink = false := by
  obtain ⟨n', place', kind⟩ := operation
  obtain rfl := Option.some_inj.1 (place.symm.trans place')
  revert kind
  cases n.kind <;> decide

/-- The value of an operation is a formula. -/
lemma IsOperation.formula (operation : r.IsOperation v) (place : r.nodes[v]? = some n) :
    ¬ n.NeedsStatements := by
  obtain ⟨n', place', kind⟩ := operation
  obtain rfl := Option.some_inj.1 (place.symm.trans place')
  rintro (other | other | ⟨other, -⟩) <;> simp [other] at kind

/-- An operation has a variable when it is read twice. -/
lemma IsOperation.materialized_iff (wf : r.WellFormed) (operation : r.IsOperation v) :
    r.Materialized v ↔ 2 ≤ r.readers v := by
  obtain ⟨n, place, kind⟩ := id operation
  have inputs := (isOperation_iff wf place (operation.value place)).1 operation
  simp [Materialized, place, operation.formula place, inputs]

/-! ## Readers -/

open Classical in
/-- The operand slots of the live nodes, node by node. -/
lemma liveReads_eq :
    r.liveReads = ((List.range r.nodes.size).filter r.Live).flatMap r.inputsOf := by
  have indices : r.nodes.toList.zipIdx.map Prod.snd = List.range r.nodes.size := by
    rw [List.zipIdx_map_snd, ← List.range_eq_range', Array.length_toList]
  rw [liveReads, ← indices, List.filter_map, List.flatMap_map]
  refine List.flatMap_congr fun x mem => ?_
  have place := List.mem_zipIdx_iff_getElem?.1 (List.mem_of_mem_filter mem)
  rw [inputsOf_eq (n := x.1) (by simpa using place)]

open Classical in
lemma readers_eq_sum : r.readers v =
    ∑ u ∈ (Finset.range r.nodes.size).filter r.Live, (r.inputsOf u).count v := by
  rw [readers, liveReads_eq, List.count_flatMap, ← List.sum_toFinset _ (List.nodup_range.filter _)]
  congr
  ext u
  simp

lemma count_le_readers (wf : r.WellFormed) (live : r.Live u) :
    (r.inputsOf u).count v ≤ r.readers v := by
  classical
  rw [readers_eq_sum]
  exact Finset.single_le_sum (f := fun u => (r.inputsOf u).count v) (fun _ _ => Nat.zero_le _)
    (Finset.mem_filter.2 ⟨Finset.mem_range.2 (wf.live_small live), live⟩)

/-- Two live nodes read a node as often as both do together, or more often. -/
lemma count_add_count_le_readers (wf : r.WellFormed) (live : r.Live u) (live' : r.Live w)
    (differ : u ≠ w) : (r.inputsOf u).count v + (r.inputsOf w).count v ≤ r.readers v := by
  classical
  rw [readers_eq_sum]
  exact Finset.add_le_sum (f := fun u => (r.inputsOf u).count v) (fun _ _ => Nat.zero_le _)
    (Finset.mem_filter.2 ⟨Finset.mem_range.2 (wf.live_small live), live⟩)
    (Finset.mem_filter.2 ⟨Finset.mem_range.2 (wf.live_small live'), live'⟩) differ

lemma IsPaletteSink.ne_value {s : Nat} (sink : r.IsPaletteSink s) (place : r.nodes[v]? = some n)
    (value : n.kind.isSink = false) : s ≠ v := by
  rintro rfl
  obtain ⟨m, here, kind⟩ := sink
  obtain rfl := Option.some_inj.1 (place.symm.trans here)
  rw [kind] at value
  cases value

/-- A live node that is no sink has a live reader. -/
lemma Live.exists_reader (live : r.Live v) (place : r.nodes[v]? = some n)
    (value : n.kind.isSink = false) : ∃ u, r.Live u ∧ r.Reads u v := by
  obtain ⟨s, sink, path⟩ := live
  rcases Relation.ReflTransGen.cases_tail path with rfl | ⟨u, path, read⟩
  · exact absurd rfl (sink.ne_value place value)
  · exact ⟨u, ⟨s, sink, path⟩, read⟩

/-- The only reader of a node reads it once, and no other live node does. -/
lemma count_inputsOf (wf : r.WellFormed) (once : ¬ 2 ≤ r.readers v) (reader : r.Live u)
    (read : r.Reads u v) (live : r.Live w) :
    (r.inputsOf w).count v = if w = u then 1 else 0 := by
  have some := List.count_pos_iff.2 (mem_inputsOf.2 read)
  split
  next same =>
    have most : (r.inputsOf u).count v ≤ r.readers v := count_le_readers wf reader
    rw [same]
    omega
  next differ =>
    have both := @count_add_count_le_readers r u v w wf reader live (Ne.symm differ)
    omega

/-- What is in a list once has one place there. -/
lemma index_unique {list : List Nat} {i j : Nat} (once : list.count v ≤ 1)
    (here : list[i]? = some v) (there : list[j]? = some v) : i = j := by
  -- Were it in two places, it would be both before and behind a cut between them.
  have apart : ∀ {i j : Nat}, list[i]? = some v → list[j]? = some v → ¬ i < j := by
    intro i j here there lt
    have before : v ∈ list.take j := List.mem_of_getElem? (by rwa [List.getElem?_take_of_lt lt])
    have behind : v ∈ list.drop j :=
      List.mem_of_getElem? (i := 0) (by rwa [List.getElem?_drop, Nat.add_zero])
    have first := List.count_pos_iff.2 before
    have second := List.count_pos_iff.2 behind
    rw [← List.take_append_drop j list, List.count_append] at once
    omega
  have le := apart here there
  have ge := apart there here
  omega

/-- A live node that is not read twice is read in one operand slot. -/
lemma existsUnique_slot (wf : r.WellFormed) (once : ¬ 2 ≤ r.readers v) (live : r.Live v)
    (place : r.nodes[v]? = some n) (value : n.kind.isSink = false) :
    ∃! slot : Nat × Nat, r.Live slot.1 ∧ (r.inputsOf slot.1)[slot.2]? = some v := by
  obtain ⟨u, reader, read⟩ := live.exists_reader place value
  obtain ⟨i, input⟩ := List.getElem?_of_mem (mem_inputsOf.2 read)
  refine ⟨(u, i), ⟨reader, input⟩, ?_⟩
  rintro ⟨w, j⟩ ⟨reader', input'⟩
  have counts := count_inputsOf wf once reader read reader'
  have same : w = u := by
    by_contra differ
    have some := List.count_pos_iff.2 (List.mem_of_getElem? input')
    rw [if_neg differ] at counts
    omega
  subst same
  rw [if_pos rfl] at counts
  rw [index_unique (Nat.le_of_eq counts) input input']

end ResolvedEffect

end LedEffect
