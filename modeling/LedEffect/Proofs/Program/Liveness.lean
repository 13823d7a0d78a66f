import LedEffect.Program.Lowering
import LedEffect.Proofs.Effect.WellFormed

/-!
# Liveness

What a palette sink reads, directly or not, is live. The search from a sink marks exactly what it
reads (`reachedBy?_spec`), so the union over the sinks is the set of live nodes, and the counters of
readers count the operand slots of live nodes (`readers?_spec`).
-/

namespace LedEffect

namespace ResolvedEffect

variable {r : ResolvedEffect}

/-- Whether a node is one that another is or reads, directly or not. -/
def Reaches (r : ResolvedEffect) : Nat → Nat → Prop := Relation.ReflTransGen r.Reads

/-- Whether a number is that of a palette sink. -/
def IsPaletteSink (r : ResolvedEffect) (s : Nat) : Prop :=
  ∃ n, r.nodes[s]? = some n ∧ n.kind = .paletteInterpolate

/-- Whether a node is a palette sink or is read by one, directly or not. -/
def Live (r : ResolvedEffect) (v : Nat) : Prop := ∃ s, r.IsPaletteSink s ∧ r.Reaches s v

/-- The inputs in the operand slots of all live nodes. -/
noncomputable def liveReads (r : ResolvedEffect) : List Nat :=
  open Classical in
  (r.nodes.toList.zipIdx.filter fun n => r.Live n.2).flatMap fun n => n.1.inputs

/-- How many operand slots of live nodes read a node. -/
noncomputable def readers (r : ResolvedEffect) (v : Nat) : Nat := r.liveReads.count v

lemma IsPaletteSink.small {s : Nat} (sink : r.IsPaletteSink s) : s < r.nodes.size := by
  obtain ⟨n, place, -⟩ := sink
  exact (Array.getElem?_eq_some_iff.1 place).1

lemma WellFormed.reaches_small (wf : r.WellFormed) {u v : Nat} (small : u < r.nodes.size)
    (path : r.Reaches u v) : v < r.nodes.size := by
  cases path with
  | refl => exact small
  | tail _ read => exact wf.inside _ _ read

lemma WellFormed.live_small (wf : r.WellFormed) {v : Nat} (live : r.Live v) :
    v < r.nodes.size := by
  obtain ⟨s, sink, path⟩ := live
  exact wf.reaches_small sink.small path

lemma Live.read {u v : Nat} (live : r.Live u) (read : r.Reads u v) : r.Live v := by
  obtain ⟨s, sink, path⟩ := live
  exact ⟨s, sink, path.tail read⟩

end ResolvedEffect

namespace Program

open ResolvedEffect

variable {r : ResolvedEffect} {root : Nat}

/-! ## The search -/

/-- The number of places of a table that are not marked. -/
def unmarked (seen : Array Bool) : Nat := seen.count false

lemma unmarked_mark {seen : Array Bool} {v : Nat} (white : seen[v]? = some false) :
    unmarked (seen.set! v true) + 1 = unmarked seen := by
  obtain ⟨small, value⟩ := Array.getElem?_eq_some_iff.1 white
  have found : 0 < seen.count false := Array.count_pos_iff.2 (value ▸ Array.getElem_mem small)
  rw [unmarked, unmarked, Array.set!_eq_setIfInBounds, Array.setIfInBounds, dif_pos small,
    Array.count_set]
  simp only [value, beq_self_eq_true, if_true]
  simp
  omega

/-- What pushing unseen inputs does to the stack and the marks. -/
structure Pushed (inputs stack stack' : List Nat) (seen seen' : Array Bool) : Prop where
  size : seen'.size = seen.size
  marked : ∀ w, seen'[w]? = some true ↔ seen[w]? = some true ∨ w ∈ inputs
  kept : ∀ w ∈ stack, w ∈ stack'
  added : ∀ w ∈ stack', w ∈ stack ∨ w ∈ inputs
  stacked : ∀ w, seen'[w]? = some true → seen[w]? = some true ∨ w ∈ stack'
  work : stack'.length + unmarked seen' = stack.length + unmarked seen

lemma Pushed.skip {inputs stack stack' : List Nat} {seen seen' : Array Bool} {v : Nat}
    (pushed : Pushed inputs stack stack' seen seen') (mark : seen[v]? = some true) :
    Pushed (v :: inputs) stack stack' seen seen' where
  size := pushed.size
  marked w := by
    rw [pushed.marked, List.mem_cons]
    constructor
    · exact Or.imp_right .inr
    · rintro (old | rfl | mem)
      · exact .inl old
      · exact .inl mark
      · exact .inr mem
  kept := pushed.kept
  added w mem := (pushed.added w mem).imp_right (List.mem_cons_of_mem _)
  stacked := pushed.stacked
  work := pushed.work

lemma Pushed.push {inputs stack stack' : List Nat} {seen seen' : Array Bool} {v : Nat}
    (pushed : Pushed inputs (v :: stack) stack' (seen.set! v true) seen')
    (mark : seen[v]? = some false) : Pushed (v :: inputs) stack stack' seen seen' := by
  have bound : v < seen.size := (Array.getElem?_eq_some_iff.1 mark).1
  refine ⟨by simpa using pushed.size, fun w => ?_,
    fun w mem => pushed.kept w (List.mem_cons_of_mem _ mem), fun w mem => ?_, fun w new => ?_, ?_⟩
  · rw [pushed.marked, getElem?_set!_eq_some bound, List.mem_cons, or_assoc, or_left_comm]
  · rcases pushed.added w mem with mem | mem
    · rcases List.mem_cons.1 mem with rfl | mem
      · exact .inr List.mem_cons_self
      · exact .inl mem
    · exact .inr (List.mem_cons_of_mem _ mem)
  · rcases pushed.stacked w new with old | mem
    · rcases (getElem?_set!_eq_some bound).1 old with rfl | old
      · exact .inr (pushed.kept w List.mem_cons_self)
      · exact .inl old
    · exact .inr mem
  · have less := unmarked_mark mark
    rw [pushed.work, List.length_cons]
    omega

/-- The inputs of a node are pushed one by one, those seen before are left out. -/
lemma pushInputs_spec {inputs stack : List Nat} {seen : Array Bool}
    (inside : ∀ v ∈ inputs, v < seen.size) :
    ∃ stack' seen', inputs.foldlM (fun (stack, seen) v => do
        if ← seen[v]? then some (stack, seen) else some (v :: stack, seen.set! v true))
        (stack, seen) = some (stack', seen') ∧ Pushed inputs stack stack' seen seen' := by
  induction inputs generalizing stack seen with
  | nil =>
    exact ⟨stack, seen, rfl, rfl, by simp, fun w mem => mem, fun w mem => .inl mem,
      fun w mark => .inl mark, rfl⟩
  | cons v inputs ih =>
    obtain ⟨bound, inside⟩ := List.forall_mem_cons.1 inside
    rw [List.foldlM_cons]
    cases mark : seen[v]? with
    | none => exact absurd (Array.getElem?_eq_none_iff.1 mark) (Nat.not_le.2 bound)
    | some old =>
      cases old with
      | true =>
        obtain ⟨stack', seen', run, pushed⟩ := @ih stack seen inside
        exact ⟨stack', seen', by simpa [mark] using run, pushed.skip mark⟩
      | false =>
        obtain ⟨stack', seen', run, pushed⟩ :=
          @ih (v :: stack) (seen.set! v true) (by simpa using inside)
        exact ⟨stack', seen', by simpa [mark] using run, pushed.push mark⟩

/-- What holds during the search: marks are of nodes that the root reaches, and all that a marked
node reads is marked unless the node is still on the stack. -/
structure Searching (r : ResolvedEffect) (root : Nat) (stack : List Nat) (seen : Array Bool) :
    Prop where
  size : seen.size = r.nodes.size
  origin : seen[root]? = some true
  sound : ∀ v : Nat, seen[v]? = some true → r.Reaches root v
  stacked : ∀ v ∈ stack, seen[v]? = some true
  closed : ∀ u v : Nat, seen[u]? = some true → u ∉ stack → r.Reads u v → seen[v]? = some true

/-- Without work left the marks are of exactly what the root reaches. -/
lemma Searching.marked_iff {seen : Array Bool} (inv : Searching r root [] seen) {v : Nat} :
    seen[v]? = some true ↔ r.Reaches root v := by
  refine ⟨inv.sound v, fun path => ?_⟩
  induction path with
  | refl => exact inv.origin
  | tail _ read ih => exact inv.closed _ _ ih List.not_mem_nil read

lemma Searching.step {u : Nat} {stack stack' : List Nat} {seen seen' : Array Bool}
    {n : ResolvedNode} (inv : Searching r root (u :: stack) seen) (place : r.nodes[u]? = some n)
    (pushed : Pushed n.inputs stack stack' seen seen') : Searching r root stack' seen' := by
  have here := inv.stacked u List.mem_cons_self
  refine ⟨pushed.size.trans inv.size, (pushed.marked root).2 (.inl inv.origin), fun v mark => ?_,
    fun v mem => (pushed.marked v).2 ?_, fun w v mark free read => (pushed.marked v).2 ?_⟩
  · rcases (pushed.marked v).1 mark with old | mem
    · exact inv.sound v old
    · exact (inv.sound u here).tail ⟨n, place, mem⟩
  · exact (pushed.added v mem).imp_left fun mem => inv.stacked v (List.mem_cons_of_mem _ mem)
  · -- Only `u` has left the stack, and all that it reads is marked now.
    rcases pushed.stacked w mark with old | mem
    · by_cases same : w = u
      · subst same
        obtain ⟨n', place', mem⟩ := read
        rw [place, Option.some_inj] at place'
        exact .inr (place' ▸ mem)
      · refine .inl (inv.closed w v old (fun mem => ?_) read)
        exact free (pushed.kept w ((List.mem_cons.1 mem).resolve_left same))
    · exact absurd mem free

/-- The search finishes within as many steps as there are nodes. -/
lemma reachedFrom?_spec (wf : r.WellFormed) {fuel : Nat} {stack : List Nat} {seen : Array Bool}
    (inv : Searching r root stack seen) (enough : stack.length + unmarked seen ≤ fuel) :
    ∃ reached, reachedFrom? r.nodes fuel stack seen = some reached ∧
      Searching r root [] reached := by
  -- A step takes a node off the stack, and a node is pushed only once, when it is marked.
  induction fuel generalizing stack seen with
  | zero =>
    obtain rfl : stack = [] := List.eq_nil_of_length_eq_zero (by omega)
    exact ⟨seen, by simp [reachedFrom?], inv⟩
  | succ fuel ih =>
    cases stack with
    | nil => exact ⟨seen, by simp [reachedFrom?], inv⟩
    | cons u stack =>
      have small : u < r.nodes.size := by
        rw [← inv.size]
        exact (Array.getElem?_eq_some_iff.1 (inv.stacked u List.mem_cons_self)).1
      have place : r.nodes[u]? = some r.nodes[u] := Array.getElem?_eq_getElem small
      obtain ⟨stack', seen', run, pushed⟩ := @pushInputs_spec r.nodes[u].inputs stack seen
        (fun v mem => by rw [inv.size]; exact wf.inside u v ⟨_, place, mem⟩)
      obtain ⟨reached, rest, done⟩ := ih (inv.step place pushed) (by
        rw [pushed.work]
        rw [List.length_cons] at enough
        omega)
      refine ⟨reached, ?_, done⟩
      refine Option.bind_eq_some_iff.2 ⟨r.nodes[u], place, ?_⟩
      exact Option.bind_eq_some_iff.2 ⟨(stack', seen'), run, rest⟩

/-- The search from a node marks exactly the nodes that it reaches. -/
lemma reachedBy?_spec (wf : r.WellFormed) (small : root < r.nodes.size) :
    ∃ reached, reachedBy? r.nodes root = some reached ∧ reached.size = r.nodes.size ∧
      ∀ v : Nat, reached[v]? = some true ↔ r.Reaches root v := by
  have bound : root < (Array.replicate r.nodes.size false).size := by simpa using small
  have marks : ∀ v : Nat, ((Array.replicate r.nodes.size false).set! root true)[v]? = some true ↔
      v = root := by
    intro v
    rw [getElem?_set!_eq_some bound, Array.getElem?_replicate]
    split <;> simp
  have inv : Searching r root [root] ((Array.replicate r.nodes.size false).set! root true) := by
    refine ⟨by simp, (marks root).2 rfl, fun v mark => ?_,
      fun v mem => (marks v).2 (by simpa using mem),
      fun u v mark free _ => absurd (List.mem_singleton.2 ((marks u).1 mark)) free⟩
    rw [(marks v).1 mark]
    exact .refl
  have work := @unmarked_mark (Array.replicate r.nodes.size false) root (by simp [small])
  have enough : [root].length + unmarked ((Array.replicate r.nodes.size false).set! root true) ≤
      r.nodes.size := by
    rw [List.length_singleton, Nat.add_comm, work, unmarked]
    exact Array.count_le_size.trans (by simp)
  obtain ⟨reached, run, done⟩ := reachedFrom?_spec wf inv enough
  exact ⟨reached, by rw [reachedBy?, if_pos small, run], done.size, fun v => done.marked_iff⟩

/-! ## Live nodes and their readers -/

lemma zipWith_or_eq_true {table table' : Array Bool} (size : table.size = table'.size) (v : Nat) :
    (Array.zipWith (· || ·) table table')[v]? = some true ↔
      table[v]? = some true ∨ table'[v]? = some true := by
  rw [Array.getElem?_zipWith]
  rcases Nat.lt_or_ge v table.size with small | large
  · rw [Array.getElem?_eq_getElem small, Array.getElem?_eq_getElem (size ▸ small)]
    simp
  · rw [Array.getElem?_eq_none large, Array.getElem?_eq_none (size ▸ large)]
    simp

/-- What the sinks of a list reach is added to a table. -/
lemma addReached_spec (wf : r.WellFormed) {sinks : List Nat} {table : Array Bool}
    (nodes : ∀ s ∈ sinks, s < r.nodes.size) (size : table.size = r.nodes.size) :
    ∃ live, sinks.foldlM (fun live sink => do
        let reached ← reachedBy? r.nodes sink
        some (Array.zipWith (· || ·) live reached)) table = some live ∧
      live.size = r.nodes.size ∧
      ∀ v : Nat, live[v]? = some true ↔ table[v]? = some true ∨ ∃ s ∈ sinks, r.Reaches s v := by
  induction sinks generalizing table with
  | nil => exact ⟨table, rfl, size, by simp⟩
  | cons s sinks ih =>
    obtain ⟨here, nodes⟩ := List.forall_mem_cons.1 nodes
    obtain ⟨reached, run, size', marked⟩ := reachedBy?_spec wf here
    obtain ⟨live, rest, size'', live_iff⟩ := @ih (Array.zipWith (· || ·) table reached) nodes
      (by simp [size, size'])
    refine ⟨live, ?_, size'', fun v => ?_⟩
    · rw [List.foldlM_cons, run]
      exact rest
    · rw [live_iff, zipWith_or_eq_true (size.trans size'.symm), marked, List.exists_mem_cons_iff,
        or_assoc]

lemma liveNodes?_spec (wf : r.WellFormed) {sinks : List Nat}
    (nodes : ∀ s ∈ sinks, s < r.nodes.size) :
    ∃ live, liveNodes? r.nodes sinks = some live ∧ live.size = r.nodes.size ∧
      ∀ v : Nat, live[v]? = some true ↔ ∃ s ∈ sinks, r.Reaches s v := by
  obtain ⟨live, run, size, live_iff⟩ := @addReached_spec r wf sinks
    (Array.replicate r.nodes.size false) nodes (by simp)
  refine ⟨live, run, size, fun v => ?_⟩
  rw [live_iff, Array.getElem?_replicate]
  split <;> simp

/-- Counting the inputs of a node raises every counter by the occurrences of its index. -/
lemma countInputs_spec {inputs counted : List Nat} {counts : Array Nat}
    (inside : ∀ v ∈ inputs, v < counts.size)
    (sofar : ∀ v < counts.size, counts[v]? = some (counted.count v)) :
    ∃ final, inputs.foldlM (fun counts i => do
        let count ← counts[i]?
        some (counts.set! i (count + 1))) counts = some final ∧ final.size = counts.size ∧
      ∀ v < counts.size, final[v]? = some ((counted ++ inputs).count v) := by
  induction inputs generalizing counts counted with
  | nil => exact ⟨counts, rfl, rfl, by simpa using sofar⟩
  | cons w inputs ih =>
    obtain ⟨bound, inside⟩ := List.forall_mem_cons.1 inside
    obtain ⟨final, run, size, eq⟩ := @ih (counted ++ [w]) (counts.set! w (counted.count w + 1))
      (by simpa using inside)
      (by simpa using getElem?_set!_count sofar w)
    refine ⟨final, ?_, by simpa using size, ?_⟩
    · rw [List.foldlM_cons, sofar w bound]
      exact run
    · intro v small
      simpa using eq v (by simpa using small)

/-- The inputs of the live nodes of a list are counted. -/
lemma countLive_spec (wf : r.WellFormed) {live : Array Bool} (size : live.size = r.nodes.size)
    (live_iff : ∀ v : Nat, live[v]? = some true ↔ r.Live v) {nodes : List (ResolvedNode × Nat)}
    {counted : List Nat} {counts : Array Nat} (places : ∀ x ∈ nodes, r.nodes[x.2]? = some x.1)
    (size' : counts.size = r.nodes.size)
    (sofar : ∀ v < counts.size, counts[v]? = some (counted.count v)) :
    open Classical in
    ∃ final, nodes.foldlM (fun counts (n, c) => do
        if ← live[c]? then
          n.inputs.foldlM (fun counts i => do
            let count ← counts[i]?
            some (counts.set! i (count + 1))) counts
        else some counts) counts = some final ∧ final.size = r.nodes.size ∧
      ∀ v < r.nodes.size, final[v]? = some ((counted ++
        (nodes.filter fun n => r.Live n.2).flatMap fun n => n.1.inputs).count v) := by
  induction nodes generalizing counted counts with
  | nil => exact ⟨counts, rfl, size', fun v small => by simpa using sofar v (size' ▸ small)⟩
  | cons x nodes ih =>
    obtain ⟨n, c⟩ := x
    obtain ⟨here, places⟩ := List.forall_mem_cons.1 places
    have bound : c < live.size := by
      rw [size]
      exact (Array.getElem?_eq_some_iff.1 here).1
    have entry : live[c]? = some live[c] := Array.getElem?_eq_getElem bound
    rw [List.foldlM_cons]
    cases mark : live[c] with
    | true =>
      rw [mark] at entry
      obtain ⟨middle, run, sizeMid, counts'⟩ := @countInputs_spec n.inputs counted counts
        (fun v mem => by rw [size']; exact wf.inside c v ⟨n, here, mem⟩) sofar
      obtain ⟨final, rest, sizeEnd, eq⟩ := @ih (counted ++ n.inputs) middle places
        (sizeMid.trans size') (by rw [sizeMid]; exact counts')
      refine ⟨final, ?_, sizeEnd, fun v small => ?_⟩
      · exact Option.bind_eq_some_iff.2
          ⟨middle, Option.bind_eq_some_iff.2 ⟨true, entry, run⟩, rest⟩
      · rw [eq v small, List.filter_cons_of_pos (by simpa using (live_iff c).1 entry),
          List.flatMap_cons, List.append_assoc]
    | false =>
      rw [mark] at entry
      have dead : ¬ r.Live c := by
        rw [← live_iff, entry]
        simp
      obtain ⟨final, rest, sizeMid, eq⟩ := ih places size' sofar
      refine ⟨final, ?_, sizeMid, fun v small => ?_⟩
      · exact Option.bind_eq_some_iff.2
          ⟨counts, Option.bind_eq_some_iff.2 ⟨false, entry, rfl⟩, rest⟩
      · rw [eq v small, List.filter_cons_of_neg (by simpa using dead)]

/-- The counters of readers count the operand slots of live nodes. -/
lemma readers?_spec (wf : r.WellFormed) {live : Array Bool} (size : live.size = r.nodes.size)
    (live_iff : ∀ v : Nat, live[v]? = some true ↔ r.Live v) :
    ∃ counts, readers? r.nodes live = some counts ∧ counts.size = r.nodes.size ∧
      ∀ v < r.nodes.size, counts[v]? = some (r.readers v) := by
  obtain ⟨final, run, size', eq⟩ := @countLive_spec r wf live size live_iff r.nodes.toList.zipIdx []
    (Array.replicate r.nodes.size 0) (fun x mem => by simpa using List.mem_zipIdx_iff_getElem?.1 mem)
    (by simp) (by simp +contextual)
  refine ⟨final, run, size', fun v small => ?_⟩
  rw [eq v small, List.nil_append, readers, liveReads]

end Program

end LedEffect
