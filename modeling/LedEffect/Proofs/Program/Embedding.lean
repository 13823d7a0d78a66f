import LedEffect.Proofs.Program.Coded
import LedEffect.Proofs.Program.Renumbering

/-!
# Effects inside larger ones

A resolved effect is embedded in another one when its nodes are found there under other numbers,
reading each other as before, and all palette sinks are among them (`ResolvedEffect.Embeds`). The
nodes besides are then dead, whatever they read, so liveness, the counts of readers and the lowered
values correspond number by number (`Embeds.live_iff`, `Embeds.readers`, `Embeds.lowered_iff`).
-/

namespace LedEffect

/-- Whether a resolved effect holds another one: what is node `v` there is node `φ v` here and reads
the nodes that correspond, and no other node is a palette sink. -/
structure ResolvedEffect.Embeds (φ : Nat → Nat) (r r' : ResolvedEffect) : Prop where
  injective : φ.Injective
  node : ∀ (v : Nat) n, r.nodes[v]? = some n →
    r'.nodes[φ v]? = some { n with inputs := n.inputs.map φ }
  sink : ∀ s, r'.IsPaletteSink s → ∃ v < r.nodes.size, φ v = s

namespace ResolvedEffect.Embeds

variable {φ : Nat → Nat} {r r' : ResolvedEffect} {u v w : Nat}

lemma exists_node (small : v < r.nodes.size) : ∃ n, r.nodes[v]? = some n :=
  ⟨_, Array.getElem?_eq_getElem small⟩

/-- A node reads what corresponds to what it reads. -/
lemma reads_iff (embeds : r.Embeds φ r') (small : u < r.nodes.size) :
    r'.Reads (φ u) w ↔ ∃ v, r.Reads u v ∧ φ v = w := by
  obtain ⟨n, place⟩ := exists_node small
  have place' := embeds.node u n place
  constructor
  · rintro ⟨n', here, mem⟩
    obtain rfl := Option.some_inj.1 (place'.symm.trans here)
    obtain ⟨v, read, rfl⟩ := List.mem_map.1 mem
    exact ⟨v, ⟨n, place, read⟩, rfl⟩
  · rintro ⟨v, ⟨n', here, mem⟩, rfl⟩
    obtain rfl := Option.some_inj.1 (place.symm.trans here)
    exact ⟨_, place', List.mem_map_of_mem mem⟩

/-- A node reaches what corresponds to what it reaches. -/
lemma reaches_iff (embeds : r.Embeds φ r') (wf : r.WellFormed) (small : u < r.nodes.size) :
    r'.Reaches (φ u) w ↔ ∃ v, r.Reaches u v ∧ φ v = w := by
  constructor
  · intro path
    induction path with
    | refl => exact ⟨u, .refl, rfl⟩
    | tail _ read ih =>
      obtain ⟨v, path, rfl⟩ := ih
      obtain ⟨v', read', rfl⟩ := (embeds.reads_iff (wf.reaches_small small path)).1 read
      exact ⟨v', path.tail read', rfl⟩
  · rintro ⟨v, path, rfl⟩
    induction path with
    | refl => exact .refl
    | tail path read ih =>
      exact ih.tail ((embeds.reads_iff (wf.reaches_small small path)).2 ⟨_, read, rfl⟩)

lemma isPaletteSink_iff (embeds : r.Embeds φ r') :
    r'.IsPaletteSink w ↔ ∃ s, r.IsPaletteSink s ∧ φ s = w := by
  constructor
  · intro sink
    obtain ⟨s, small, rfl⟩ := embeds.sink w sink
    obtain ⟨n, place⟩ := exists_node small
    obtain ⟨n', here, kind⟩ := sink
    obtain rfl := Option.some_inj.1 ((embeds.node s n place).symm.trans here)
    exact ⟨s, ⟨n, place, kind⟩, rfl⟩
  · rintro ⟨s, ⟨n, place, kind⟩, rfl⟩
    exact ⟨_, embeds.node s n place, kind⟩

/-- Live are the nodes that correspond to live ones. -/
lemma live_iff (embeds : r.Embeds φ r') (wf : r.WellFormed) :
    r'.Live w ↔ ∃ v, r.Live v ∧ φ v = w := by
  constructor
  · rintro ⟨s', sink', path'⟩
    obtain ⟨s, sink, rfl⟩ := embeds.isPaletteSink_iff.1 sink'
    obtain ⟨v, path, rfl⟩ := (embeds.reaches_iff wf sink.small).1 path'
    exact ⟨v, ⟨s, sink, path⟩, rfl⟩
  · rintro ⟨v, ⟨s, sink, path⟩, rfl⟩
    exact ⟨φ s, embeds.isPaletteSink_iff.2 ⟨s, sink, rfl⟩,
      (embeds.reaches_iff wf sink.small).2 ⟨v, path, rfl⟩⟩

lemma live (embeds : r.Embeds φ r') (wf : r.WellFormed) : r'.Live (φ v) ↔ r.Live v := by
  rw [embeds.live_iff wf]
  exact ⟨fun ⟨v', live, eq⟩ => embeds.injective eq ▸ live, fun live => ⟨v, live, rfl⟩⟩

/-! ## Readers -/

/-- The live nodes with their numbers. -/
noncomputable def liveNodes (r : ResolvedEffect) : List (ResolvedNode × Nat) :=
  open Classical in r.nodes.toList.zipIdx.filter fun x => r.Live x.2

lemma mem_liveNodes {x : ResolvedNode × Nat} :
    x ∈ liveNodes r ↔ r.nodes[x.2]? = some x.1 ∧ r.Live x.2 := by
  simp [liveNodes, List.mem_zipIdx_iff_getElem?]

lemma nodup_liveNodes (r : ResolvedEffect) : ((liveNodes r).map (·.2)).Nodup := by
  refine List.Nodup.sublist (List.filter_sublist.map _) ?_
  rw [List.zipIdx_map_snd]
  exact List.nodup_range'

/-- The live nodes of both correspond. -/
lemma liveNodes_perm (embeds : r.Embeds φ r') (wf : r.WellFormed) :
    (liveNodes r').Perm
      ((liveNodes r).map fun x => ({ x.1 with inputs := x.1.inputs.map φ }, φ x.2)) := by
  have nodup : (((liveNodes r).map fun x : ResolvedNode × Nat =>
      ({ x.1 with inputs := x.1.inputs.map φ }, φ x.2)).map (·.2)).Nodup := by
    have numbers := (nodup_liveNodes r).map embeds.injective
    simpa [List.map_map, Function.comp_def] using numbers
  refine (List.perm_ext_iff_of_nodup (.of_map _ (nodup_liveNodes r')) (.of_map _ nodup)).2 ?_
  rintro ⟨n', w⟩
  simp only [List.mem_map, mem_liveNodes]
  constructor
  · rintro ⟨place, live'⟩
    obtain ⟨v, live, rfl⟩ := (embeds.live_iff wf).1 live'
    obtain ⟨n, here⟩ := exists_node (wf.live_small live)
    obtain rfl := Option.some_inj.1 ((embeds.node v n here).symm.trans place)
    exact ⟨(n, v), ⟨here, live⟩, rfl⟩
  · rintro ⟨⟨n, v⟩, ⟨here, live⟩, eq⟩
    obtain ⟨rfl, rfl⟩ := Prod.mk.inj eq
    exact ⟨embeds.node v n here, (embeds.live wf).2 live⟩

/-- As many operand slots of live nodes read a node as the one that corresponds. -/
lemma readers (embeds : r.Embeds φ r') (wf : r.WellFormed) : r'.readers (φ v) = r.readers v := by
  have reads : r'.liveReads.Perm (r.liveReads.map φ) := by
    have perm := (embeds.liveNodes_perm wf).flatMap_right fun x => x.1.inputs
    rwa [List.flatMap_map, ← List.map_flatMap] at perm
  rw [ResolvedEffect.readers, reads.count_eq, List.count_map_of_injective _ _ embeds.injective]
  rfl

end ResolvedEffect.Embeds

namespace Program

open ResolvedEffect

variable {φ : Nat → Nat} {r r' : ResolvedEffect} {values values' : Values} {v w : Nat}

/-! ## Lowered values -/

/-- Whether the inputs of a node are lowered alike in two tables. -/
def InputsAlike (φ : Nat → Nat) (values values' : Values) (n : ResolvedNode) : Prop :=
  ∀ u ∈ n.inputs, ∃ l, values[u]? = some (some l) ∧ values'[φ u]? = some (some (l.renumber φ))

lemma operand?_renumber {n : ResolvedNode} (inputs : InputsAlike φ values values' n) (slot : Nat) :
    operand? values' { n with inputs := n.inputs.map φ } slot =
      (operand? values n slot).map (Expr.renumber φ) := by
  cases input : n.inputs[slot]? with
  | none => simp [operand?, input]
  | some u =>
    obtain ⟨l, lowered, lowered'⟩ := inputs u (List.mem_of_getElem? input)
    rw [operand?_eq_some input lowered]
    exact operand?_eq_some (by simp [input]) lowered'

lemma scopeOf_renumber {n : ResolvedNode} (inputs : InputsAlike φ values values' n) :
    scopeOf values' { n with inputs := n.inputs.map φ } = scopeOf values n := by
  unfold scopeOf
  congr 1
  rw [List.filterMap_map]
  refine List.filterMap_congr fun u mem => ?_
  obtain ⟨l, lowered, lowered'⟩ := inputs u mem
  simp [lowered, lowered', Lowered.renumber]

/-- A node is lowered under its new number as under the old one. -/
lemma lowerNode?_renumber {n : ResolvedNode} {readers : Nat}
    (inputs : InputsAlike φ values values' n) :
    lowerNode? values' (φ v) readers { n with inputs := n.inputs.map φ } =
      (lowerNode? values v readers n).map (Lowered.renumber φ) := by
  have form := @form?_renumber φ v n (n.inputs.map φ) _ _ (operand?_renumber inputs)
  have empty : n.inputs.map φ ≠ [] ↔ n.inputs ≠ [] := by simp
  rw [lowerNode?, lowerNode?, form, scopeOf_renumber inputs]
  simp only [empty]
  cases form? v n (operand? values n) with
  | none => rfl
  | some form =>
    cases form with
    | statements body => rfl
    | expr e =>
      simp only [Option.map_some, Form.renumber, Option.bind_eq_bind, Option.bind_some]
      split <;> rfl

/-- Lowered nodes correspond, but for the numbers in their code. -/
lemma Lowers.renumber (lowers : Lowers r values) (lowers' : Lowers r' values')
    (embeds : r.Embeds φ r') (wf : r.WellFormed) {l : Lowered}
    (lowered : values[v]? = some (some l)) : values'[φ v]? = some (some (l.renumber φ)) := by
  -- Along the order: what the node reads corresponds before.
  induction v using wf.induction generalizing l with
  | step v ih =>
    obtain ⟨n, place, live, value, run⟩ := lowers.entry lowered
    obtain ⟨l', lowered', run'⟩ := lowers'.lowered (φ v) _ (embeds.node v n place)
      ((embeds.live wf).2 live) value
    have inputs : InputsAlike φ values values' n := by
      intro u mem
      obtain ⟨l, input⟩ := lowers.input wf place live (Kind.ne_output value) mem
      exact ⟨l, input, ih u ⟨n, place, mem⟩ input⟩
    rw [embeds.readers wf, lowerNode?_renumber inputs, run] at run'
    rw [lowered', ← Option.some_inj.1 run']

/-- Nothing is lowered besides what corresponds to lowered nodes. -/
lemma Lowers.of_renumber (lowers : Lowers r values) (lowers' : Lowers r' values')
    (embeds : r.Embeds φ r') (wf : r.WellFormed) {l' : Lowered}
    (lowered' : values'[w]? = some (some l')) :
    ∃ v l, φ v = w ∧ values[v]? = some (some l) ∧ l' = l.renumber φ := by
  obtain ⟨n', place', live', value, -⟩ := lowers'.entry lowered'
  obtain ⟨v, live, rfl⟩ := (embeds.live_iff wf).1 live'
  obtain ⟨n, place⟩ := ResolvedEffect.Embeds.exists_node (wf.live_small live)
  obtain rfl := Option.some_inj.1 ((embeds.node v n place).symm.trans place')
  obtain ⟨l, lowered, -⟩ := lowers.lowered v n place live value
  have there := lowers.renumber lowers' embeds wf lowered
  exact ⟨v, l, rfl, lowered, Option.some_inj.1 (Option.some_inj.1 (lowered'.symm.trans there))⟩

/-- The entries of the tables under numbers that correspond. -/
lemma join_renumber (lowers : Lowers r values) (lowers' : Lowers r' values')
    (embeds : r.Embeds φ r') (wf : r.WellFormed) (v : Nat) :
    (values'[φ v]?).join = ((values[v]?).join).map (Lowered.renumber φ) := by
  cases entry : (values[v]?).join with
  | some l =>
    rw [lowers.renumber lowers' embeds wf (Option.join_eq_some_iff.1 entry)]
    rfl
  | none =>
    cases entry' : (values'[φ v]?).join with
    | none => rfl
    | some l' =>
      obtain ⟨v', l, eq, lowered, -⟩ :=
        lowers.of_renumber lowers' embeds wf (Option.join_eq_some_iff.1 entry')
      rw [embeds.injective eq, ← Option.join_eq_some_iff, entry] at lowered
      cases lowered

/-- A number that corresponds to none has no entry. -/
lemma join_eq_none (lowers : Lowers r values) (lowers' : Lowers r' values')
    (embeds : r.Embeds φ r') (wf : r.WellFormed) (besides : ∀ v < r.nodes.size, φ v ≠ w) :
    (values'[w]?).join = none := by
  cases entry : (values'[w]?).join with
  | none => rfl
  | some l' =>
    obtain ⟨v, l, eq, lowered, -⟩ :=
      lowers.of_renumber lowers' embeds wf (Option.join_eq_some_iff.1 entry)
    have small := (Array.getElem?_eq_some_iff.1 lowered).1
    rw [lowers.size] at small
    exact absurd eq (besides v small)

lemma blockAt_renumber (lowers : Lowers r values) (lowers' : Lowers r' values')
    (embeds : r.Embeds φ r') (wf : r.WellFormed) (scope : Scope) (v : Nat) :
    blockAt values' scope (φ v) = renumberAll φ (blockAt values scope v) := by
  unfold blockAt
  rw [join_renumber lowers lowers' embeds wf]
  cases (values[v]?).join with
  | none => rfl
  | some l =>
    simp only [Option.map_some, Lowered.renumber]
    split <;> rfl

end Program

end LedEffect
