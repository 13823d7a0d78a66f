import LedEffect.Proofs.Program.Coded

/-!
# Written operations

Whose operations stand in emitted code. A consumer reads a node by its variable, or by its formula on
what is read of the inputs (`Writes`), and the statements of a node or a palette sink perform its own
operation and those written out in its operands (`Performs`). An operation is in a piece of code because
the code is of its node, or because a node without a variable is read there (`Traces`).
-/

namespace LedEffect

namespace ResolvedEffect

variable {r : ResolvedEffect} {u v : Nat} {n : ResolvedNode}

/-- What the operand slots of a node read. -/
def inputsOf (r : ResolvedEffect) (v : Nat) : List Nat := ((r.nodes[v]?).map (·.inputs)).getD []

lemma inputsOf_eq (place : r.nodes[v]? = some n) : r.inputsOf v = n.inputs := by
  rw [inputsOf, place]
  rfl

lemma mem_inputsOf : u ∈ r.inputsOf v ↔ r.Reads v u := by
  unfold inputsOf Reads
  cases r.nodes[v]? <;> simp

end ResolvedEffect

namespace Program

open ResolvedEffect

variable {r : ResolvedEffect} {palette : Palette} {values : Values} {scope : Scope} {u v s : Nat}
  {n : ResolvedNode} {e : Expr} {form : Form} {ops : List Nat}

/-! ## Pieces of code -/

/-- How consumers of a node read it, with the nodes whose operations are written out there: by its
variable if it has one, and otherwise by its formula on what is read of its inputs. -/
inductive Writes (r : ResolvedEffect) : Nat → Expr → List Nat → Prop
  | stored {v : Nat} (materialized : r.Materialized v) : Writes r v (.name (.temporary v)) []
  | formula {v : Nat} {n : ResolvedNode} {e : Expr} (place : r.nodes[v]? = some n)
    (bare : ¬ r.Materialized v) (reading : Nat → Expr) (parts : Nat → List Nat)
    (operands : ∀ slot u, n.inputs[slot]? = some u → Writes r u (reading slot) (parts slot))
    (formed : form? v n (fun slot => (n.inputs[slot]?).map fun _ => reading slot) =
      some (.expr e)) :
    Writes r v e (v :: (List.range n.inputs.length).flatMap parts)

/-- What a node asks for, with the nodes whose operations are written out in its operands. -/
def Asks (r : ResolvedEffect) (v : Nat) (n : ResolvedNode) (form : Form) (ops : List Nat) : Prop :=
  ∃ (reading : Nat → Expr) (parts : Nat → List Nat),
    (∀ slot u, n.inputs[slot]? = some u → Writes r u (reading slot) (parts slot)) ∧
    form? v n (fun slot => (n.inputs[slot]?).map fun _ => reading slot) = some form ∧
    ops = (List.range n.inputs.length).flatMap parts

/-- The statements of a node, or those of a palette sink, with the nodes whose operations they
perform. -/
inductive Performs (r : ResolvedEffect) : List Statement → List Nat → Prop
  | computed {v : Nat} {n : ResolvedNode} {body : List Statement} {ops : List Nat}
    (place : r.nodes[v]? = some n) (asked : Asks r v n (.statements body) ops) :
    Performs r (.comment (heading n) :: body) (v :: ops)
  | shared {v : Nat} {n : ResolvedNode} {e : Expr} {ops : List Nat} (place : r.nodes[v]? = some n)
    (materialized : r.Materialized v) (asked : Asks r v n (.expr e) ops) :
    Performs r [.comment (heading n), .declare .float (.temporary v) (some e)] (v :: ops)
  | centred {s colours : Nat} {n : ResolvedNode} {brightness : Binary64}
    (place : r.nodes[s]? = some n) (kind : n.kind = .paletteInterpolate) (inputs : n.inputs = []) :
    Performs r (.declare .float .pos (some centreDistance) ::
      paletteWrite (.table s) colours brightness) [s]
  | wrapped {s u colours : Nat} {n : ResolvedNode} {brightness : Binary64} {x : Expr}
    {ops : List Nat} (place : r.nodes[s]? = some n) (kind : n.kind = .paletteInterpolate)
    (inputs : n.inputs = [u]) (written : Writes r u x ops) :
    Performs r (.declare .float .pos (some (.call2 .fmodf x (.real 1))) ::
      .branch (.binary .lt (.name .pos) (.real 0)) [.assign (.name .pos) .add (.real 1)] ::
      paletteWrite (.table s) colours brightness) (s :: ops)

/-- Consecutive pieces of code. -/
inductive PerformsAll (r : ResolvedEffect) : List Statement → List Nat → Prop
  | nil : PerformsAll r [] []
  | cons {first rest : List Statement} {ops later : List Nat} (here : Performs r first ops)
    (tail : PerformsAll r rest later) : PerformsAll r (first ++ rest) (ops ++ later)

lemma PerformsAll.one {stmts : List Statement} (here : Performs r stmts ops) :
    PerformsAll r stmts ops := by
  simpa using PerformsAll.cons here .nil

lemma PerformsAll.append {first rest : List Statement} {later : List Nat}
    (here : PerformsAll r first ops) (tail : PerformsAll r rest later) :
    PerformsAll r (first ++ rest) (ops ++ later) := by
  induction here with
  | nil => exact tail
  | cons piece _ ih =>
    rw [List.append_assoc, List.append_assoc]
    exact .cons piece ih

/-! ## Origins -/

section Origins

open Classical

/-- Whether the operations of some code are those of its own nodes, and of the nodes without a variable
that its operations read. -/
def Traces (r : ResolvedEffect) (own ops : List Nat) : Prop :=
  ops.Perm (own ++ (ops.flatMap r.inputsOf).filter fun u => ¬ r.Materialized u)

lemma Traces.count_of_materialized {own : List Nat} (traces : Traces r own ops)
    (materialized : r.Materialized v) : ops.count v = own.count v := by
  have filtered : ((ops.flatMap r.inputsOf).filter fun u => ¬ r.Materialized u).count v = 0 :=
    List.count_eq_zero.2 fun mem => of_decide_eq_true (List.mem_filter.1 mem).2 materialized
  rw [traces.count_eq, List.count_append, filtered, Nat.add_zero]

lemma Traces.count_of_bare {own : List Nat} (traces : Traces r own ops) (bare : ¬ r.Materialized v) :
    ops.count v = own.count v + (ops.flatMap r.inputsOf).count v := by
  rw [traces.count_eq, List.count_append, List.count_filter (by simpa using bare)]

lemma Traces.nil : Traces r [] [] := List.Perm.nil

lemma Traces.append {own own' ops' : List Nat} (here : Traces r own ops)
    (there : Traces r own' ops') : Traces r (own ++ own') (ops ++ ops') := by
  refine (List.Perm.append here there).trans (List.perm_iff_count.2 fun w => ?_)
  simp only [List.flatMap_append, List.filter_append, List.count_append]
  omega

/-- A node brings in its own operation, and its operands theirs. -/
lemma Traces.cons (place : r.nodes[v]? = some n)
    (inputs : Traces r (n.inputs.filter fun u => ¬ r.Materialized u) ops) :
    Traces r [v] (v :: ops) := by
  unfold Traces
  rw [List.flatMap_cons, inputsOf_eq place, List.filter_append, List.singleton_append]
  exact List.Perm.cons v inputs

/-- The operands of a node bring in what each slot does. -/
lemma Traces.slots {inputs : List Nat} {parts : Nat → List Nat}
    (each : ∀ slot u, inputs[slot]? = some u →
      Traces r ([u].filter fun u => ¬ r.Materialized u) (parts slot)) :
    Traces r (inputs.filter fun u => ¬ r.Materialized u)
      ((List.range inputs.length).flatMap parts) := by
  induction inputs generalizing parts with
  | nil => exact .nil
  | cons u inputs ih =>
    rw [List.length_cons, List.range_succ_eq_map, List.flatMap_cons, List.flatMap_map,
      ← List.singleton_append, List.filter_append]
    exact (each 0 u rfl).append (ih fun slot w input => each (slot + 1) w input)

lemma Writes.traces (written : Writes r v e ops) :
    Traces r ([v].filter fun u => ¬ r.Materialized u) ops := by
  induction written with
  | stored materialized => simpa [materialized] using Traces.nil
  | formula place bare reading parts operands formed ih =>
    simpa [bare] using Traces.cons place (.slots ih)

lemma Asks.traces (place : r.nodes[v]? = some n) (asked : Asks r v n form ops) :
    Traces r [v] (v :: ops) := by
  obtain ⟨reading, parts, operands, -, rfl⟩ := asked
  exact .cons place (.slots fun slot u input => (operands slot u input).traces)

/-- What holds of the parts of all slots holds of the parts together. -/
lemma forall_mem_slots {P : Nat → Prop} {inputs : List Nat} {parts : Nat → List Nat}
    (each : ∀ slot u, inputs[slot]? = some u → ∀ w ∈ parts slot, P w) :
    ∀ w ∈ (List.range inputs.length).flatMap parts, P w := by
  intro w mem
  obtain ⟨slot, small, mem⟩ := List.mem_flatMap.1 mem
  exact each slot _ (List.getElem?_eq_getElem (List.mem_range.1 small)) w mem

/-- What is written out where a live node is read belongs to live nodes. -/
lemma Writes.live (written : Writes r v e ops) (live : r.Live v) : ∀ w ∈ ops, r.Live w := by
  induction written with
  | stored materialized => simp
  | formula place bare reading parts operands formed ih =>
    exact List.forall_mem_cons.2 ⟨live, forall_mem_slots fun slot u input =>
      ih slot u input (live.read ⟨_, place, List.mem_of_getElem? input⟩)⟩

lemma Asks.live (place : r.nodes[v]? = some n) (asked : Asks r v n form ops) (live : r.Live v) :
    ∀ w ∈ v :: ops, r.Live w := by
  obtain ⟨reading, parts, operands, -, rfl⟩ := asked
  exact List.forall_mem_cons.2 ⟨live, forall_mem_slots fun slot u input =>
    (operands slot u input).live (live.read ⟨n, place, List.mem_of_getElem? input⟩)⟩

end Origins

/-! ## Lowered nodes -/

namespace Lowers

variable {l : Lowered}

/-- A node whose inputs are read somehow asks for its form on what is read of them. -/
lemma asks_of_writes (wf : r.WellFormed) (lowers : Lowers r values)
    (lowered : values[v]? = some (some l))
    (inputs : ∀ u, r.Reads v u → ∀ l, values[u]? = some (some l) → ∃ ops, Writes r u l.expr ops) :
    ∃ n form ops, r.nodes[v]? = some n ∧ r.Live v ∧ Asks r v n form ops ∧
      Stored v (r.readers v) n form l.expr l.block := by
  obtain ⟨n, place, live, value, run⟩ := lowers.entry lowered
  obtain ⟨-, form, asked, stored⟩ := lowerNode?_eq_some run
  have each : ∀ slot, ∃ x ops, ∀ u, n.inputs[slot]? = some u →
      operand? values n slot = some x ∧ Writes r u x ops := by
    intro slot
    cases input : n.inputs[slot]? with
    | none => exact ⟨.int 0, [], nofun⟩
    | some u =>
      have mem := List.mem_of_getElem? input
      obtain ⟨l', lowered'⟩ := lowers.input wf place live (Kind.ne_output value) mem
      obtain ⟨ops, written⟩ := inputs u ⟨n, place, mem⟩ l' lowered'
      refine ⟨l'.expr, ops, ?_⟩
      rintro _ ⟨⟩
      exact ⟨operand?_eq_some input lowered', written⟩
  choose reading parts each using each
  have operands : operand? values n = fun slot => (n.inputs[slot]?).map fun _ => reading slot := by
    funext slot
    cases input : n.inputs[slot]? with
    | none => simp [operand?, input]
    | some u => exact (each slot u input).1
  exact ⟨n, form, _, place, live, ⟨reading, parts, fun slot u input => (each slot u input).2,
    operands ▸ asked, rfl⟩, stored⟩

/-- What consumers read of a lowered node is its variable or its formula. -/
lemma writes (wf : r.WellFormed) (lowers : Lowers r values)
    (lowered : values[v]? = some (some l)) : ∃ ops, Writes r v l.expr ops := by
  induction v using wf.induction generalizing l with
  | step v ih =>
    obtain ⟨n, form, ops, place, -, asked, stored⟩ := lowers.asks_of_writes wf lowered ih
    have block := lowers.block_ne_nil_iff lowered
    generalize l.expr = e at stored ⊢
    generalize l.block = statements at stored block
    cases stored with
    | statements body => exact ⟨[], .stored (block.1 (List.cons_ne_nil _ _))⟩
    | shared e many operation => exact ⟨[], .stored (block.1 (List.cons_ne_nil _ _))⟩
    | inlined e once =>
      obtain ⟨reading, parts, operands, formed, rfl⟩ := asked
      exact ⟨_, .formula place (fun materialized => block.2 materialized rfl) reading parts operands
        formed⟩

/-- The statements of a lowered node perform its operation. -/
lemma performs_block (wf : r.WellFormed) (lowers : Lowers r values)
    (lowered : values[v]? = some (some l)) (block : l.block ≠ []) :
    ∃ ops, Performs r l.block (v :: ops) ∧ Traces r [v] (v :: ops) ∧
      ∀ w ∈ v :: ops, r.Live w := by
  obtain ⟨n, form, ops, place, live, asked, stored⟩ :=
    lowers.asks_of_writes wf lowered fun u _ l lowered => lowers.writes wf lowered
  have materialized := (lowers.block_ne_nil_iff lowered).1 block
  refine ⟨ops, ?_, asked.traces place, asked.live place live⟩
  generalize l.expr = e at stored
  generalize l.block = statements at stored block ⊢
  cases stored with
  | statements body => exact .computed place asked
  | shared e many operation => exact .shared place materialized asked
  | inlined e once => exact absurd rfl block

open Classical in
/-- The statements of a scope perform the operations of the nodes that have statements there. -/
lemma performs_blocks (wf : r.WellFormed) (lowers : Lowers r values) (scope : Scope)
    (list : List Nat) : ∃ ops, PerformsAll r (list.flatMap (blockAt values scope)) ops ∧
      Traces r (list.filter (Emitted values scope)) ops ∧ ∀ w ∈ ops, r.Live w := by
  induction list with
  | nil => exact ⟨[], .nil, .nil, by simp⟩
  | cons v list ih =>
    obtain ⟨later, tail, traces, alive⟩ := ih
    rw [List.flatMap_cons]
    by_cases emitted : Emitted values scope v
    · obtain ⟨l, lowered, here, block⟩ := id emitted
      obtain ⟨ops, performs, traces', alive'⟩ := lowers.performs_block wf lowered block
      rw [blockAt_eq lowered here, List.filter_cons_of_pos (by simpa using emitted)]
      refine ⟨_, .cons performs tail, traces'.append traces, fun w mem => ?_⟩
      exact (List.mem_append.1 mem).elim (alive' w) (alive w)
    · rw [blockAt_eq_nil emitted, List.filter_cons_of_neg (by simpa using emitted)]
      exact ⟨later, tail, traces, alive⟩

end Lowers

/-- The statements that give a palette sink its position and write the pixel perform its operation. -/
lemma performs_sink (wf : r.WellFormed) (lowers : Lowers r values) (sink : r.IsPaletteSink s)
    (place : r.nodes[s]? = some n) {position : List Statement}
    (positioned : Positioned values n position) (colours : Nat) (brightness : Binary64) :
    ∃ ops, Performs r (position ++ paletteWrite (.table s) colours brightness) (s :: ops) ∧
      Traces r [s] (s :: ops) ∧ ∀ w ∈ s :: ops, r.Live w := by
  have live : r.Live s := ⟨s, sink, .refl⟩
  obtain ⟨n', place', kind⟩ := sink
  obtain rfl := Option.some_inj.1 (place.symm.trans place')
  cases positioned with
  | centred inputs =>
    refine ⟨[], .centred place kind inputs, .cons place ?_, by simpa using live⟩
    rw [inputs]
    exact .nil
  | @wrapped u rest x inputs operand =>
    have arity := (wf.arity s n place).2
    rw [kind, inputs] at arity
    obtain rfl : rest = [] := List.eq_nil_of_length_eq_zero (by simpa [Kind.maxInputs] using arity)
    have mem : u ∈ n.inputs := by simp [inputs]
    obtain ⟨l, lowered⟩ := lowers.input wf place live (by rw [kind]; decide) mem
    obtain rfl : l.expr = x := Option.some_inj.1
      ((operand?_eq_some (by rw [inputs]; rfl) lowered).symm.trans operand)
    obtain ⟨ops, written⟩ := lowers.writes wf lowered
    refine ⟨ops, .wrapped place kind inputs written, .cons place ?_, ?_⟩
    · rw [inputs]
      exact written.traces
    · rw [List.forall_mem_cons]
      exact ⟨live, written.live (live.read ⟨n, place, mem⟩)⟩

/-- The nodes whose statements stand before the pixel loops or in that of a sink, and the sink. -/
noncomputable def codeNodes (r : ResolvedEffect) (values : Values) (s : Nat) : List Nat :=
  open Classical in
  r.order.toList.filter (Emitted values .frame) ++
    ((r.reached s).filter (Emitted values .pixel) ++ [s])

/-- The frame statements and the loop of a sink perform the operations of the nodes that have statements
there, and of the sink. -/
lemma performs_code (wf : r.WellFormed) (lowers : Lowers r values) {name : String} {p : Program}
    {code : SinkCode} (coded : Coded r palette name values p) (sink : r.IsPaletteSink s)
    (here : SinkCoded r palette values s code) :
    ∃ ops, PerformsAll r (p.frame ++ code.body) ops ∧
      Traces r (codeNodes r values s) ops ∧ ∀ w ∈ ops, r.Live w := by
  obtain ⟨n, position, brightness, place, positioned, -, -, body⟩ := here.body
  obtain ⟨early, frame, traces₁, alive₁⟩ := lowers.performs_blocks wf .frame r.order.toList
  obtain ⟨middle, pixel, traces₂, alive₂⟩ := lowers.performs_blocks wf .pixel (r.reached s)
  obtain ⟨late, last, traces₃, alive₃⟩ := performs_sink wf lowers sink place
    (.of_palettePosition? positioned) palette.keyframes.length brightness
  rw [coded.frame, body, List.append_assoc]
  refine ⟨_, frame.append (pixel.append (.one last)), traces₁.append (traces₂.append traces₃),
    fun w mem => ?_⟩
  rcases List.mem_append.1 mem with mem | mem
  · exact alive₁ w mem
  · exact (List.mem_append.1 mem).elim (alive₂ w) (alive₃ w)

end Program

end LedEffect
