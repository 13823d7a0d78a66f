import LedEffect.Proofs.Program.CodeSize
import LedEffect.Proofs.Program.Counters
import LedEffect.Proofs.Program.Placement
import LedEffect.Proofs.Program.Readers
import Mathlib.Data.Set.Card

/-!
# Sharing

An operation that is read twice has a variable, and any other is written out for its one reader. So an
operation stands in the code as often as what reads it, which along a path from a palette sink is never
more than once (`count_le_one`): no work is done twice, and the code does not grow with the number of
paths (`compile_shares`).
-/

namespace LedEffect

namespace Program

open ResolvedEffect

variable {r : ResolvedEffect} {palette : Palette} {values : Values} {scope : Scope} {u v s : Nat}
  {n : ResolvedNode} {l : Lowered} {ops : List Nat} {name : String} {p : Program} {code : SinkCode}

/-! ## Occurrences of operations -/

/-- Each operation of some code reads a node once if it is of its only reader. -/
lemma count_flatMap_inputsOf (wf : r.WellFormed) (once : ¬ 2 ≤ r.readers v) (reader : r.Live u)
    (read : r.Reads u v) (alive : ∀ w ∈ ops, r.Live w) :
    (ops.flatMap r.inputsOf).count v = ops.count u := by
  induction ops with
  | nil => rfl
  | cons w ops ih =>
    obtain ⟨here, alive⟩ := List.forall_mem_cons.1 alive
    rw [List.flatMap_cons, List.count_append, ih alive, List.count_cons,
      count_inputsOf wf once reader read here, Nat.add_comm]
    simp

/-- A node with statements of its own is no sink, and has a variable. -/
lemma Emitted.value (lowers : Lowers r values) (emitted : Emitted values scope v) :
    r.Materialized v ∧ ∃ n, r.nodes[v]? = some n ∧ n.kind.isSink = false := by
  obtain ⟨l, lowered, -, block⟩ := emitted
  obtain ⟨n, place, -, value, -⟩ := lowers.entry lowered
  exact ⟨(lowers.block_ne_nil_iff lowered).1 block, n, place, value⟩

open Classical in
lemma count_codeNodes (wf : r.WellFormed) (small : v < r.nodes.size) :
    (codeNodes r values s).count v = (if Emitted values .frame v then 1 else 0) +
      (if r.Reaches s v ∧ Emitted values .pixel v then 1 else 0) + if s = v then 1 else 0 := by
  have listed := wf.mem_order.2 small
  rw [codeNodes, List.count_append, List.count_append,
    List.Nodup.count (wf.nodup_order.filter _), List.Nodup.count ((wf.nodup_reached s).filter _),
    List.count_singleton]
  simp [mem_reached, listed, Nat.add_assoc]

/-- The statements of a node stand before the loops, or in the loops of the sinks that reach it. -/
lemma count_codeNodes_of_materialized (wf : r.WellFormed) (lowers : Lowers r values)
    (sink : r.IsPaletteSink s) (lowered : values[v]? = some (some l))
    (materialized : r.Materialized v) : (codeNodes r values s).count v ≤ 1 ∧
      (r.Reaches s v → (codeNodes r values s).count v = 1) := by
  obtain ⟨n, place, live, value, -⟩ := lowers.entry lowered
  have other : s ≠ v := sink.ne_value place value
  have frame : Emitted values .frame v ↔ ¬ r.PerPixel v := by
    simpa using @emitted_iff r values .frame v l wf lowers lowered materialized
  have pixel : Emitted values .pixel v ↔ r.PerPixel v := by
    simpa using @emitted_iff r values .pixel v l wf lowers lowered materialized
  rw [count_codeNodes wf (wf.live_small live), if_neg other, frame, pixel]
  by_cases perPixel : r.PerPixel v
  · by_cases path : r.Reaches s v <;> simp [perPixel, path]
  · simp [perPixel]

/-- Code has no statements of a node without a variable, nor of other sinks. -/
lemma count_codeNodes_of_idle (wf : r.WellFormed) (small : v < r.nodes.size)
    (idle : ∀ scope, ¬ Emitted values scope v) :
    (codeNodes r values s).count v = if s = v then 1 else 0 := by
  rw [count_codeNodes wf small, if_neg (idle .frame), if_neg fun h => idle .pixel h.2]
  omega

/-- Sinks are not read by live nodes. -/
lemma count_flatMap_sink (wf : r.WellFormed) (sink : r.IsPaletteSink s)
    (alive : ∀ w ∈ ops, r.Live w) : (ops.flatMap r.inputsOf).count s = 0 := by
  refine List.count_eq_zero.2 fun mem => ?_
  obtain ⟨w, listed, read⟩ := List.mem_flatMap.1 mem
  obtain ⟨m, place, input⟩ := mem_inputsOf.1 read
  obtain ⟨n, here, kind⟩ := sink
  have value := wf.sinks w m place ((alive w listed).ne_output wf place) s input n here
  rw [kind] at value
  cases value

/-- What a path from a palette sink comes to over nodes with inputs is performed once at most, and once
if the sink is the one of the code. -/
lemma count_le_one (wf : r.WellFormed) (lowers : Lowers r values) (sink : r.IsPaletteSink s)
    (traces : Traces r (codeNodes r values s) ops) (alive : ∀ w ∈ ops, r.Live w) {t : Nat}
    (root : r.IsPaletteSink t) (path : r.Reaches t v) (inputs : r.inputsOf v ≠ []) :
    ops.count v ≤ 1 ∧ (s = t → ops.count v = 1) := by
  -- Along the path: a node without a variable is performed as often as its only reader.
  induction path with
  | refl =>
    have idle : ∀ scope, ¬ Emitted values scope t := by
      intro scope emitted
      obtain ⟨-, n, place, value⟩ := emitted.value lowers
      exact root.ne_value place value rfl
    have own := @count_codeNodes_of_idle r values t s wf root.small idle
    have count : ops.count t = (codeNodes r values s).count t := by
      by_cases materialized : r.Materialized t
      · exact traces.count_of_materialized materialized
      · rw [traces.count_of_bare materialized, count_flatMap_sink wf root alive, Nat.add_zero]
    rw [count, own]
    split
    next same => exact ⟨Nat.le_refl 1, fun _ => rfl⟩
    next differ => exact ⟨Nat.zero_le 1, fun same => absurd same differ⟩
  | @tail u v path read ih =>
    have live : r.Live v := ⟨t, root, path.tail read⟩
    have reader : r.Live u := ⟨t, root, path⟩
    obtain ⟨n, place, value⟩ : ∃ n, r.nodes[v]? = some n ∧ n.kind.isSink = false := by
      obtain ⟨m, here, input⟩ := read
      have place := Array.getElem?_eq_getElem (wf.live_small live)
      exact ⟨_, place, wf.sinks u m here (reader.ne_output wf here) v input _ place⟩
    obtain ⟨l, lowered, -⟩ := lowers.lowered v n place live value
    by_cases materialized : r.Materialized v
    · rw [traces.count_of_materialized materialized]
      obtain ⟨most, once⟩ := count_codeNodes_of_materialized wf lowers sink lowered materialized
      refine ⟨most, ?_⟩
      rintro rfl
      exact once (path.tail read)
    · have other : s ≠ v := sink.ne_value place value
      have own := @count_codeNodes_of_idle r values v s wf (wf.live_small live)
        fun scope emitted => materialized (emitted.value lowers).1
      have single : ¬ 2 ≤ r.readers v := fun many =>
        materialized ⟨n, place, .inr ⟨inputsOf_eq place ▸ inputs, many⟩⟩
      rw [traces.count_of_bare materialized, own, if_neg other, Nat.zero_add,
        count_flatMap_inputsOf wf single reader read alive]
      exact ih (List.ne_nil_of_mem (mem_inputsOf.2 read))

/-! ## The size of code -/

lemma nodup_codeNodes (wf : r.WellFormed) (lowers : Lowers r values) (sink : r.IsPaletteSink s) :
    (codeNodes r values s).Nodup ∧ ∀ v ∈ codeNodes r values s, v < r.nodes.size := by
  have inside : ∀ v ∈ codeNodes r values s, v < r.nodes.size := by
    intro v mem
    rcases List.mem_append.1 mem with mem | mem
    · exact wf.mem_order.1 (List.mem_of_mem_filter mem)
    · rcases List.mem_append.1 mem with mem | mem
      · exact wf.mem_order.1 (mem_reached.1 (List.mem_of_mem_filter mem)).1
      · rw [List.mem_singleton.1 mem]
        exact sink.small
  refine ⟨List.nodup_iff_count_le_one.2 fun v => ?_, inside⟩
  by_cases mem : v ∈ codeNodes r values s
  · by_cases emitted : ∃ scope, Emitted values scope v
    · obtain ⟨scope, emitted⟩ := emitted
      have materialized := (emitted.value lowers).1
      obtain ⟨l, lowered, -⟩ := emitted
      exact (count_codeNodes_of_materialized wf lowers sink lowered materialized).1
    · rw [count_codeNodes_of_idle wf (inside v mem) fun scope idle => emitted ⟨scope, idle⟩]
      split <;> omega
  · rw [List.count_eq_zero.2 mem]
    exact Nat.zero_le 1

lemma length_flatMap_le {f : Nat → List Nat} (few : ∀ v ∈ ops, (f v).length ≤ 2) :
    (ops.flatMap f).length ≤ 2 * (ops.filter fun v => f v ≠ []).length := by
  induction ops with
  | nil => simp
  | cons v ops ih =>
    obtain ⟨here, few⟩ := List.forall_mem_cons.1 few
    have rest := ih few
    rw [List.flatMap_cons, List.length_append]
    by_cases empty : f v = []
    · rw [List.filter_cons_of_neg (by simpa using empty), empty]
      simpa using rest
    · rw [List.filter_cons_of_pos (by simpa using empty), List.length_cons]
      omega

/-- Code performs at most three operations a node: each node with inputs brings in two at most besides
those that have statements. -/
lemma length_ops_le (wf : r.WellFormed) (lowers : Lowers r values) (sink : r.IsPaletteSink s)
    (traces : Traces r (codeNodes r values s) ops) (alive : ∀ w ∈ ops, r.Live w) :
    ops.length ≤ 3 * r.nodes.size := by
  have small : ∀ w ∈ ops, w < r.nodes.size := fun w mem => wf.live_small (alive w mem)
  obtain ⟨distinct, inside⟩ := nodup_codeNodes wf lowers sink
  have own := length_le_of_nodup distinct inside
  have busy : (ops.filter fun v => r.inputsOf v ≠ []).Nodup := by
    refine List.nodup_iff_count_le_one.2 fun v => ?_
    by_cases mem : v ∈ ops.filter fun v => r.inputsOf v ≠ []
    · obtain ⟨listed, inputs⟩ := List.mem_filter.1 mem
      obtain ⟨t, root, path⟩ := alive v listed
      refine (List.filter_sublist.count_le v).trans ?_
      exact (count_le_one wf lowers sink traces alive root path (by simpa using inputs)).1
    · rw [List.count_eq_zero.2 mem]
      exact Nat.zero_le 1
  have readers := length_le_of_nodup busy fun v mem => small v (List.mem_of_mem_filter mem)
  have few : ∀ v ∈ ops, (r.inputsOf v).length ≤ 2 := by
    intro v mem
    obtain ⟨n, place⟩ : ∃ n, r.nodes[v]? = some n := ⟨_, Array.getElem?_eq_getElem (small v mem)⟩
    rw [inputsOf_eq place]
    exact (wf.arity v n place).2.trans (by cases n.kind <;> decide)
  have read := length_flatMap_le few
  have bare := List.length_filter_le (fun u => open Classical in decide (¬ r.Materialized u))
    (ops.flatMap r.inputsOf)
  have length := traces.length_eq
  rw [List.length_append] at length
  omega

/-! ## Variables -/

/-- A program declares the variable of a lowered node when the node has one. -/
lemma mem_declarations_iff (wf : r.WellFormed) (lowers : Lowers r values)
    (coded : Coded r palette name values p) (lowered : values[v]? = some (some l)) :
    .temporary v ∈ declarationsIn p.statements ↔ r.Materialized v := by
  rw [statements_eq, declarationsIn_append, List.mem_append]
  constructor
  · have emitted : ∀ {scope list}, .temporary v ∈ declarationsIn
        (List.flatMap (blockAt values scope) list) → r.Materialized v := by
      intro scope list mem
      rcases own_blocks lowers mem with ⟨u, emitted, own | own⟩ | loc
      · cases own
        exact (emitted.value lowers).1
      · cases own
      · simp at loc
    rintro (mem | mem)
    · rw [declarations_preamble coded, List.mem_append] at mem
      refine mem.elim (fun mem => absurd mem ?_) emitted
      cases p.usesCenter <;> cases p.usesLast <;> simp
    · rw [declarationsIn_flatMap, List.mem_flatMap] at mem
      obtain ⟨code, listed, mem⟩ := mem
      obtain ⟨s, -, here⟩ := Forall₂.exists_mem_left coded.sinks listed
      refine @emitted .pixel (r.reached s) ?_
      simpa [SinkCode.statements, declarations_body here]
        using mem
  · intro materialized
    have declared : .temporary v ∈ declarationsIn l.block := List.count_pos_iff.1
      (Nat.lt_of_lt_of_eq Nat.zero_lt_one (declared_block lowers lowered materialized).1.symm)
    obtain ⟨n, place, live, -⟩ := lowers.entry lowered
    have listed := wf.mem_order.2 (wf.live_small live)
    cases scope : l.scope with
    | frame =>
      left
      rw [declarations_preamble coded, List.mem_append, declarationsIn_flatMap]
      exact .inr (List.mem_flatMap.2 ⟨v, listed, by rwa [blockAt_eq lowered scope]⟩)
    | pixel =>
      right
      obtain ⟨s, sink, path⟩ := live
      obtain ⟨code, mem, here⟩ := Forall₂.exists_mem_right coded.sinks (wf.mem_paletteSinks.2 sink)
      have body : .temporary v ∈ declarationsIn code.body := by
        rw [declarations_body here, List.mem_append, declarationsIn_flatMap]
        exact .inl (List.mem_flatMap.2 ⟨v, mem_reached.2 ⟨listed, path⟩,
          by rwa [blockAt_eq lowered scope]⟩)
      rw [declarationsIn_flatMap, List.mem_flatMap]
      refine ⟨code, mem, ?_⟩
      simp [SinkCode.statements, body]

lemma lowerNode?_shared {index readers : Nat} (run : lowerNode? values index readers n = some l) :
    l.shared = true ↔ 2 ≤ readers ∧ n.inputs ≠ [] ∧ ¬ n.NeedsStatements := by
  obtain ⟨form, asked, run⟩ := Option.bind_eq_some_iff.1 run
  have needs := form?_statements_iff asked
  rw [← needs]
  cases form with
  | statements body =>
    cases run
    simp
  | expr e =>
    dsimp only at run
    split at run
    next shared =>
      cases run
      simpa using shared
    next inlined =>
      cases run
      simpa using inlined

/-- The shared nodes are the live operations that are read twice. -/
lemma lowersTo_shared_iff (wf : r.WellFormed) (lowers : Lowers r values) (small : v < r.nodes.size) :
    lowersTo values Lowered.shared v = true ↔
      r.Live v ∧ r.IsOperation v ∧ 2 ≤ r.readers v := by
  have place := Array.getElem?_eq_getElem small
  by_cases active : r.Live v ∧ r.nodes[v].kind.isSink = false
  · obtain ⟨l, lowered, run⟩ := lowers.lowered v _ place active.1 active.2
    have entry : lowersTo values Lowered.shared v = l.shared := by simp [lowersTo, lowered]
    rw [entry, lowerNode?_shared run, ← isOperation_iff wf place active.2]
    constructor
    · rintro ⟨many, operation, -⟩
      exact ⟨active.1, operation, many⟩
    · rintro ⟨-, operation, many⟩
      exact ⟨many, operation, operation.formula place⟩
  · have entry : lowersTo values Lowered.shared v = false := by
      simp [lowersTo, lowers.absent v _ place active]
    rw [entry]
    refine iff_of_false Bool.false_ne_true ?_
    rintro ⟨live, operation, -⟩
    exact active ⟨live, operation.value place⟩

lemma ncard_shared (wf : r.WellFormed) (lowers : Lowers r values) :
    r.order.toList.countP (lowersTo values Lowered.shared) =
      {v | r.Live v ∧ r.IsOperation v ∧ 2 ≤ r.readers v}.ncard := by
  have eq : {v | r.Live v ∧ r.IsOperation v ∧ 2 ≤ r.readers v} =
      ↑(r.order.toList.filter (lowersTo values Lowered.shared)).toFinset := by
    ext v
    rw [Set.mem_ofPred_eq, Finset.mem_coe, List.mem_toFinset, List.mem_filter, wf.mem_order]
    constructor
    · intro shared
      have small := wf.live_small shared.1
      exact ⟨small, (lowersTo_shared_iff wf lowers small).2 shared⟩
    · rintro ⟨small, shared⟩
      exact (lowersTo_shared_iff wf lowers small).1 shared
  rw [eq, Set.ncard_coe_finset, List.toFinset_card_of_nodup (wf.nodup_order.filter _),
    List.countP_eq_length_filter]

/-! ## Compiled effects -/

/-- How a program shares work. A live operation has a variable when two operand slots of live nodes read
it, as many as the counter says, and otherwise there is one such slot. The frame statements and the loop
of a palette sink perform each operation that the sink reaches once and any other at most once, and their
size is linear in the number of nodes. -/
structure Shares (r : ResolvedEffect) (p : Program) (stats : CompileStats) : Prop where
  sinks : p.sinks.map (·.node) = r.paletteSinks
  stored : ∀ v, r.Live v → r.IsOperation v →
    (.temporary v ∈ declarationsIn p.statements ↔ 2 ≤ r.readers v)
  counter : stats.shared = {v | r.Live v ∧ r.IsOperation v ∧ 2 ≤ r.readers v}.ncard
  slot : ∀ v, r.Live v → r.IsOperation v → ¬ 2 ≤ r.readers v →
    ∃! slot : Nat × Nat, r.Live slot.1 ∧ (r.inputsOf slot.1)[slot.2]? = some v
  code : ∀ code ∈ p.sinks, ∃ ops, PerformsAll r (p.frame ++ code.body) ops ∧
    ∀ v, r.Live v → r.IsOperation v →
      ops.count v ≤ 1 ∧ (r.Reaches code.node v → ops.count v = 1)
  size : ∀ code ∈ p.sinks, codeSize (p.frame ++ code.body) ≤ 387 * r.nodes.size

lemma Coded.shares (wf : r.WellFormed) (lowers : Lowers r values)
    (coded : Coded r palette name values p) {stats : CompileStats}
    (counted : Counted r values stats) : Shares r p stats := by
  have place : ∀ {v}, r.Live v → ∃ n, r.nodes[v]? = some n :=
    fun live => ⟨_, Array.getElem?_eq_getElem (wf.live_small live)⟩
  have each : ∀ code ∈ p.sinks, r.IsPaletteSink code.node ∧ ∃ ops,
      PerformsAll r (p.frame ++ code.body) ops ∧ Traces r (codeNodes r values code.node) ops ∧
        ∀ w ∈ ops, r.Live w := by
    intro code mem
    obtain ⟨s, listed, here⟩ := Forall₂.exists_mem_left coded.sinks mem
    have sink := wf.mem_paletteSinks.1 listed
    rw [here.node]
    exact ⟨sink, performs_code wf lowers coded sink here⟩
  refine ⟨?_, fun v live operation => ?_, ?_, fun v live operation once => ?_, fun code mem => ?_,
    fun code mem => ?_⟩
  · simpa using @Forall₂.map_eq _ _ _ id SinkCode.node _ _
      (coded.sinks.imp fun s code here => here.node)
  · obtain ⟨n, here⟩ := place live
    obtain ⟨l, lowered, -⟩ := lowers.lowered v n here live (operation.value here)
    rw [mem_declarations_iff wf lowers coded lowered, operation.materialized_iff wf]
  · rw [counted.shared, ncard_shared wf lowers]
  · obtain ⟨n, here⟩ := place live
    exact existsUnique_slot wf once live here (operation.value here)
  · obtain ⟨sink, ops, performs, traces, alive⟩ := each code mem
    refine ⟨ops, performs, fun v live operation => ?_⟩
    obtain ⟨n, here⟩ := place live
    have inputs : r.inputsOf v ≠ [] := by
      rw [inputsOf_eq here]
      exact (isOperation_iff wf here (operation.value here)).1 operation
    obtain ⟨t, root, path⟩ := live
    exact ⟨(count_le_one wf lowers sink traces alive root path inputs).1,
      fun path => (count_le_one wf lowers sink traces alive sink path inputs).2 rfl⟩
  · obtain ⟨sink, ops, performs, traces, alive⟩ := each code mem
    have size := performs.codeSize_le wf
    have few := length_ops_le wf lowers sink traces alive
    omega

/-- Whatever effect compiles, its code is that of a program that shares work. -/
theorem compile_shares {target : TargetProfile} {e : Effect} {c : CompiledEffect}
    (compiled : e.compile target = .ok c) :
    ∃ r palette p, e.resolve = .ok r ∧ Palette.ofEffect e = .ok palette ∧
      lower? r palette e.displayName = some (p, c.stats) ∧ c.code = p.render target ∧
      Shares r p c.stats := by
  obtain ⟨r, resolved, compiled⟩ := bind_eq_ok.1 compiled
  obtain ⟨palette, chosen, compiled⟩ := bind_eq_ok.1 compiled
  have wf := Effect.resolve_wellFormed resolved
  obtain ⟨p, stats, values, run, lowers, coded⟩ :=
    lower?_spec wf (Palette.two_le_length chosen) e.displayName
  rw [run] at compiled
  cases compiled
  exact ⟨r, palette, p, resolved, chosen, run, rfl,
    coded.shares wf lowers (.of_lower? wf lowers run)⟩

/-- A sine of the level, half of which two products read: one is shown, the other is dimmed first. -/
def braided : Effect :=
  let nodes := [NodeSpec.new "level" "audio-level", NodeSpec.new "ramp" "gradient",
    (NodeSpec.new "wave" "sin").input "level", (NodeSpec.new "half" "scale").input "wave",
    ((NodeSpec.new "near" "multiply").input "half").input "ramp",
    ((NodeSpec.new "far" "multiply").input "half").input "level",
    (NodeSpec.new "dimmed" "scale").input "far",
    (NodeSpec.new "left" "palette-interpolate").input "near",
    (NodeSpec.new "right" "palette-interpolate").input "dimmed"]
  nodes.foldl Effect.node Effect.empty

/-- The braided effect compiles to a program that shares its one node that is read twice. -/
theorem braided_shares : ∃ c r palette p, braided.compile default = .ok c ∧
    lower? r palette braided.displayName = some (p, c.stats) ∧ c.code = p.render default ∧
    c.stats.shared = 1 ∧ Shares r p c.stats := by
  obtain ⟨c, compiled, shared⟩ := exists_of_any (x := braided.compile default)
    (p := fun c => c.stats.shared = 1) (by decide +kernel)
  obtain ⟨r, palette, p, -, -, run, code, shares⟩ := compile_shares compiled
  exact ⟨c, r, palette, p, compiled, run, code, of_decide_eq_true shared, shares⟩

end Program

end LedEffect
