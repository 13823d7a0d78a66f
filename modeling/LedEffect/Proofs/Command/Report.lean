import LedEffect.Command.Effects
import LedEffect.Proofs.Cost.Breakdown
import LedEffect.Proofs.Effect.Palettes
import LedEffect.Proofs.Effect.Permutation
import LedEffect.Proofs.Files.Runs
import LedEffect.Proofs.Graph.Degrees
import LedEffect.Proofs.Program.Counters

/-!
# Reports

A report puts what four parts of the library counted into one record: the health of the graph, the
breakdown of the costs and the counters of the compilation. They count the same things
(`report_agrees`), and the command prints them (`report_printed`).
-/

namespace LedEffect

variable {effect : Effect} {r : ResolvedEffect} {e : Estimate} {c : CompiledEffect}
  {h : GraphHealth} {s : Settings} {model : CostModel}

/-! ## Graphs -/

/-- A resolved effect is a graph of its nodes, few enough to be numbered with 32 bits. -/
lemma Effect.view_of_resolve (run : effect.resolve = .ok r) :
    r.view.nodeCount = r.nodes.size ∧ r.view.nodeCount < 2 ^ 32 := by
  obtain ⟨checks, -, made, -⟩ := resolve_eq_ok.1 run
  obtain ⟨count, small, -⟩ := checks.view made
  exact ⟨count, small⟩

lemma Effect.topoSort_of_resolve (run : effect.resolve = .ok r) : r.view.topoSort = .ok r.order :=
  (resolve_eq_ok.1 run).2.2.2

/-- An effect that resolves has a sink, hence a node. -/
lemma Effect.nodes_of_resolve (run : effect.resolve = .ok r) : 0 < r.nodes.size := by
  obtain ⟨-, sinks, -⟩ := resolve_eq_ok.1 run
  obtain ⟨n, listed, -⟩ := (checkSinks_eq_ok.1 sinks).2
  exact Array.length_toList ▸ List.length_pos_of_mem listed

/-- A resolved effect has a kind for every node of its graph, so it can be estimated. -/
lemma exists_estimate (run : effect.resolve = .ok r) (estimator : Estimator) (model : CostModel) :
    ∃ e, estimator.estimate r.view r.kinds model = .ok e := by
  have count : ¬ r.kinds.length ≠ r.view.nodeCount := by
    rw [(Effect.view_of_resolve run).1, ResolvedEffect.kinds, List.length_map, Array.length_toList]
    exact fun differ => differ rfl
  exact ⟨_, by rw [Estimator.estimate, if_neg count]⟩

/-! ## Agreement -/

/-- The stages of a report: the effect is resolved, estimated within the budget of the settings and
compiled for their target. -/
structure Staged (s : Settings) (model : CostModel) (effect : Effect) (r : ResolvedEffect)
    (e : Estimate) (c : CompiledEffect) : Prop where
  resolved : effect.resolve = .ok r
  estimated : ∃ estimator, s.estimator = .ok estimator ∧
    estimator.estimate r.view r.kinds model = .ok e
  compiled : effect.compileResolved s.target r = .ok c

/-- What the parts of a report say about an effect together. -/
structure Agree (effect : Effect) (r : ResolvedEffect) (h : GraphHealth) (e : Estimate)
    (stats : CompileStats) : Prop where
  isDag : h.isDag = true
  compiledNodes : h.nodeCount = stats.nodeCount
  chargedNodes : h.nodeCount = (e.breakdown.entries.map fun entry => entry.2.count).sum
  compiledEdges : h.edgeCount = stats.edgeCount
  operands : h.edgeCount = effect.operandCount
  kinds : ∀ kind, kind ∈ e.breakdown.keys ↔ kind ∈ effect.nodes.map (·.kind)
  counts : ∀ kind cost, (kind, cost) ∈ e.breakdown.entries →
    cost.count = (effect.nodes.map (·.kind)).count kind
  pixelLoops : stats.pixelLoops =
    ((e.breakdown.get? Kind.paletteInterpolate.id).map KindCost.count).getD 0
  least : IsLeast r.view.Degrees h.minOutDegree
  least_mul_le : h.minOutDegree * h.nodeCount ≤ h.edgeCount
  greatest : IsGreatest r.view.Degrees h.maxOutDegree
  le_greatest_mul : h.edgeCount ≤ h.maxOutDegree * h.nodeCount

/-- Whenever an effect resolves, is estimated and compiles, its health is known too, and the four
reports agree. -/
theorem report_agrees (staged : Staged s model effect r e c) :
    ∃ h, r.view.health = .ok h ∧ Agree effect r h e c.stats := by
  obtain ⟨resolved, ⟨estimator, -, estimated⟩, compiled⟩ := staged
  obtain ⟨view, small⟩ := Effect.view_of_resolve resolved
  have wf := Effect.resolve_wellFormed resolved
  obtain ⟨values, counted⟩ := Effect.counted_of_compileResolved wf compiled
  have kinds := Effect.kinds_of_resolve resolved
  -- The estimate is made of the totals.
  have tallies : Estimator.Tallies e.breakdown r.kinds := by
    unfold Estimator.estimate at estimated
    split at estimated
    · cases estimated
    · obtain rfl := Except.ok.inj estimated
      exact Estimator.tallies_totals model r.kinds
  obtain ⟨h, healthy⟩ := Graph.exists_health small
  have summary := Graph.summarizes_of_health small (view ▸ Effect.nodes_of_resolve resolved) healthy
  have sorted := Effect.topoSort_of_resolve resolved
  refine ⟨h, healthy, ?_⟩
  exact {
    isDag := summary.isDag.2 (Graph.TopologicalOrder.of_topoSort small sorted).acyclic
    compiledNodes := by rw [summary.nodeCount, view, counted.nodeCount]
    chargedNodes := by
      rw [summary.nodeCount, view, tallies.sum_counts, ResolvedEffect.kinds, List.length_map,
        Array.length_toList]
    compiledEdges := by rw [summary.edgeCount, counted.edgeCount]
    operands := by rw [summary.edgeCount, Effect.edgeCount_of_resolve resolved]
    kinds := fun kind => kinds ▸ tallies.mem_keys_iff
    counts := fun kind cost entry => kinds ▸ tallies.count_eq entry
    pixelLoops := by rw [counted.pixelLoops, wf.length_paletteSinks, tallies.getD_count]
    least := summary.least
    least_mul_le := by
      rw [summary.nodeCount, summary.edgeCount]
      exact Graph.least_mul_le summary.least
    greatest := summary.greatest
    le_greatest_mul := by
      rw [summary.nodeCount, summary.edgeCount]
      exact Graph.le_greatest_mul summary.greatest }

/-- Two strips that show the time. -/
def twoStrips : Effect :=
  ((((Effect.empty.node (NodeSpec.new "now" "time")).node
    (NodeSpec.new "front" "palette-interpolate")).node
      (NodeSpec.new "back" "palette-interpolate")).wire "now" "front").wire "now" "back"

/-- The report on two strips that show the time. -/
theorem report_twoStrips : ∃ r e c h, Staged .default .builtin twoStrips r e c ∧
    r.view.health = .ok h ∧ Agree twoStrips r h e c.stats ∧ c.stats.pixelLoops = 2 := by
  have accepted : (twoStrips.compile Settings.default.target).toOption.any
      (·.stats.pixelLoops == 2) = true := by decide +kernel
  obtain ⟨c, run, loops⟩ := exists_of_any accepted
  obtain ⟨r, resolved, compiled⟩ := bind_eq_ok.1 run
  have usable : Settings.default.estimator.isOk = true := by decide +kernel
  obtain ⟨estimator, usable⟩ := exists_of_isOk usable
  obtain ⟨e, estimated⟩ := exists_estimate resolved estimator .builtin
  have staged : Staged .default .builtin twoStrips r e c :=
    ⟨resolved, ⟨estimator, usable, estimated⟩, compiled⟩
  obtain ⟨h, healthy, agree⟩ := report_agrees staged
  exact ⟨r, e, c, h, staged, healthy, agree, beq_iff_eq.1 loops⟩

/-! ## The command -/

/-- The record that a report prints. -/
def reportValue (h : GraphHealth) (e : Estimate) (c : CompiledEffect) : Json :=
  .object [("name", .string c.name), ("health", h.toValue), ("estimate", e.toValue),
    ("compile", c.stats.toValue), ("codeLines", .natural c.lineCount)]

open Command in
/-- The command finds the settings, the effect and the cost model on the disk, and what it prints is
the record of the stages. -/
theorem report_printed {named further : Option String} {path : String} {d d' : Disk}
    {outcome : Outcome} (run : Succeeds (report named path further) d outcome d') :
    ∃ s effect model r e c h d₁ d₂, Succeeds (loadSettings named) d s d₁ ∧
      Succeeds (readEffect path) d₁ effect d₂ ∧ Succeeds (costModel s further) d₂ model d' ∧
      Staged s model effect r e c ∧ r.view.health = .ok h ∧
      outcome = printedJson (reportValue h e c) := by
  obtain ⟨s, d₁, found, run⟩ := Succeeds.bind_iff.1 run
  obtain ⟨effect, d₂, read, run⟩ := Succeeds.bind_iff.1 run
  obtain ⟨r, _, resolve, run⟩ := Succeeds.bind_iff.1 run
  obtain ⟨resolved, rfl⟩ := Succeeds.ofExcept_iff.1 resolve
  obtain ⟨e, d₃, estimate, run⟩ := Succeeds.bind_iff.1 run
  obtain ⟨model, d₄, priced, estimate⟩ := Succeeds.bind_iff.1 estimate
  obtain ⟨estimator, _, budget, estimate⟩ := Succeeds.bind_iff.1 estimate
  obtain ⟨usable, rfl⟩ := Succeeds.ofExcept_iff.1 budget
  obtain ⟨estimated, rfl⟩ := Succeeds.ofExcept_iff.1 estimate
  obtain ⟨c, _, compile, run⟩ := Succeeds.bind_iff.1 run
  obtain ⟨compiled, rfl⟩ := Succeeds.ofExcept_iff.1 compile
  obtain ⟨h, _, health, run⟩ := Succeeds.bind_iff.1 run
  obtain ⟨healthy, rfl⟩ := Succeeds.ofExcept_iff.1 health
  obtain ⟨rfl, rfl⟩ := Succeeds.pure_iff.1 run
  exact ⟨s, effect, model, r, e, c, h, d₁, d₂, found, read, priced,
    ⟨resolved, ⟨estimator, usable, estimated⟩, compiled⟩, healthy, rfl⟩

end LedEffect
