import LedEffect.Proofs.Effect.Extension
import LedEffect.Proofs.Program.Containment

/-!
# Dead nodes

Nodes that are appended to an effect, read by none of its nodes and no palette sinks themselves, are
dead: they change neither the code nor what is counted of it (`compile_extend`).
-/

namespace LedEffect.Effect

open Program

/-- The effect with more nodes behind its own, under other wires. -/
def extend (e : Effect) (added : List NodeSpec) (wires : List WireSpec) : Effect :=
  { e with nodes := e.nodes ++ added, wires := wires }

variable {e : Effect} {added : List NodeSpec} {wires : List WireSpec} {r r' : ResolvedEffect}

/-- Whether nodes are dead in an extended effect: its old nodes read what they read before, and no
new node is a palette sink. -/
structure Dead (e : Effect) (added : List NodeSpec) (wires : List WireSpec) : Prop where
  inputs : ∀ n ∈ e.nodes, (e.extend added wires).effectiveInputs n = e.effectiveInputs n
  sinks : ∀ n ∈ added, n.kind ≠ Kind.paletteInterpolate.id

lemma Dead.contains (dead : e.Dead added wires) : e.Contains id (e.extend added wires) where
  injective := Function.injective_id
  node v n place := by
    rw [id, extend, List.getElem?_append_left (List.getElem?_eq_some_iff.1 place).1, place]
  inputs := dead.inputs
  sink w n place kind := by
    refine ⟨w, ?_, rfl⟩
    by_contra large
    rw [extend, List.getElem?_append_right (Nat.le_of_not_lt large)] at place
    exact dead.sinks n (List.mem_of_getElem? place) kind

/-- The nodes of an effect resolve to the same when dead nodes are appended. -/
lemma Dead.appended (dead : e.Dead added wires) (run : e.resolve = .ok r)
    (run' : (e.extend added wires).resolve = .ok r') :
    ∃ new, r'.nodes.toList = r.nodes.toList ++ new := by
  have embeds := dead.contains.embeds run run'
  have size : r.nodes.size ≤ r'.nodes.size := by
    rw [size_of_resolve run, size_of_resolve run', extend, List.length_append]
    exact Nat.le_add_right _ _
  suffices prefixed : r.nodes.toList <+: r'.nodes.toList by
    obtain ⟨new, eq⟩ := prefixed
    exact ⟨new, eq.symm⟩
  refine List.prefix_iff_getElem?.2 fun v small => ?_
  have place := embeds.node v r.nodes.toList[v] (by simp)
  rw [List.map_id] at place
  rw [Array.getElem?_toList]
  exact place

/-- Dead nodes never change the code. When an effect is extended by nodes that none of its own nodes
reads and that are no palette sinks, and both compile, the code is the same, and so are all counters
but those of nodes, of edges and of unused nodes. -/
theorem compile_extend (target : TargetProfile) (e : Effect) (added : List NodeSpec)
    (wires : List WireSpec) (dead : e.Dead added wires) {c c' : CompiledEffect}
    (run : e.compile target = .ok c) (run' : (e.extend added wires).compile target = .ok c') :
    c'.code = c.code ∧
      { c'.stats with
        nodeCount := c.stats.nodeCount
        edgeCount := c.stats.edgeCount
        unused := c.stats.unused } = c.stats := by
  obtain ⟨p, stats, ⟨r, palette, resolved, chosen, lowered⟩, rfl⟩ := compile_eq_ok.1 run
  obtain ⟨p', stats', ⟨r', palette', resolved', chosen', lowered'⟩, rfl⟩ := compile_eq_ok.1 run'
  obtain rfl : palette' = palette := Except.ok.inj (chosen'.symm.trans chosen)
  have wf := resolve_wellFormed resolved
  have wf' := resolve_wellFormed resolved'
  have embeds := dead.contains.embeds resolved resolved'
  obtain ⟨-, ordered, counters⟩ :=
    lower?_embedded embeds wf wf' (Palette.two_le_length chosen) lowered lowered'
  have kept : ResolvedEffect.kept id r r' = r.order.toList.map id := by
    obtain ⟨new, appended⟩ := dead.appended resolved resolved'
    rw [List.map_id, ← filter_order_of_appended resolved resolved' appended]
    refine List.filter_congr fun w _ => decide_eq_decide.2 ?_
    simp
  refine ⟨?_, counters⟩
  rw [ordered kept, renumber_id]

/-- A sine that is scaled and shown. -/
def wave : Effect :=
  ((((empty.node (NodeSpec.new "time" "time")).node
    ((NodeSpec.new "sine" "sin").input "time")).node
    ((NodeSpec.new "half" "scale").input "sine")).node
    (NodeSpec.new "strip" "palette-interpolate")).wire "half" "strip"

/-- A square of the sine, read twice, and an output of it. -/
def waveReaders : List NodeSpec :=
  [((NodeSpec.new "square" "multiply").input "sine").input "sine", NodeSpec.new "level" "output"]

/-- The sine does not become a variable for readers that are dead. -/
theorem compile_wave_extended :
    let wires := wave.wires ++ [⟨"square", "level", none⟩]
    wave.Dead waveReaders wires ∧
      ∃ c c', wave.compile .default = .ok c ∧
        (wave.extend waveReaders wires).compile .default = .ok c' ∧ c'.code = c.code ∧
        { c'.stats with
          nodeCount := c.stats.nodeCount
          edgeCount := c.stats.edgeCount
          unused := c.stats.unused } = c.stats := by
  have dead : wave.Dead waveReaders (wave.wires ++ [⟨"square", "level", none⟩]) :=
    ⟨by decide, by decide⟩
  obtain ⟨c, run⟩ : ∃ c, wave.compile .default = .ok c := exists_of_isOk (by decide +kernel)
  obtain ⟨c', run'⟩ : ∃ c', (wave.extend waveReaders (wave.wires ++
      [⟨"square", "level", none⟩])).compile .default = .ok c' := exists_of_isOk (by decide +kernel)
  obtain ⟨code, counters⟩ := compile_extend .default wave waveReaders _ dead run run'
  exact ⟨dead, c, c', run, run', code, counters⟩

end LedEffect.Effect
