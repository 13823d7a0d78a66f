import LedEffect.Program.Compile
import LedEffect.Proofs.Effect.Palettes
import LedEffect.Proofs.Effect.Ranges
import LedEffect.Proofs.Effect.Reports
import LedEffect.Proofs.Program.Coded

/-!
# Compilation stays inside its tables

Resolving and lowering look nodes, inputs and parameters up in tables. Some of these lookups answer
`outOfBounds` when there is no entry, others pass over a missing one; no effect makes either happen
(`compile_total`).
-/

namespace LedEffect

namespace ResolvedEffect

open Program

variable {r : ResolvedEffect}

/-- No output is live: a palette sink is none, and what reads a node for one is none. -/
lemma Live.ne_output (wf : r.WellFormed) {v : Nat} {n : ResolvedNode} (live : r.Live v)
    (place : r.nodes[v]? = some n) : n.kind ≠ .output := by
  obtain ⟨s, ⟨m, here, sink⟩, path⟩ := live
  induction path generalizing n with
  | refl =>
    obtain rfl := Option.some_inj.1 (place.symm.trans here)
    rw [sink]
    decide
  | tail _ read ih =>
    obtain ⟨reader, there, mem⟩ := read
    exact Kind.ne_output (wf.sinks _ reader there (ih there) _ mem n place)

/-- Whether each lookup in a resolved effect finds an entry: nodes have the parameters of their
schemas, inputs and the order are numbers of nodes, bin ranges are bounded, the marks of a search and
the tables of lowering have a place for every node, and the values that a live node reads are
lowered. -/
structure Tabled (r : ResolvedEffect) : Prop where
  params : ∀ n ∈ r.nodes.toList, n.params.map (·.1) = n.kind.params.map (·.name)
  inputs : ∀ n ∈ r.nodes.toList, ∀ i ∈ n.inputs, i < r.nodes.size
  order : ∀ i ∈ r.order.toList, i < r.nodes.size
  bins : ∀ n ∈ r.nodes.toList, n.kind = .spectrumRange ∨ n.kind = .spectrumInterpolate →
    ∃ lo hi, binBounds? n = some (lo, hi) ∧ 0 ≤ lo ∧ lo ≤ hi ∧ hi ≤ 63
  marks : ∀ u < r.nodes.size, ∃ seen, reachedBy? r.nodes u = some seen ∧ seen.size = r.nodes.size
  values : ∃ ordered live counts values, Tabulated r ordered live counts values ∧
    live.size = r.nodes.size ∧ values.size = r.nodes.size ∧
    ∀ (v : Nat) n, live[v]? = some true → r.nodes[v]? = some n → ∀ u ∈ n.inputs,
      ∃ l, values[u]? = some (some l)

lemma WellFormed.tabled (wf : r.WellFormed)
    (range : ∀ (u : Nat) n, r.nodes[u]? = some n → n.InRange) : r.Tabled where
  params n mem := by
    obtain ⟨u, place⟩ := List.getElem?_of_mem mem
    exact wf.params u n (by rwa [Array.getElem?_toList] at place)
  inputs n mem i read := by
    obtain ⟨u, place⟩ := List.getElem?_of_mem mem
    exact wf.inside u i ⟨n, by rwa [Array.getElem?_toList] at place, read⟩
  order i mem := wf.mem_order.1 mem
  bins n mem kind := by
    obtain ⟨u, place⟩ := List.getElem?_of_mem mem
    rw [Array.getElem?_toList] at place
    have names := wf.params u n place
    have listed : "startBin" ∈ n.params.map (·.1) ∧ "endBin" ∈ n.params.map (·.1) := by
      rw [names]
      rcases kind with kind | kind
      · rw [kind]
        decide
      · rw [kind]
        decide
    obtain ⟨x, first⟩ := exists_param? listed.1
    obtain ⟨y, last⟩ := exists_param? listed.2
    refine ⟨_, _, by simp only [binBounds?, wholeParam?, first, last]; rfl, ?_⟩
    exact (range u n place).bounds_mem kind
      (by simp only [binBounds?, wholeParam?, first, last]; rfl)
  marks u small := by
    obtain ⟨seen, run, size, -⟩ := reachedBy?_spec wf small
    exact ⟨seen, run, size⟩
  values := by
    obtain ⟨ordered, live, counts, values, tables⟩ := exists_tabulated wf
    refine ⟨ordered, live, counts, values, tables, tables.size, tables.lowers.size,
      fun v n mark place u read => ?_⟩
    have alive := (tables.live_iff v).1 mark
    exact tables.lowers.input wf place alive (alive.ne_output wf place) read

end ResolvedEffect

namespace Effect

/-- Whether each lookup while an effect is resolved finds an entry: wires end at nodes, a clamp has
two parameters to compare, and the inputs of checked nodes are numbers of nodes. -/
structure Tabled (e : Effect) : Prop where
  wires : ∀ pairs, e.wirePairs = .ok pairs → ∀ p ∈ pairs, p.1 < e.nodes.length
  bounds : ∀ n params, Kind.clamp.params.mapM (resolveParam n .clamp) = .ok params →
    params.length = 2
  inputs : ∀ nodes, e.checkedNodes = .ok nodes → ∀ n ∈ nodes, ∀ i ∈ n.inputs, i < nodes.length

lemma tabled (e : Effect) : e.Tabled where
  wires pairs run p mem := by
    obtain ⟨w, -, ends⟩ := Forall₂.exists_mem_left (mapM_eq_ok.1 run) mem
    obtain ⟨source, -, rest⟩ := bind_eq_ok.1 ends
    obtain ⟨target, found, eq⟩ := bind_eq_ok.1 rest
    obtain rfl := pure_eq_ok.1 eq
    unfold wireEnd at found
    split at found
    next i index =>
      cases found
      exact (List.findIdx?_eq_some_iff_getElem.1 index).1
    next => cases found
  bounds n params run := (mapM_eq_ok.1 run).length_eq.symm
  inputs nodes run := ((@checkedNodes_eq_ok e nodes.toArray.toList).1 run).inside

/-- Lowering a well-formed effect succeeds, or the error tells what is wrong with the palette. -/
lemma compileResolved_reports (target : TargetProfile) (e : Effect) {r : ResolvedEffect}
    (wf : r.WellFormed) : Reports (e.compileResolved target r) := by
  refine FailsWith.bind ?_ fun palette chosen => ?_
  · unfold Palette.ofEffect
    split
    next rows _ =>
      cases Palette.ofRows rows with
      | ok palette => exact .ok palette
      | error fault => exact .error trivial
    next =>
      dsimp only
      split
      next palette _ => exact .ok palette
      next => exact .error trivial
  · obtain ⟨program, stats, -, run, -⟩ :=
      Program.lower?_spec wf (Palette.two_le_length chosen) e.displayName
    rw [run]
    exact FailsWith.ok _

/-- For every effect and profile, resolving and then lowering with the palette of any effect
succeeds or reports what is wrong, and no lookup on the way misses its table. -/
theorem compile_total (target : TargetProfile) (e : Effect) :
    e.Tabled ∧ Reports e.resolve ∧
      ∀ r, e.resolve = .ok r → r.Tabled ∧ ∀ e' : Effect, Reports (e'.compileResolved target r) := by
  refine ⟨e.tabled, resolve_reports e, fun r run => ?_⟩
  have wf := resolve_wellFormed run
  exact ⟨wf.tabled (resolve_inRange run), fun e' => compileResolved_reports target e' wf⟩

/-- The mean of a bin range whose bounds are authored in descending order, shown in a palette that
does not exist. -/
def unpainted : Effect :=
  (((empty.node (((NodeSpec.new "mean" "spectrum-range").param "startBin" (.number 40)).param "endBin"
    (.number 8))).node (NodeSpec.new "strip" "palette-interpolate")).wire "mean" "strip").withPalette
      "nowhere"

/-- The mean resolves; under its own palette it is refused with a report, under the default palette
it compiles. -/
theorem compile_total_unpainted : ∃ r, unpainted.resolve = .ok r ∧ r.Tabled ∧
    unpainted.compileResolved .default r = .error (.unknownPalette "nowhere") ∧
    (CompileError.unknownPalette "nowhere").IsReport ∧
    Reports (empty.compileResolved .default r) := by
  obtain ⟨-, -, resolved⟩ := compile_total .default unpainted
  have accepted : unpainted.resolve.isOk = true := by decide +kernel
  cases run : unpainted.resolve with
  | error fault => simp [run, Except.isOk, Except.toBool] at accepted
  | ok r =>
    obtain ⟨tabled, reports⟩ := resolved r run
    have refused : unpainted.compileResolved .default r = .error (.unknownPalette "nowhere") := rfl
    exact ⟨r, rfl, tabled, refused, reports unpainted _ refused, reports empty⟩

end Effect

end LedEffect
