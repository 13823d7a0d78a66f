import LedEffect.Proofs.Program.Comments
import LedEffect.Proofs.Program.Containment
import Mathlib.Data.List.OfFn
import Mathlib.Data.List.FinRange

/-!
# Declaration order

Nodes may be declared in any order (`compile_reorder`): the numbers in the generated names change,
and with them the order in which independent nodes are computed, but neither what is computed nor
what is counted.
-/

namespace LedEffect

open Program

/-- The numbers of nodes after a permutation of `n` nodes; other numbers stay as they are. -/
def permuted {n : Nat} (p : Equiv.Perm (Fin n)) (i : Nat) : Nat := if h : i < n then p ⟨i, h⟩ else i

/-- The effect with its nodes declared in another order: what is node `i` becomes node `p i`. -/
def Effect.reorder (e : Effect) (p : Equiv.Perm (Fin e.nodes.length)) : Effect :=
  { e with nodes := List.ofFn fun i => e.nodes.get (p.symm i) }

section Permuted

variable {n : Nat} {p : Equiv.Perm (Fin n)} {i : Nat}

lemma permuted_lt (small : i < n) : permuted p i < n := by
  simp [permuted, small]

lemma permuted_symm (i : Nat) : permuted p (permuted p.symm i) = i := by
  by_cases small : i < n
  · simp [permuted, small]
  · simp [permuted, small]

lemma permuted_injective (p : Equiv.Perm (Fin n)) : (permuted p).Injective :=
  Function.LeftInverse.injective (g := permuted p.symm) fun i => permuted_symm (p := p.symm) i

end Permuted

namespace Effect

variable {e : Effect} {p : Equiv.Perm (Fin e.nodes.length)} {r r' : ResolvedEffect}

lemma nodes_reorder_perm (e : Effect) (p : Equiv.Perm (Fin e.nodes.length)) :
    (e.reorder p).nodes.Perm e.nodes := by
  have perm := Equiv.Perm.ofFn_comp_perm p.symm e.nodes.get
  rwa [List.ofFn_get] at perm

@[simp] lemma length_reorder : (e.reorder p).nodes.length = e.nodes.length := by
  simp [reorder]

/-- A reordered effect contains the effect under the permuted numbers. -/
lemma contains_reorder (e : Effect) (p : Equiv.Perm (Fin e.nodes.length)) :
    e.Contains (permuted p) (e.reorder p) where
  injective := permuted_injective p
  node v n place := by
    obtain ⟨small, rfl⟩ := List.getElem?_eq_some_iff.1 place
    simp [reorder, permuted, small]
  inputs _ _ := rfl
  sink w n place _ := by
    have small := (List.getElem?_eq_some_iff.1 place).1
    rw [length_reorder] at small
    exact ⟨permuted p.symm w, permuted_lt small, permuted_symm w⟩

/-- The nodes that are not lowered have the same identifiers. -/
lemma unused_reorder (resolved : e.resolve = .ok r) (resolved' : (e.reorder p).resolve = .ok r') :
    (r'.unusedNodes.filterMap fun w => (r'.nodes[w]?).map (·.id)).Perm
      (r.unusedNodes.filterMap fun v => (r.nodes[v]?).map (·.id)) := by
  classical
  have wf := resolve_wellFormed resolved
  have wf' := resolve_wellFormed resolved'
  have embeds := (contains_reorder e p).embeds resolved resolved'
  obtain ⟨σ, same, perm⟩ := embeds.exists_order wf wf'
  -- Every node corresponds to one.
  have all : ResolvedEffect.kept (permuted p) r r' = r'.order.toList := by
    refine List.filter_eq_self.2 fun w mem => decide_eq_true ?_
    have small := wf'.mem_order.1 mem
    rw [size_of_resolve resolved', length_reorder] at small
    refine ⟨permuted p.symm w, ?_, permuted_symm w⟩
    rw [size_of_resolve resolved]
    exact permuted_lt small
  have id : ∀ v ∈ σ, (r'.nodes[permuted p v]?).map (·.id) = (r.nodes[v]?).map (·.id) := by
    intro v mem
    obtain ⟨n, place⟩ := ResolvedEffect.Embeds.exists_node (wf.mem_order.1 (perm.mem_iff.1 mem))
    rw [place, embeds.node v n place]
    rfl
  have unused : r'.unusedNodes = (σ.filter fun v => ¬ r.Live v ∧ ∀ n, r.nodes[v]? = some n →
      n.kind ≠ .output).map (permuted p) := by
    rw [ResolvedEffect.unusedNodes, ← all, same, List.filter_map]
    refine congrArg _ (List.filter_congr fun v mem => decide_eq_decide.2 ?_)
    obtain ⟨n, place⟩ := ResolvedEffect.Embeds.exists_node (wf.mem_order.1 (perm.mem_iff.1 mem))
    rw [embeds.live wf, embeds.node v n place, place]
    simp
  have ids : (r'.unusedNodes.filterMap fun w => (r'.nodes[w]?).map (·.id)) =
      (σ.filter fun v => ¬ r.Live v ∧ ∀ n, r.nodes[v]? = some n → n.kind ≠ .output).filterMap
        fun v => (r.nodes[v]?).map (·.id) := by
    rw [unused, List.filterMap_map]
    exact List.filterMap_congr fun v mem => id v (List.mem_of_mem_filter mem)
  rw [ids]
  exact (perm.filter _).filterMap _

/-- Lowering a reordered effect gives the program with permuted numbers, in another order. -/
lemma LowersTo.reorder {q q' : Program} {stats stats' : CompileStats} (run : e.LowersTo q stats)
    (run' : (e.reorder p).LowersTo q' stats') :
    q'.Rearranged (q.renumber (permuted p)) ∧ { stats' with unused := stats.unused } = stats ∧
      stats'.unused.Perm stats.unused := by
  obtain ⟨r, palette, resolved, chosen, lowered⟩ := run
  obtain ⟨r', palette', resolved', chosen', lowered'⟩ := run'
  obtain rfl : palette' = palette := Except.ok.inj (chosen'.symm.trans chosen)
  have wf := resolve_wellFormed resolved
  have wf' := resolve_wellFormed resolved'
  have embeds := (contains_reorder e p).embeds resolved resolved'
  have enough := Palette.two_le_length chosen
  obtain ⟨rearranged, -, same⟩ := lower?_embedded embeds wf wf' enough lowered lowered'
  obtain ⟨values, lowers⟩ := exists_lowers wf
  obtain ⟨values', lowers'⟩ := exists_lowers wf'
  have counted := Counted.of_lower? wf lowers lowered
  have counted' := Counted.of_lower? wf' lowers' lowered'
  have nodes : stats'.nodeCount = stats.nodeCount := by
    rw [counted'.nodeCount, counted.nodeCount, size_of_resolve resolved, size_of_resolve resolved',
      length_reorder]
  have edges : stats'.edgeCount = stats.edgeCount := by
    rw [counted'.edgeCount, counted.edgeCount, edgeCount_of_resolve resolved,
      edgeCount_of_resolve resolved', operandCount_of_perm (nodes_reorder_perm e p) rfl]
  refine ⟨rearranged, ?_, ?_⟩
  · rw [← same, nodes.symm, edges.symm]
  · rw [counted.unused, counted'.unused]
    exact unused_reorder resolved resolved'

/-- Declaration order does not matter. When the nodes of an effect are declared in another order, it
compiles as before; the counters are the same, the unused nodes have the same identifiers, and the
code has the same lines in some order, once the numbers in the generated names are permuted like the
nodes. -/
theorem compile_reorder (target : TargetProfile) (e : Effect) (p : Equiv.Perm (Fin e.nodes.length)) :
    ((∃ c, e.compile target = .ok c) ↔ ∃ c', (e.reorder p).compile target = .ok c') ∧
      ∀ c c', e.compile target = .ok c → (e.reorder p).compile target = .ok c' →
        { c'.stats with unused := c.stats.unused } = c.stats ∧
          c'.stats.unused.Perm c.stats.unused ∧
          ∃ program, e.LowersTo program c.stats ∧ c.code = program.render target ∧
            (textLines c'.code).Perm
              (textLines ((program.renumber (permuted p)).render target)) := by
  refine ⟨⟨fun ⟨c, run⟩ => ?_, fun ⟨c', run⟩ => ?_⟩, fun c c' run run' => ?_⟩
  · obtain ⟨q, stats, ⟨r, palette, resolved, chosen, -⟩, -⟩ := compile_eq_ok.1 run
    obtain ⟨r', resolved'⟩ := exists_resolve_of_perm (nodes_reorder_perm e p) rfl resolved
    exact exists_compile resolved' chosen
  · obtain ⟨q, stats, ⟨r, palette, resolved, chosen, -⟩, -⟩ := compile_eq_ok.1 run
    obtain ⟨r', resolved'⟩ := exists_resolve_of_perm (nodes_reorder_perm e p).symm rfl resolved
    exact exists_compile resolved' chosen
  · obtain ⟨q, stats, lowered, rfl⟩ := compile_eq_ok.1 run
    obtain ⟨q', stats', lowered', rfl⟩ := compile_eq_ok.1 run'
    obtain ⟨rearranged, numbers, unused⟩ := lowered.reorder lowered'
    refine ⟨numbers, unused, q, lowered, rfl, ?_⟩
    rw [render, render, textLines_unlines, textLines_unlines]
    exact ((rearranged.lines_perm target).flatMap_right _).append_right _

/-- The bass and the beat, added and shown. -/
def pulse : Effect :=
  (((((((empty.node (NodeSpec.new "bass" "spectrum-range")).node
    (NodeSpec.new "beat" "beat")).node
    (NodeSpec.new "sum" "add")).node
    (NodeSpec.new "strip" "palette-interpolate")).wire "bass" "sum").wire "beat" "sum").wire
      "sum" "strip")

/-- The bass and the beat may be declared last. -/
theorem compile_pulse_reversed :
    (pulse.reorder Fin.revPerm).nodes.map (·.id) = ["strip", "sum", "beat", "bass"] ∧
      ∃ c c' program, pulse.compile .default = .ok c ∧
        (pulse.reorder Fin.revPerm).compile .default = .ok c' ∧
        { c'.stats with unused := c.stats.unused } = c.stats ∧
        pulse.LowersTo program c.stats ∧ c.code = program.render .default ∧
        (textLines c'.code).Perm
          (textLines ((program.renumber (permuted (Fin.revPerm (n := 4)))).render .default)) := by
  obtain ⟨together, same⟩ := compile_reorder .default pulse Fin.revPerm
  obtain ⟨c, run⟩ : ∃ c, pulse.compile .default = .ok c := exists_of_isOk (by decide +kernel)
  obtain ⟨c', run'⟩ := together.1 ⟨c, run⟩
  obtain ⟨numbers, -, program, lowered, code, lines⟩ := same c c' run run'
  exact ⟨by decide, c, c', program, run, run', numbers, lowered, code, lines⟩

end Effect

end LedEffect
