import LedEffect.Program.Compile
import LedEffect.Proofs.Program.Coded

/-!
# Counters of a compilation

What the counters of a compilation count (`Counted`): the palette sinks, the lowered nodes by the way
they are kept, and the nodes that are not lowered for want of a reader. Counting along the order is
counting nodes (`WellFormed.countP_order`).
-/

namespace LedEffect

/-! ## Kinds -/

/-- The kinds of a resolved effect are those that were authored. -/
lemma Effect.kinds_of_resolve {e : Effect} {r : ResolvedEffect} (run : e.resolve = .ok r) :
    r.kinds = e.nodes.map (·.kind) := by
  obtain ⟨checks, -⟩ := resolve_eq_ok.1 run
  exact Forall₂.map_eq (checks.nodes.imp fun _ _ checked => checked.kind)

namespace ResolvedEffect

variable {r : ResolvedEffect}

lemma count_kinds (r : ResolvedEffect) (k : Kind) :
    r.kinds.count k.id = r.nodes.toList.countP fun n => n.kind = k := by
  rw [kinds, List.count, List.countP_map]
  refine List.countP_congr fun n _ => ?_
  simp only [Function.comp_apply, beq_iff_eq, decide_eq_true_eq]
  exact ⟨Kind.id_injective, congrArg Kind.id⟩

/-- The order goes through each node once. -/
lemma WellFormed.countP_order (wf : r.WellFormed) (p : ResolvedNode → Bool) :
    r.order.toList.countP (fun v => (r.nodes[v]?).any p) = r.nodes.toList.countP p := by
  have places : (List.range r.nodes.size).map (r.nodes[·]?) = r.nodes.toList.map some := by
    refine List.ext_getElem (by simp) fun v _ _ => ?_
    simp
  calc r.order.toList.countP (fun v => (r.nodes[v]?).any p)
      = ((List.range r.nodes.size).map (r.nodes[·]?)).countP (Option.any p) := by
        rw [wf.order.countP_eq, List.countP_map]
        rfl
    _ = r.nodes.toList.countP p := by
        rw [places, List.countP_map]
        rfl

/-- There are as many palette sinks as nodes of their kind. -/
lemma WellFormed.length_paletteSinks (wf : r.WellFormed) :
    r.paletteSinks.length = r.kinds.count Kind.paletteInterpolate.id := by
  classical
  rw [count_kinds, ← wf.countP_order, paletteSinks, ← List.countP_eq_length_filter]
  refine List.countP_congr fun v _ => ?_
  rw [decide_eq_true_eq, Option.any_eq_true]
  simp only [IsPaletteSink, decide_eq_true_eq]

end ResolvedEffect

/-! ## Counters -/

/-- The nodes other than outputs that no palette sink is or reads, in dependency order. -/
noncomputable def ResolvedEffect.unusedNodes (r : ResolvedEffect) : List Nat :=
  open Classical in r.order.toList.filter fun v =>
    ¬ r.Live v ∧ ∀ n, r.nodes[v]? = some n → n.kind ≠ .output

namespace Program

open ResolvedEffect

variable {r : ResolvedEffect} {palette : Palette} {values values' : Values} {v : Nat}

/-- Whether a node is lowered to something with a property. -/
def lowersTo (values : Values) (p : Lowered → Bool) (v : Nat) : Bool :=
  ((values[v]?).join).any p

/-- Whether a node is computed into a variable of a scope. -/
def Lowered.storedIn (scope : Scope) (l : Lowered) : Bool := !l.block.isEmpty && l.scope == scope

/-- What the counters of a compilation count. -/
structure Counted (r : ResolvedEffect) (values : Values) (stats : CompileStats) : Prop where
  nodeCount : stats.nodeCount = r.nodes.size
  edgeCount : stats.edgeCount = r.view.edgeCount
  pixelLoops : stats.pixelLoops = r.paletteSinks.length
  inlined : stats.inlined = r.order.toList.countP (lowersTo values fun l => l.block.isEmpty)
  frameTemporaries :
    stats.frameTemporaries = r.order.toList.countP (lowersTo values (Lowered.storedIn .frame))
  pixelTemporaries :
    stats.pixelTemporaries = r.order.toList.countP (lowersTo values (Lowered.storedIn .pixel))
  shared : stats.shared = r.order.toList.countP (lowersTo values Lowered.shared)
  unused : stats.unused = r.unusedNodes.filterMap fun v => (r.nodes[v]?).map (·.id)

lemma exists_lowers (wf : r.WellFormed) : ∃ values, Lowers r values := by
  obtain ⟨_, _, _, values, tables⟩ := exists_tabulated wf
  exact ⟨values, tables.lowers⟩

/-- There is one table of lowered values. -/
lemma Lowers.unique (wf : r.WellFormed) (lowers : Lowers r values) (lowers' : Lowers r values') :
    values = values' := by
  refine Array.ext_getElem? fun v => ?_
  -- Along the order: the tables agree on what the node reads.
  induction v using wf.induction with
  | step v ih =>
    rcases Nat.lt_or_ge v r.nodes.size with small | large
    · have place : r.nodes[v]? = some r.nodes[v] := Array.getElem?_eq_getElem small
      by_cases active : r.Live v ∧ r.nodes[v].kind.isSink = false
      · obtain ⟨l, lowered, run⟩ := lowers.lowered v _ place active.1 active.2
        obtain ⟨l', lowered', run'⟩ := lowers'.lowered v _ place active.1 active.2
        rw [lowerNode?_congr fun u mem => ih u ⟨_, place, mem⟩, run'] at run
        rw [lowered, lowered', run]
      · rw [lowers.absent v _ place active, lowers'.absent v _ place active]
    · rw [Array.getElem?_eq_none (lowers.size ▸ large), Array.getElem?_eq_none (lowers'.size ▸ large)]

/-- Lowered nodes with a property are counted along the order. -/
lemma length_filter_lowered (ordered : List (Nat × ResolvedNode)) (p : Lowered → Bool) :
    ((ordered.filterMap fun x => (values[x.1]?).join).filter p).length =
      (ordered.map (·.1)).countP (lowersTo values p) := by
  rw [← List.countP_eq_length_filter, List.countP_filterMap, List.countP_map]
  refine List.countP_congr fun x _ => ?_
  cases h : (values[x.1]?).join <;> simp [lowersTo, h]

lemma length_filter_stored (ordered : List (Nat × ResolvedNode)) (scope : Scope) :
    (((ordered.filterMap fun x => (values[x.1]?).join).filter fun l => !l.block.isEmpty).filter
      fun l => l.scope = scope).length =
      (ordered.map (·.1)).countP (lowersTo values (Lowered.storedIn scope)) := by
  rw [List.filter_filter, length_filter_lowered]
  congr 2
  funext l
  exact Bool.and_comm _ _

/-- The counters of a compilation count what they are named for. -/
theorem Counted.of_lower? (wf : r.WellFormed) (lowers : Lowers r values) {name : String}
    {p : Program} {stats : CompileStats} (run : lower? r palette name = some (p, stats)) :
    Counted r values stats := by
  obtain ⟨ordered, live, counts, table, tables⟩ := exists_tabulated wf
  obtain rfl := tables.lowers.unique wf lowers
  obtain ⟨ordered', listed, run⟩ := Option.bind_eq_some_iff.1 run
  obtain rfl := Option.some_inj.1 (tables.listed.symm.trans listed)
  obtain ⟨live', alive, run⟩ := Option.bind_eq_some_iff.1 run
  obtain rfl := Option.some_inj.1 (tables.alive.symm.trans alive)
  obtain ⟨counts', counted, run⟩ := Option.bind_eq_some_iff.1 run
  obtain rfl := Option.some_inj.1 (tables.counted.symm.trans counted)
  obtain ⟨values', filled, run⟩ := Option.bind_eq_some_iff.1 run
  obtain rfl := Option.some_inj.1 (tables.filled.symm.trans filled)
  obtain ⟨codes, each, run⟩ := Option.bind_eq_some_iff.1 run
  obtain ⟨-, rfl⟩ := Prod.mk.inj (Option.some_inj.1 run)
  refine ⟨rfl, rfl, ?_, ?_, ?_, ?_, ?_, ?_⟩
  · rw [filter_paletteSinks tables.nodes tables.places] at each
    exact (mapM_eq_some.1 each).length_eq.symm
  · dsimp only
    rw [length_filter_lowered, tables.nodes]
  · dsimp only
    rw [length_filter_stored, tables.nodes]
  · dsimp only
    rw [length_filter_stored, tables.nodes]
  · dsimp only
    rw [length_filter_lowered, tables.nodes]
  · -- The marks are of the live nodes.
    classical
    have dead : ∀ x ∈ ordered, (live.getD x.1 false = true ↔ r.Live x.1) := by
      intro x mem
      have small := tables.size ▸ (Array.getElem?_eq_some_iff.1 (tables.places x mem)).1
      rw [← tables.live_iff, Array.getD_eq_getD_getElem?, Array.getElem?_eq_getElem small]
      simp
    dsimp only
    rw [unusedNodes, ← tables.nodes, List.filter_map, List.filterMap_map, ← List.filterMap_eq_map]
    have same : (ordered.filter fun x => !live.getD x.1 false && x.2.kind ≠ .output) =
        ordered.filter ((fun v => decide (¬ r.Live v ∧ ∀ n, r.nodes[v]? = some n →
          n.kind ≠ .output)) ∘ (·.1)) := by
      refine List.filter_congr fun x mem => ?_
      rw [Bool.eq_iff_iff]
      simp [← dead x mem, tables.places x mem]
    rw [same]
    refine List.filterMap_congr fun x mem => ?_
    simp [tables.places x (List.mem_of_mem_filter mem)]

end Program

/-- A compilation counts the nodes, the edges and the palette sinks. -/
lemma Effect.counted_of_compileResolved {e : Effect} {r : ResolvedEffect} {c : CompiledEffect}
    {target : TargetProfile} (wf : r.WellFormed) (run : e.compileResolved target r = .ok c) :
    ∃ values, Program.Counted r values c.stats := by
  obtain ⟨palette, -, rest⟩ := bind_eq_ok.1 run
  obtain ⟨values, lowers⟩ := Program.exists_lowers wf
  split at rest
  next program stats lowered =>
    obtain rfl := pure_eq_ok.1 rest
    exact ⟨values, Program.Counted.of_lower? wf lowers lowered⟩
  next => cases rest

end LedEffect
