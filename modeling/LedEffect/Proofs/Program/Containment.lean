import LedEffect.Program.Compile
import LedEffect.Proofs.Effect.Palettes
import LedEffect.Proofs.Effect.Permutation
import LedEffect.Proofs.Program.Orders

/-!
# Effects inside larger ones

One effect contains another when the nodes of the second are found in the first, read the same names,
and no other node is a palette sink (`Effect.Contains`). If both resolve, the resolved effects are
embedded in the same way (`Contains.embeds`), so the code of the larger effect is that of the smaller
one, in another order and with other numbers (`Contains.lower?`).
-/

namespace LedEffect

namespace Program

open ResolvedEffect

/-- Lowering a larger effect gives the program of the embedded one with other numbers and with its
statements in other places, and the same program but for numbers if the nodes keep their order. -/
lemma lower?_embedded {φ : Nat → Nat} {r r' : ResolvedEffect} (embeds : r.Embeds φ r')
    (wf : r.WellFormed) (wf' : r'.WellFormed) {palette : Palette}
    (enough : 2 ≤ palette.keyframes.length) {name : String} {p p' : Program}
    {stats stats' : CompileStats} (run : lower? r palette name = some (p, stats))
    (run' : lower? r' palette name = some (p', stats')) :
    p'.Rearranged (p.renumber φ) ∧
      (kept φ r r' = r.order.toList.map φ → p' = p.renumber φ) ∧
      { stats' with
        nodeCount := stats.nodeCount, edgeCount := stats.edgeCount, unused := stats.unused } = stats := by
  obtain ⟨p₀, stats₀, values, lowered, lowers, coded⟩ := lower?_spec wf enough name
  obtain ⟨rfl, rfl⟩ := Prod.mk.inj (Option.some_inj.1 (lowered.symm.trans run))
  obtain ⟨p₁, stats₁, values', lowered', lowers', coded'⟩ := lower?_spec wf' enough name
  obtain ⟨rfl, rfl⟩ := Prod.mk.inj (Option.some_inj.1 (lowered'.symm.trans run'))
  refine ⟨?_, fun same => ?_, ?_⟩
  · obtain ⟨σ, same, perm⟩ := embeds.exists_order wf wf'
    obtain ⟨q, along, rfl⟩ := coded'.embedded lowers lowers' embeds wf same
    exact (along.rearranged perm coded).renumber
  · obtain ⟨q, along, rfl⟩ := coded'.embedded lowers lowers' embeds wf same
    rw [Coded.unique along coded]
  · have counted := Counted.of_lower? wf lowers run
    have counted' := Counted.of_lower? wf' lowers' run'
    have loops : r'.paletteSinks.length = r.paletteSinks.length := by
      obtain ⟨σ, same, perm⟩ := embeds.exists_order wf wf'
      rw [embeds.paletteSinks same, List.length_map]
      exact (perm.filter _).length_eq
    have equal : ∀ P : Lowered → Bool, (∀ l, P (l.renumber φ) = P l) →
        r'.order.toList.countP (lowersTo values' P) = r.order.toList.countP (lowersTo values P) :=
      fun P free => countP_embedded lowers lowers' embeds wf wf' free
    have stored : ∀ (scope : Scope) (l : Lowered), (l.renumber φ).storedIn scope = l.storedIn scope := by
      intro scope l
      simp [Lowered.storedIn, Lowered.renumber]
    cases stats₀
    simp only [CompileStats.mk.injEq, true_and, and_true]
    refine ⟨?_, ?_, ?_, ?_, ?_⟩
    · rw [counted'.pixelLoops, loops, ← counted.pixelLoops]
    · rw [counted'.inlined, equal _ fun l => isEmpty_renumberAll φ l.block, ← counted.inlined]
    · rw [counted'.frameTemporaries, equal _ (stored .frame), ← counted.frameTemporaries]
    · rw [counted'.pixelTemporaries, equal _ (stored .pixel), ← counted.pixelTemporaries]
    · rw [counted'.shared, equal _ fun _ => rfl, ← counted.shared]

end Program

namespace Effect

open Program

/-- Whether a program, with some counters, is what an effect is lowered to. -/
def LowersTo (e : Effect) (p : Program) (stats : CompileStats) : Prop :=
  ∃ r palette, e.resolve = .ok r ∧ Palette.ofEffect e = .ok palette ∧
    lower? r palette e.displayName = some (p, stats)

/-- A compiled effect is the printed program that the effect is lowered to. -/
lemma compile_eq_ok {target : TargetProfile} {e : Effect} {c : CompiledEffect} :
    e.compile target = .ok c ↔
      ∃ p stats, e.LowersTo p stats ∧ c = ⟨e.displayName, p.render target, stats⟩ := by
  unfold compile
  rw [bind_eq_ok]
  constructor
  · rintro ⟨r, resolved, run⟩
    obtain ⟨palette, chosen, run⟩ := bind_eq_ok.1 run
    split at run
    next p stats lowered =>
      obtain rfl := pure_eq_ok.1 run
      exact ⟨p, stats, ⟨r, palette, resolved, chosen, lowered⟩, rfl⟩
    next => cases run
  · rintro ⟨p, stats, ⟨r, palette, resolved, chosen, lowered⟩, rfl⟩
    exact ⟨r, resolved, bind_eq_ok.2 ⟨palette, chosen, by rw [lowered]; rfl⟩⟩

/-- An effect that resolves and has a palette compiles. -/
lemma exists_compile {target : TargetProfile} {e : Effect} {r : ResolvedEffect} {palette : Palette}
    (resolved : e.resolve = .ok r) (chosen : Palette.ofEffect e = .ok palette) :
    ∃ c, e.compile target = .ok c := by
  obtain ⟨p, stats, -, lowered, -⟩ :=
    lower?_spec (resolve_wellFormed resolved) (Palette.two_le_length chosen) e.displayName
  exact ⟨_, compile_eq_ok.2 ⟨p, stats, ⟨r, palette, resolved, chosen, lowered⟩, rfl⟩⟩

/-- Whether an effect contains another one: what is node `v` there is node `φ v` here and reads the
same names, and no other node is a palette sink. -/
structure Contains (φ : Nat → Nat) (e e' : Effect) : Prop where
  injective : φ.Injective
  node : ∀ (v : Nat) n, e.nodes[v]? = some n → e'.nodes[φ v]? = some n
  inputs : ∀ n ∈ e.nodes, e'.effectiveInputs n = e.effectiveInputs n
  sink : ∀ (w : Nat) n, e'.nodes[w]? = some n → n.kind = Kind.paletteInterpolate.id →
    ∃ v < e.nodes.length, φ v = w

namespace Contains

variable {φ : Nat → Nat} {e e' : Effect} {r r' : ResolvedEffect} {id : String} {v : Nat}
  {n : NodeSpec} {m m' : ResolvedNode}

lemma hasNumber (contains : e.Contains φ e') (number : e.HasNumber id v) :
    e'.HasNumber id (φ v) := by
  obtain ⟨n, place, rfl⟩ := hasNumber_iff.1 number
  exact hasNumber_iff.2 ⟨n, contains.node v n place, rfl⟩

/-- A node is checked to the same, but for the numbers of its inputs. -/
lemma nodeChecked (contains : e.Contains φ e') (distinct : (e'.nodes.map (·.id)).Nodup)
    (mem : n ∈ e.nodes) (checked : e.NodeChecked n m) (checked' : e'.NodeChecked n m') :
    m' = { m with inputs := m.inputs.map φ } := by
  have kind : m'.kind = m.kind := Kind.id_injective (checked'.kind.trans checked.kind.symm)
  have inputs : List.Forall₂ e'.HasNumber (e'.effectiveInputs n) (m.inputs.map φ) := by
    rw [contains.inputs n mem, List.forall₂_map_right_iff]
    exact checked.inputs.imp fun _ _ number => contains.hasNumber number
  have params : m'.params = m.params := by
    have params' := checked'.params
    rw [kind, checked.params] at params'
    exact (Except.ok.inj params').symm
  obtain ⟨id', kind', inputs', params'⟩ := m'
  obtain rfl : id' = n.id := checked'.id
  obtain rfl : inputs' = m.inputs.map φ := numbers_unique distinct checked'.inputs inputs
  simp only at kind params
  rw [kind, params, ← checked.id]

/-- Where both effects resolve, one is embedded in the other. -/
lemma embeds (contains : e.Contains φ e') (run : e.resolve = .ok r) (run' : e'.resolve = .ok r') :
    r.Embeds φ r' := by
  obtain ⟨checks, -⟩ := resolve_eq_ok.1 run
  obtain ⟨checks', -⟩ := resolve_eq_ok.1 run'
  refine ⟨contains.injective, fun v m place => ?_, fun s sink => ?_⟩
  · obtain ⟨n, here, checked⟩ := Forall₂.exists_left checks.nodes
      (by rwa [Array.getElem?_toList] : r.nodes.toList[v]? = some m)
    obtain ⟨m', place', checked'⟩ := Forall₂.exists_right checks'.nodes (contains.node v n here)
    rw [Array.getElem?_toList] at place'
    rw [place', contains.nodeChecked checks'.distinct (List.mem_of_getElem? here) checked checked']
  · obtain ⟨m, place, kind⟩ := sink
    obtain ⟨n, here, checked⟩ := Forall₂.exists_left checks'.nodes
      (by rwa [Array.getElem?_toList] : r'.nodes.toList[s]? = some m)
    obtain ⟨v, small, eq⟩ := contains.sink s n here (by rw [← checked.kind, kind])
    rw [checks.nodes.length_eq, Array.length_toList] at small
    exact ⟨v, small, eq⟩

end Contains

end Effect

end LedEffect
