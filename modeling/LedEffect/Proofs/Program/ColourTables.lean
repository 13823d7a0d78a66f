import LedEffect.Proofs.Effect.Keyframes
import LedEffect.Proofs.Program.Containment

/-!
# Colour tables

Every palette sink of a compiled effect has a table with the colours of the palette, one line for each in the
order of the keyframes (`coded_table`). With palette data these are the rows sorted by their positions
(`palette_sorted`).
-/

namespace LedEffect

namespace Program

variable {r : ResolvedEffect} {palette : Palette} {values : Values} {p : Program}
  {target : TargetProfile} {s : Nat}

/-- The lines of the colour table of a sink. -/
def tableLines (s : Nat) (keyframes : List Keyframe) : List String :=
  ("static const uint8_t " ++ s!"palette_v{s}" ++ s!"[{keyframes.length}][3] = " ++ "\x7b") ::
    (keyframes.map fun k => "    " ++ ("\x7b" ++ s!"{k.red}, {k.green}, {k.blue}" ++ "\x7d,")) ++ ["\x7d;"]

lemma indented_zero (text : String) : indented 0 text = text := String.empty_append

lemma lines_table (target : TargetProfile) (s : Nat) (keyframes : List Keyframe) :
    (Statement.table (.table s) (keyframes.map fun k => (k.red, k.green, k.blue))).lines target 0 =
      tableLines s keyframes := by
  rw [Statement.lines, tableLines, List.length_map, List.map_map, indented_zero, indented_zero]
  rfl

/-- The lines of a statement stand in the lines of the program, one after the other. -/
lemma lines_infix {stmt : Statement} (mem : stmt ∈ p.statements) :
    stmt.lines target 0 <:+: p.lines target := by
  obtain ⟨before, after, split⟩ := List.append_of_mem mem
  rw [lines, linesOf_eq_flatMap, split, List.flatMap_append, List.flatMap_cons, ← List.append_assoc]
  exact List.infix_append _ _ _

/-- Every palette sink of a program has its table among the lines of the program. -/
lemma Coded.table {name : String} (coded : Coded r palette name values p) (wf : r.WellFormed)
    (sink : r.IsPaletteSink s) : tableLines s palette.keyframes <:+: p.lines target := by
  obtain ⟨code, mem, here⟩ := Forall₂.exists_mem_right coded.sinks (wf.mem_paletteSinks.2 sink)
  have listed : Statement.table (.table s) (palette.keyframes.map fun k => (k.red, k.green, k.blue)) ∈
      p.statements := by
    rw [statements_eq, List.mem_append, List.mem_flatMap]
    refine .inr ⟨code, mem, ?_⟩
    rw [SinkCode.statements, here.node, here.colours]
    exact .tail _ (.head _)
  rw [← lines_table target]
  exact lines_infix listed

/-- Whether the code of a compiled effect has a table of keyframes for each palette sink. -/
def Tabulates (e : Effect) (target : TargetProfile) (c : CompiledEffect) (keyframes : List Keyframe) : Prop :=
  ∃ r p, e.resolve = .ok r ∧ e.LowersTo p c.stats ∧ c.code = p.render target ∧
    ∀ s, r.IsPaletteSink s → tableLines s keyframes <:+: p.lines target

lemma tabulates {e : Effect} {c : CompiledEffect} (chosen : Palette.ofEffect e = .ok palette)
    (compiled : e.compile target = .ok c) : Tabulates e target c palette.keyframes := by
  obtain ⟨p, stats, lowered, rfl⟩ := Effect.compile_eq_ok.1 compiled
  obtain ⟨r, palette', resolved, chosen', run⟩ := id lowered
  obtain rfl := Except.ok.inj (chosen'.symm.trans chosen)
  have wf := Effect.resolve_wellFormed resolved
  obtain ⟨p', stats', values, run', -, coded⟩ :=
    lower?_spec wf (Palette.two_le_length chosen) e.displayName
  cases run.symm.trans run'
  exact ⟨r, p, resolved, lowered, rfl, fun s sink => coded.table wf sink⟩

end Program

namespace Palette

open Program

/-- Palette data that makes a palette is the palette of its effect. -/
lemma ofEffect_of_data {e : Effect} {rows : List PaletteRow} {p : Palette} (data : e.paletteData = some rows)
    (made : ofRows rows = .ok p) : ofEffect e = .ok p := by
  unfold ofEffect
  rw [data]
  exact mapError_eq_ok.2 made

/-- Palette data makes a palette just when it has two rows or more, with finite positions and whole channels
from 0 to 255. The keyframes are those of the rows in ascending order of their positions. Those at one
position keep their order, but for the two zeros: keyframes at the negative zero come before those at the
positive one. So the sort is stable just when no row at the positive zero stands before one at the negative
zero. Every palette sink of an effect with the data gets a table of the keyframes in this order. -/
theorem palette_sorted (rows : List PaletteRow) :
    ((∃ p, ofRows rows = .ok p) ↔ 2 ≤ rows.length ∧ ∀ r ∈ rows, r.Usable) ∧
    ∀ p, ofRows rows = .ok p → ∃ ks, List.Forall₂ PaletteRow.Shows rows ks ∧ Arranged ks p.keyframes ∧
      (StablySorted ks p.keyframes ↔
        rows.Pairwise fun a b => a.position = .zero → b.position ≠ -.zero) ∧
      ∀ (e : Effect) target c, e.paletteData = some rows → e.compile target = .ok c →
        Tabulates e target c p.keyframes := by
  refine ⟨exists_ofRows_iff, fun p made => ?_⟩
  obtain ⟨-, ks, shows, sorted⟩ := ofRows_eq_ok.1 made
  have finite : ∀ k ∈ ks, k.position.isFinite = true := by
    intro k mem
    obtain ⟨r, -, here⟩ := Forall₂.exists_mem_left shows mem
    exact here.position ▸ here.finite
  have positions : ks.map (·.position) = rows.map (·.position) :=
    Forall₂.map_eq (shows.imp fun _ _ here => here.position)
  have arranged : Arranged ks p.keyframes := sorted ▸ arranged_sort finite
  refine ⟨ks, shows, arranged, ?_, fun e target c data compiled => ?_⟩
  · have apart {α : Type} (f : α → Binary64) (l : List α) :
        (l.map f).Pairwise (fun x y => x = .zero → y ≠ -.zero) ↔
          l.Pairwise fun a b => f a = .zero → f b ≠ -.zero := List.pairwise_map
    rw [stablySorted_iff finite arranged, ← apart Keyframe.position, positions]
    exact apart _ rows
  · exact tabulates (ofEffect_of_data data made) compiled

/-- Rows that are not in order, two of them at one position. -/
def scattered : List PaletteRow :=
  [⟨1, 3, 0, 255⟩, ⟨0.5, 1, 0, 0⟩, ⟨-0, 0, 0, 0⟩, ⟨0.5, 2, 0, 0⟩, ⟨0, 9, 0, 0⟩]

/-- A strip in the colours of the scattered rows. -/
def scatteredStrip : Effect :=
  { Effect.empty.node (.new "strip" "palette-interpolate") with paletteData := some scattered }

/-- The scattered rows are sorted stably, and the table of their strip shows them so. -/
theorem scattered_sorted : ∃ p ks, ofRows scattered = .ok p ∧ List.Forall₂ PaletteRow.Shows scattered ks ∧
    StablySorted ks p.keyframes ∧ ∃ c, scatteredStrip.compile .default = .ok c ∧
      Tabulates scatteredStrip .default c p.keyframes := by
  obtain ⟨-, arranged⟩ := palette_sorted scattered
  obtain ⟨found, each⟩ := exists_of_isOk (show (rowKeyframes 0 scattered).isOk = true by decide +kernel)
  have made : ofRows scattered = .ok ⟨found.mergeSort upTo⟩ :=
    ofRows_eq_ok.2 ⟨by decide, found, rowKeyframes_eq_ok.1 each, rfl⟩
  obtain ⟨ks, shows, -, stable, tables⟩ := arranged _ made
  obtain ⟨r, resolved⟩ := exists_of_isOk (show scatteredStrip.resolve.isOk = true by decide +kernel)
  obtain ⟨c, compiled⟩ : ∃ c, scatteredStrip.compile .default = .ok c :=
    Effect.exists_compile resolved (ofEffect_of_data rfl made)
  exact ⟨_, ks, made, shows, stable.2 (by decide +kernel), c, compiled,
    tables scatteredStrip .default c rfl compiled⟩

/-- A row at the positive zero and one at the negative zero change places, although they are at one
position. -/
theorem zeros_reordered : ∃ p ks, ofRows [⟨0, 1, 0, 0⟩, ⟨-0, 2, 0, 0⟩] = .ok p ∧
    List.Forall₂ PaletteRow.Shows [⟨0, 1, 0, 0⟩, ⟨-0, 2, 0, 0⟩] ks ∧
    (0 : Binary64).eq (-0) = true ∧ ks.map (·.red) = [1, 2] ∧ p.keyframes.map (·.red) = [2, 1] ∧
    ¬ StablySorted ks p.keyframes := by
  obtain ⟨ks, each, eq⟩ := exists_of_any (x := rowKeyframes 0 [⟨0, 1, 0, 0⟩, ⟨-0, 2, 0, 0⟩])
    (p := fun ks => ks = [⟨0, 1, 0, 0⟩, ⟨-0, 2, 0, 0⟩]) (by decide +kernel)
  obtain rfl := of_decide_eq_true eq
  have shows := rowKeyframes_eq_ok.1 each
  have after : upTo ⟨0, 1, 0, 0⟩ ⟨-0, 2, 0, 0⟩ = false := by decide +kernel
  have swapped : List.mergeSort [⟨0, 1, 0, 0⟩, ⟨-0, 2, 0, 0⟩] upTo = [⟨-0, 2, 0, 0⟩, ⟨0, 1, 0, 0⟩] := by
    simp [List.mergeSort, after]
  refine ⟨⟨[⟨-0, 2, 0, 0⟩, ⟨0, 1, 0, 0⟩]⟩, _, ofRows_eq_ok.2 ⟨Nat.le_refl 2, _, shows, swapped.symm⟩,
    shows,
    by decide +kernel, rfl, rfl, fun stable => ?_⟩
  have finite : ∀ k ∈ ([⟨0, 1, 0, 0⟩, ⟨-0, 2, 0, 0⟩] : List Keyframe), k.position.isFinite = true := by
    decide +kernel
  have arranged := arranged_sort finite
  rw [swapped] at arranged
  exact absurd ((stablySorted_iff finite arranged).1 stable) (by decide +kernel)

end Palette

end LedEffect
