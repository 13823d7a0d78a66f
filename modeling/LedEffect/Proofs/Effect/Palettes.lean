import LedEffect.Effect.Palette
import LedEffect.Proofs.Traversal

/-!
# Palettes of effects

The palette of an effect has two colours or more, whichever way it is given.
-/

namespace LedEffect.Palette

lemma length_rowKeyframes {index : Nat} {rows : List PaletteRow}
    {keyframes : List Keyframe} (each : rowKeyframes index rows = .ok keyframes) :
    keyframes.length = rows.length := by
  induction rows generalizing index keyframes with
  | nil =>
    cases each
    rfl
  | cons row rows ih =>
    obtain ⟨k, -, rest⟩ := bind_eq_ok.1 each
    obtain ⟨ks, tail, eq⟩ := bind_eq_ok.1 rest
    obtain rfl := pure_eq_ok.1 eq
    rw [List.length_cons, List.length_cons, ih tail]

/-- The palette of an effect has two colours or more. -/
lemma two_le_length {e : Effect} {palette : Palette} (chosen : ofEffect e = .ok palette) :
    2 ≤ palette.keyframes.length := by
  unfold ofEffect at chosen
  split at chosen
  next rows =>
    have made := mapError_eq_ok.1 chosen
    unfold ofRows at made
    split at made
    · cases made
    next enough =>
      obtain ⟨keyframes, each, eq⟩ := bind_eq_ok.1 made
      obtain rfl := pure_eq_ok.1 eq
      rw [List.length_mergeSort, length_rowKeyframes each]
      omega
  next =>
    dsimp only at chosen
    split at chosen
    next p known =>
      cases chosen
      obtain ⟨entry, found, rfl⟩ := Option.map_eq_some_iff.1 known
      have builtins : ∀ entry ∈ builtin, 2 ≤ entry.2.keyframes.length := by decide
      exact builtins entry (List.mem_of_find?_eq_some found)
    · cases chosen

end LedEffect.Palette
