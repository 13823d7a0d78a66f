import LedEffect.Proofs.Program.Execution
import LedEffect.Proofs.Program.Lowered

/-!
# Meaning

What a node of a resolved effect means on a device at a pixel: the formula of its kind, applied to
its parameters and to the meanings of its inputs (`ResolvedEffect.value?`). Nothing is shared and
nothing is stored. The recursion is bounded by a depth, but since nothing reads itself every depth
past the place of a node in the order gives the same value (`Means.of_formula?`).
-/

namespace LedEffect

namespace Program.Device

variable {F : Type}

/-! ## Formulas -/

/-- The index of the last pixel. -/
def lastPixel (d : Device F) : F := d.ofInt (d.numLeds - 1)

/-- The centre of the strip. -/
def centre (d : Device F) : F := d.mul d.lastPixel (d.real 0.5)

/-- The distance of a pixel from the centre. -/
def fromCentre (d : Device F) (i : Int) : F :=
  d.div (d.fabsf (d.sub (d.ofInt i) d.centre)) (d.fmaxf d.centre (d.real 1))

/-- The position of a pixel on the strip. -/
def along (d : Device F) (i : Int) : F := d.div (d.ofInt i) (d.fmaxf d.lastPixel (d.real 1))

/-- The mean of the spectrum from bin `lo` to bin `hi`, summed from below. -/
def mean (d : Device F) (lo hi : Int) : F :=
  d.div ((upward lo (hi - lo + 1).toNat).foldl (fun sum k => d.add sum (d.spectrogram k))
    (d.real 0)) (d.whole (hi - lo + 1))

/-- The better of two tempo candidates: the first unless the second is of greater magnitude. -/
def better (d : Device F) (best k : Int) : Int :=
  if d.gt (d.tempi k .magnitude) (d.tempi best .magnitude) then k else best

/-- The first tempo candidate of greatest magnitude. -/
def strongest (d : Device F) : Int := (upward 1 (d.numTempi - 1).toNat).foldl d.better 0

/-- The beat phase of a candidate, moved into `[0, 1]`. -/
def beatOf (d : Device F) (candidate : Int) : F :=
  d.add (d.mul (d.tempi candidate .beat) (d.real 0.5)) (d.real 0.5)

/-- The place of a pixel in the spectrum from bin `lo` to bin `hi`. -/
def placeAt (d : Device F) (lo hi i : Int) : F :=
  d.add (d.whole lo) (d.mul (d.whole (hi - lo)) (d.along i))

/-- The spectrum from bin `lo` to bin `hi` at a pixel, between two neighbouring bins. -/
def stretched (d : Device F) (lo hi i : Int) : F :=
  let place := d.placeAt lo hi i
  let bin := d.toInt place
  let next := if bin < hi then bin + 1 else hi
  let part := d.sub place (d.ofInt bin)
  d.add (d.mul (d.spectrogram bin) (d.sub (d.real 1) part)) (d.mul (d.spectrogram next) part)

/-- The value of a node from those of its inputs. Sinks have none. -/
def formula? (d : Device F) (i : Int) (n : ResolvedNode) (xs : List F) : Option F := do
  match n.kind with
  | .constant => return d.real (← n.param? "value")
  | .gradient => return d.fromCentre i
  | .positionGradient => return d.along i
  | .time =>
    let speed ← n.param? "speed"
    return if speed.eq 1 then d.timeSeconds else d.mul d.timeSeconds (d.real speed)
  | .add => return d.fminf (d.add (← xs[0]?) (← xs[1]?)) (d.real 1)
  | .multiply => return d.mul (← xs[0]?) (← xs[1]?)
  | .clamp =>
    let min ← n.param? "min"
    let max ← n.param? "max"
    return d.fmaxf (d.real min) (d.fminf (d.real max) (← xs[0]?))
  | .modulo => return d.fmodf (← xs[0]?) (d.real (← n.param? "divisor"))
  | .scale => return d.mul (← xs[0]?) (d.real (← n.param? "factor"))
  | .sin =>
    let phase := d.mul (← xs[0]?) (d.real (← n.param? "frequency"))
    return d.add (d.mul (d.sinf (d.mul phase (d.real 6.2831853))) (d.real 0.5)) (d.real 0.5)
  | .spectrumBin => return d.spectrogram (← wholeParam? n "bin")
  | .spectrumRange =>
    let (lo, hi) ← binBounds? n
    return d.mean lo hi
  | .spectrumInterpolate =>
    let (lo, hi) ← binBounds? n
    return d.stretched lo hi i
  | .audioLevel => return d.vuLevel
  | .beat =>
    let bin ← n.param? "tempoBin"
    if bin.eq autoTempoBin then return d.beatOf d.strongest
    else return d.beatOf (← wholeParam? n "tempoBin")
  | .chromagram => return d.chromagram (← wholeParam? n "pitch")
  | .tempoConfidence => return d.tempoConfidence
  | .paletteInterpolate | .output => none

end Program.Device

namespace ResolvedEffect

open Program

variable {F : Type}

/-! ## Nodes -/

/-- The value of a node at a pixel, through at most that many nodes. -/
def value? (r : ResolvedEffect) (d : Device F) (i : Int) : Nat → Nat → Option F
  | 0, _ => none
  | depth + 1, v => do
    let n ← r.nodes[v]?
    let xs ← n.inputs.mapM (value? r d i depth)
    d.formula? i n xs

/-- Whether a node has a value that no more depth changes. -/
def Means (r : ResolvedEffect) (d : Device F) (i : Int) (v : Nat) (x : F) : Prop :=
  ∀ depth, r.order.toList.idxOf v < depth → r.value? d i depth v = some x

variable {r : ResolvedEffect} {d : Device F} {i : Int} {v : Nat}

lemma Means.unique {x y : F} (hx : r.Means d i v x) (hy : r.Means d i v y) : x = y :=
  Option.some_inj.1 ((hx _ (Nat.lt_succ_self _)).symm.trans (hy _ (Nat.lt_succ_self _)))

/-- Every depth of at least the number of nodes is enough. -/
lemma Means.value? (wf : r.WellFormed) {x : F} (means : r.Means d i v x) (small : v < r.nodes.size)
    {depth : Nat} (deep : r.nodes.size ≤ depth) : r.value? d i depth v = some x := by
  refine means depth (Nat.lt_of_lt_of_le ?_ deep)
  have mem := wf.mem_order.2 small
  have length := wf.order.length_eq
  rw [List.length_range] at length
  exact length ▸ List.idxOf_lt_length_of_mem mem

/-- A node means what its formula makes of the meanings of its inputs. -/
lemma Means.of_formula? (wf : r.WellFormed) {n : ResolvedNode} {xs : List F} {x : F}
    (place : r.nodes[v]? = some n) (inputs : List.Forall₂ (r.Means d i) n.inputs xs)
    (value : d.formula? i n xs = some x) : r.Means d i v x := by
  intro depth deep
  cases depth with
  | zero => cases deep
  | succ depth =>
    -- Inputs have lower places, so one depth less is still past them.
    refine Option.bind_eq_some_iff.2 ⟨n, place, Option.bind_eq_some_iff.2 ⟨xs, ?_, value⟩⟩
    refine mapM_eq_some.2 (forall₂_iff_getElem?.2 ⟨inputs.length_eq, fun slot u y input there => ?_⟩)
    have means := (forall₂_iff_getElem?.1 inputs).2 slot u y input there
    have before := wf.forward v u ⟨n, place, List.mem_of_getElem? input⟩
    exact means depth (by omega)

end ResolvedEffect

end LedEffect
