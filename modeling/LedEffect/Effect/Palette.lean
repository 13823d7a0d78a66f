import LedEffect.Effect.Error

/-!
# Palettes

A palette is a list of colour keyframes in the order of their positions. Positions only order the
keyframes: the emitted table spaces them evenly.
-/

namespace LedEffect

/-- A colour at a position. -/
structure Keyframe where
  position : Binary64
  red : UInt8
  green : UInt8
  blue : UInt8
deriving DecidableEq

/-- The keyframes of a palette in table order. -/
structure Palette where
  keyframes : List Keyframe
deriving DecidableEq

namespace Palette

/-- The palettes known by name. -/
def builtin : List (String × Palette) :=
  [("sunset", ⟨[⟨0, 120, 0, 0⟩, ⟨0.33, 255, 80, 0⟩, ⟨0.66, 255, 200, 40⟩, ⟨1, 255, 255, 180⟩]⟩),
    ("ocean", ⟨[⟨0, 0, 8, 40⟩, ⟨0.5, 0, 90, 160⟩, ⟨1, 120, 230, 255⟩]⟩),
    ("lava", ⟨[⟨0, 0, 0, 0⟩, ⟨0.25, 90, 0, 0⟩, ⟨0.5, 200, 20, 0⟩, ⟨0.75, 255, 120, 0⟩,
      ⟨1, 255, 255, 255⟩]⟩),
    ("forest", ⟨[⟨0, 0, 30, 0⟩, ⟨0.5, 40, 140, 20⟩, ⟨1, 200, 255, 120⟩]⟩),
    ("aurora", ⟨[⟨0, 0, 255, 120⟩, ⟨0.33, 0, 140, 255⟩, ⟨0.66, 140, 0, 255⟩,
      ⟨1, 255, 0, 160⟩]⟩),
    ("rainbow", ⟨[⟨0, 255, 0, 0⟩, ⟨0.17, 255, 160, 0⟩, ⟨0.33, 255, 255, 0⟩, ⟨0.5, 0, 255, 0⟩,
      ⟨0.67, 0, 120, 255⟩, ⟨0.83, 80, 0, 255⟩, ⟨1, 255, 0, 200⟩]⟩),
    ("mono", ⟨[⟨0, 0, 0, 0⟩, ⟨1, 255, 255, 255⟩]⟩)]

/-- The name of the palette of an effect that names none. -/
def defaultName : String := "sunset"

def named? (name : String) : Option Palette :=
  (builtin.find? fun entry => entry.1 == name).map (·.2)

/-- A channel: a whole number from 0 to 255. -/
def channel (row : Nat) (name : String) (value : Binary64) : Except PaletteFault UInt8 :=
  if value.isIntegral && Binary64.zero.le value && value.le 255 then
    .ok (UInt8.ofNat (value.truncate 0 255).toNat)
  else .error (.badChannel row name value)

/-- The keyframe of a row. -/
def keyframe (row : Nat) (r : PaletteRow) : Except PaletteFault Keyframe :=
  if r.position.isFinite then do
    let red ← channel row "r" r.red
    let green ← channel row "g" r.green
    let blue ← channel row "b" r.blue
    return ⟨r.position, red, green, blue⟩
  else .error (.badPosition row r.position)

/-- The keyframes of rows numbered from `index`. -/
def rowKeyframes (index : Nat) : List PaletteRow → Except PaletteFault (List Keyframe)
  | [] => .ok []
  | r :: rows => do
    let k ← keyframe index r
    let ks ← rowKeyframes (index + 1) rows
    return k :: ks

/-- The palette of at least two rows, in the order of their positions; rows that compare equal keep
their order. -/
def ofRows (rows : List PaletteRow) : Except PaletteFault Palette :=
  if rows.length < 2 then .error (.tooFew rows.length)
  else do
    let ks ← rowKeyframes 0 rows
    return ⟨ks.mergeSort fun a b => a.position.totalCompare b.position != .gt⟩

/-- The palette of an effect: its inline data, else the one it names, else the default. -/
def ofEffect (e : Effect) : Except CompileError Palette :=
  match e.paletteData with
  | some rows => (ofRows rows).mapError .invalidPalette
  | none =>
    let name := e.palette.getD defaultName
    match named? name with
    | some p => .ok p
    | none => .error (.unknownPalette name)

end Palette

end LedEffect
