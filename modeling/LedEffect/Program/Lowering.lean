import LedEffect.Effect.Resolved
import LedEffect.Program.Syntax

/-!
# Lowering

Nodes become expressions that are substituted into their consumers. A node is computed into a
variable of its own when its value needs statements, or when it is an operation read by two or more
live consumers. A variable lives at frame level unless it depends on the pixel. Only what a palette
sink reads, directly or not, is emitted.
-/

namespace LedEffect

-- Powers are those of the core library, whatever else is in scope.
attribute [local instance (2000)] instPowNat

/-- Counters that describe one compilation. -/
structure CompileStats where
  nodeCount : Nat
  edgeCount : Nat
  pixelLoops : Nat
  inlined : Nat
  frameTemporaries : Nat
  pixelTemporaries : Nat
  shared : Nat
  unused : List String
deriving DecidableEq

def CompileStats.toValue (s : CompileStats) : Json :=
  .object [("nodeCount", .natural s.nodeCount), ("edgeCount", .natural s.edgeCount),
    ("pixelLoops", .natural s.pixelLoops), ("inlined", .natural s.inlined),
    ("frameTemporaries", .natural s.frameTemporaries),
    ("pixelTemporaries", .natural s.pixelTemporaries), ("shared", .natural s.shared),
    ("unused", .strings s.unused)]

namespace Program

/-- How often a value is computed. -/
inductive Scope
  | frame
  | pixel
deriving DecidableEq

/-- The narrower of two scopes. -/
def Scope.max : Scope → Scope → Scope
  | frame, s => s
  | pixel, _ => pixel

/-- A lowered node: the expression that consumers read, its scope, and the statements that compute
it into a variable, if it has one. -/
structure Lowered where
  expr : Expr
  scope : Scope
  block : List Statement
  shared : Bool

/-- What the kind of a node asks for: an expression, or statements that define its variable. -/
inductive Form
  | expr (e : Expr)
  | statements (body : List Statement)

/-! ## Expressions -/

/-- A float literal; a negative one, zero included, stands in parentheses. -/
def literal (x : Binary64) : Expr := if x.isNegative then .paren (.real x) else .real x

/-- A parameter that is a whole number. -/
def wholeParam? (n : ResolvedNode) (name : String) : Option Int :=
  (n.param? name).map (Binary64.truncate (-(2 ^ (63 : Nat))) (2 ^ (63 : Nat) - 1))

/-- The bounds of a bin range in ascending order. -/
def binBounds? (n : ResolvedNode) : Option (Int × Int) := do
  let a ← wholeParam? n "startBin"
  let b ← wholeParam? n "endBin"
  some (min a b, max a b)

/-- A symbol of the firmware. -/
def symbol (s : Symbol) : Expr := .name (.symbol s)

/-- The pixel index as a float. -/
def pixel : Expr := .cast .float (.name .i)

/-- The distance of the pixel from the centre of the strip, one at its ends. -/
def centreDistance : Expr :=
  .binary .div (.call1 .fabsf (.binary .sub pixel (.name .center)))
    (.call2 .fmaxf (.name .center) (.real 1))

/-- The position of the pixel on the strip, from zero to one. -/
def stripPosition : Expr :=
  .paren (.binary .div pixel (.call2 .fmaxf (.name .last) (.real 1)))

/-- A beat phase moved from `[-1, 1]` to `[0, 1]`. -/
def beatPhase (candidate : Expr) : Expr :=
  .binary .add (.binary .mul (.member (.index (symbol .tempi) candidate) .beat) (.real 0.5))
    (.real 0.5)

/-! ## Statements -/

/-- The mean of the spectrum from bin `lo` to bin `hi`. -/
def spectrumMean (v : Name) (lo hi : Int) : List Statement :=
  [.declare .float v (some (.real 0)),
    .loop .k lo .upTo (.int hi)
      [.assign (.name v) .add (.index (symbol .spectrogram) (.name .k))],
    .assign (.name v) .div (.whole (hi - lo + 1))]

/-- The spectrum from bin `lo` to bin `hi` stretched over the strip, between two neighbouring
bins. -/
def spectrumStretch (v : Name) (lo hi : Int) : List Statement :=
  [.declare .float v none,
    .block
      [.declare .float .f
          (some (.binary .add (.whole lo) (.binary .mul (.whole (hi - lo)) stripPosition))),
        .declare .int .k (some (.cast .int (.name .f))),
        .declare .int .k1
          (some (.choose (.binary .lt (.name .k) (.int hi)) (.binary .add (.name .k) (.int 1))
            (.int hi))),
        .declare .float .t (some (.binary .sub (.name .f) (.cast .float (.name .k)))),
        .assign (.name v) .set
          (.binary .add
            (.binary .mul (.index (symbol .spectrogram) (.name .k))
              (.paren (.binary .sub (.real 1) (.name .t))))
            (.binary .mul (.index (symbol .spectrogram) (.name .k1)) (.name .t)))]]

/-- The beat phase of the first tempo candidate of greatest magnitude. -/
def strongestBeat (v best : Name) : List Statement :=
  let magnitude (n : Name) : Expr := .member (.index (symbol .tempi) (.name n)) .magnitude
  [.declare .int best (some (.int 0)),
    .loop .k 1 .below (symbol .numTempi)
      [.branch (.binary .gt (magnitude .k) (magnitude best))
        [.assign (.name best) .set (.name .k)]],
    .declare .float v (some (beatPhase (.name best)))]

/-! ## Nodes -/

/-- What a node asks for, given the expressions of its inputs. Sinks are no values. -/
def form? (index : Nat) (n : ResolvedNode) (operand? : Nat → Option Expr) : Option Form := do
  match n.kind with
  | .constant => return .expr (literal (← n.param? "value"))
  | .gradient => return .expr (.paren centreDistance)
  | .positionGradient => return .expr stripPosition
  | .time =>
    let speed ← n.param? "speed"
    if speed.eq 1 then return .expr (symbol .timeSeconds)
    else return .expr (.paren (.binary .mul (symbol .timeSeconds) (literal speed)))
  | .add =>
    let sum := .binary .add (← operand? 0) (← operand? 1)
    return .expr (.call2 .fminf sum (.real 1))
  | .multiply => return .expr (.paren (.binary .mul (← operand? 0) (← operand? 1)))
  | .clamp =>
    let lo := literal (← n.param? "min")
    let hi := literal (← n.param? "max")
    return .expr (.call2 .fmaxf lo (.call2 .fminf hi (← operand? 0)))
  | .modulo => return .expr (.call2 .fmodf (← operand? 0) (literal (← n.param? "divisor")))
  | .scale =>
    return .expr (.paren (.binary .mul (← operand? 0) (literal (← n.param? "factor"))))
  | .sin =>
    let phase := .binary .mul (← operand? 0) (literal (← n.param? "frequency"))
    let wave := .call1 .sinf (.binary .mul phase (.real 6.2831853))
    return .expr (.paren (.binary .add (.binary .mul wave (.real 0.5)) (.real 0.5)))
  | .spectrumBin =>
    return .expr (.index (symbol .spectrogram) (.int (← wholeParam? n "bin")))
  | .spectrumRange =>
    let (lo, hi) ← binBounds? n
    return .statements (spectrumMean (.temporary index) lo hi)
  | .spectrumInterpolate =>
    let (lo, hi) ← binBounds? n
    return .statements (spectrumStretch (.temporary index) lo hi)
  | .audioLevel => return .expr (symbol .vuLevel)
  | .beat =>
    let bin ← n.param? "tempoBin"
    if bin.eq autoTempoBin then
      return .statements (strongestBeat (.temporary index) (.best index))
    else return .expr (.paren (beatPhase (.int (← wholeParam? n "tempoBin"))))
  | .chromagram => return .expr (.index (symbol .chromagram) (.int (← wholeParam? n "pitch")))
  | .tempoConfidence => return .expr (symbol .tempoConfidence)
  | .paletteInterpolate | .output => none

/-- The heading of a node's statements. -/
def heading (n : ResolvedNode) : String := s!"{n.id} ({n.kind.id})"

/-- The lowered nodes so far, under their numbers. -/
abbrev Values := Array (Option Lowered)

/-- The expression of an input of a node, which must have been lowered before. -/
def operand? (values : Values) (n : ResolvedNode) (slot : Nat) : Option Expr := do
  let input ← n.inputs[slot]?
  let lowered ← (← values[input]?)
  some lowered.expr

/-- The scope of a node: that of the pixel if its kind or an input is. -/
def scopeOf (values : Values) (n : ResolvedNode) : Scope :=
  (n.inputs.filterMap fun input => ((values[input]?).join).map (·.scope)).foldl Scope.max
    (if n.kind.isPerPixel then .pixel else .frame)

/-- Lowers a node of which `readers` live operand slots read the value. -/
def lowerNode? (values : Values) (index readers : Nat) (n : ResolvedNode) : Option Lowered := do
  let scope := scopeOf values n
  let own : Expr := .name (.temporary index)
  match ← form? index n (operand? values n) with
  | .statements body => return ⟨own, scope, .comment (heading n) :: body, false⟩
  | .expr e =>
    if 2 ≤ readers ∧ n.inputs ≠ [] then
      return ⟨own, scope,
        [.comment (heading n), .declare .float (.temporary index) (some e)], true⟩
    else return ⟨e, scope, [], false⟩

/-! ## Liveness -/

/-- The nodes reached from those on a stack by going from consumer to input. -/
def reachedFrom? (nodes : Array ResolvedNode) :
    Nat → List Nat → Array Bool → Option (Array Bool)
  | _, [], seen => some seen
  | 0, _ :: _, _ => none
  | fuel + 1, u :: stack, seen => do
    let n ← nodes[u]?
    let (stack, seen) ← n.inputs.foldlM
      (fun (stack, seen) v => do
        if ← seen[v]? then some (stack, seen) else some (v :: stack, seen.set! v true))
      (stack, seen)
    reachedFrom? nodes fuel stack seen

/-- Whether each node is `root` or one that `root` reads, directly or not. -/
def reachedBy? (nodes : Array ResolvedNode) (root : Nat) : Option (Array Bool) :=
  let blank := Array.replicate nodes.size false
  if root < nodes.size then reachedFrom? nodes nodes.size [root] (blank.set! root true) else none

/-- Whether each node is read by one of the sinks or is one. -/
def liveNodes? (nodes : Array ResolvedNode) (sinks : List Nat) : Option (Array Bool) :=
  sinks.foldlM
    (fun live sink => do
      let reached ← reachedBy? nodes sink
      some (Array.zipWith (· || ·) live reached))
    (Array.replicate nodes.size false)

/-- How many operand slots of live nodes read each node. -/
def readers? (nodes : Array ResolvedNode) (live : Array Bool) : Option (Array Nat) :=
  (nodes.toList.zipIdx).foldlM
    (fun counts (n, c) => do
      if ← live[c]? then
        n.inputs.foldlM
          (fun counts i => do
            let count ← counts[i]?
            some (counts.set! i (count + 1)))
          counts
      else some counts)
    (Array.replicate nodes.size 0)

/-! ## Sinks -/

/-- The statements that give the palette position of a pixel: the value that the sink reads,
wrapped into `[0, 1)`, or the distance from the centre. -/
def palettePosition? (values : Values) (n : ResolvedNode) : Option (List Statement) :=
  match n.inputs with
  | [] => some [.declare .float .pos (some centreDistance)]
  | _ :: _ => do
    let x ← operand? values n 0
    some [.declare .float .pos (some (.call2 .fmodf x (.real 1))),
      .branch (.binary .lt (.name .pos) (.real 0)) [.assign (.name .pos) .add (.real 1)]]

/-- A channel between two neighbouring colours of the table. -/
def mixedChannel (table : Name) (channel : Int) : Expr :=
  let cell (row : Expr) : Expr := .index (.index (.name table) row) (.int channel)
  let low := cell (.name .lo)
  let high := cell (.binary .add (.name .lo) (.int 1))
  .paren (.binary .add low (.binary .mul (.paren (.binary .sub high low)) (.name .t)))

/-- The statement that writes a channel of the pixel, dimmed if the brightness is below one. -/
def writeChannel (table : Name) (brightness : Binary64) (channel : Int) (m : Member) : Statement :=
  let mixed := mixedChannel table channel
  let dimmed := if brightness.lt 1 then .binary .mul mixed (literal brightness) else mixed
  .assign (.member (.index (symbol .leds) (.name .i)) m) .set (.cast .byte (.paren dimmed))

/-- The statements that find the two colours around a palette position and write the pixel. -/
def paletteWrite (table : Name) (colours : Nat) (brightness : Binary64) : List Statement :=
  let lastPair : Expr := .int (colours - 2 : Nat)
  [.declare .float .scaled (some (.binary .mul (.name .pos) (.whole (colours - 1 : Nat)))),
    .declare .int .lo (some (.cast .int (.name .scaled))),
    .branch (.binary .gt (.name .lo) lastPair) [.assign (.name .lo) .set lastPair],
    .declare .float .t (some (.binary .sub (.name .scaled) (.cast .float (.name .lo)))),
    writeChannel table brightness 0 .red,
    writeChannel table brightness 1 .green,
    writeChannel table brightness 2 .blue]

/-- The code of a sink: the variables of the pixel that it reads, in order, then its own
statements. A table needs two colours. -/
def lowerSink? (r : ResolvedEffect) (palette : Palette) (values : Values) (sink : Nat) :
    Option SinkCode := do
  let n ← r.nodes[sink]?
  let colours := palette.keyframes.length
  if colours < 2 then none
  else
    let reached ← reachedBy? r.nodes sink
    let blocks := (r.order.toList.filter fun i => reached.getD i false).flatMap fun i =>
      match (values[i]?).join with
      | some l => if l.scope = .pixel then l.block else []
      | none => []
    let position ← palettePosition? values n
    let brightness ← n.param? "brightness"
    some ⟨sink, heading n, palette,
      blocks ++ position ++ paletteWrite (.table sink) colours brightness⟩

/-! ## Effects -/

/-- The nodes of a resolved effect with their numbers, in dependency order. -/
def orderedNodes? (r : ResolvedEffect) : Option (List (Nat × ResolvedNode)) :=
  r.order.toList.mapM fun i => (r.nodes[i]?).map fun n => (i, n)

/-- Lowers the live values in dependency order. -/
def lowerValues? (live : Array Bool) (readers : Array Nat) (ordered : List (Nat × ResolvedNode)) :
    Option Values :=
  ordered.foldlM
    (fun values (i, n) => do
      if (← live[i]?) && !n.kind.isSink then
        let lowered ← lowerNode? values i (← readers[i]?) n
        some (values.set! i (some lowered))
      else some values)
    (Array.replicate live.size none)

/-- The program of a resolved effect, with its counters. -/
def lower? (r : ResolvedEffect) (palette : Palette) (name : String) :
    Option (Program × CompileStats) := do
  let ordered ← orderedNodes? r
  let sinks := (ordered.filter fun (_, n) => n.kind = .paletteInterpolate).map (·.1)
  let live ← liveNodes? r.nodes sinks
  let readers ← readers? r.nodes live
  let values ← lowerValues? live readers ordered
  let lowered := ordered.filterMap fun (i, _) => (values[i]?).join
  let stored := lowered.filter fun l => !l.block.isEmpty
  let emitted := ordered.filter fun (i, _) => live.getD i false
  let codes ← sinks.mapM (lowerSink? r palette values)
  let program : Program := {
    name := name
    usesCenter := emitted.any fun (_, n) =>
      n.kind = .gradient || (n.kind = .paletteInterpolate && n.inputs.isEmpty)
    usesLast := emitted.any fun (_, n) =>
      n.kind = .positionGradient || n.kind = .spectrumInterpolate
    frame := (stored.filter fun l => l.scope = .frame).flatMap (·.block)
    sinks := codes }
  let stats : CompileStats := {
    nodeCount := r.nodes.size
    edgeCount := r.view.edgeCount
    pixelLoops := codes.length
    inlined := (lowered.filter fun l => l.block.isEmpty).length
    frameTemporaries := (stored.filter fun l => l.scope = .frame).length
    pixelTemporaries := (stored.filter fun l => l.scope = .pixel).length
    shared := (lowered.filter fun l => l.shared).length
    unused := (ordered.filter fun (i, n) =>
      !live.getD i false && n.kind ≠ .output).map fun (_, n) => n.id }
  some (program, stats)

end Program

end LedEffect
