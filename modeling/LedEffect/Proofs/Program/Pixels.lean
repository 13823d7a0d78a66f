import LedEffect.Proofs.Effect.Palettes
import LedEffect.Program.Compile
import LedEffect.Proofs.Program.Bounds
import Mathlib.Data.Rat.Floor

/-!
# Pixels within bounds

The pixel loop of a sink runs to its end, and at every pixel of the strip the palette position lies
between zero and one, so the two colours around it are rows of the table and every channel is one of a
byte. With the statements of the nodes, the whole code of an effect stays within bounds
(`compile_inBounds`).
-/

namespace LedEffect.Program

open ResolvedEffect

variable {F : Type} {r : ResolvedEffect} {target : TargetProfile} {d : Device F} {st : State F}
  {values : Values} {v s : Nat} {n : ResolvedNode} {nodes : Nat} {i : Int}

/-! ## Positions -/

/-- A value is wrapped to a palette position. -/
lemma run_wrap (separate : target.Separate nodes) {e : Expr} {x : F}
    (value : e.eval target d (st.push target .pos (some .float) none) = some (.float x)) :
    runAll target d [.declare .float .pos (some (.call2 .fmodf e (.real 1))),
        .branch (.binary .lt (.name .pos) (.real 0)) [.assign (.name .pos) .add (.real 1)]] st =
      some (st.push target .pos (some .float) (some (.float (d.wrap x)))) := by
  let shape (w : F) : State F := st.push target .pos (some .float) (some (.float w))
  let w := d.fmodf x (d.real 1)
  have remainder : Statement.run target d
      (.declare .float .pos (some (.call2 .fmodf e (.real 1)))) st = some (shape w) := by
    refine run_declare (v := .float w) ?_ rfl
    rw [Expr.eval, value]
    rfl
  have held : (shape w).read target d .pos = some (.float w) := by
    rw [read_push separate (n := .pos) trivial, if_pos rfl]
  have condition : (Expr.binary .lt (.name .pos) (.real 0)).eval target d (shape w) =
      some (.int (d.lt w (d.real 0)).toNat) := by
    simp only [Expr.eval, held]
    rfl
  have moved : runAll target d [.assign (.name .pos) .add (.real 1)] (shape w) =
      some (shape (d.add w (d.real 1))) := by
    have sum : Assignment.add.result d (some (.float w)) (.float (d.real 1)) =
        some (.float (d.add w (d.real 1))) := rfl
    rw [runAll_one, run_assign (.name .pos) (e := .real 1) rfl (held ▸ sum), store_push_self]
    rfl
  have left : ∀ w', (shape w).leave (shape w') = shape w' := fun _ => leave_of_length rfl
  rw [runAll_cons, remainder, Option.bind_some, runAll_one, run_branch condition, moved, Device.wrap]
  cases negative : d.lt w (d.real 0) with
  | true => simp only [if_true, Option.map_some, left, shape, w]
  | false => simp only [Bool.false_eq_true, if_false, shape, w]

/-! ## Rows -/

/-- The statements that find the two colours around a palette position. -/
def rowLocals (colours : Nat) : List Statement :=
  [.declare .float .scaled (some (.binary .mul (.name .pos) (.whole (colours - 1 : Nat)))),
    .declare .int .lo (some (.cast .int (.name .scaled))),
    .branch (.binary .gt (.name .lo) (.int (colours - 2 : Nat)))
      [.assign (.name .lo) .set (.int (colours - 2 : Nat))],
    .declare .float .t (some (.binary .sub (.name .scaled) (.cast .float (.name .lo))))]

lemma paletteWrite_eq (table : Name) (colours : Nat) (brightness : Binary64) :
    paletteWrite table colours brightness = rowLocals colours ++
      [(0, .red), (1, .green), (2, .blue)].map fun w => writeChannel table brightness w.1 w.2 := rfl

/-- The locals of a palette position: its place among that many colours, the row below it, and the
part of the way to the next row. -/
def State.choosing (target : TargetProfile) (d : Device F) (colours : Nat) (x : F) (st : State F) :
    State F :=
  let scaled := d.mul x (d.whole (colours - 1 : Nat))
  let row := d.row colours scaled
  ((st.push target .scaled (some .float) (some (.float scaled))).push target .lo (some .int)
    (some (.int row))).push target .t (some .float) (some (.float (d.sub scaled (d.ofInt row))))

lemma run_rowLocals (separate : target.Separate nodes) (colours : Nat) {x : F}
    (position : st.read target d .pos = some (.float x)) :
    runAll target d (rowLocals colours) st = some (st.choosing target d colours x) := by
  let scaled := d.mul x (d.whole (colours - 1 : Nat))
  let placed : State F := st.push target .scaled (some .float) (some (.float scaled))
  let chosen (row : Int) : State F := placed.push target .lo (some .int) (some (.int row))
  have left : ∀ row row', (chosen row).leave (chosen row') = chosen row' :=
    fun _ _ => leave_of_length rfl
  have first : Statement.run target d (.declare .float .scaled
      (some (.binary .mul (.name .pos) (.whole (colours - 1 : Nat))))) st = some placed := by
    refine run_declare (v := .float scaled) ?_ rfl
    simp only [Expr.eval, read_push separate (n := .scaled) trivial, position, reduceCtorEq, if_false]
    rfl
  have second : Statement.run target d (.declare .int .lo (some (.cast .int (.name .scaled)))) placed =
      some (chosen (d.toInt scaled)) := by
    refine run_declare (v := .int (d.toInt scaled)) ?_ rfl
    simp only [Expr.eval, placed, read_push separate (n := .lo) trivial,
      read_push separate (n := .scaled) trivial, reduceCtorEq, if_true, if_false]
    rfl
  have third : Statement.run target d (.branch (.binary .gt (.name .lo) (.int (colours - 2 : Nat)))
      [.assign (.name .lo) .set (.int (colours - 2 : Nat))]) (chosen (d.toInt scaled)) =
      some (chosen (d.row colours scaled)) := by
    have condition : (Expr.binary .gt (.name .lo) (.int (colours - 2 : Nat))).eval target d
        (chosen (d.toInt scaled)) =
        some (.int (decide (d.toInt scaled > (colours - 2 : Nat))).toNat) := by
      simp only [Expr.eval, chosen, read_push separate (n := .lo) trivial, if_true]
      rfl
    have moved : runAll target d [.assign (.name .lo) .set (.int (colours - 2 : Nat))]
        (chosen (d.toInt scaled)) = some (chosen (colours - 2 : Nat)) := by
      rw [runAll_one, run_assign (.name .lo) (e := .int _) rfl rfl, store_push_self]
      rfl
    rw [run_branch condition, moved, Device.row]
    by_cases past : d.toInt scaled > (colours - 2 : Nat)
    · rw [if_pos (decide_eq_true past), if_pos past, Option.map_some, left]
    · rw [if_neg (by simpa using past), if_neg past]
  have fourth : Statement.run target d (.declare .float .t
      (some (.binary .sub (.name .scaled) (.cast .float (.name .lo))))) (chosen (d.row colours scaled)) =
      some (st.choosing target d colours x) := by
    refine run_declare (v := .float (d.sub scaled (d.ofInt (d.row colours scaled)))) ?_ rfl
    simp only [Expr.eval, chosen, placed, read_push separate (n := .t) trivial,
      read_push separate (n := .lo) trivial, read_push separate (n := .scaled) trivial, reduceCtorEq,
      if_true, if_false]
    rfl
  rw [rowLocals, runAll_cons, first, Option.bind_some, runAll_cons, second, Option.bind_some,
    runAll_cons, third, Option.bind_some, runAll_one, fourth]

/-! ## Channels -/

/-- A channel of a row of a table is a byte. -/
lemma eval_cell {rows : List (UInt8 × UInt8 × UInt8)}
    (table : st.read target d (.table s) = some (.colours rows)) {e : Expr} {k channel : Int}
    (index : e.eval target d st = some (.int k)) (first : 0 ≤ k) (last : k < rows.length)
    (three : channel = 0 ∨ channel = 1 ∨ channel = 2) :
    ∃ b : UInt8, (Expr.index (.index (.name (.table s)) e) (.int channel)).eval target d st =
      some (.int b.toNat) := by
  have small : k.toNat < rows.length := by omega
  rcases at_row : rows[k.toNat] with ⟨red, green, blue⟩
  have colour : (Expr.index (.name (.table s)) e).eval target d st =
      some (.colour rows[k.toNat]) := by
    simp [table, index, Value.cell, Int.not_lt.2 first, small]
  rcases three with rfl | rfl | rfl
  · exact ⟨red, by rw [Expr.eval, colour, at_row]; rfl⟩
  · exact ⟨green, by rw [Expr.eval, colour, at_row]; rfl⟩
  · exact ⟨blue, by rw [Expr.eval, colour, at_row]; rfl⟩

variable [Field F] [LinearOrder F]

/-- What a state offers to the writes of a pixel: the buffer, the pixel, a colour table of the sink, a
row that has one after it, and a part of one. -/
structure Painting (target : TargetProfile) (d : Device F) (s : Nat) (i : Int) (st : State F) :
    Prop where
  leds : st.read target d (.symbol .leds) = some .pixels
  pixel : st.read target d .i = some (.int i)
  rows : ∃ rows row, st.read target d (.table s) = some (.colours rows) ∧
    st.read target d .lo = some (.int row) ∧ 0 ≤ row ∧ row + 1 < rows.length
  part : ∃ t, st.read target d .t = some (.float t) ∧ 0 ≤ t ∧ t ≤ 1

variable [FloorRing F] [IsStrictOrderedRing F]

/-- A mixed channel is one of a byte. -/
lemma eval_mixedChannel (precise : d.Exact) (painting : Painting target d s i st) {channel : Int}
    (three : channel = 0 ∨ channel = 1 ∨ channel = 2) :
    ∃ y, (mixedChannel (.table s) channel).eval target d st = some (.float y) ∧ 0 ≤ y ∧ y ≤ 255 := by
  obtain ⟨rows, row, table, chosen, first, last⟩ := painting.rows
  obtain ⟨t, weight, least, most⟩ := painting.part
  obtain ⟨low, below⟩ := eval_cell table (e := .name .lo) chosen first (by omega) three
  obtain ⟨high, above⟩ := eval_cell table (e := .binary .add (.name .lo) (.int 1)) (k := row + 1)
    (by rw [Expr.eval, Expr.eval, chosen]; rfl) (by omega) last three
  refine ⟨d.add (d.ofInt low.toNat) (d.mul (d.ofInt (high.toNat - low.toNat)) t), ?_, ?_⟩
  · have spread : (Expr.paren (.binary .sub
        (.index (.index (.name (.table s)) (.binary .add (.name .lo) (.int 1))) (.int channel))
        (.index (.index (.name (.table s)) (.name .lo)) (.int channel)))).eval target d st =
        some (.int (high.toNat - low.toNat)) := by
      rw [Expr.eval, Expr.eval, above, below]
      rfl
    have weight : (Expr.name .t).eval target d st = some (.float t) := weight
    simp only [mixedChannel]
    rw [Expr.eval, Expr.eval, below, Expr.eval, spread, weight]
    rfl
  · rw [precise.add, precise.mul, precise.ofInt, precise.ofInt]
    push_cast
    exact mixed_mem least most

/-- A dimmed channel is still one of a byte. -/
lemma eval_dimmed (precise : d.Exact) {brightness : Binary64}
    (dims : (ParamSpec.float "brightness" 0 1 1).Holds brightness) {e : Expr}
    (rank : 3 ≤ e.rank) {y : F} (eval : e.eval target d st = some (.float y)) (least : 0 ≤ y)
    (most : y ≤ 255) :
    ∃ y, (dimmed brightness e).eval target d st = some (.float y) ∧ 0 ≤ y ∧ y ≤ 255 := by
  unfold dimmed
  split
  next =>
    obtain ⟨nonneg, one⟩ := precise.real_mem dims.finite dims.least dims.most
    refine ⟨d.mul y (d.real brightness), ?_, ?_⟩
    · simp [eval, eval_literal, rank, Device.operate, Device.onFloats]
    · rw [precise.mul]
      exact ⟨mul_nonneg least nonneg, (mul_le_of_le_one_right least one).trans most⟩
  next => exact ⟨y, eval, least, most⟩

/-- A write stores a channel of the pixel, and changes nothing else. -/
lemma run_writeChannel (precise : d.Exact) (painting : Painting target d s i st)
    {brightness : Binary64} (dims : (ParamSpec.float "brightness" 0 1 1).Holds brightness) {channel : Int}
    (three : channel = 0 ∨ channel = 1 ∨ channel = 2) (m : Member) :
    ∃ pixels, Statement.run target d (writeChannel (.table s) brightness channel m) st =
      some { st with pixels := pixels } := by
  obtain ⟨y, eval, least, most⟩ := eval_mixedChannel precise painting three
  obtain ⟨z, eval', -, -⟩ := eval_dimmed precise dims (by simp [mixedChannel]) eval least most
  have byte : (Expr.cast .byte (.paren (dimmed brightness (mixedChannel (.table s) channel)))).eval
      target d st = some (.int (d.toByte z).toNat) := by
    rw [Expr.eval, Expr.eval, eval']
    rfl
  rw [writeChannel_eq, run_assign _ byte rfl]
  simp [store, symbol, painting.leds, painting.pixel, Device.convert]

omit [FloorRing F] [IsStrictOrderedRing F] in
lemma safe_mixedChannel {x : Visit F} (painting : Painting target d s i x.state) {channel : Int}
    (three : channel = 0 ∨ channel = 1 ∨ channel = 2) :
    ∀ part ∈ (mixedChannel (.table s) channel).parts, part.Safe r target d x := by
  obtain ⟨rows, row, table, chosen, first, last⟩ := painting.rows
  obtain ⟨t, weight, least, most⟩ := painting.part
  have next : 0 ≤ row + 1 := by omega
  have below : row < rows.length := by omega
  have inside : 0 ≤ channel ∧ channel < 3 := by omega
  simp [mixedChannel, Visit.Inside, table, chosen, weight, Device.operate, Device.onInts, first,
    last, least, most, next, below, inside]

/-- A write stays within bounds at a pixel of the strip. -/
lemma safe_writeChannel (precise : d.Exact) (painting : Painting target d s i st)
    (inside : 0 ≤ i ∧ i < d.numLeds) {brightness : Binary64}
    (dims : (ParamSpec.float "brightness" 0 1 1).Holds brightness) {channel : Int}
    (three : channel = 0 ∨ channel = 1 ∨ channel = 2) (m : Member) :
    Visit.Safe r target d ⟨writeChannel (.table s) brightness channel m, st⟩ := by
  obtain ⟨y, eval, least, most⟩ := eval_mixedChannel precise painting three
  obtain ⟨z, eval', byte⟩ := eval_dimmed precise dims (by simp [mixedChannel]) eval least most
  have dimming : ∀ part ∈ (dimmed brightness (mixedChannel (.table s) channel)).parts,
      part.Safe r target d ⟨writeChannel (.table s) brightness channel m, st⟩ := by
    have mixing := @safe_mixedChannel _ r _ _ _ _ _ _
      ⟨writeChannel (.table s) brightness channel m, st⟩ painting _ three
    unfold dimmed
    split
    next => simpa [or_imp, forall_and] using ⟨mixing, safe_literal brightness⟩
    next => exact mixing
  rw [writeChannel_eq] at dimming ⊢
  simpa [Visit.Safe, Statement.exprs, Assignment.exprs, symbol, Visit.Inside, painting.pixel,
    inside] using ⟨⟨z, eval', byte⟩, dimming⟩

/-! ## Pixels -/

/-- Writes of channels run to their end within bounds, and change the pixels only. -/
lemma run_writes (precise : d.Exact) (inside : 0 ≤ i ∧ i < d.numLeds) {brightness : Binary64}
    (dims : (ParamSpec.float "brightness" 0 1 1).Holds brightness) {writes : List (Int × Member)}
    (three : ∀ w ∈ writes, w.1 = 0 ∨ w.1 = 1 ∨ w.1 = 2) (painting : Painting target d s i st) :
    (∃ pixels, runAll target d (writes.map fun w => writeChannel (.table s) brightness w.1 w.2) st =
      some { st with pixels := pixels }) ∧
    ∀ x ∈ visitsAll target d (writes.map fun w => writeChannel (.table s) brightness w.1 w.2) st,
      x.Safe r target d := by
  induction writes generalizing st with
  | nil => exact ⟨⟨st.pixels, rfl⟩, nofun⟩
  | cons w writes ih =>
    obtain ⟨here, rest⟩ := List.forall_mem_cons.1 three
    obtain ⟨pixels, ran⟩ := run_writeChannel precise painting dims here w.2
    have painting' : Painting target d s i { st with pixels := pixels } :=
      ⟨painting.leds, painting.pixel, painting.rows, painting.part⟩
    obtain ⟨⟨pixels', ran'⟩, safe⟩ := ih rest painting'
    rw [List.map_cons]
    refine ⟨⟨pixels', ?_⟩, forall_visits_cons.2 ⟨List.forall_mem_singleton.2
      (safe_writeChannel precise painting inside dims here w.2), fun st' ran'' => ?_⟩⟩
    · rw [runAll_cons, ran, Option.bind_some, ran']
    · obtain rfl := Option.some_inj.1 (ran.symm.trans ran'')
      exact safe

omit [FloorRing F] [IsStrictOrderedRing F] in
lemma safe_rowLocals (colours : Nat) :
    ∀ x ∈ visitsAll target d (rowLocals colours) st, x.Safe r target d := by
  refine forall_visits_cons.2 ⟨List.forall_mem_singleton.2 ?_, fun _ _ => forall_visits_cons.2
    ⟨List.forall_mem_singleton.2 ?_, fun _ _ => forall_visits_cons.2
      ⟨forall_visits_branch ?_ (forall_visits_one.2 (List.forall_mem_singleton.2 ?_)),
        fun _ _ => forall_visits_one.2 (List.forall_mem_singleton.2 ?_)⟩⟩⟩
  · simp [Visit.Safe, Statement.exprs]
  · simp [Visit.Safe, Statement.exprs]
  · simp [Visit.Safe, Statement.exprs]
  · simp [Visit.Safe, Statement.exprs, Assignment.exprs]
  · simp [Visit.Safe, Statement.exprs]

/-- A pixel of the strip is painted within bounds from a position between zero and one. -/
lemma run_paletteWrite (precise : d.Exact) (separate : target.Separate nodes)
    (inside : 0 ≤ i ∧ i < d.numLeds) {brightness : Binary64}
    (dims : (ParamSpec.float "brightness" 0 1 1).Holds brightness)
    (sees : st.Sees target d) (pixel : st.read target d .i = some (.int i))
    {rows : List (UInt8 × UInt8 × UInt8)} (enough : 2 ≤ rows.length)
    (table : st.read target d (.table s) = some (.colours rows)) {x : F}
    (position : st.read target d .pos = some (.float x)) (least : 0 ≤ x) (most : x ≤ 1) :
    (∃ after, runAll target d (paletteWrite (.table s) rows.length brightness) st = some after ∧
      st.locals <:+ after.locals) ∧
    ∀ x ∈ visitsAll target d (paletteWrite (.table s) rows.length brightness) st,
      x.Safe r target d := by
  have ran := run_rowLocals separate rows.length position
  obtain ⟨first, last, nonneg, part⟩ := precise.row_mem enough least most rfl
  have painting : Painting target d s i (st.choosing target d rows.length x) := by
    refine ⟨?_, ?_, ⟨rows, d.row rows.length (d.mul x (d.whole (rows.length - 1 : Nat))), ?_, ?_, first,
      by omega⟩, ⟨_, ?_, nonneg, part⟩⟩
    · simp [State.choosing, read_push separate (n := .t) trivial, read_push separate (n := .lo) trivial,
        read_push separate (n := .scaled) trivial, sees .leds, Device.value]
    · simp [State.choosing, read_push separate (n := .t) trivial, read_push separate (n := .lo) trivial,
        read_push separate (n := .scaled) trivial, pixel]
    · simp [State.choosing, read_push separate (n := .t) trivial, read_push separate (n := .lo) trivial,
        read_push separate (n := .scaled) trivial, table]
    · simp [State.choosing, read_push separate (n := .t) trivial, read_push separate (n := .lo) trivial]
    · simp [State.choosing, read_push separate (n := .t) trivial]
  obtain ⟨⟨pixels, painted⟩, safe⟩ :=
    @run_writes _ r _ _ _ _ _ _ _ _ _ precise inside _ dims
      [(0, .red), (1, .green), (2, .blue)] (by decide) painting
  rw [paletteWrite_eq]
  refine ⟨⟨_, by rw [runAll_append, ran, Option.bind_some, painted], ?_⟩,
    forall_visits_append.2 ⟨safe_rowLocals rows.length, fun st' ran' => ?_⟩⟩
  · exact ((List.suffix_cons _ _).trans (List.suffix_cons _ _)).trans (List.suffix_cons _ _)
  · obtain rfl := Option.some_inj.1 (ran.symm.trans ran')
    exact safe

/-- The palette position of a pixel of the strip lies between zero and one. -/
lemma run_position (fits : Fits r d) (wf : r.WellFormed) (lowers : Lowers r values)
    (separate : target.Separate r.nodes.size) (inside : 0 ≤ i ∧ i < d.numLeds)
    (place : r.nodes[s]? = some n) (kind : n.kind = .paletteInterpolate) {position : List Statement}
    (positioned : Positioned values n position)
    (ready : Ready target r values d i .pixel (Computed r .pixel (r.reached s)) st) :
    (∃ x, 0 ≤ x ∧ x ≤ 1 ∧
      runAll target d position st = some (st.push target .pos (some .float) (some (.float x)))) ∧
    ∀ x ∈ visitsAll target d position st, x.Safe r target d := by
  have live : r.Live s := ⟨s, ⟨n, place, kind⟩, .refl⟩
  cases positioned with
  | centred inputs =>
    obtain ⟨least, most⟩ := fits.precise.fromCentre_mem inside.1 inside.2
    have centre := ready.centre ⟨s, n, live, place, .inr ⟨kind, inputs⟩⟩
    have value : centreDistance.eval target d (st.push target .pos (some .float) none) =
        some (.float (d.fromCentre i)) := by
      apply eval_centreDistance
      · rw [read_push separate (n := .pos) trivial, if_neg (by simp), ready.pixel rfl]
      · rw [read_push separate (n := .pos) trivial, if_neg (by simp), centre]
    refine ⟨⟨_, least, most, runAll_one.trans (run_declare value rfl)⟩,
      forall_visits_one.2 (List.forall_mem_singleton.2 (List.forall_mem_singleton.2 ?_))⟩
    exact safe_centreDistance fits.precise
  | @wrapped v rest e inputs operand =>
    have input : n.inputs[0]? = some v := by simp [inputs]
    obtain ⟨l, lowered⟩ := lowers.input wf place live (by rw [kind]; decide)
      (List.mem_of_getElem? input)
    obtain rfl := Option.some_inj.1 ((operand?_eq_some input lowered).symm.trans operand)
    obtain ⟨y, -, eval⟩ :=
      ready.eval_wrapped wf lowers separate place (List.mem_of_getElem? input) lowered
    obtain ⟨least, most⟩ := fits.precise.wrap_mem y
    refine ⟨⟨_, least, most, run_wrap separate eval⟩, forall_visits_cons.2
      ⟨List.forall_mem_singleton.2 ?_, fun _ _ => forall_visits_one.2 (forall_visits_branch ?_
        (forall_visits_one.2 (List.forall_mem_singleton.2 ?_)))⟩⟩
    · have nonzero : d.real 1 ≠ 0 := by
        rw [fits.precise.real_one]
        exact one_ne_zero
      have operand := fun x free => @safe_lowered _ r target d x _ v l _ _ _ fits wf lowers lowered free
      simpa [Visit.Safe, Statement.exprs, or_imp, forall_and] using ⟨nonzero, operand _ rfl⟩
    · simp [Visit.Safe, Statement.exprs]
    · simp [Visit.Safe, Statement.exprs, Assignment.exprs]

variable {palette : Palette} {name : String} {p : Program} {code : SinkCode}

/-- The code of a sink at a pixel of the strip. -/
lemma run_body (fits : Fits r d) (wf : r.WellFormed) (lowers : Lowers r values)
    (separate : target.Separate r.nodes.size) (inside : 0 ≤ i ∧ i < d.numLeds)
    (coded : SinkCoded r palette values s code) (sink : r.IsPaletteSink s)
    (enough : 2 ≤ palette.keyframes.length) {rows : List (UInt8 × UInt8 × UInt8)}
    (length : rows.length = palette.keyframes.length)
    (table : st.read target d (.table s) = some (.colours rows))
    (ready : Ready target r values d i .pixel (Computed r .pixel []) st) :
    (∃ after, runAll target d code.body st = some after ∧ st.locals <:+ after.locals) ∧
      ∀ x ∈ visitsAll target d code.body st, x.Safe r target d := by
  obtain ⟨n, position, brightness, place, positioned, bright, -, body⟩ := coded.body
  obtain ⟨n', place', kind⟩ := id sink
  obtain rfl := Option.some_inj.1 (place.symm.trans place')
  have dims := (fits.ranges s n place).holds (p := .float "brightness" 0 1 1)
    (by rw [kind]; exact .head _) bright
  have closed : ∀ before u after, r.reached s = before ++ u :: after →
      ∀ w, Relation.TransGen r.Reads u w → w ∈ before :=
    fun before u after split w path => wf.reached_before split path
  obtain ⟨st1, blocks, above, ready1⟩ :=
    ready.run_blocks wf lowers separate closed (List.nil_append _).symm
  obtain ⟨⟨x, least, most, found⟩, safe⟩ := run_position fits wf lowers separate inside place kind
    (.of_palettePosition? positioned) ready1
  let st2 : State F := st1.push target .pos (some .float) (some (.float x))
  have pixel : st2.read target d .i = some (.int i) := by
    rw [read_push separate (n := .pos) trivial, if_neg (by simp), ready1.pixel rfl]
  have table2 : st2.read target d (.table s) = some (.colours rows) := by
    rw [read_push separate (n := .pos) trivial, if_neg (by simp), above.tables, table]
  have held : st2.read target d .pos = some (.float x) := by
    rw [read_push separate (n := .pos) trivial, if_pos rfl]
  obtain ⟨⟨after, painted, suffix⟩, safe'⟩ := @run_paletteWrite _ r _ _ _ _ _ _ _ _ _ _
    fits.precise separate inside brightness dims (ready1.sees.push separate (n := .pos) trivial)
    pixel rows (length ▸ enough) table2 x held least most
  rw [body, ← length]
  refine ⟨⟨after, ?_, (above.locals.trans (List.suffix_cons _ _)).trans suffix⟩,
    forall_visits_append.2 ⟨forall_visits_append.2 ⟨?_, fun st' ran => ?_⟩, fun st' ran => ?_⟩⟩
  · rw [runAll_append, runAll_append, blocks, Option.bind_some, found, Option.bind_some, painted]
  · exact safe_blocks fits wf lowers separate (fun _ => inside) closed (List.nil_append _).symm ready
  · obtain rfl := Option.some_inj.1 (blocks.symm.trans ran)
    exact safe
  · rw [runAll_append, blocks, Option.bind_some, found] at ran
    obtain rfl := Option.some_inj.1 ran
    exact safe'

/-! ## Programs -/

/-- The code of a sink paints all pixels, and leaves what does not depend on the pixel known. -/
lemma run_sink (fits : Fits r d) (wf : r.WellFormed) (lowers : Lowers r values)
    (separate : target.Separate r.nodes.size) (coded : SinkCoded r palette values s code)
    (sink : r.IsPaletteSink s) (enough : 2 ≤ palette.keyframes.length)
    (ready : ∀ i, Ready target r values d i .frame (Computed r .frame r.order.toList) st) :
    (∃ st', runAll target d code.statements st = some st' ∧
      ∀ i, Ready target r values d i .frame (Computed r .frame r.order.toList) st') ∧
    ∀ x ∈ visitsAll target d code.statements st, x.Safe r target d := by
  let rows := code.palette.keyframes.map fun k => (k.red, k.green, k.blue)
  let tabled : State F := st.push target (.table code.node) none (some (.colours rows))
  have length : rows.length = palette.keyframes.length := by
    simp only [rows, List.length_map, coded.colours]
  have generated : (Name.table code.node).Generated r.nodes.size := coded.node ▸ sink.small
  have ready' : ∀ o : State F, o.locals = tabled.locals → ∀ i,
      Ready target r values d i .frame (Computed r .frame r.order.toList) o := by
    refine fun o same i => (ready i).keep (fun _ mem => mem) fun m offered => ?_
    rw [read_congr same, read_push separate generated, if_neg]
    rintro rfl
    exact offered
  have table : ∀ o : State F, o.locals = tabled.locals → ∀ k,
      (o.push target .i (some .int) (some (.int k))).read target d (.table s) =
        some (.colours rows) := by
    intro o same k
    rw [read_push separate (n := .i) trivial, if_neg (by simp), read_congr same, ← coded.node,
      read_push separate generated, if_pos rfl]
  have body : ∀ (k : Int) (o : State F), 0 ≤ k → o.locals = tabled.locals →
      Bound.below.holds k d.numLeds = true →
      let here := o.push target .i (some .int) (some (.int k))
      (∃ after, runAll target d code.body here = some after ∧ here.locals <:+ after.locals) ∧
        ∀ x ∈ visitsAll target d code.body here, x.Safe r target d :=
    fun k o first same last => run_body fits wf lowers separate ⟨first, of_decide_eq_true last⟩ coded
      sink enough length (table o same k) ((ready' o same k).at_pixel wf separate)
  -- Between pixels the locals are those before the loop.
  have pixels : LoopInvariant target d .i 0 d.numLeds .below (.name (.symbol .numLeds)) code.body tabled
      (fun _ o => o.locals = tabled.locals) (Visit.Safe r target d) :=
    { initial := rfl
      flat := fun k o same => congrArg _ same
      limits := fun k o same => (ready' o same k).sees.push separate (n := .i) trivial .numLeds
      goes := by
        intro k o first same last
        obtain ⟨⟨after, ran, above⟩, -⟩ := body k o first same last
        exact ⟨after, ⟨o.locals, after.pixels⟩, ran, leave_of_suffix above, same⟩
      tested := fun k o _ _ => by simp [Visit.Safe, Statement.exprs]
      inside := fun k o first same last => (body k o first same last).2 }
  obtain ⟨⟨_, o, same, ran⟩, safe⟩ := run_loop_of_invariant separate (n := .i) trivial pixels
  refine ⟨⟨o, ?_, ready' o same⟩,
    forall_visits_cons.2 ⟨List.forall_mem_nil _, fun _ ran =>
      forall_visits_cons.2 ⟨List.forall_mem_nil _, fun _ ran' => ?_⟩⟩⟩
  · exact runAll_comment.trans (runAll_one.trans ran)
  · cases ran
    cases ran'
    exact forall_visits_one.2 safe

/-- The code of all sinks runs to its end within bounds. -/
lemma run_sinks (fits : Fits r d) (wf : r.WellFormed) (lowers : Lowers r values)
    (separate : target.Separate r.nodes.size) (enough : 2 ≤ palette.keyframes.length)
    {codes : List SinkCode}
    (coded : ∀ code ∈ codes, ∃ s, r.IsPaletteSink s ∧ SinkCoded r palette values s code)
    (ready : ∀ i, Ready target r values d i .frame (Computed r .frame r.order.toList) st) :
    (∃ st', runAll target d (codes.flatMap SinkCode.statements) st = some st') ∧
      ∀ x ∈ visitsAll target d (codes.flatMap SinkCode.statements) st, x.Safe r target d := by
  induction codes generalizing st with
  | nil => exact ⟨⟨st, rfl⟩, nofun⟩
  | cons code codes ih =>
    obtain ⟨⟨s, sink, here⟩, rest⟩ := List.forall_mem_cons.1 coded
    obtain ⟨⟨st', ran, ready'⟩, safe⟩ := run_sink fits wf lowers separate here sink enough ready
    obtain ⟨⟨final, ran'⟩, safe'⟩ := ih rest ready'
    rw [List.flatMap_cons]
    refine ⟨⟨final, by rw [runAll_append, ran, Option.bind_some, ran']⟩,
      forall_visits_append.2 ⟨safe, fun st'' ran'' => ?_⟩⟩
    obtain rfl := Option.some_inj.1 (ran.symm.trans ran'')
    exact safe'

omit [FloorRing F] [IsStrictOrderedRing F] in
lemma safe_constants : ∀ x ∈ visitsAll target d p.constants st, x.Safe r target d := by
  refine forall_visits_append.2 ⟨?_, fun st' _ => ?_⟩
  · split
    · refine forall_visits_one.2 (List.forall_mem_singleton.2 ?_)
      simp [Visit.Safe, Statement.exprs, lastPixel]
    · exact List.forall_mem_nil _
  · split
    · refine forall_visits_one.2 (List.forall_mem_singleton.2 ?_)
      simp [Visit.Safe, Statement.exprs, lastPixel]
    · exact List.forall_mem_nil _

/-- What comes before the pixel loops stays within bounds. -/
lemma safe_preamble (fits : Fits r d) (wf : r.WellFormed) (lowers : Lowers r values)
    (coded : Coded r palette name values p) (separate : target.Separate r.nodes.size)
    (sees : st.Sees target d) : ∀ x ∈ visitsAll target d p.preamble st, x.Safe r target d := by
  obtain ⟨st1, first, ready⟩ := ready_constants coded separate sees
  refine forall_visits_append.2 ⟨forall_visits_append.2
    ⟨forall_visits_cons.2 ⟨nofun, fun _ _ => forall_visits_cons.2 ⟨nofun, fun _ _ => nofun⟩⟩,
      fun _ _ => safe_constants⟩, fun st' ran => ?_⟩
  obtain rfl := Option.some_inj.1 (first.symm.trans ran)
  rw [coded.frame]
  exact safe_blocks fits wf lowers separate (fun pixel => by cases pixel)
    (fun before u after split w path => wf.path_before split path) (List.nil_append _).symm (ready 0)

/-- A program runs to its end within bounds. -/
lemma run_program (fits : Fits r d) (wf : r.WellFormed) (lowers : Lowers r values)
    (coded : Coded r palette name values p) (separate : target.Separate r.nodes.size)
    (enough : 2 ≤ palette.keyframes.length) (sees : st.Sees target d) :
    (∃ st', runAll target d p.statements st = some st') ∧
      ∀ x ∈ visitsAll target d p.statements st, x.Safe r target d := by
  obtain ⟨st1, before, ready⟩ := run_preamble wf lowers coded separate sees
  obtain ⟨⟨final, after⟩, safe⟩ := run_sinks fits wf lowers separate enough (fun code mem => by
    obtain ⟨s, mem, here⟩ := Forall₂.exists_mem_left coded.sinks mem
    exact ⟨s, wf.mem_paletteSinks.1 mem, here⟩) ready
  rw [statements_eq]
  refine ⟨⟨final, by rw [runAll_append, before, Option.bind_some, after]⟩,
    forall_visits_append.2 ⟨safe_preamble fits wf lowers coded separate sees, fun st' ran => ?_⟩⟩
  obtain rfl := Option.some_inj.1 (before.symm.trans ran)
  exact safe

/-! ## Compiled effects -/

variable {e : Effect} {c : CompiledEffect}

/-- Under exact arithmetic the code of an effect runs to its end, whatever the firmware holds and
however long the strip is, and wherever it evaluates an index, a weight, a byte or a divisor it stays
within bounds. -/
theorem compile_inBounds (precise : d.Exact) (candidates : 1 ≤ d.numTempi)
    (compiled : e.compile default = .ok c)
    (tempo : ∀ r (v : Nat) n, e.resolve = .ok r → r.nodes[v]? = some n → n.FixesTempo →
      96 ≤ d.numTempi) (pixels : Int → Member → Option Int) :
    ∃ r palette p stats, e.resolve = .ok r ∧ Palette.ofEffect e = .ok palette ∧
      lower? r palette e.displayName = some (p, stats) ∧ c.code = p.render default ∧
      (∃ st, runAll default d p.statements ⟨[], pixels⟩ = some st) ∧
      ∀ x ∈ visitsAll default d p.statements ⟨[], pixels⟩, x.Safe r default d := by
  obtain ⟨r, resolved, compiled⟩ := bind_eq_ok.1 compiled
  obtain ⟨palette, chosen, compiled⟩ := bind_eq_ok.1 compiled
  have wf := Effect.resolve_wellFormed resolved
  have enough := Palette.two_le_length chosen
  obtain ⟨p, stats, values, run, lowers, coded⟩ := lower?_spec wf enough e.displayName
  rw [run] at compiled
  cases compiled
  have fits : Fits r d := ⟨precise, Effect.resolve_inRange resolved, candidates,
    fun u n place => tempo r u n resolved place⟩
  exact ⟨r, palette, p, stats, resolved, chosen, run, rfl,
    run_program fits wf lowers coded (TargetProfile.separate_default _) enough fun s => rfl⟩

/-- A device that computes with fractions, its literals being the values of their doubles. -/
def fractional : Device Rat where
  real x := x.units / Magnitude.unitsPerOne
  whole n := n
  ofInt n := n
  toInt := wholePart
  toByte x := UInt8.ofNat (wholePart x).toNat
  add := (· + ·)
  sub := (· - ·)
  mul := (· * ·)
  div := (· / ·)
  lt x y := x < y
  gt x y := x > y
  fabsf x := |x|
  sinf _ := 0
  fminf := min
  fmaxf := max
  fmodf x y := x - y * wholePart (x / y)
  spectrogram k := k / 64
  chromagram _ := 0
  tempi _ _ := -1
  numLeds := 60
  numTempi := 96
  vuLevel := 0
  tempoConfidence := 0
  timeSeconds := 0

lemma exact_fractional : fractional.Exact where
  real_le_iff x y hx hy := by
    rw [Binary64.le_iff hx hy]
    exact (div_le_div_iff_of_pos_right Magnitude.cast_unitsPerOne_pos).trans Int.cast_le
  real_zero := by
    have units : (0 : Binary64).units = 0 := (Binary64.units_ofNat (by decide)).trans (Int.zero_mul _)
    simp only [fractional, units, Int.cast_zero, zero_div]
  real_half := by
    refine (div_eq_div_iff (ne_of_gt Magnitude.cast_unitsPerOne_pos) two_ne_zero).2 ?_
    rw [one_mul]
    exact_mod_cast Binary64.units_half
  real_one := by
    have units : (1 : Binary64).units = Magnitude.unitsPerOne :=
      (Binary64.units_ofNat (by decide)).trans (Int.one_mul _)
    refine (div_eq_one_iff_eq (ne_of_gt Magnitude.cast_unitsPerOne_pos)).2 ?_
    exact_mod_cast units
  whole _ := rfl
  ofInt _ := rfl
  toInt _ := rfl
  add _ _ := rfl
  sub _ _ := rfl
  mul _ _ := rfl
  div _ _ := rfl
  lt _ _ := rfl
  gt _ _ := rfl
  fabsf _ := rfl
  fminf _ _ := rfl
  fmaxf _ _ := rfl
  fmodf _ _ := rfl

/-- A range of bins, given from its end, over a beat, at half brightness. -/
def spread : Effect :=
  (((Effect.empty.node (((NodeSpec.new "bins" "spectrum-interpolate").param "startBin"
      (.number 40)).param "endBin" (.number 3))).node
    ((NodeSpec.new "tempo" "beat").param "tempoBin" (.number 95))).node
    (((NodeSpec.new "sum" "add").input "bins").input "tempo")).node
    (((NodeSpec.new "strip" "palette-interpolate").param "brightness" (.number 0.5)).input "sum")

/-- Bins over a beat are shown within bounds. -/
theorem spread_inBounds : fractional.Exact ∧ 1 ≤ fractional.numTempi ∧
    ∃ c r palette p stats, spread.compile default = .ok c ∧ spread.resolve = .ok r ∧
      Palette.ofEffect spread = .ok palette ∧
      lower? r palette spread.displayName = some (p, stats) ∧ c.code = p.render default ∧
      (∃ st, runAll default fractional p.statements ⟨[], fun _ _ => none⟩ = some st) ∧
      ∀ x ∈ visitsAll default fractional p.statements ⟨[], fun _ _ => none⟩,
        x.Safe r default fractional := by
  have candidates : 1 ≤ fractional.numTempi := by decide
  have accepted : (spread.compile default).isOk = true := by decide +kernel
  cases compiled : spread.compile default with
  | error fault => simp [compiled, Except.isOk, Except.toBool] at accepted
  | ok c =>
    obtain ⟨r, palette, p, stats, bounds⟩ := compile_inBounds exact_fractional candidates compiled
      (fun _ _ _ _ _ _ => Int.le_refl 96) fun _ _ => none
    exact ⟨exact_fractional, candidates, c, r, palette, p, stats, rfl, bounds⟩

end LedEffect.Program
