import LedEffect.Proofs.Program.Meaning

/-!
# Forms on a device

The expression of a node evaluates to the formula of its kind where its operands evaluate to the
values of its inputs (`eval_formed`), and the statements of a node leave its formula in its variable
and touch nothing else (`run_formed`).
-/

namespace LedEffect.Program

variable {F : Type} {target : TargetProfile} {d : Device F} {nodes : Nat} {st : State F} {i : Int}

/-- Whether no local hides a symbol. -/
def State.Sees (target : TargetProfile) (d : Device F) (st : State F) : Prop :=
  ∀ s, st.read target d (.symbol s) = some (d.value s)

lemma State.Sees.push (separate : target.Separate nodes) {n : Name} (generated : n.Generated nodes)
    {type : Option Scalar} {value : Option (Value F)} (sees : st.Sees target d) :
    (st.push target n type value).Sees target d := by
  intro s
  rw [read_push separate generated, if_neg, sees s]
  rintro rfl
  exact generated

/-! ## Expressions -/

@[simp] lemma lt_rank_literal (x : Binary64) : 3 < (literal x).rank := by
  unfold literal
  split <;> simp

lemma eval_literal (x : Binary64) : (literal x).eval target d st = some (.float (d.real x)) := by
  unfold literal
  split <;> rfl

lemma eval_pixel (pixel : st.read target d .i = some (.int i)) :
    Program.pixel.eval target d st = some (.float (d.ofInt i)) := by
  rw [Program.pixel, Expr.eval, Expr.eval, pixel]
  rfl

lemma eval_centreDistance (pixel : st.read target d .i = some (.int i))
    (centre : st.read target d .center = some (.float d.centre)) :
    centreDistance.eval target d st = some (.float (d.fromCentre i)) := by
  have offset : (Expr.binary .sub Program.pixel (.name .center)).eval target d st =
      some (.float (d.sub (d.ofInt i) d.centre)) :=
    eval_binary .sub (by simp [Program.pixel]) (by simp) (eval_pixel pixel) centre
  exact eval_binary .div (by simp) (by simp) (eval_call1 .fabsf offset rfl)
    (eval_call2 .fmaxf centre rfl rfl)

lemma eval_stripPosition (pixel : st.read target d .i = some (.int i))
    (last : st.read target d .last = some (.float d.lastPixel)) :
    stripPosition.eval target d st = some (.float (d.along i)) := by
  exact eval_binary .div (by simp [Program.pixel]) (by simp) (eval_pixel pixel)
    (eval_call2 .fmaxf last rfl rfl)

lemma eval_beatPhase (candidate : Expr) (sees : st.Sees target d) {n : Int}
    (index : candidate.eval target d st = some (.int n)) :
    (beatPhase candidate).eval target d st = some (.float (d.beatOf n)) := by
  have phase : (Expr.member (.index (symbol .tempi) candidate) .beat).eval target d st =
      some (.float (d.tempi n .beat)) := by
    simp only [Expr.eval, symbol, sees .tempi, index]
    rfl
  exact eval_binary .add (by simp) (by simp) (eval_binary .mul (by simp) (by simp) phase rfl) rfl

/-- The expression of a node needs no parentheses inside another one. -/
lemma rank_formed {index : Nat} {n : ResolvedNode} {operand? : Nat → Option Expr} {e : Expr}
    (formed : Formed index n operand? (.expr e)) : 3 < e.rank := by
  cases formed with
  | _ => simp [symbol, stripPosition]

/-- The expression of a node evaluates to the formula of its kind. -/
lemma eval_formed {index : Nat} {n : ResolvedNode} {operand? : Nat → Option Expr} {e : Expr}
    {xs : List F} (formed : Formed index n operand? (.expr e)) (sees : st.Sees target d)
    (operands : ∀ slot a, operand? slot = some a →
      3 < a.rank ∧ ∃ x, xs[slot]? = some x ∧ a.eval target d st = some (.float x))
    (pixel : n.kind.isPerPixel = true → st.read target d .i = some (.int i))
    (centre : n.kind = .gradient → st.read target d .center = some (.float d.centre))
    (last : n.kind = .positionGradient → st.read target d .last = some (.float d.lastPixel)) :
    ∃ x, d.formula? i n xs = some x ∧ e.eval target d st = some (.float x) := by
  cases formed with
  | constant kind value =>
    exact ⟨_, by simp only [Device.formula?, kind, value]; rfl, eval_literal _⟩
  | gradient kind =>
    refine ⟨_, by simp only [Device.formula?, kind]; rfl, ?_⟩
    exact eval_centreDistance (pixel (by rw [kind]; rfl)) (centre kind)
  | positionGradient kind =>
    refine ⟨_, by simp only [Device.formula?, kind]; rfl, ?_⟩
    exact eval_stripPosition (pixel (by rw [kind]; rfl)) (last kind)
  | seconds kind speed one =>
    exact ⟨_, by simp [Device.formula?, kind, speed, one], sees .timeSeconds⟩
  | scaledSeconds kind speed other =>
    refine ⟨_, by simp [Device.formula?, kind, speed, other]; rfl, ?_⟩
    exact eval_binary .mul (by simp [symbol]) (lt_rank_literal _) (sees .timeSeconds)
      (eval_literal _)
  | @add a b kind first second =>
    obtain ⟨rankA, x, hx, evalA⟩ := operands 0 _ first
    obtain ⟨rankB, y, hy, evalB⟩ := operands 1 _ second
    refine ⟨_, by simp only [Device.formula?, kind, hx, hy]; rfl, ?_⟩
    have left : 2 ≤ a.rank := by omega
    have right : 2 < b.rank := by omega
    exact eval_call2 .fminf (eval_binary .add left right evalA evalB) rfl rfl
  | multiply kind first second =>
    obtain ⟨rankA, x, hx, evalA⟩ := operands 0 _ first
    obtain ⟨rankB, y, hy, evalB⟩ := operands 1 _ second
    refine ⟨_, by simp only [Device.formula?, kind, hx, hy]; rfl, ?_⟩
    exact eval_binary .mul (Nat.le_of_lt rankA) rankB evalA evalB
  | clamp kind min max first =>
    obtain ⟨rank, x, hx, evalA⟩ := operands 0 _ first
    refine ⟨_, by simp only [Device.formula?, kind, min, max, hx]; rfl, ?_⟩
    exact eval_call2 .fmaxf (eval_literal _) (eval_call2 .fminf (eval_literal _) evalA rfl) rfl
  | modulo kind first divisor =>
    obtain ⟨rank, x, hx, evalA⟩ := operands 0 _ first
    refine ⟨_, by simp only [Device.formula?, kind, divisor, hx]; rfl, ?_⟩
    exact eval_call2 .fmodf evalA (eval_literal _) rfl
  | scale kind first factor =>
    obtain ⟨rank, x, hx, evalA⟩ := operands 0 _ first
    refine ⟨_, by simp only [Device.formula?, kind, factor, hx]; rfl, ?_⟩
    exact eval_binary .mul (Nat.le_of_lt rank) (lt_rank_literal _) evalA (eval_literal _)
  | @sin factor a kind first frequency =>
    obtain ⟨rank, x, hx, evalA⟩ := operands 0 _ first
    refine ⟨_, by simp only [Device.formula?, kind, frequency, hx]; rfl, ?_⟩
    have phase := eval_binary .mul (Nat.le_of_lt rank) (lt_rank_literal factor) evalA (eval_literal _)
    refine eval_binary .add (by simp) (by simp) (eval_binary .mul (by simp) (by simp) ?_ rfl) rfl
    exact eval_call1 .sinf (eval_binary .mul (by simp) (by simp) phase rfl) rfl
  | spectrumBin kind whole =>
    refine ⟨_, by simp only [Device.formula?, kind, whole]; rfl, ?_⟩
    simp [symbol, sees .spectrogram, Device.value, Value.cell]
  | audioLevel kind =>
    exact ⟨_, by simp only [Device.formula?, kind]; rfl, sees .vuLevel⟩
  | fixedBeat kind bin fixed whole =>
    refine ⟨_, by simp [Device.formula?, kind, bin, fixed, whole]; rfl, ?_⟩
    exact eval_beatPhase _ sees rfl
  | chromagram kind whole =>
    refine ⟨_, by simp only [Device.formula?, kind, whole]; rfl, ?_⟩
    simp [symbol, sees .chromagram, Device.value, Value.cell]
  | tempoConfidence kind =>
    exact ⟨_, by simp only [Device.formula?, kind]; rfl, sees .tempoConfidence⟩

/-! ## Statements -/

/-- A loop of emitted code whose body keeps a shape folds over the numbers that it counts. -/
lemma run_loop (separate : target.Separate nodes) {α : Type} {shape : α → State F}
    {f : α → Int → α} {start last : Int} {bound : Bound} {limit : Expr} {body : List Statement}
    {acc : α} (limits : ∀ acc k, limit.eval target d
      ((shape acc).push target .k (some .int) (some (.int k))) = some (.int last))
    (goes : ∀ acc k, runAll target d body
      ((shape acc).push target .k (some .int) (some (.int k))) =
      some ((shape (f acc k)).push target .k (some .int) (some (.int k))))
    (flat : ∀ acc acc', (shape acc).locals.length = (shape acc').locals.length)
    {count : Nat} (enough : count ≤ (last - start + 1).toNat)
    (within : ∀ j < count, bound.holds (start + j) last = true)
    (stop : bound.holds (start + count) last = false) :
    Statement.run target d (.loop .k start bound limit body) (shape acc) =
      some (shape ((upward start count).foldl f acc)) := by
  have counter : ∀ acc k, ((shape acc).push target .k (some .int) (some (.int k))).read target d .k =
      some (.int k) := by
    intro acc k
    rw [read_push (n := .k) separate trivial, if_pos rfl]
  have left : ∀ acc acc' k, ((shape acc).push target .k (some .int) (some (.int k))).leave
      ((shape acc').push target .k (some .int) (some (.int k))) =
      (shape acc').push target .k (some .int) (some (.int k)) :=
    fun acc acc' k => leave_of_length (congrArg Nat.succ (flat acc' acc))
  have loop := @rounds_upward F α (loopTest target d .k bound limit) (fun st => do
      let after ← runAll target d body st
      let k ← ((st.leave after).read target d .k).bind Value.int?
      store target d (st.leave after) (.int (k + 1)) (.name .k))
    (fun acc k => (shape acc).push target .k (some .int) (some (.int k))) f
    (fun k => bound.holds k last)
    (fun acc k => by simp [loopTest, counter, limits, Value.int?])
    (fun acc k _ => by
      simp only [goes, left, counter, Option.bind_eq_bind, Option.bind_some, Value.int?]
      rw [store_push_self]
      rfl)
    count _ enough start acc within stop
  rw [Statement.run]
  simp only [limits, Option.bind_eq_bind, Option.bind_some, Value.int?]
  refine Option.bind_eq_some_iff.2 ⟨_, loop, ?_⟩
  rw [leave_push (Nat.le_of_eq (flat _ _)), leave_of_length (flat _ _)]

lemma runAll_one {s : Statement} : runAll target d [s] st = s.run target d st := by
  rw [runAll_cons]
  cases s.run target d st <;> rfl

lemma run_declare {type : Scalar} {n : Name} {e : Expr} {v w : Value F}
    (value : e.eval target d (st.push target n (some type) none) = some v)
    (converted : d.convert type v = some w) :
    Statement.run target d (.declare type n (some e)) st =
      some (st.push target n (some type) (some w)) := by
  rw [Statement.run]
  simp only [value, converted, Option.bind_eq_bind, Option.bind_some]

lemma run_branch {condition : Expr} {body : List Statement} {b : Bool}
    (value : condition.eval target d st = some (.int b.toNat)) :
    Statement.run target d (.branch condition body) st =
      if b then (runAll target d body st).map st.leave else some st := by
  rw [Statement.run]
  simp only [value, Option.bind_eq_bind, Option.bind_some, Value.int?]
  cases b <;> rfl

lemma run_assign (place : Expr) {e : Expr} {how : Assignment} {x y : Value F}
    (value : e.eval target d st = some x)
    (result : how.result d (place.eval target d st) x = some y) :
    Statement.run target d (.assign place how e) st = store target d st y place := by
  rw [Statement.run]
  simp only [value, result, Option.bind_eq_bind, Option.bind_some]

/-- One round adds a bin to the sum. -/
lemma run_addBin (separate : target.Separate nodes) {v : Name} (generated : v.Generated nodes)
    (other : v ≠ .k) (sees : st.Sees target d) (sum : F) (k : Int) :
    runAll target d [.assign (.name v) .add (.index (symbol .spectrogram) (.name .k))]
        ((st.push target v (some .float) (some (.float sum))).push target .k (some .int)
          (some (.int k))) =
      some ((st.push target v (some .float) (some (.float (d.add sum (d.spectrogram k))))).push
        target .k (some .int) (some (.int k))) := by
  let here : State F :=
    (st.push target v (some .float) (some (.float sum))).push target .k (some .int) (some (.int k))
  have bins : here.Sees target d := (sees.push separate generated).push separate (n := .k) trivial
  have counter : here.read target d .k = some (.int k) := by
    rw [read_push (n := .k) separate trivial, if_pos rfl]
  have bin : (Expr.index (symbol .spectrogram) (.name .k)).eval target d here =
      some (.float (d.spectrogram k)) := by
    simp only [Expr.eval, symbol, bins .spectrogram, counter]
    rfl
  have held : here.read target d v = some (.float sum) := by
    rw [read_push (n := .k) separate trivial, if_neg other, read_push separate generated, if_pos rfl]
  have sums : Assignment.add.result d (some (.float sum)) (.float (d.spectrogram k)) =
      some (.float (d.add sum (d.spectrogram k))) := rfl
  rw [runAll_one, run_assign (.name v) bin (held ▸ sums),
    store_push separate (n := .k) trivial other, store_push_self]
  rfl

lemma run_spectrumMean (separate : target.Separate nodes) {v : Name} (generated : v.Generated nodes)
    (other : v ≠ .k) (sees : st.Sees target d) (lo hi : Int) :
    runAll target d (spectrumMean v lo hi) st =
      some (st.push target v (some .float) (some (.float (d.mean lo hi)))) := by
  let shape (sum : F) : State F := st.push target v (some .float) (some (.float sum))
  let total : F :=
    (upward lo (hi - lo + 1).toNat).foldl (fun sum k => d.add sum (d.spectrogram k)) (d.real 0)
  have first : Statement.run target d (.declare .float v (some (.real 0))) st =
      some (shape (d.real 0)) := rfl
  have loop : Statement.run target d (.loop .k lo .upTo (.int hi)
      [.assign (.name v) .add (.index (symbol .spectrogram) (.name .k))]) (shape (d.real 0)) =
      some (shape total) :=
    run_loop separate (fun _ _ => rfl) (run_addBin separate generated other sees) (fun _ _ => rfl)
      (Nat.le_refl _) (fun j small => by simp [Bound.holds]; omega) (by simp [Bound.holds]; omega)
  have last : Statement.run target d (.assign (.name v) .div (.whole (hi - lo + 1)))
      (shape total) = some (shape (d.mean lo hi)) := by
    have held : (shape total).read target d v = some (.float total) := by
      rw [read_push separate generated, if_pos rfl]
    have mean : Assignment.div.result d (some (.float total)) (.float (d.whole (hi - lo + 1))) =
        some (.float (d.mean lo hi)) := rfl
    rw [run_assign (.name v) rfl (held ▸ mean), store_push_self]
    rfl
  rw [spectrumMean, runAll_cons, first, Option.bind_some, runAll_cons, loop, Option.bind_some,
    runAll_one, last]

/-- One round keeps the better candidate. -/
lemma run_keepBetter (separate : target.Separate nodes) {b : Name} (generated : b.Generated nodes)
    (other : b ≠ .k) (sees : st.Sees target d) (best k : Int) :
    runAll target d [.branch (.binary .gt (.member (.index (symbol .tempi) (.name .k)) .magnitude)
          (.member (.index (symbol .tempi) (.name b)) .magnitude))
        [.assign (.name b) .set (.name .k)]]
        ((st.push target b (some .int) (some (.int best))).push target .k (some .int)
          (some (.int k))) =
      some ((st.push target b (some .int) (some (.int (d.better best k)))).push target .k
        (some .int) (some (.int k))) := by
  let shape (best : Int) : State F :=
    (st.push target b (some .int) (some (.int best))).push target .k (some .int) (some (.int k))
  have candidates : (shape best).Sees target d :=
    (sees.push separate generated).push separate (n := .k) trivial
  have counter : (shape best).read target d .k = some (.int k) := by
    rw [read_push (n := .k) separate trivial, if_pos rfl]
  have held : (shape best).read target d b = some (.int best) := by
    rw [read_push (n := .k) separate trivial, if_neg other, read_push separate generated, if_pos rfl]
  have condition : (Expr.binary .gt (.member (.index (symbol .tempi) (.name .k)) .magnitude)
      (.member (.index (symbol .tempi) (.name b)) .magnitude)).eval target d (shape best) =
      some (.int (d.gt (d.tempi k .magnitude) (d.tempi best .magnitude)).toNat) := by
    simp only [Expr.eval, symbol, candidates .tempi, counter, held]
    rfl
  have chosen : runAll target d [.assign (.name b) .set (.name .k)] (shape best) =
      some (shape k) := by
    rw [runAll_one, run_assign (.name b) (e := .name .k) counter rfl,
      store_push separate (n := .k) trivial other, store_push_self]
    rfl
  have left : ∀ best', (shape best).leave (shape best') = shape best' :=
    fun _ => leave_of_length rfl
  rw [runAll_one, run_branch condition, chosen]
  cases wins : d.gt (d.tempi k .magnitude) (d.tempi best .magnitude) with
  | true => simp only [if_true, Option.map_some, left, Device.better, wins, shape]
  | false => simp only [Bool.false_eq_true, if_false, Device.better, wins, shape]

lemma run_strongestBeat (separate : target.Separate nodes) {v b : Name}
    (own : v.Generated nodes) (generated : b.Generated nodes) (other : b ≠ .k)
    (apart : b ≠ v) (sees : st.Sees target d) :
    runAll target d (strongestBeat v b) st =
      some ((st.push target b (some .int) (some (.int d.strongest))).push target v (some .float)
        (some (.float (d.beatOf d.strongest)))) := by
  let shape (best : Int) : State F := st.push target b (some .int) (some (.int best))
  have limits : ∀ best k, (symbol .numTempi).eval target d
      ((shape best).push target .k (some .int) (some (.int k))) = some (.int d.numTempi) := by
    intro best k
    have seen : ((shape best).push target .k (some .int) (some (.int k))).Sees target d :=
      (sees.push separate generated).push separate (n := .k) trivial
    exact seen .numTempi
  have first : Statement.run target d (.declare .int b (some (.int 0))) st = some (shape 0) := rfl
  have loop : Statement.run target d (.loop .k 1 .below (symbol .numTempi)
      [.branch (.binary .gt (.member (.index (symbol .tempi) (.name .k)) .magnitude)
          (.member (.index (symbol .tempi) (.name b)) .magnitude))
        [.assign (.name b) .set (.name .k)]]) (shape 0) = some (shape d.strongest) :=
    run_loop separate limits (run_keepBetter separate generated other sees) (fun _ _ => rfl)
      (by omega : (d.numTempi - 1).toNat ≤ _) (fun j small => by simp [Bound.holds]; omega)
      (by simp [Bound.holds]; omega)
  have last : Statement.run target d (.declare .float v (some (beatPhase (.name b))))
      (shape d.strongest) = some ((shape d.strongest).push target v (some .float)
        (some (.float (d.beatOf d.strongest)))) := by
    have held : ((shape d.strongest).push target v (some .float) none).read target d b =
        some (.int d.strongest) := by
      rw [read_push separate own, if_neg apart, read_push separate generated, if_pos rfl]
    exact run_declare (eval_beatPhase (.name b)
      ((sees.push separate generated).push separate own) held) rfl
  rw [strongestBeat, runAll_cons, first, Option.bind_some, runAll_cons, loop, Option.bind_some,
    runAll_one, last]

/-- The locals of the stretched spectrum at a pixel: its place, the bins around it, and the part of
the way between them. -/
def State.stretching (target : TargetProfile) (d : Device F) (lo hi i : Int) (st : State F) :
    State F :=
  let place := d.placeAt lo hi i
  let bin := d.toInt place
  let next := if bin < hi then bin + 1 else hi
  (((st.push target .f (some .float) (some (.float place))).push target .k (some .int)
    (some (.int bin))).push target .k1 (some .int) (some (.int next))).push target .t (some .float)
      (some (.float (d.sub place (d.ofInt bin))))

/-- The declarations of these locals. -/
def stretchLocals (lo hi : Int) : List Statement :=
  [.declare .float .f
      (some (.binary .add (.whole lo) (.binary .mul (.whole (hi - lo)) stripPosition))),
    .declare .int .k (some (.cast .int (.name .f))),
    .declare .int .k1
      (some (.choose (.binary .lt (.name .k) (.int hi)) (.binary .add (.name .k) (.int 1))
        (.int hi))),
    .declare .float .t (some (.binary .sub (.name .f) (.cast .float (.name .k))))]

/-- The two bins, mixed by the part of the way between them. -/
def mixedBins : Expr :=
  .binary .add
    (.binary .mul (.index (symbol .spectrogram) (.name .k))
      (.paren (.binary .sub (.real 1) (.name .t))))
    (.binary .mul (.index (symbol .spectrogram) (.name .k1)) (.name .t))

lemma spectrumStretch_eq (v : Name) (lo hi : Int) : spectrumStretch v lo hi =
    [.declare .float v none, .block (stretchLocals lo hi ++ [.assign (.name v) .set mixedBins])] := rfl

lemma run_stretching (separate : target.Separate nodes) (pixel : st.read target d .i = some (.int i))
    (last : st.read target d .last = some (.float d.lastPixel)) (lo hi : Int) :
    runAll target d (stretchLocals lo hi) st = some (st.stretching target d lo hi i) := by
  let place := d.placeAt lo hi i
  let bin := d.toInt place
  let next := if bin < hi then bin + 1 else hi
  let placed : State F := st.push target .f (some .float) (some (.float place))
  let binned : State F := placed.push target .k (some .int) (some (.int bin))
  let followed : State F := binned.push target .k1 (some .int) (some (.int next))
  have first : Statement.run target d (.declare .float .f (some (.binary .add (.whole lo)
      (.binary .mul (.whole (hi - lo)) stripPosition)))) st = some placed := by
    have position : stripPosition.eval target d (st.push target .f (some .float) none) =
        some (.float (d.along i)) := by
      apply eval_stripPosition
      · rwa [read_push (n := .f) separate trivial, if_neg (by simp)]
      · rwa [read_push (n := .f) separate trivial, if_neg (by simp)]
    refine run_declare (v := .float place) ?_ rfl
    simp only [Expr.eval, position]
    rfl
  have second : Statement.run target d (.declare .int .k (some (.cast .int (.name .f)))) placed =
      some binned := by
    refine run_declare (v := .int bin) ?_ rfl
    simp only [Expr.eval, placed, read_push (n := .k) separate trivial,
      read_push (n := .f) separate trivial, reduceCtorEq, if_true, if_false]
    rfl
  have third : Statement.run target d (.declare .int .k1
      (some (.choose (.binary .lt (.name .k) (.int hi)) (.binary .add (.name .k) (.int 1))
        (.int hi)))) binned = some followed := by
    refine run_declare (v := .int next) ?_ rfl
    simp only [Expr.eval, binned, read_push (n := .k1) separate trivial,
      read_push (n := .k) separate trivial, reduceCtorEq, if_true, if_false]
    by_cases more : bin < hi
    · simp [more, next, Device.operate, Device.onInts, Value.int?]
    · simp [more, next, Device.operate, Device.onInts, Value.int?]
  have fourth : Statement.run target d
      (.declare .float .t (some (.binary .sub (.name .f) (.cast .float (.name .k))))) followed =
      some (st.stretching target d lo hi i) := by
    refine run_declare (v := .float (d.sub place (d.ofInt bin))) ?_ rfl
    simp only [Expr.eval, followed, binned, placed, read_push (n := .t) separate trivial,
      read_push (n := .k1) separate trivial, read_push (n := .k) separate trivial,
      read_push (n := .f) separate trivial, reduceCtorEq, if_true, if_false]
    rfl
  rw [stretchLocals, runAll_cons, first, Option.bind_some, runAll_cons, second, Option.bind_some,
    runAll_cons, third, Option.bind_some, runAll_one, fourth]

lemma read_stretching (separate : target.Separate nodes) (lo hi : Int) :
    (st.stretching target d lo hi i).read target d .k = some (.int (d.toInt (d.placeAt lo hi i))) ∧
      (st.stretching target d lo hi i).read target d .k1 =
        some (.int (if d.toInt (d.placeAt lo hi i) < hi then d.toInt (d.placeAt lo hi i) + 1 else hi)) ∧
      (st.stretching target d lo hi i).read target d .t =
        some (.float (d.sub (d.placeAt lo hi i) (d.ofInt (d.toInt (d.placeAt lo hi i))))) := by
  simp [State.stretching, read_push separate (n := .t) trivial, read_push separate (n := .k1) trivial,
    read_push separate (n := .k) trivial]

lemma eval_mixedBins (separate : target.Separate nodes) (sees : st.Sees target d) (lo hi : Int) :
    mixedBins.eval target d (st.stretching target d lo hi i) =
      some (.float (d.stretched lo hi i)) := by
  obtain ⟨bin, next, part⟩ := @read_stretching F target d nodes st i separate lo hi
  have bins : (st.stretching target d lo hi i).read target d (.symbol .spectrogram) =
      some (.floats d.spectrogram) := by
    simp only [State.stretching, read_push separate (n := .t) trivial,
      read_push separate (n := .k1) trivial, read_push separate (n := .k) trivial,
      read_push separate (n := .f) trivial, sees .spectrogram, reduceCtorEq, if_false]
    rfl
  simp only [mixedBins, symbol, Expr.eval, bin, next, part, bins]
  rfl

lemma run_spectrumStretch (separate : target.Separate nodes) {index : Nat} (small : index < nodes)
    (sees : st.Sees target d) (pixel : st.read target d .i = some (.int i))
    (last : st.read target d .last = some (.float d.lastPixel)) (lo hi : Int) :
    runAll target d (spectrumStretch (.temporary index) lo hi) st =
      some (st.push target (.temporary index) (some .float)
        (some (.float (d.stretched lo hi i)))) := by
  have generated : (Name.temporary index).Generated nodes := small
  let outer (v : Option (Value F)) : State F := st.push target (.temporary index) (some .float) v
  let value : Value F := .float (d.stretched lo hi i)
  have seen : (outer none).Sees target d := sees.push separate generated
  have pixel : (outer none).read target d .i = some (.int i) := by
    rwa [read_push separate generated, if_neg (by simp)]
  have last : (outer none).read target d .last = some (.float d.lastPixel) := by
    rwa [read_push separate generated, if_neg (by simp)]
  -- The locals of the block lie over the variable, which is set below all of them.
  have stored : store target d ((outer none).stretching target d lo hi i) value
      (.name (.temporary index)) = some ((outer (some value)).stretching target d lo hi i) := by
    simp only [State.stretching]
    rw [store_push separate (n := .t) trivial (by simp),
      store_push separate (n := .k1) trivial (by simp),
      store_push separate (n := .k) trivial (by simp),
      store_push separate (n := .f) trivial (by simp), store_push_self]
    rfl
  have left : (outer none).leave ((outer (some value)).stretching target d lo hi i) =
      outer (some value) := by
    have flat : (outer none).locals.length ≤ (outer (some value)).locals.length := Nat.le_refl _
    simp only [State.stretching]
    rw [leave_push (Nat.le_add_right _ 3), leave_push (Nat.le_add_right _ 2),
      leave_push (Nat.le_add_right _ 1), leave_push flat]
    exact leave_of_length rfl
  rw [spectrumStretch_eq, runAll_cons, show Statement.run target d
    (.declare .float (.temporary index) none) st = some (outer none) from rfl, Option.bind_some,
    runAll_one, Statement.run, runAll_append, run_stretching separate pixel last, Option.bind_some,
    runAll_one, run_assign (.name (.temporary index)) (eval_mixedBins separate seen lo hi) rfl, stored,
    Option.map_some, left]

/-- Whether the locals of a state stand above those of an earlier one, and are variables of nodes only,
so colour tables stay as they are. -/
structure State.Extends (target : TargetProfile) (d : Device F) (st st' : State F) : Prop where
  locals : st.locals <:+ st'.locals
  tables : ∀ u, st'.read target d (.table u) = st.read target d (.table u)

lemma State.Extends.refl (st : State F) : st.Extends target d st := ⟨List.suffix_rfl, fun _ => rfl⟩

lemma State.Extends.trans {st st' st'' : State F} (first : st.Extends target d st')
    (second : st'.Extends target d st'') : st.Extends target d st'' :=
  ⟨first.locals.trans second.locals, fun u => (second.tables u).trans (first.tables u)⟩

lemma State.Extends.push (separate : target.Separate nodes) {n : Name} (generated : n.Generated nodes)
    (other : ∀ u, .table u ≠ n) {type : Option Scalar} {value : Option (Value F)} :
    st.Extends target d (st.push target n type value) :=
  ⟨List.suffix_cons _ _, fun u => by rw [read_push separate generated, if_neg (other u)]⟩

/-- The statements of a node leave the formula of its kind in its variable, and its own variables
aside every name means what it meant before. -/
lemma run_formed (separate : target.Separate nodes) {index : Nat} (small : index < nodes)
    {n : ResolvedNode} {operand? : Nat → Option Expr} {body : List Statement}
    (formed : Formed index n operand? (.statements body)) (sees : st.Sees target d)
    (pixel : n.kind.isPerPixel = true → st.read target d .i = some (.int i))
    (last : n.kind = .spectrumInterpolate → st.read target d .last = some (.float d.lastPixel))
    (xs : List F) :
    ∃ x st', d.formula? i n xs = some x ∧ runAll target d body st = some st' ∧
      st.Extends target d st' ∧ st'.read target d (.temporary index) = some (.float x) ∧
      ∀ m, m ≠ .temporary index → m ≠ .best index → st'.read target d m = st.read target d m := by
  have generated : (Name.temporary index).Generated nodes := small
  have best : (Name.best index).Generated nodes := small
  cases formed with
  | @spectrumRange lo hi kind bounds =>
    refine ⟨_, _, by simp only [Device.formula?, kind, bounds]; rfl,
      run_spectrumMean separate generated (by simp) sees lo hi,
      .push separate generated (by simp), ?_, fun m other _ => ?_⟩
    · rw [read_push separate generated, if_pos rfl]
    · rw [read_push separate generated, if_neg other]
  | @spectrumInterpolate lo hi kind bounds =>
    refine ⟨_, _, by simp only [Device.formula?, kind, bounds]; rfl,
      run_spectrumStretch separate small sees (pixel (by rw [kind]; rfl)) (last kind) lo hi,
      .push separate generated (by simp), ?_, fun m other _ => ?_⟩
    · rw [read_push separate generated, if_pos rfl]
    · rw [read_push separate generated, if_neg other]
  | strongest kind bin auto =>
    refine ⟨_, _, by simp [Device.formula?, kind, bin, auto]; rfl,
      run_strongestBeat separate generated best (by simp) (by simp) sees,
      .trans (.push separate best (by simp)) (.push separate generated (by simp)), ?_,
      fun m other otherBest => ?_⟩
    · rw [read_push separate generated, if_pos rfl]
    · rw [read_push separate generated, if_neg other, read_push separate best, if_neg otherBest]

end LedEffect.Program
