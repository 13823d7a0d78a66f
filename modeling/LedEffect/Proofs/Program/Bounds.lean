import LedEffect.Program.Compile
import LedEffect.Proofs.Effect.Palettes
import LedEffect.Proofs.Program.Exact
import LedEffect.Proofs.Program.Preservation
import LedEffect.Proofs.Program.Visits

/-!
# Array bounds

On a device that computes exactly, compiled code runs to its end, and wherever it evaluates an index,
a weight, a byte or a divisor it stays within bounds (`Visit.Safe`). The indices in expressions of
nodes are literals in the ranges of their parameters; those in statements follow from the loop limits
and from where a pixel of the strip stands.
-/

namespace LedEffect

/-- Whether a node reads a fixed tempo candidate. -/
def ResolvedNode.FixesTempo (n : ResolvedNode) : Prop :=
  n.kind = .beat ∧ ∃ bin, n.param? "tempoBin" = some bin ∧ bin.eq autoTempoBin = false

namespace Program

open ResolvedEffect

variable {F : Type} {r : ResolvedEffect} {target : TargetProfile} {d : Device F} {x : Visit F}
  {st : State F} {values : Values} {v : Nat} {n : ResolvedNode} {l : Lowered} {nodes : Nat}
  {lo hi i : Int}

/-! ## Bounds -/

/-- The node whose variable an assignment sets. -/
def Statement.assigned? : Statement → Option Nat
  | .assign (.name (.temporary v)) _ _ => some v
  | _ => none

/-- Whether a place is inside an array. The firmware has 64 bins and 12 pitch classes; the assignments
of a node that covers a bin range read from that range only. Colour tables have the rows that the
code gives them, and colours three channels. -/
def Visit.Inside (r : ResolvedEffect) (target : TargetProfile) (d : Device F) (x : Visit F)
    (k : Int) : Expr → Prop
  | .name (.symbol .spectrogram) =>
    0 ≤ k ∧ k < 64 ∧ ∀ v n lo hi, x.statement.assigned? = some v → r.nodes[v]? = some n →
      binBounds? n = some (lo, hi) → lo ≤ k ∧ k ≤ hi
  | .name (.symbol .chromagram) => 0 ≤ k ∧ k < 12
  | .name (.symbol .tempi) => 0 ≤ k ∧ k < d.numTempi
  | .name (.symbol .leds) => 0 ≤ k ∧ k < d.numLeds
  | .name (.table u) => ∃ rows, x.state.read target d (.table u) = some (.colours rows) ∧
      0 ≤ k ∧ k < rows.length
  | _ => 0 ≤ k ∧ k < 3

/-- A bin of the range of a node may be read by the assignments to it. -/
lemma inside_range (place : r.nodes[v]? = some n) (bounds : binBounds? n = some (lo, hi))
    (least : 0 ≤ lo) (most : hi ≤ 63) {k : Int} (first : lo ≤ k) (last : k ≤ hi) {e : Expr}
    {how : Assignment} : Visit.Inside r target d ⟨.assign (.name (.temporary v)) how e, st⟩ k
      (symbol .spectrogram) := by
  refine ⟨Int.le_trans least first, by omega, fun u m lo' hi' assigned place' bounds' => ?_⟩
  obtain rfl := Option.some_inj.1 assigned
  obtain rfl := Option.some_inj.1 (place.symm.trans place')
  obtain ⟨rfl, rfl⟩ := Prod.mk.inj (Option.some_inj.1 (bounds.symm.trans bounds'))
  exact ⟨first, last⟩

variable [Field F] [LinearOrder F]

/-- Whether an expression stays within bounds where it is evaluated: an index is inside its array, a
weight lies between zero and one, what becomes a byte between 0 and 255, and no divisor is zero. -/
def Expr.Safe (r : ResolvedEffect) (target : TargetProfile) (d : Device F) (x : Visit F) :
    Expr → Prop
  | .index a i => ∃ k, i.eval target d x.state = some (.int k) ∧ x.Inside r target d k a
  | .name .t => ∃ y, x.state.read target d .t = some (.float y) ∧ 0 ≤ y ∧ y ≤ 1
  | .cast .byte e => ∃ y, e.eval target d x.state = some (.float y) ∧ 0 ≤ y ∧ y ≤ 255
  | .binary .div _ e | .call2 .fmodf _ e => ∀ y, e.eval target d x.state = some (.float y) → y ≠ 0
  | _ => True

section Safe

variable {m : Name} {k : Int} {y : Binary64} {type : Scalar} {op : Operator} {f : Function}
  {c : Member} {e a b : Expr}

@[simp] lemma safe_int : (Expr.int k).Safe r target d x := trivial
@[simp] lemma safe_whole : (Expr.whole k).Safe r target d x := trivial
@[simp] lemma safe_real : (Expr.real y).Safe r target d x := trivial
@[simp] lemma safe_paren : (Expr.paren e).Safe r target d x := trivial
@[simp] lemma safe_call1 : (Expr.call1 f a).Safe r target d x := trivial
@[simp] lemma safe_member : (Expr.member a c).Safe r target d x := trivial
@[simp] lemma safe_choose : (Expr.choose e a b).Safe r target d x := trivial

@[simp] lemma safe_index : (Expr.index a b).Safe r target d x ↔
    ∃ k, b.eval target d x.state = some (.int k) ∧ x.Inside r target d k a := Iff.rfl

@[simp] lemma safe_weight : (Expr.name .t).Safe r target d x ↔
    ∃ y, x.state.read target d .t = some (.float y) ∧ 0 ≤ y ∧ y ≤ 1 := Iff.rfl

@[simp] lemma safe_name (other : m ≠ .t) : (Expr.name m).Safe r target d x := by
  cases m with
  | t => exact absurd rfl other
  | _ => trivial

@[simp] lemma safe_byte : (Expr.cast .byte e).Safe r target d x ↔
    ∃ y, e.eval target d x.state = some (.float y) ∧ 0 ≤ y ∧ y ≤ 255 := Iff.rfl

@[simp] lemma safe_cast (other : type ≠ .byte) : (Expr.cast type e).Safe r target d x := by
  cases type with
  | byte => exact absurd rfl other
  | _ => trivial

@[simp] lemma safe_div : (Expr.binary .div a b).Safe r target d x ↔
    ∀ y, b.eval target d x.state = some (.float y) → y ≠ 0 := Iff.rfl

@[simp] lemma safe_binary (other : op ≠ .div) : (Expr.binary op a b).Safe r target d x := by
  cases op with
  | div => exact absurd rfl other
  | _ => trivial

@[simp] lemma safe_fmodf : (Expr.call2 .fmodf a b).Safe r target d x ↔
    ∀ y, b.eval target d x.state = some (.float y) → y ≠ 0 := Iff.rfl

@[simp] lemma safe_call2 (other : f ≠ .fmodf) : (Expr.call2 f a b).Safe r target d x := by
  cases f with
  | fmodf => exact absurd rfl other
  | _ => trivial

end Safe

/-- Whether all that is evaluated at a visit stays within bounds. -/
def Visit.Safe (r : ResolvedEffect) (target : TargetProfile) (d : Device F) (x : Visit F) : Prop :=
  ∀ e ∈ x.statement.exprs, ∀ part ∈ e.parts, part.Safe r target d x

/-! ## Bins and candidates -/

/-- A sum over the range of a node takes in a bin of the range. -/
lemma safe_addBin (place : r.nodes[v]? = some n) (bounds : binBounds? n = some (lo, hi))
    (least : 0 ≤ lo) (most : hi ≤ 63) {k : Int} (first : lo ≤ k) (last : k ≤ hi)
    (counter : st.read target d .k = some (.int k)) :
    Visit.Safe r target d
      ⟨.assign (.name (.temporary v)) .add (.index (symbol .spectrogram) (.name .k)), st⟩ := by
  simpa [Visit.Safe, Statement.exprs, Assignment.exprs, symbol, counter] using
    inside_range place bounds least most first last

/-- A mix of two bins of the range of a node weighs them by a part of one. -/
lemma safe_mixBins (place : r.nodes[v]? = some n) (bounds : binBounds? n = some (lo, hi))
    (least : 0 ≤ lo) (most : hi ≤ 63) {k k1 : Int} {t : F}
    (bin : st.read target d .k = some (.int k)) (next : st.read target d .k1 = some (.int k1))
    (weight : st.read target d .t = some (.float t)) (first : lo ≤ k) (last : k ≤ hi)
    (first1 : lo ≤ k1) (last1 : k1 ≤ hi) (nonneg : 0 ≤ t) (part : t ≤ 1) :
    Visit.Safe r target d ⟨.assign (.name (.temporary v)) .set mixedBins, st⟩ := by
  simpa [Visit.Safe, Statement.exprs, Assignment.exprs, mixedBins, symbol, bin, next, weight,
    nonneg, part] using
    ⟨inside_range place bounds least most first last,
      inside_range place bounds least most first1 last1⟩

/-- The search for the strongest candidate reads candidates. -/
lemma safe_strongestBeat (separate : target.Separate nodes) (small : v < nodes)
    (sees : st.Sees target d) (candidates : 1 ≤ d.numTempi) :
    ∀ x ∈ visitsAll target d (strongestBeat (.temporary v) (.best v)) st, x.Safe r target d := by
  have generated : (Name.best v).Generated nodes := small
  have own : (Name.temporary v).Generated nodes := small
  let shape (best : Int) : State F := st.push target (.best v) (some .int) (some (.int best))
  refine forall_visits_cons.2 ⟨List.forall_mem_singleton.2 ?_, fun st' ran => ?_⟩
  · simp [Visit.Safe, Statement.exprs]
  cases ran
  -- Between rounds the best so far is a candidate.
  let J (_ : Int) (o : State F) : Prop := ∃ best, 0 ≤ best ∧ best < d.numTempi ∧ o = shape best
  have limits : ∀ k o, J k o → (symbol .numTempi).eval target d
      (o.push target .k (some .int) (some (.int k))) = some (.int d.numTempi) := by
    rintro k _ ⟨best, -, -, rfl⟩
    exact (sees.push separate generated).push separate (n := .k) trivial .numTempi
  refine forall_visits_loop separate (n := .k) trivial (J := J)
    { initial := ⟨0, Int.le_refl 0, candidates, rfl⟩, flat := ?flat, limits := limits,
      goes := ?goes, tested := ?tested, inside := ?inside } ?after
  case flat =>
    rintro _ _ ⟨best, -, -, rfl⟩
    rfl
  case goes =>
    rintro k _ first ⟨best, least, most, rfl⟩ last
    have last : k < d.numTempi := of_decide_eq_true last
    refine ⟨_, _, run_keepBetter separate generated (by simp) sees best k, leave_of_length rfl,
      _, ?_, ?_, rfl⟩
    · unfold Device.better
      split <;> omega
    · unfold Device.better
      split <;> omega
  case tested =>
    rintro k _ _ ⟨best, -, -, rfl⟩
    simp [Visit.Safe, Statement.exprs, symbol]
  case inside =>
    rintro k _ first ⟨best, least, most, rfl⟩ last
    have last : k < d.numTempi := of_decide_eq_true last
    refine forall_visits_one.2 (forall_visits_branch ?_
      (forall_visits_one.2 (List.forall_mem_singleton.2 ?_)))
    · have bound : 0 ≤ k := by omega
      simp [Visit.Safe, Statement.exprs, symbol, Visit.Inside, read_push separate (n := .k) trivial,
        read_push separate generated, shape, bound, least, most, last]
    · simp [Visit.Safe, Statement.exprs, Assignment.exprs]
  case after =>
    rintro k _ ⟨best, least, most, rfl⟩
    refine forall_visits_one.2 (List.forall_mem_singleton.2 ?_)
    simp [Visit.Safe, Statement.exprs, beatPhase, symbol, Visit.Inside,
      read_push separate generated, read_push separate own, shape, least, most]

/-! ## Expressions -/

lemma safe_literal (y : Binary64) : ∀ part ∈ (literal y).parts, part.Safe r target d x := by
  unfold literal
  split <;> simp

variable [FloorRing F]

/-- A divisor that is held at one or more is not zero. -/
lemma eval_fmaxf_one_ne_zero (precise : d.Exact) {a : Expr} {y : F}
    (eval : (Expr.call2 .fmaxf a (.real 1)).eval target d st = some (.float y)) : y ≠ 0 := by
  simp only [Expr.eval, Option.bind_eq_bind, Option.bind_eq_some_iff, Option.map_eq_some_iff] at eval
  obtain ⟨_, -, _, -, z, -, _, one, _, converted, w, float, _, applied, eq⟩ := eval
  cases one
  cases converted
  cases float
  cases applied
  cases eq
  rw [precise.fmaxf, precise.real_one]
  exact ne_of_gt (lt_of_lt_of_le one_pos (le_max_right z 1))

lemma safe_centreDistance (precise : d.Exact) :
    ∀ part ∈ centreDistance.parts, part.Safe r target d x := by
  simpa [centreDistance, Program.pixel] using
    fun y eval => eval_fmaxf_one_ne_zero (a := .name .center) precise eval

lemma safe_stripPosition (precise : d.Exact) :
    ∀ part ∈ stripPosition.parts, part.Safe r target d x := by
  simpa [stripPosition, Program.pixel] using
    fun y eval => eval_fmaxf_one_ne_zero (a := .name .last) precise eval

/-- The expression of a node stays within bounds wherever its operands do, except in an assignment to
a node that covers a bin range. -/
lemma safe_formed (precise : d.Exact) {index : Nat} {operand? : Nat → Option Expr} {e : Expr}
    (range : n.InRange) (tempo : n.FixesTempo → 96 ≤ d.numTempi)
    (formed : Formed index n operand? (.expr e)) (free : x.statement.assigned? = none)
    (operands : ∀ slot a, operand? slot = some a → ∀ part ∈ a.parts, part.Safe r target d x) :
    ∀ part ∈ e.parts, part.Safe r target d x := by
  cases formed with
  | constant kind value => exact safe_literal _
  | gradient kind => simpa using safe_centreDistance precise
  | positionGradient kind => exact safe_stripPosition precise
  | seconds kind speed one => simp [symbol]
  | @scaledSeconds speed kind value other =>
    simpa [symbol] using safe_literal speed
  | add kind first second | multiply kind first second =>
    simpa [or_imp, forall_and] using ⟨operands 0 _ first, operands 1 _ second⟩
  | @clamp min max a kind least most first =>
    simpa [or_imp, forall_and] using
      ⟨safe_literal min, safe_literal max, operands 0 _ first⟩
  | @modulo divisor a kind first value =>
    obtain ⟨finite, positive⟩ := range.divisor_pos kind value
    have nonzero : ∀ y, (literal divisor).eval target d x.state = some (.float y) → y ≠ 0 := by
      rintro y eval
      rw [eval_literal] at eval
      cases eval
      exact ne_of_gt (precise.real_pos finite positive)
    simpa [or_imp, forall_and] using
      ⟨nonzero, operands 0 _ first, safe_literal divisor⟩
  | @scale factor a kind first value =>
    simpa [or_imp, forall_and] using ⟨operands 0 _ first, safe_literal factor⟩
  | @sin frequency a kind first value =>
    simpa [or_imp, forall_and] using
      ⟨operands 0 _ first, safe_literal frequency⟩
  | spectrumBin kind whole =>
    obtain ⟨least, most⟩ := range.bin_mem kind whole
    simpa [symbol, Visit.Inside, free] using
      ⟨least, Int.lt_of_le_of_lt most (by decide)⟩
  | audioLevel kind => simp [symbol]
  | fixedBeat kind bin fixed whole =>
    obtain ⟨least, most⟩ := range.candidate_mem kind bin fixed whole
    have enough := tempo ⟨kind, _, bin, fixed⟩
    simpa [symbol, beatPhase, Visit.Inside] using
      ⟨least, Int.lt_of_le_of_lt most (by omega)⟩
  | chromagram kind whole =>
    obtain ⟨least, most⟩ := range.pitch_mem kind whole
    simpa [symbol, Visit.Inside] using
      ⟨least, Int.lt_of_le_of_lt most (by decide)⟩
  | tempoConfidence kind => simp [symbol]

/-- What the bounds of an effect's code rest on: exact arithmetic, parameters in range, and a tempo
candidate at least, all of them where one is fixed. -/
structure Fits (r : ResolvedEffect) (d : Device F) : Prop where
  precise : d.Exact
  ranges : ∀ (u : Nat) n, r.nodes[u]? = some n → n.InRange
  candidates : 1 ≤ d.numTempi
  tempo : ∀ (u : Nat) n, r.nodes[u]? = some n → n.FixesTempo → 96 ≤ d.numTempi

/-- When the expressions of its inputs stay within bounds, so does that of a node. -/
lemma safe_form (fits : Fits r d) (place : r.nodes[v]? = some n) (free : x.statement.assigned? = none)
    (inputs : ∀ u l, r.Reads v u → values[u]? = some (some l) →
      ∀ part ∈ l.expr.parts, part.Safe r target d x) {e : Expr}
    (formed : Formed v n (operand? values n) (.expr e)) :
    ∀ part ∈ e.parts, part.Safe r target d x := by
  refine safe_formed fits.precise (fits.ranges v n place) (fits.tempo v n place) formed free
    fun slot a operand => ?_
  obtain ⟨u, l, input, lowered, rfl⟩ := exists_of_operand? operand
  exact inputs u l ⟨n, place, List.mem_of_getElem? input⟩ lowered

/-- What consumers read of a node stays within bounds wherever it stands. -/
lemma safe_lowered (fits : Fits r d) (wf : r.WellFormed) (lowers : Lowers r values)
    (lowered : values[v]? = some (some l)) (free : x.statement.assigned? = none) :
    ∀ part ∈ l.expr.parts, part.Safe r target d x := by
  refine lowers.expr_induction wf (P := fun _ e => ∀ part ∈ e.parts, part.Safe r target d x) ?_ ?_
    lowered
  · intro v l _ _
    simp
  · intro v n e place _ _ formed inputs
    exact safe_form fits place free inputs formed

/-! ## Statements of nodes -/

/-- The mean of a bin range reads bins of that range. -/
lemma safe_spectrumMean (precise : d.Exact) (separate : target.Separate nodes) (small : v < nodes)
    (sees : st.Sees target d) (place : r.nodes[v]? = some n)
    (bounds : binBounds? n = some (lo, hi)) (least : 0 ≤ lo) (ordered : lo ≤ hi) (most : hi ≤ 63) :
    ∀ x ∈ visitsAll target d (spectrumMean (.temporary v) lo hi) st, x.Safe r target d := by
  have generated : (Name.temporary v).Generated nodes := small
  refine forall_visits_cons.2 ⟨List.forall_mem_singleton.2 ?_, fun st' ran => ?_⟩
  · simp [Visit.Safe, Statement.exprs]
  cases ran
  -- Between rounds there is a sum.
  refine forall_visits_loop separate (n := .k) trivial
    (J := fun _ o => ∃ sum, o = st.push target (.temporary v) (some .float) (some (.float sum)))
    { initial := ⟨_, rfl⟩, flat := ?flat, limits := fun _ _ _ => rfl, goes := ?goes,
      tested := ?tested, inside := ?inside } ?after
  case flat =>
    rintro _ _ ⟨sum, rfl⟩
    rfl
  case goes =>
    rintro k _ _ ⟨sum, rfl⟩ _
    exact ⟨_, _, run_addBin separate generated (by simp) sees sum k, leave_of_length rfl, _, rfl⟩
  case tested =>
    rintro k _ _ ⟨sum, rfl⟩
    simp [Visit.Safe, Statement.exprs]
  case inside =>
    rintro k _ first ⟨sum, rfl⟩ last
    refine forall_visits_one.2 (List.forall_mem_singleton.2 ?_)
    exact safe_addBin place bounds least most first (of_decide_eq_true last)
      (by rw [read_push separate (n := .k) trivial, if_pos rfl])
  case after =>
    rintro k _ ⟨sum, rfl⟩
    refine forall_visits_one.2 (List.forall_mem_singleton.2 ?_)
    have count : ((hi - lo + 1 : Int) : F) ≠ 0 := Int.cast_ne_zero.2 (by omega)
    simpa [Visit.Safe, Statement.exprs, Assignment.exprs, precise.whole] using count

lemma safe_stretchLocals (precise : d.Exact) :
    ∀ x ∈ visitsAll target d (stretchLocals lo hi) st, x.Safe r target d := by
  refine forall_visits_cons.2 ⟨List.forall_mem_singleton.2 ?_, fun _ _ => forall_visits_cons.2
    ⟨List.forall_mem_singleton.2 ?_, fun _ _ => forall_visits_cons.2
      ⟨List.forall_mem_singleton.2 ?_, fun _ _ => forall_visits_one.2
        (List.forall_mem_singleton.2 ?_)⟩⟩⟩
  · simpa [Visit.Safe, Statement.exprs] using safe_stripPosition precise
  · simp [Visit.Safe, Statement.exprs]
  · simp [Visit.Safe, Statement.exprs]
  · simp [Visit.Safe, Statement.exprs]

variable [IsStrictOrderedRing F]

/-- The stretched spectrum reads two bins of its range. -/
lemma safe_spectrumStretch (precise : d.Exact) (separate : target.Separate nodes) (small : v < nodes)
    (pixel : st.read target d .i = some (.int i))
    (last : st.read target d .last = some (.float d.lastPixel)) (inside : 0 ≤ i ∧ i < d.numLeds)
    (place : r.nodes[v]? = some n) (bounds : binBounds? n = some (lo, hi)) (least : 0 ≤ lo)
    (ordered : lo ≤ hi) (most : hi ≤ 63) :
    ∀ x ∈ visitsAll target d (spectrumStretch (.temporary v) lo hi) st, x.Safe r target d := by
  have generated : (Name.temporary v).Generated nodes := small
  let outer : State F := st.push target (.temporary v) (some .float) none
  have pixel : outer.read target d .i = some (.int i) := by
    rwa [read_push separate generated, if_neg (by simp)]
  have last : outer.read target d .last = some (.float d.lastPixel) := by
    rwa [read_push separate generated, if_neg (by simp)]
  rw [spectrumStretch_eq]
  refine forall_visits_cons.2 ⟨nofun, fun st' ran => ?_⟩
  cases ran
  refine forall_visits_one.2 (forall_visits_append.2 ⟨safe_stretchLocals precise, fun st' ran => ?_⟩)
  obtain rfl := Option.some_inj.1 ((run_stretching separate pixel last lo hi).symm.trans ran)
  refine forall_visits_one.2 (List.forall_mem_singleton.2 ?_)
  obtain ⟨bin, next, weight⟩ := @read_stretching F target d nodes outer i separate lo hi
  obtain ⟨above, below⟩ := precise.placeAt_mem inside.1 inside.2 ordered
  obtain ⟨first, upto, nonneg, under⟩ := wholePart_mem least above below
  rw [← precise.toInt] at first upto nonneg under
  refine safe_mixBins place bounds least most bin next weight first upto ?_ ?_ ?_ ?_
  · split <;> omega
  · split <;> omega
  · rwa [precise.sub, precise.ofInt]
  · rw [precise.sub, precise.ofInt]
    exact le_of_lt under

variable {scope : Scope} {held : Nat → Prop}

/-- The statements of a node stay within bounds. -/
lemma safe_block (fits : Fits r d) (wf : r.WellFormed) (lowers : Lowers r values)
    (separate : target.Separate r.nodes.size) (ready : Ready target r values d i scope held st)
    (inside : scope = .pixel → 0 ≤ i ∧ i < d.numLeds) (lowered : values[v]? = some (some l))
    (materialized : r.Materialized v) (pixel : r.PerPixel v → scope = .pixel) :
    ∀ x ∈ visitsAll target d l.block st, x.Safe r target d := by
  obtain ⟨-, n, place, live, -, shape⟩ := lowers.variable_of_materialized lowered materialized
  have small := wf.live_small live
  rcases shape with ⟨body, formed, block⟩ | ⟨e, formed, block⟩
  · rw [block]
    refine forall_visits_cons.2 ⟨nofun, fun st' ran => ?_⟩
    cases ran
    cases formed with
    | spectrumRange kind bounds =>
      obtain ⟨least, ordered, most⟩ := (fits.ranges v n place).bounds_mem (.inl kind) bounds
      exact safe_spectrumMean fits.precise separate small ready.sees place bounds least ordered most
    | spectrumInterpolate kind bounds =>
      obtain ⟨least, ordered, most⟩ := (fits.ranges v n place).bounds_mem (.inr kind) bounds
      have here := pixel ⟨v, n, .refl, place, by rw [kind]; rfl⟩
      exact safe_spectrumStretch fits.precise separate small (ready.pixel here)
        (ready.last ⟨v, n, live, place, .inr kind⟩) (inside here) place bounds least ordered most
    | strongest kind bin auto =>
      exact safe_strongestBeat separate small ready.sees fits.candidates
  · rw [block]
    refine forall_visits_cons.2 ⟨nofun, fun st' _ =>
      forall_visits_one.2 (List.forall_mem_singleton.2 (List.forall_mem_singleton.2 ?_))⟩
    exact safe_form fits place rfl
      (fun u l read lowered => safe_lowered fits wf lowers lowered rfl) formed

/-- The statements of a scope stay within bounds along a list that is closed under what its nodes
read. -/
lemma safe_blocks (fits : Fits r d) (wf : r.WellFormed) (lowers : Lowers r values)
    (separate : target.Separate r.nodes.size) (inside : scope = .pixel → 0 ≤ i ∧ i < d.numLeds)
    {list done rest : List Nat}
    (closed : ∀ before u after, list = before ++ u :: after →
      ∀ w, Relation.TransGen r.Reads u w → w ∈ before)
    (split : list = done ++ rest)
    (ready : Ready target r values d i scope (Computed r scope done) st) :
    ∀ x ∈ visitsAll target d (rest.flatMap (blockAt values scope)) st, x.Safe r target d := by
  induction rest generalizing done st with
  | nil => exact nofun
  | cons v rest ih =>
    have next : list = (done ++ [v]) ++ rest := by simpa using split
    rw [List.flatMap_cons]
    refine forall_visits_append.2 ⟨?_, fun st' ran => ?_⟩
    · by_cases emitted : Emitted values scope v
      · obtain ⟨l, lowered, here, block⟩ := emitted
        rw [blockAt_eq lowered here]
        exact safe_block fits wf lowers separate ready inside lowered
          ((lowers.block_ne_nil_iff lowered).1 block) fun perPixel =>
            here ▸ (lowers.scope_iff wf lowered).2 perPixel
      · rw [blockAt_eq_nil emitted]
        exact nofun
    · obtain ⟨st'', ran', -, ready'⟩ :=
        ready.run_blockAt wf lowers separate (closed _ _ _ split)
      obtain rfl := Option.some_inj.1 (ran'.symm.trans ran)
      exact ih next ready'

end Program

end LedEffect
