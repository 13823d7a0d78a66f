import LedEffect.Proofs.Program.Blocks
import LedEffect.Proofs.Program.Coded

/-!
# Lowering preserves meaning

The statements of the nodes run along the order, first those of frame scope and then, at a pixel,
those of pixel scope. While they run, every variable that has been computed holds the meaning of its
node (`Ready`), so an expression evaluates to the meaning of its node although it reads variables in
place of shared nodes (`Ready.eval_lowered`).
-/

namespace LedEffect.Program

open ResolvedEffect

variable {F : Type} {target : TargetProfile} {r : ResolvedEffect} {values : Values} {d : Device F}
  {i : Int} {scope : Scope} {held : Nat → Prop} {st st' : State F} {v : Nat} {n : ResolvedNode}

/-! ## States between statements -/

/-- The names that the code of nodes may read once the variables of the nodes `held` are set. -/
def Name.Offered (held : Nat → Prop) : Name → Prop
  | .symbol _ | .i | .center | .last => True
  | .temporary v => held v
  | _ => False

/-- What a state offers the code of a scope: the firmware, the constants of the strip that live nodes
ask for, in pixel scope the pixel, and the meanings of the nodes `held` that have a variable. -/
structure Ready (target : TargetProfile) (r : ResolvedEffect) (values : Values) (d : Device F)
    (i : Int) (scope : Scope) (held : Nat → Prop) (st : State F) : Prop where
  sees : st.Sees target d
  pixel : scope = .pixel → st.read target d .i = some (.int i)
  centre : r.UsesCenter → st.read target d .center = some (.float d.centre)
  last : r.UsesLast → st.read target d .last = some (.float d.lastPixel)
  known : ∀ v l, values[v]? = some (some l) → r.Materialized v → held v →
    ∃ x, r.Means d i v x ∧ st.read target d (.temporary v) = some (.float x)

namespace Ready

/-- A state in which the names offered read the same offers the same. -/
lemma keep {fewer : Nat → Prop} (ready : Ready target r values d i scope held st)
    (subset : ∀ v, fewer v → held v)
    (same : ∀ m, m.Offered fewer → st'.read target d m = st.read target d m) :
    Ready target r values d i scope fewer st' := by
  refine ⟨fun s => ?_, fun inside => ?_, fun used => ?_, fun used => ?_,
    fun u l lowered stored mem => ?_⟩
  · rw [same (.symbol s) trivial, ready.sees s]
  · rw [same .i trivial, ready.pixel inside]
  · rw [same .center trivial, ready.centre used]
  · rw [same .last trivial, ready.last used]
  · obtain ⟨x, means, read⟩ := ready.known u l lowered stored (subset u mem)
    exact ⟨x, means, by rw [same (.temporary u) mem, read]⟩

/-- When the variables of a node are set, the others stay known. -/
lemma forget (ready : Ready target r values d i scope held st)
    (same : ∀ m, m ≠ .temporary v → m ≠ .best v → st'.read target d m = st.read target d m) :
    Ready target r values d i scope (fun u => held u ∧ u ≠ v) st' := by
  refine ready.keep (fun u mem => mem.1) fun m offered => same m ?_ ?_
  · rintro rfl
    exact offered.2 rfl
  · rintro rfl
    exact offered

lemma learn (ready : Ready target r values d i scope held st) {x : F} (means : r.Means d i v x)
    (read : st.read target d (.temporary v) = some (.float x)) :
    Ready target r values d i scope (fun u => held u ∨ u = v) st :=
  { ready with
    known := by
      rintro u l lowered stored (mem | rfl)
      · exact ready.known u l lowered stored mem
      · exact ⟨x, means, read⟩ }

/-! ## Expressions -/

/-- When all inputs of a node evaluate to their meanings, so do its operands. -/
lemma operands (wf : r.WellFormed) (lowers : Lowers r values) (place : r.nodes[v]? = some n)
    (live : r.Live v) (kind : n.kind ≠ .output)
    (inputs : ∀ u l, r.Reads v u → values[u]? = some (some l) → ∃ x, r.Means d i u x ∧
      3 < l.expr.rank ∧ l.expr.eval target d st = some (.float x)) :
    ∃ xs, List.Forall₂ (r.Means d i) n.inputs xs ∧
      ∀ slot a, operand? values n slot = some a →
        3 < a.rank ∧ ∃ x, xs[slot]? = some x ∧ a.eval target d st = some (.float x) := by
  obtain ⟨xs, meanings⟩ : ∃ xs, List.Forall₂ (r.Means d i) n.inputs xs := by
    refine exists_forall₂ fun u mem => ?_
    obtain ⟨l, lowered⟩ := lowers.input wf place live kind mem
    obtain ⟨x, means, -⟩ := inputs u l ⟨n, place, mem⟩ lowered
    exact ⟨x, means⟩
  refine ⟨xs, meanings, fun slot a operand => ?_⟩
  obtain ⟨u, l, input, lowered, rfl⟩ := exists_of_operand? operand
  obtain ⟨x, means, rank, value⟩ := inputs u l ⟨n, place, List.mem_of_getElem? input⟩ lowered
  obtain ⟨y, there, means'⟩ := Forall₂.exists_right meanings input
  exact ⟨rank, y, there, means'.unique means ▸ value⟩

/-- When all inputs of a node evaluate to their meanings, so does its own expression. -/
lemma eval_form (wf : r.WellFormed) (lowers : Lowers r values)
    (ready : Ready target r values d i scope held st) (place : r.nodes[v]? = some n)
    (live : r.Live v) (kind : n.kind ≠ .output) (pixel : r.PerPixel v → scope = .pixel)
    (inputs : ∀ u l, r.Reads v u → values[u]? = some (some l) → ∃ x, r.Means d i u x ∧
      3 < l.expr.rank ∧ l.expr.eval target d st = some (.float x)) {e : Expr}
    (formed : Formed v n (operand? values n) (.expr e)) :
    ∃ x, r.Means d i v x ∧ e.eval target d st = some (.float x) := by
  obtain ⟨xs, meanings, operands⟩ := operands wf lowers place live kind inputs
  obtain ⟨x, value, eval⟩ := eval_formed formed ready.sees operands
    (fun perPixel => ready.pixel (pixel ⟨v, n, .refl, place, perPixel⟩))
    (fun gradient => ready.centre ⟨v, n, live, place, .inl gradient⟩)
    (fun position => ready.last ⟨v, n, live, place, .inl position⟩)
  exact ⟨x, .of_formula? wf place meanings value, eval⟩

/-- What consumers read of a node evaluates to its meaning, once the variables of all that it reaches
are computed. -/
lemma eval_lowered (wf : r.WellFormed) (lowers : Lowers r values)
    (ready : Ready target r values d i scope held st) {l : Lowered}
    (lowered : values[v]? = some (some l)) (pixel : r.PerPixel v → scope = .pixel)
    (upstream : ∀ u, r.Reaches v u → held u) :
    ∃ x, r.Means d i v x ∧ 3 < l.expr.rank ∧ l.expr.eval target d st = some (.float x) := by
  -- A variable is known already, an expression goes back to its inputs.
  refine lowers.expr_induction wf (P := fun v e => (r.PerPixel v → scope = .pixel) →
    (∀ u, r.Reaches v u → held u) → ∃ x, r.Means d i v x ∧ 3 < e.rank ∧
      e.eval target d st = some (.float x)) ?_ ?_ lowered pixel upstream
  · intro v l lowered materialized _ upstream
    obtain ⟨x, means, read⟩ := ready.known v l lowered materialized (upstream v .refl)
    exact ⟨x, means, by simp, read⟩
  · intro v n e place live kind formed inputs pixel upstream
    have inputs : ∀ u l, r.Reads v u → values[u]? = some (some l) → ∃ x, r.Means d i u x ∧
        3 < l.expr.rank ∧ l.expr.eval target d st = some (.float x) := by
      intro u l read lowered
      exact inputs u l read lowered (fun perPixel => pixel (perPixel.of_reaches (.single read)))
        fun w path => upstream w (path.head read)
    obtain ⟨x, means, eval⟩ := ready.eval_form wf lowers place live kind pixel inputs formed
    exact ⟨x, means, rank_formed formed, eval⟩

/-! ## Statements -/

/-- The statements of a node compute its meaning into its variable. -/
lemma run_block (wf : r.WellFormed) (lowers : Lowers r values)
    (separate : target.Separate r.nodes.size) (ready : Ready target r values d i scope held st)
    {l : Lowered} (lowered : values[v]? = some (some l)) (materialized : r.Materialized v)
    (pixel : r.PerPixel v → scope = .pixel)
    (upstream : ∀ u, Relation.TransGen r.Reads v u → held u) :
    ∃ st', runAll target d l.block st = some st' ∧ st.Extends target d st' ∧
      Ready target r values d i scope (fun u => held u ∧ u ≠ v ∨ u = v) st' := by
  obtain ⟨-, n, place, live, kind, shape⟩ := lowers.variable_of_materialized lowered materialized
  have small : (Name.temporary v).Generated r.nodes.size := wf.live_small live
  -- Nothing that the node reads is the node itself, whose variable is not set yet.
  have inputs : ∀ {st'}, Ready target r values d i scope (fun u => held u ∧ u ≠ v) st' →
      ∀ u l, r.Reads v u → values[u]? = some (some l) → ∃ x, r.Means d i u x ∧
        3 < l.expr.rank ∧ l.expr.eval target d st' = some (.float x) := by
    intro st' ready' u l read lowered
    refine ready'.eval_lowered wf lowers lowered
      (fun perPixel => pixel (perPixel.of_reaches (.single read))) fun w path => ?_
    have down := Relation.TransGen.head' read path
    refine ⟨upstream w down, ?_⟩
    rintro rfl
    exact Nat.lt_irrefl _ (wf.path_lt down)
  rcases shape with ⟨body, formed, block⟩ | ⟨e, formed, block⟩
  · obtain ⟨xs, meanings, -⟩ := operands wf lowers place live kind
      (inputs (ready.keep (fun u mem => mem.1) fun m _ => rfl))
    obtain ⟨x, st', value, ran, above, read, same⟩ := run_formed separate small formed ready.sees
      (fun perPixel => ready.pixel (pixel ⟨v, n, .refl, place, perPixel⟩))
      (fun stretch => ready.last ⟨v, n, live, place, .inr stretch⟩) xs
    rw [block]
    exact ⟨st', runAll_comment.trans ran, above,
      (ready.forget same).learn (.of_formula? wf place meanings value) read⟩
  · have same : ∀ (value : Option (Value F)) m, m ≠ .temporary v → m ≠ .best v →
        (st.push target (.temporary v) (some .float) value).read target d m =
          st.read target d m := by
      intro value m other _
      rw [read_push separate small, if_neg other]
    obtain ⟨x, means, eval⟩ := (ready.forget (same none)).eval_form wf lowers place live kind
      pixel (inputs (ready.forget (same none))) formed
    rw [block]
    refine ⟨_, runAll_comment.trans (runAll_one.trans (run_declare eval rfl)),
      .push separate small (by simp), (ready.forget (same (some (.float x)))).learn means ?_⟩
    rw [read_push separate small, if_pos rfl]

/-- The statements of the next node of a list compute its variable, when those before it offer all that
it reads. -/
lemma run_blockAt (wf : r.WellFormed) (lowers : Lowers r values)
    (separate : target.Separate r.nodes.size) {done : List Nat}
    (closed : ∀ w, Relation.TransGen r.Reads v w → w ∈ done)
    (ready : Ready target r values d i scope (Computed r scope done) st) :
    ∃ st', runAll target d (blockAt values scope v) st = some st' ∧ st.Extends target d st' ∧
      Ready target r values d i scope (Computed r scope (done ++ [v])) st' := by
  by_cases emitted : Emitted values scope v
  · obtain ⟨l, lowered, here, block⟩ := emitted
    have pixel : r.PerPixel v → scope = .pixel := fun perPixel =>
      here ▸ (lowers.scope_iff wf lowered).2 perPixel
    obtain ⟨st', ran, above, ready'⟩ := ready.run_block wf lowers separate lowered
      ((lowers.block_ne_nil_iff lowered).1 block) pixel
      fun u path => .inr ⟨closed u path, fun perPixel =>
        pixel (perPixel.of_reaches path.to_reflTransGen)⟩
    refine ⟨st', blockAt_eq lowered here ▸ ran, above,
      ready'.keep (fun u computed => ?_) fun m _ => rfl⟩
    by_cases same : u = v
    · exact .inr same
    · exact .inl ⟨computed.of_snoc.resolve_right same, same⟩
  · refine ⟨st, by rw [blockAt_eq_nil emitted]; rfl, .refl st, { ready with known := ?_ }⟩
    exact fun u l lowered materialized computed =>
      ready.known u l lowered materialized
        (computed.of_idle wf lowers emitted lowered materialized)

/-- The statements of a scope run along a list that is closed under what its nodes read. -/
lemma run_blocks (wf : r.WellFormed) (lowers : Lowers r values)
    (separate : target.Separate r.nodes.size) {list done rest : List Nat}
    (closed : ∀ before u after, list = before ++ u :: after →
      ∀ w, Relation.TransGen r.Reads u w → w ∈ before)
    (split : list = done ++ rest)
    (ready : Ready target r values d i scope (Computed r scope done) st) :
    ∃ st', runAll target d (rest.flatMap (blockAt values scope)) st = some st' ∧
      st.Extends target d st' ∧ Ready target r values d i scope (Computed r scope list) st' := by
  -- On what is left of the list: the nodes before offer all that the next one reads.
  induction rest generalizing done st with
  | nil =>
    rw [List.append_nil] at split
    exact ⟨st, rfl, .refl st, split ▸ ready⟩
  | cons v rest ih =>
    have next : list = (done ++ [v]) ++ rest := by simpa using split
    obtain ⟨st', ran, above, ready'⟩ :=
      ready.run_blockAt wf lowers separate (closed _ _ _ split)
    obtain ⟨st'', ran', above', ready''⟩ := ih next ready'
    refine ⟨st'', ?_, above.trans above', ready''⟩
    rw [List.flatMap_cons, runAll_append, ran]
    exact ran'

end Ready

/-! ## Programs -/

variable {palette : Palette} {name : String} {p : Program} {code : SinkCode}

lemma run_constants (separate : target.Separate r.nodes.size) (sees : st.Sees target d) :
    ∃ st', runAll target d p.constants st = some st' ∧ st'.Sees target d ∧
      (p.usesCenter = true → st'.read target d .center = some (.float d.centre)) ∧
      (p.usesLast = true → st'.read target d .last = some (.float d.lastPixel)) := by
  have lastPixel : ∀ {st : State F}, st.Sees target d →
      lastPixel.eval target d st = some (.float d.lastPixel) := by
    intro st sees
    simp [Program.lastPixel, sees .numLeds, Device.value, Device.operate, Device.onInts,
      Device.convert, Device.lastPixel]
  have centre : ∀ {st : State F}, st.Sees target d →
      (Expr.binary .mul Program.lastPixel (.real 0.5)).eval target d st = some (.float d.centre) := by
    intro st sees
    rw [Expr.eval, lastPixel sees]
    rfl
  obtain ⟨st1, first, sees1, read1⟩ : ∃ st1, runAll target d
      (if p.usesCenter then [.constant .center (.binary .mul Program.lastPixel (.real 0.5))] else [])
        st = some st1 ∧ st1.Sees target d ∧
      (p.usesCenter = true → st1.read target d .center = some (.float d.centre)) := by
    cases p.usesCenter with
    | false => exact ⟨st, rfl, sees, fun used => absurd used Bool.false_ne_true⟩
    | true =>
      refine ⟨st.push target .center none (some (.float d.centre)), ?_,
        sees.push separate (n := .center) trivial, fun _ => ?_⟩
      · rw [if_pos rfl, runAll_one, Statement.run, centre (sees.push separate (n := .center) trivial)]
        rfl
      · rw [read_push separate (n := .center) trivial, if_pos rfl]
  rw [constants, runAll_append, first, Option.bind_some]
  cases p.usesLast with
  | false => exact ⟨st1, rfl, sees1, read1, fun used => absurd used Bool.false_ne_true⟩
  | true =>
    refine ⟨st1.push target .last none (some (.float d.lastPixel)), ?_,
      sees1.push separate (n := .last) trivial, fun used => ?_, fun _ => ?_⟩
    · rw [if_pos rfl, runAll_one, Statement.run, lastPixel (sees1.push separate (n := .last) trivial)]
      rfl
    · rw [read_push separate (n := .last) trivial, if_neg (by simp), read1 used]
    · rw [read_push separate (n := .last) trivial, if_pos rfl]

/-- The constants that live nodes ask for are all that is known at first. -/
lemma ready_constants (coded : Coded r palette name values p)
    (separate : target.Separate r.nodes.size) (sees : st.Sees target d) :
    ∃ st', runAll target d p.constants st = some st' ∧
      ∀ i, Ready target r values d i .frame (Computed r .frame []) st' := by
  obtain ⟨st', ran, sees', centre, last⟩ := @run_constants F target r d st p separate sees
  refine ⟨st', ran, fun i => ⟨sees', nofun, fun used => centre (coded.usesCenter.2 used),
    fun used => last (coded.usesLast.2 used), ?_⟩⟩
  rintro v l - - (⟨pixel, -⟩ | ⟨mem, -⟩)
  · cases pixel
  · cases mem

/-- Before the pixel loops all that does not depend on the pixel is computed. -/
lemma run_preamble (wf : r.WellFormed) (lowers : Lowers r values)
    (coded : Coded r palette name values p) (separate : target.Separate r.nodes.size)
    (sees : st.Sees target d) :
    ∃ st', runAll target d p.preamble st = some st' ∧
      ∀ i, Ready target r values d i .frame (Computed r .frame r.order.toList) st' := by
  obtain ⟨st1, first, ready⟩ := ready_constants coded separate sees
  have ran : ∀ i, ∃ st', runAll target d p.frame st1 = some st' ∧
      Ready target r values d i .frame (Computed r .frame r.order.toList) st' := by
    intro i
    obtain ⟨st', run, -, ready'⟩ := (ready i).run_blocks wf lowers separate
      (fun before u after split w path => wf.path_before split path) (List.nil_append _).symm
    exact ⟨st', coded.frame ▸ run, ready'⟩
  obtain ⟨st', run, -⟩ := ran 0
  refine ⟨st', ?_, fun i => ?_⟩
  · rw [preamble, runAll_append, runAll_append]
    exact Option.bind_eq_some_iff.2 ⟨st1, Option.bind_eq_some_iff.2 ⟨st, rfl, first⟩, run⟩
  · obtain ⟨st'', run', ready'⟩ := ran i
    obtain rfl := Option.some_inj.1 (run.symm.trans run')
    exact ready'

/-- At a pixel what does not depend on it is known. -/
lemma Ready.at_pixel (wf : r.WellFormed) (separate : target.Separate r.nodes.size)
    (ready : Ready target r values d i .frame (Computed r .frame r.order.toList) st) :
    Ready target r values d i .pixel (Computed r .pixel [])
      (st.push target .i (some .int) (some (.int i))) := by
  have kept : ∀ m, m ≠ .i → (st.push target .i (some .int) (some (.int i))).read target d m =
      st.read target d m := by
    intro m other
    rw [read_push separate (n := .i) trivial, if_neg other]
  refine ⟨ready.sees.push separate (n := .i) trivial, fun _ => ?_, fun used => ?_, fun used => ?_, ?_⟩
  · rw [read_push separate (n := .i) trivial, if_pos rfl]
  · rw [kept _ (by simp), ready.centre used]
  · rw [kept _ (by simp), ready.last used]
  · rintro v l lowered materialized (⟨-, frame⟩ | ⟨mem, -⟩)
    · have listed : v ∈ r.order.toList := by
        obtain ⟨n, place, -⟩ := materialized
        exact wf.mem_order.2 (Array.getElem?_eq_some_iff.1 place).1
      rw [kept _ (by simp)]
      exact ready.known v l lowered materialized
        (.inr ⟨listed, fun perPixel => absurd perPixel frame⟩)
    · cases mem

/-- Runs statements up to the palette position and evaluates what it is wrapped from. -/
def unwrapped? (target : TargetProfile) (d : Device F) : List Statement → State F → Option (Value F)
  | [], _ => none
  | .declare .float .pos (some (.call2 .fmodf x _)) :: _, st =>
    x.eval target d (st.push target .pos (some .float) none)
  | s :: rest, st => do unwrapped? target d rest (← s.run target d st)

/-- What the code of a sink wraps into the palette position of a pixel, after the statements before
the pixel loops and then those of its own loop have run. -/
def unwrappedAt? (target : TargetProfile) (d : Device F) (p : Program) (code : SinkCode)
    (pixels : Int → Member → Option Int) (i : Int) : Option (Value F) := do
  let start ← runAll target d p.preamble ⟨[], pixels⟩
  unwrapped? target d code.body (start.push target .i (some .int) (some (.int i)))

/-- Statements that declare no palette position come first. -/
lemma unwrapped?_append {first rest : List Statement}
    (other : ∀ type e, .declare type .pos e ∉ first) :
    unwrapped? target d (first ++ rest) st =
      (runAll target d first st).bind (unwrapped? target d rest) := by
  induction first generalizing st with
  | nil => rfl
  | cons s first ih =>
    have step : unwrapped? target d (s :: (first ++ rest)) st =
        (s.run target d st).bind (unwrapped? target d (first ++ rest)) := by
      rw [unwrapped?]
      · rfl
      · rintro x y rfl
        exact other _ _ List.mem_cons_self
    rw [List.cons_append, step, runAll_cons]
    cases s.run target d st with
    | none => rfl
    | some st' => exact ih fun type e mem => other type e (List.mem_cons_of_mem _ mem)

/-- The statements of nodes declare no palette position. -/
lemma Lowers.not_mem_blockAt (lowers : Lowers r values) (type : Scalar) (e : Option Expr) :
    .declare type .pos e ∉ blockAt values scope v := by
  by_cases emitted : Emitted values scope v
  · obtain ⟨l, lowered, here, block⟩ := emitted
    obtain ⟨-, n, -, -, -, shape⟩ :=
      lowers.variable_of_materialized lowered ((lowers.block_ne_nil_iff lowered).1 block)
    rw [blockAt_eq lowered here]
    rcases shape with ⟨body, formed, block⟩ | ⟨e, formed, block⟩
    · rw [block]
      cases formed with
      | spectrumRange kind bounds => simp [spectrumMean]
      | spectrumInterpolate kind bounds => simp [spectrumStretch]
      | strongest kind bin auto => simp [strongestBeat]
    · simp [block]
  · simp [blockAt_eq_nil emitted]

/-- Once the variables of all that a sink reaches are computed, what it wraps into its position
evaluates to the meaning of its input. -/
lemma Ready.eval_wrapped (wf : r.WellFormed) (lowers : Lowers r values)
    (separate : target.Separate r.nodes.size) {s : Nat} (place : r.nodes[s]? = some n)
    (input : v ∈ n.inputs) {l : Lowered} (lowered : values[v]? = some (some l))
    (ready : Ready target r values d i .pixel (Computed r .pixel (r.reached s)) st) :
    ∃ x, r.Means d i v x ∧
      l.expr.eval target d (st.push target .pos (some .float) none) = some (.float x) := by
  have read : r.Reads s v := ⟨n, place, input⟩
  -- The position is declared while its value is computed, but no node reads it.
  have ready' : Ready target r values d i .pixel (Computed r .pixel (r.reached s))
      (st.push target .pos (some .float) none) := by
    refine ready.keep (fun _ mem => mem) fun m offered => ?_
    rw [read_push separate (n := .pos) trivial, if_neg]
    rintro rfl
    exact offered
  obtain ⟨x, means, -, eval⟩ := ready'.eval_lowered wf lowers lowered (fun _ => rfl) fun u path =>
    .inr ⟨mem_reached.2 ⟨wf.mem_order.2 (wf.reaches_small (wf.inside s v read) path),
      path.head read⟩, fun _ => rfl⟩
  exact ⟨x, means, eval⟩

/-- The code of a sink wraps the meaning of its input. -/
lemma SinkCoded.unwrapped (wf : r.WellFormed) (lowers : Lowers r values)
    (separate : target.Separate r.nodes.size) {s : Nat} (coded : SinkCoded r palette values s code)
    (sink : r.IsPaletteSink s) (place : r.nodes[s]? = some n) (input : n.inputs[0]? = some v)
    (ready : Ready target r values d i .pixel (Computed r .pixel []) st) :
    ∃ x, unwrapped? target d code.body st = some (.float x) ∧ r.Means d i v x := by
  obtain ⟨n', position, brightness, place', positioned, -, -, body⟩ := coded.body
  obtain rfl := Option.some_inj.1 (place.symm.trans place')
  obtain ⟨n', place', kind⟩ := id sink
  obtain rfl := Option.some_inj.1 (place.symm.trans place')
  obtain ⟨l, lowered⟩ := lowers.input wf place ⟨s, sink, .refl⟩ (by rw [kind]; decide)
    (List.mem_of_getElem? input)
  obtain ⟨st', run, -, ready'⟩ := ready.run_blocks wf lowers separate
    (fun before u after split w path => wf.reached_before split path) (List.nil_append _).symm
  obtain ⟨x, means, eval⟩ :=
    ready'.eval_wrapped wf lowers separate place (List.mem_of_getElem? input) lowered
  refine ⟨x, ?_, means⟩
  have operand := operand?_eq_some input lowered
  have opened : position = [.declare .float .pos (some (.call2 .fmodf l.expr (.real 1))),
      .branch (.binary .lt (.name .pos) (.real 0)) [.assign (.name .pos) .add (.real 1)]] := by
    cases Positioned.of_palettePosition? positioned with
    | centred inputs => simp [inputs] at input
    | wrapped inputs operand' =>
      obtain rfl := Option.some_inj.1 (operand.symm.trans operand')
      rfl
  rw [body, opened, List.append_assoc, unwrapped?_append, run, Option.bind_some]
  · exact eval
  · intro type e mem
    obtain ⟨u, -, mem⟩ := List.mem_flatMap.1 mem
    exact lowers.not_mem_blockAt type e mem

/-- Lowering preserves meaning: whatever the device and the pixel, the code of a palette sink wraps
into its position the value of the node that the sink reads. -/
theorem lower_preserves_meaning {e : Effect} (resolved : e.resolve = .ok r)
    (enough : 2 ≤ palette.keyframes.length) (separate : target.Separate r.nodes.size) (name : String)
    (d : Device F) (pixels : Int → Member → Option Int) :
    ∃ p stats, lower? r palette name = some (p, stats) ∧
      ∀ s n v, r.nodes[s]? = some n → n.kind = .paletteInterpolate → n.inputs[0]? = some v →
        (∃ code ∈ p.sinks, code.node = s) ∧
        ∀ code ∈ p.sinks, code.node = s → ∀ i, ∃ x,
          unwrappedAt? target d p code pixels i = some (.float x) ∧
          ∀ depth, r.nodes.size ≤ depth → r.value? d i depth v = some x := by
  have wf := Effect.resolve_wellFormed resolved
  obtain ⟨p, stats, values, run, lowers, coded⟩ := lower?_spec wf enough name
  have sees : State.Sees target d ⟨[], pixels⟩ := fun s => rfl
  obtain ⟨start, ran, ready⟩ := run_preamble wf lowers coded separate sees
  refine ⟨p, stats, run, fun s n v place kind input => ⟨?_, fun code mem node i => ?_⟩⟩
  · obtain ⟨code, mem, sink⟩ :=
      Forall₂.exists_mem_right coded.sinks (wf.mem_paletteSinks.2 ⟨n, place, kind⟩)
    exact ⟨code, mem, sink.node⟩
  · obtain ⟨s', mem', sink⟩ := Forall₂.exists_mem_left coded.sinks mem
    obtain rfl := sink.node.symm.trans node
    obtain ⟨x, value, means⟩ := sink.unwrapped wf lowers separate (wf.mem_paletteSinks.1 mem') place
      input ((ready i).at_pixel wf separate)
    refine ⟨x, Option.bind_eq_some_iff.2 ⟨start, ran, value⟩, fun depth deep => ?_⟩
    exact means.value? wf (wf.inside _ v ⟨n, place, List.mem_of_getElem? input⟩) deep

/-- A device whose floats are whole numbers, at a level of three. -/
def loud : Device Int where
  real x := x.truncate (-100) 100
  whole n := n
  ofInt n := n
  toInt x := x
  toByte x := UInt8.ofNat x.toNat
  add := (· + ·)
  sub := (· - ·)
  mul := (· * ·)
  div := Int.tdiv
  lt x y := x < y
  gt x y := x > y
  fabsf x := x.natAbs
  sinf _ := 0
  fminf := min
  fmaxf := max
  fmodf := Int.tmod
  spectrogram _ := 0
  chromagram _ := 0
  tempi _ _ := 0
  numLeds := 8
  numTempi := 4
  vuLevel := 3
  tempoConfidence := 0
  timeSeconds := 0

/-- A level that is squared and shown moves the palette by nine on that device. -/
theorem unwrapped_squared : ∃ r p stats, Effect.squared.resolve = .ok r ∧
    2 ≤ (Palette.mk [⟨0, 0, 0, 0⟩, ⟨1, 9, 9, 9⟩]).keyframes.length ∧
    (default : TargetProfile).Separate r.nodes.size ∧
    lower? r ⟨[⟨0, 0, 0, 0⟩, ⟨1, 9, 9, 9⟩]⟩ "squared" = some (p, stats) ∧
    ∃ code ∈ p.sinks, unwrappedAt? default loud p code (fun _ _ => none) 5 = some (.float 9) := by
  have accepted : (match Effect.squared.resolve with
      | .ok r => r.nodes.size == 3 && (r.nodes[2]?).any fun n =>
          n.kind == .paletteInterpolate && n.inputs == [1] && r.value? loud 5 3 1 == some 9
      | .error _ => false) = true := by decide +kernel
  cases resolved : Effect.squared.resolve with
  | error fault =>
    rw [resolved] at accepted
    cases accepted
  | ok r =>
    rw [resolved] at accepted
    simp only [Bool.and_eq_true, beq_iff_eq, Option.any_eq_true] at accepted
    obtain ⟨size, n, place, ⟨kind, inputs⟩, value⟩ := accepted
    have enough : 2 ≤ (Palette.mk [⟨0, 0, 0, 0⟩, ⟨1, 9, 9, 9⟩]).keyframes.length := by decide
    have separate := TargetProfile.separate_default r.nodes.size
    obtain ⟨p, stats, run, sinks⟩ := lower_preserves_meaning resolved enough separate "squared" loud
      fun _ _ => none
    obtain ⟨⟨code, mem, node⟩, meaning⟩ := sinks 2 n 1 place kind (by rw [inputs]; rfl)
    obtain ⟨x, fed, means⟩ := meaning code mem node 5
    rw [means 3 (Nat.le_of_eq size), Option.some_inj] at value
    exact ⟨r, p, stats, rfl, enough, separate, run, code, mem, value ▸ fed⟩

end LedEffect.Program
