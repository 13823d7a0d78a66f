import LedEffect.Proofs.Program.Scoping

/-!
# Names within their scopes

What the code of a scope may mention (`Name.Within`): variables that are declared and belong to the
scope, the pixel at a pixel only, and constants of the strip that live nodes use. The statements of
single nodes keep to it when the variables of all that the nodes read are declared (`within_block`),
so a whole program does (`within_program`).
-/

namespace LedEffect.Program

open ResolvedEffect

variable {r : ResolvedEffect} {values : Values} {scope : Scope} {Γ : List Name} {v : Nat}
  {n : ResolvedNode} {l : Lowered}

/-! ## Names of expressions -/

@[simp] lemma names_literal (x : Binary64) : (literal x).names = [] := by
  unfold literal
  split <;> rfl

@[simp] lemma names_dimmed (brightness : Binary64) (e : Expr) : (dimmed brightness e).names = e.names := by
  unfold dimmed
  split <;> simp

/-- Whether a symbol of the firmware is a reading, which a single value may depend on: its buffer and
the two lengths are none. -/
def Reading : Symbol → Prop
  | .leds | .numLeds | .numTempi => False
  | _ => True

/-- What an expression of a node mentions. -/
lemma names_formed {index : Nat} {operand? : Nat → Option Expr} {e : Expr} {P : Name → Prop}
    (formed : Formed index n operand? (.expr e)) (symbols : ∀ s, Reading s → P (.symbol s))
    (pixel : n.kind.isPerPixel = true → P .i) (centre : n.kind = .gradient → P .center)
    (last : n.kind = .positionGradient → P .last)
    (operands : ∀ slot a, operand? slot = some a → ∀ m ∈ a.names, P m) : ∀ m ∈ e.names, P m := by
  cases formed with
  | gradient kind =>
    simp [Expr.names, centreDistance, Program.pixel, centre kind, pixel (by rw [kind]; rfl)]
  | positionGradient kind =>
    simp [Expr.names, stripPosition, Program.pixel, last kind, pixel (by rw [kind]; rfl)]
  | add kind first second | multiply kind first second =>
    simpa [or_imp, forall_and] using ⟨operands 0 _ first, operands 1 _ second⟩
  | clamp kind _ _ first | modulo kind first _ | scale kind first _ | sin kind first _ =>
    simpa using operands 0 _ first
  | _ => simp [symbol, beatPhase, symbols .timeSeconds trivial, symbols .spectrogram trivial,
    symbols .chromagram trivial, symbols .tempi trivial, symbols .vuLevel trivial,
    symbols .tempoConfidence trivial]

/-- An expression of a node mentions what its operands do. -/
lemma names_operand {index slot : Nat} {operand? : Nat → Option Expr} {e a : Expr}
    (formed : Formed index n operand? (.expr e)) (small : slot < n.kind.maxInputs)
    (operand : operand? slot = some a) : ∀ m ∈ a.names, m ∈ e.names := by
  -- Kinds without inputs have no operands, those of one input have the first one only.
  cases formed with
  | add kind first second | multiply kind first second =>
    have bound : slot < 2 := by rwa [kind] at small
    obtain rfl | rfl : slot = 0 ∨ slot = 1 := by omega
    · obtain rfl := Option.some_inj.1 (first.symm.trans operand)
      simp +contextual
    · obtain rfl := Option.some_inj.1 (second.symm.trans operand)
      simp +contextual
  | clamp kind _ _ first | modulo kind first _ | scale kind first _ | sin kind first _ =>
    obtain rfl : slot = 0 := Nat.lt_one_iff.1 (by rwa [kind] at small)
    obtain rfl := Option.some_inj.1 (first.symm.trans operand)
    simp
  | _ => simp_all [Kind.maxInputs]

/-- Whether the code of a scope may mention a name where the names `Γ` are declared: variables that
are declared and belong to the scope, the pixel at a pixel, and constants that live nodes use. -/
def Name.Within (r : ResolvedEffect) (scope : Scope) (Γ : List Name) (n : Name) : Prop :=
  match n with
  | .i => scope = .pixel
  | .center => r.UsesCenter
  | .last => r.UsesLast
  | .temporary v | .best v => n ∈ Γ ∧ (r.PerPixel v → scope = .pixel)
  | _ => True

section

variable {s : Symbol}

@[simp] lemma within_i : Name.i.Within r scope Γ ↔ scope = .pixel := Iff.rfl
@[simp] lemma within_center : Name.center.Within r scope Γ ↔ r.UsesCenter := Iff.rfl
@[simp] lemma within_last : Name.last.Within r scope Γ ↔ r.UsesLast := Iff.rfl
@[simp] lemma within_temporary : (Name.temporary v).Within r scope Γ ↔
    .temporary v ∈ Γ ∧ (r.PerPixel v → scope = .pixel) := Iff.rfl
@[simp] lemma within_best : (Name.best v).Within r scope Γ ↔
    .best v ∈ Γ ∧ (r.PerPixel v → scope = .pixel) := Iff.rfl
@[simp] lemma within_symbol : (Name.symbol s).Within r scope Γ := trivial
@[simp] lemma within_table : (Name.table v).Within r scope Γ := trivial
@[simp] lemma within_k : Name.k.Within r scope Γ := trivial
@[simp] lemma within_k1 : Name.k1.Within r scope Γ := trivial
@[simp] lemma within_f : Name.f.Within r scope Γ := trivial
@[simp] lemma within_t : Name.t.Within r scope Γ := trivial
@[simp] lemma within_pos : Name.pos.Within r scope Γ := trivial
@[simp] lemma within_scaled : Name.scaled.Within r scope Γ := trivial
@[simp] lemma within_lo : Name.lo.Within r scope Γ := trivial

end

/-- The code of a pixel may mention all that the code of a frame may. -/
lemma Name.Within.to_pixel {m : Name} (within : m.Within r .frame Γ) : m.Within r .pixel Γ := by
  cases m with
  | i => rfl
  | temporary v => exact ⟨within.1, fun _ => rfl⟩
  | best v => exact ⟨within.1, fun _ => rfl⟩
  | _ => exact within

/-- Whether the variables of the nodes `held` are declared. -/
def Holds (r : ResolvedEffect) (values : Values) (held : Nat → Prop) (Γ : List Name) : Prop :=
  ∀ v l, values[v]? = some (some l) → r.Materialized v → held v → .temporary v ∈ Γ

/-- What the expression of a node mentions, over what the expressions of its inputs do. -/
lemma names_form (place : r.nodes[v]? = some n) {P : Name → Prop}
    (symbols : ∀ s, Reading s → P (.symbol s)) (pixel : n.kind.isPerPixel = true → P .i)
    (centre : n.kind = .gradient → P .center) (last : n.kind = .positionGradient → P .last)
    (inputs : ∀ u l, r.Reads v u → values[u]? = some (some l) → ∀ m ∈ l.expr.names, P m) {e : Expr}
    (formed : Formed v n (operand? values n) (.expr e)) : ∀ m ∈ e.names, P m := by
  refine names_formed formed symbols pixel centre last fun slot a operand => ?_
  obtain ⟨u, l, input, lowered, rfl⟩ := exists_of_operand? operand
  exact inputs u l ⟨n, place, List.mem_of_getElem? input⟩ lowered

/-- When the names of its inputs are within a scope, so are those of the expression of a node. -/
lemma within_form (place : r.nodes[v]? = some n) (live : r.Live v)
    (pixel : r.PerPixel v → scope = .pixel)
    (inputs : ∀ u l, r.Reads v u → values[u]? = some (some l) →
      ∀ m ∈ l.expr.names, m.Within r scope Γ)
    {e : Expr} (formed : Formed v n (operand? values n) (.expr e)) :
    ∀ m ∈ e.names, m.Within r scope Γ :=
  names_form place (fun _ _ => trivial)
    (fun perPixel => pixel ⟨v, n, .refl, place, perPixel⟩)
    (fun gradient => ⟨v, n, live, place, .inl gradient⟩)
    (fun position => ⟨v, n, live, place, .inl position⟩) inputs formed

/-- What consumers read of a node is within a scope once the variables of all that it reaches are
declared. -/
lemma within_lowered (wf : r.WellFormed) (lowers : Lowers r values)
    (lowered : values[v]? = some (some l)) (pixel : r.PerPixel v → scope = .pixel)
    (declared : Holds r values (r.Reaches v) Γ) : ∀ m ∈ l.expr.names, m.Within r scope Γ := by
  refine lowers.expr_induction wf (P := fun v e => (r.PerPixel v → scope = .pixel) →
    Holds r values (r.Reaches v) Γ → ∀ m ∈ e.names, m.Within r scope Γ) ?_ ?_ lowered pixel declared
  · intro v l lowered materialized pixel declared m mem
    obtain rfl := List.mem_singleton.1 mem
    exact ⟨declared v l lowered materialized .refl, pixel⟩
  · intro v n e place live _ formed inputs pixel declared
    refine within_form place live pixel (fun u l read lowered => ?_) formed
    exact inputs u l read lowered (fun perPixel => pixel (perPixel.of_reaches (.single read)))
      fun w l lowered materialized path => declared w l lowered materialized (path.head read)

/-! ## Statements of nodes -/

/-- The statements of a node stay within a scope once the variables of all that it reads are
declared. -/
lemma within_block (wf : r.WellFormed) (lowers : Lowers r values)
    (lowered : values[v]? = some (some l)) (materialized : r.Materialized v)
    (pixel : r.PerPixel v → scope = .pixel)
    (declared : Holds r values (Relation.TransGen r.Reads v) Γ) :
    ∀ o ∈ occurrencesIn Γ l.block, o.name.Within r scope o.scope := by
  obtain ⟨-, n, place, live, -, shape⟩ := lowers.variable_of_materialized lowered materialized
  rcases shape with ⟨body, formed, block⟩ | ⟨e, formed, block⟩
  · rw [block]
    cases formed with
    | spectrumRange kind bounds =>
      simpa [spectrumMean, symbol] using pixel
    | spectrumInterpolate kind bounds =>
      have inside : scope = .pixel := pixel ⟨v, n, .refl, place, by rw [kind]; rfl⟩
      have last : r.UsesLast := ⟨v, n, live, place, .inr kind⟩
      simp [spectrumStretch, stripPosition, Program.pixel, symbol, inside, last]
    | strongest kind bin auto =>
      simpa [strongestBeat, beatPhase, symbol] using pixel
  · have names := within_form place live pixel (fun u l read lowered =>
      within_lowered wf lowers lowered (fun perPixel => pixel (perPixel.of_reaches (.single read)))
        fun w l lowered materialized path =>
          declared w l lowered materialized (Relation.TransGen.head' read path)) formed
    rw [block]
    simpa using names

/-- The statements of a node declare its variable, once and for all statements after them. -/
lemma declared_block (lowers : Lowers r values) (lowered : values[v]? = some (some l))
    (materialized : r.Materialized v) :
    (declarationsIn l.block).count (.temporary v) = 1 ∧
      ∀ Γ, .temporary v ∈ scopeAfter Γ l.block := by
  obtain ⟨-, n, -, -, -, shape⟩ := lowers.variable_of_materialized lowered materialized
  rcases shape with ⟨body, formed, block⟩ | ⟨e, formed, block⟩
  · rw [block]
    cases formed with
    | spectrumRange kind bounds =>
      simp [spectrumMean, mem_scopeAfter]
    | spectrumInterpolate kind bounds =>
      simp [spectrumStretch, mem_scopeAfter]
    | strongest kind bin auto =>
      simp [strongestBeat, mem_scopeAfter]
  · simp [block, mem_scopeAfter]

/-- The statements of a node declare its own variables and the local ones of their loops. -/
lemma own_block (lowers : Lowers r values) (lowered : values[v]? = some (some l))
    (materialized : r.Materialized v) :
    ∀ m ∈ declarationsIn l.block, m = .temporary v ∨ m = .best v ∨ m ∈ [.k, .k1, .f, .t] := by
  obtain ⟨-, n, -, -, -, shape⟩ := lowers.variable_of_materialized lowered materialized
  rcases shape with ⟨body, formed, block⟩ | ⟨e, formed, block⟩
  · rw [block]
    cases formed with
    | spectrumRange kind bounds => simp [spectrumMean]
    | spectrumInterpolate kind bounds =>
      simp [spectrumStretch]
    | strongest kind bin auto => simp [strongestBeat]
  · simp [block]

/-- The statements of a scope stay within it along a list that is closed under what its nodes read,
and at its end all their variables are declared. -/
lemma within_blocks (wf : r.WellFormed) (lowers : Lowers r values) {list done rest : List Nat}
    (closed : ∀ before u after, list = before ++ u :: after →
      ∀ w, Relation.TransGen r.Reads u w → w ∈ before)
    (split : list = done ++ rest) (declared : Holds r values (Computed r scope done) Γ) :
    (∀ o ∈ occurrencesIn Γ (rest.flatMap (blockAt values scope)), o.name.Within r scope o.scope) ∧
      Holds r values (Computed r scope list)
        (scopeAfter Γ (rest.flatMap (blockAt values scope))) := by
  -- On what is left of the list: the nodes before have declared all that the next one reads.
  induction rest generalizing done Γ with
  | nil =>
    rw [List.append_nil] at split
    exact ⟨nofun, split ▸ declared⟩
  | cons v rest ih =>
    have next : list = (done ++ [v]) ++ rest := by simpa using split
    obtain ⟨here, declared'⟩ :
        (∀ o ∈ occurrencesIn Γ (blockAt values scope v), o.name.Within r scope o.scope) ∧
        Holds r values (Computed r scope (done ++ [v]))
          (scopeAfter Γ (blockAt values scope v)) := by
      by_cases emitted : Emitted values scope v
      · obtain ⟨l, lowered, here, block⟩ := emitted
        have materialized := (lowers.block_ne_nil_iff lowered).1 block
        have pixel : r.PerPixel v → scope = .pixel := fun perPixel =>
          here ▸ (lowers.scope_iff wf lowered).2 perPixel
        rw [blockAt_eq lowered here]
        refine ⟨within_block wf lowers lowered materialized pixel fun u l lowered stored path => ?_,
          fun u l' lowered' stored computed => ?_⟩
        · exact declared u l lowered stored (.inr ⟨closed _ _ _ split u path, fun perPixel =>
            pixel (perPixel.of_reaches path.to_reflTransGen)⟩)
        · rcases computed.of_snoc with computed | rfl
          · exact mem_scopeAfter.2 (.inl (declared u l' lowered' stored computed))
          · exact (declared_block lowers lowered materialized).2 Γ
      · rw [blockAt_eq_nil emitted]
        exact ⟨nofun, fun u l lowered stored computed =>
          declared u l lowered stored (computed.of_idle wf lowers emitted lowered stored)⟩
    obtain ⟨later, declared''⟩ := ih next declared'
    rw [List.flatMap_cons, occurrencesIn_append, scopeAfter_append]
    exact ⟨fun o mem => (List.mem_append.1 mem).elim (here o) (later o), declared''⟩

/-! ## Programs -/

variable {palette : Palette} {name : String} {p : Program} {code : SinkCode} {s : Nat}

/-- Before the pixel loops everything is within the scope of the frame, and at their start all
variables of that scope are declared. -/
lemma within_preamble (wf : r.WellFormed) (lowers : Lowers r values)
    (coded : Coded r palette name values p) :
    (∀ o ∈ occurrencesIn [] p.preamble, o.name.Within r .frame o.scope) ∧
      Holds r values (Computed r .pixel []) (scopeAfter [] p.preamble) := by
  have constants : ∀ Γ, ∀ o ∈ occurrencesIn Γ p.constants, o.name.Within r .frame o.scope := by
    intro Γ
    unfold constants
    cases p.usesCenter <;> cases p.usesLast <;>
      simp [lastPixel]
  have start : ∀ Γ, Holds r values (Computed r .frame []) Γ := by
    rintro Γ v l - - (⟨pixel, -⟩ | ⟨mem, -⟩)
    · cases pixel
    · cases mem
  obtain ⟨frame, declared⟩ := within_blocks wf lowers
    (fun before u after split w path => wf.path_before split path) (List.nil_append _).symm
    (start (scopeAfter [] ([.comment s!"glint effect: {p.name}",
      .comment "generated by glint; do not edit"] ++ p.constants)))
  rw [preamble, coded.frame, occurrencesIn_append]
  refine ⟨fun o mem => ?_, fun v l lowered materialized computed => ?_⟩
  · rcases List.mem_append.1 mem with mem | mem
    · exact constants _ o mem
    · exact frame o mem
  · obtain ⟨-, frame⟩ | ⟨mem, -⟩ := computed
    · have listed : v ∈ r.order.toList := by
        obtain ⟨n, place, -⟩ := materialized
        exact wf.mem_order.2 (Array.getElem?_eq_some_iff.1 place).1
      rw [scopeAfter_append]
      exact declared v l lowered materialized (.inr ⟨listed, fun perPixel => absurd perPixel frame⟩)
    · cases mem

/-- The position of a sink is within the scope of the pixel once the nodes it reaches are. -/
lemma within_position (wf : r.WellFormed) (lowers : Lowers r values) {n : ResolvedNode}
    {position : List Statement} (place : r.nodes[s]? = some n) (kind : n.kind = .paletteInterpolate)
    (positioned : Positioned values n position)
    (declared : Holds r values (Computed r .pixel (r.reached s)) Γ) :
    ∀ o ∈ occurrencesIn Γ position, o.name.Within r .pixel o.scope := by
  have live : r.Live s := ⟨s, ⟨n, place, kind⟩, .refl⟩
  cases positioned with
  | centred inputs =>
    have centre : r.UsesCenter := ⟨s, n, live, place, .inr ⟨kind, inputs⟩⟩
    simp [centreDistance, Program.pixel, centre]
  | @wrapped v rest x inputs operand =>
    have input : n.inputs[0]? = some v := by simp [inputs]
    have read : r.Reads s v := ⟨n, place, List.mem_of_getElem? input⟩
    obtain ⟨l, lowered⟩ := lowers.input wf place live (by rw [kind]; decide)
      (List.mem_of_getElem? input)
    obtain rfl := Option.some_inj.1 ((operand?_eq_some input lowered).symm.trans operand)
    have names := @within_lowered r values .pixel Γ v l wf lowers lowered (fun _ => rfl)
      fun u l lowered materialized path => declared u l lowered materialized (.inr
        ⟨mem_reached.2 ⟨wf.mem_order.2 (wf.reaches_small (wf.inside s v read) path),
          path.head read⟩, fun _ => rfl⟩)
    simpa [or_imp, forall_and] using names

lemma within_write (length : Nat) (brightness : Binary64) :
    ∀ o ∈ occurrencesIn Γ (paletteWrite (.table s) length brightness),
      o.name.Within r .pixel o.scope := by
  simp only [paletteWrite, writeChannel_eq, occurrencesIn, Statement.occurrences,
    List.forall_mem_append, List.forall_mem_map]
  simp [mixedChannel, symbol]

/-- In the code of a sink everything is within the scope of the pixel. -/
lemma within_sink (wf : r.WellFormed) (lowers : Lowers r values)
    (coded : SinkCoded r palette values s code) (sink : r.IsPaletteSink s)
    (declared : Holds r values (Computed r .pixel []) Γ) :
    ∀ o ∈ occurrencesIn Γ code.statements, o.name.Within r .pixel o.scope := by
  obtain ⟨n, position, brightness, place, positioned, -, -, body⟩ := coded.body
  obtain ⟨n', place', kind⟩ := id sink
  obtain rfl := Option.some_inj.1 (place.symm.trans place')
  obtain ⟨blocks, declared'⟩ := @within_blocks r values .pixel
    (.i :: .table code.node :: Γ) wf lowers (r.reached s) [] (r.reached s)
    (fun before u after split w path => wf.reached_before split path) rfl
    fun v l lowered materialized computed => by
      simpa using declared v l lowered materialized computed
  have inside : ∀ o ∈ occurrencesIn (.i :: .table code.node :: Γ) code.body,
      o.name.Within r .pixel o.scope := by
    intro o mem
    rw [body, List.append_assoc, occurrencesIn_append, occurrencesIn_append] at mem
    rcases List.mem_append.1 mem with mem | mem
    · exact blocks o mem
    · rcases List.mem_append.1 mem with mem | mem
      · exact within_position wf lowers place kind (.of_palettePosition? positioned) declared' o mem
      · exact within_write _ brightness o mem
  simpa [SinkCode.statements] using inside

/-- Later loops see what was declared before all of them. -/
lemma within_sinks (wf : r.WellFormed) (lowers : Lowers r values) {codes : List SinkCode}
    (coded : ∀ code ∈ codes, ∃ s, r.IsPaletteSink s ∧ SinkCoded r palette values s code)
    (declared : Holds r values (Computed r .pixel []) Γ) :
    ∀ o ∈ occurrencesIn Γ (codes.flatMap SinkCode.statements), o.name.Within r .pixel o.scope := by
  induction codes generalizing Γ with
  | nil => exact nofun
  | cons code codes ih =>
    intro o mem
    obtain ⟨⟨s, sink, here⟩, rest⟩ := List.forall_mem_cons.1 coded
    rw [List.flatMap_cons, occurrencesIn_append] at mem
    rcases List.mem_append.1 mem with mem | mem
    · exact within_sink wf lowers here sink declared o mem
    · have declared' : Holds r values (Computed r .pixel []) (scopeAfter Γ code.statements) :=
        fun v l lowered materialized computed =>
          mem_scopeAfter.2 (.inl (declared v l lowered materialized computed))
      exact ih rest declared' o mem

/-- Everything in a program is within the scope of the pixel. -/
lemma within_program (wf : r.WellFormed) (lowers : Lowers r values)
    (coded : Coded r palette name values p) :
    ∀ o ∈ occurrencesIn [] p.statements, o.name.Within r .pixel o.scope := by
  obtain ⟨before, declared⟩ := within_preamble wf lowers coded
  have sinks : ∀ code ∈ p.sinks, ∃ s, r.IsPaletteSink s ∧ SinkCoded r palette values s code := by
    intro code mem
    obtain ⟨s, sink, here⟩ := Forall₂.exists_mem_left coded.sinks mem
    exact ⟨s, wf.mem_paletteSinks.1 sink, here⟩
  intro o mem
  rw [statements_eq, occurrencesIn_append] at mem
  rcases List.mem_append.1 mem with mem | mem
  · exact (before o mem).to_pixel
  · exact within_sinks wf lowers sinks declared o mem

end LedEffect.Program
