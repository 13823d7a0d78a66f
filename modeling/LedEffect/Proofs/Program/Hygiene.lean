import LedEffect.Program.Compile
import LedEffect.Proofs.Effect.Palettes
import LedEffect.Proofs.Program.Within

/-!
# What symbols of the firmware denote

A name of C is in scope from its declarator on, in its own initializer too, and it hides outer names
of the same text. A profile is checked for identifiers only, so a symbol may have the text of a name
that emitted code declares, and be captured by it (`captured_by_pixel`). Which names are in scope
where a symbol is used depends on the symbol (`Name.Covers`); under a profile that avoids the texts
of those, every symbol denotes what the firmware declares (`compile_hygienic`).
-/

namespace LedEffect.Program

open ResolvedEffect

/-! ## Uses of names -/

mutual

/-- The names that a statement uses, each with those in scope there, innermost first; `Γ` are in scope
before the statement. -/
def Statement.uses (Γ : List Name) : Statement → List Occurrence
  | .constant n e | .declare _ n (some e) => e.names.map (⟨n :: Γ, ·⟩)
  | .assign place _ e => (place.names ++ e.names).map (⟨Γ, ·⟩)
  | .loop n _ _ limit body => (n :: limit.names).map (⟨n :: Γ, ·⟩) ++ usesIn (n :: Γ) body
  | .branch condition body => condition.names.map (⟨Γ, ·⟩) ++ usesIn Γ body
  | .block body => usesIn Γ body
  | .comment _ | .declare _ _ none | .table _ _ => []

/-- The names that consecutive statements use. -/
def usesIn (Γ : List Name) : List Statement → List Occurrence
  | [] => []
  | s :: rest => s.uses Γ ++ usesIn (s.declared ++ Γ) rest

end

attribute [simp] Statement.uses usesIn

/-- What a used name denotes: the innermost name in scope that has its text, or else itself. -/
def Occurrence.denotes (target : TargetProfile) (o : Occurrence) : Name :=
  (o.scope.find? fun n => n.text target == o.name.text target).getD o.name

variable {Γ : List Name} {first rest stmts : List Statement}

lemma usesIn_append :
    usesIn Γ (first ++ rest) = usesIn Γ first ++ usesIn (scopeAfter Γ first) rest := by
  induction first generalizing Γ with
  | nil => rfl
  | cons s first ih =>
    rw [List.cons_append, usesIn, usesIn, ih, List.append_assoc]
    rfl

mutual

/-- What is in scope in a statement is in scope before it or declared in it. -/
lemma Statement.scope_uses (s : Statement) (Γ : List Name) :
    ∀ o ∈ s.uses Γ, ∀ n ∈ o.scope, n ∈ Γ ∨ n ∈ s.declarations := by
  match s with
  | .comment _ => exact nofun
  | .constant m e =>
    simp only [Statement.uses, Statement.declarations, List.mem_map, forall_exists_index, and_imp]
    rintro _ m' - rfl n mem
    exact (List.mem_cons.1 mem).symm.imp_right List.mem_singleton.2
  | .declare _ _ none => exact nofun
  | .declare _ m (some e) =>
    simp only [Statement.uses, Statement.declarations, List.mem_map, forall_exists_index, and_imp]
    rintro _ m' - rfl n mem
    exact (List.mem_cons.1 mem).symm.imp_right List.mem_singleton.2
  | .table _ _ => exact nofun
  | .assign _ _ _ =>
    simp only [Statement.uses, List.mem_map, forall_exists_index, and_imp]
    rintro _ m' - rfl n mem
    exact .inl mem
  | .loop m _ _ limit body =>
    intro o mem n inside
    have outer : n ∈ m :: Γ ∨ n ∈ declarationsIn body := by
      rcases List.mem_append.1 mem with mem | mem
      · obtain ⟨_, -, rfl⟩ := List.mem_map.1 mem
        exact .inl inside
      · exact scope_usesIn body (m :: Γ) o mem n inside
    simp only [Statement.declarations, List.mem_cons] at outer ⊢
    tauto
  | .branch condition body =>
    intro o mem n inside
    rcases List.mem_append.1 mem with mem | mem
    · obtain ⟨_, -, rfl⟩ := List.mem_map.1 mem
      exact .inl inside
    · exact scope_usesIn body Γ o mem n inside
  | .block body => exact scope_usesIn body Γ

lemma scope_usesIn (stmts : List Statement) (Γ : List Name) :
    ∀ o ∈ usesIn Γ stmts, ∀ n ∈ o.scope, n ∈ Γ ∨ n ∈ declarationsIn stmts := by
  match stmts with
  | [] => exact nofun
  | s :: rest =>
    intro o mem n inside
    rw [declarationsIn, List.mem_append]
    rcases List.mem_append.1 mem with mem | mem
    · exact (s.scope_uses Γ o mem n inside).imp_right .inl
    · have declared : ∀ n ∈ s.declared, n ∈ s.declarations := by
        cases s with
        | constant | declare | table => exact fun n mem => mem
        | _ => exact nofun
      rcases scope_usesIn rest (s.declared ++ Γ) o mem n inside with outer | later
      · exact (List.mem_append.1 outer).symm.imp_right fun mem => .inl (declared n mem)
      · exact .inr (.inr later)

end

/-! ## Which names are in scope where a symbol is used -/

/-- Whether a generated name may be in scope where a symbol is used: the local names of loops and
blocks where their statements read the spectrum or the tempo candidates, those of a pixel where it is
written, and all others everywhere. -/
def Name.Covers (n : Name) (s : Symbol) : Prop :=
  match n with
  | .symbol _ => False
  | .i => s ≠ .numTempi
  | .k => s = .spectrogram ∨ s = .tempi ∨ s = .numTempi
  | .f | .k1 => s = .spectrogram
  | .t => s = .spectrogram ∨ s = .leds
  | .pos => s ≠ .numLeds ∧ s ≠ .numTempi
  | .scaled | .lo => s = .leds
  | _ => True

section

variable {s : Symbol} {v : Nat}

@[simp] lemma covers_center : Name.center.Covers s := trivial
@[simp] lemma covers_last : Name.last.Covers s := trivial
@[simp] lemma covers_temporary : (Name.temporary v).Covers s := trivial
@[simp] lemma covers_best : (Name.best v).Covers s := trivial
@[simp] lemma covers_table : (Name.table v).Covers s := trivial
@[simp] lemma covers_i : Name.i.Covers s ↔ s ≠ .numTempi := Iff.rfl
@[simp] lemma covers_k : Name.k.Covers s ↔ s = .spectrogram ∨ s = .tempi ∨ s = .numTempi := Iff.rfl
@[simp] lemma covers_f : Name.f.Covers s ↔ s = .spectrogram := Iff.rfl
@[simp] lemma covers_k1 : Name.k1.Covers s ↔ s = .spectrogram := Iff.rfl
@[simp] lemma covers_t : Name.t.Covers s ↔ s = .spectrogram ∨ s = .leds := Iff.rfl
@[simp] lemma covers_pos : Name.pos.Covers s ↔ s ≠ .numLeds ∧ s ≠ .numTempi := Iff.rfl
@[simp] lemma covers_scaled : Name.scaled.Covers s ↔ s = .leds := Iff.rfl
@[simp] lemma covers_lo : Name.lo.Covers s ↔ s = .leds := Iff.rfl

end

/-- Whether every symbol that is used is under names that may be in scope there. -/
def Covered (uses : List Occurrence) : Prop :=
  ∀ o ∈ uses, ∀ s, o.name = .symbol s → ∀ n ∈ o.scope, n.Covers s

/-- Whether names are those in scope at the head of the statements of a scope. -/
def Heads (scope : Scope) (Γ : List Name) : Prop :=
  ∀ n ∈ Γ, (n = .i ∧ scope = .pixel) ∨ ∀ s, n.Covers s

@[simp] lemma Covered.nil : Covered [] := nofun

section

variable {uses uses' : List Occurrence} {names : List Name}

lemma covered_append : Covered (uses ++ uses') ↔ Covered uses ∧ Covered uses' :=
  List.forall_mem_append

lemma Covered.append (first : Covered uses) (rest : Covered uses') : Covered (uses ++ uses') :=
  covered_append.2 ⟨first, rest⟩

/-- What is mentioned in one scope is covered when the symbols in it are. -/
lemma covered_map : Covered (names.map (⟨Γ, ·⟩)) ↔
    ∀ s, .symbol s ∈ names → ∀ n ∈ Γ, n.Covers s := by
  constructor
  · intro covered s mem
    exact covered ⟨Γ, .symbol s⟩ (List.mem_map_of_mem mem) s rfl
  · intro covers o mem s named
    obtain ⟨m, here, rfl⟩ := List.mem_map.1 mem
    obtain rfl : m = .symbol s := named
    exact covers s here

end

variable {r : ResolvedEffect} {values : Values} {scope : Scope} {v : Nat} {l : Lowered}

/-- What is in scope at the head of a scope may be where readings are used. -/
lemma Heads.covers (heads : Heads scope Γ) {s : Symbol} (other : s ≠ .numTempi) :
    ∀ n ∈ Γ, n.Covers s := by
  intro n mem
  rcases heads n mem with ⟨rfl, -⟩ | all
  · exact other
  · exact all s

lemma Heads.covers_frame (heads : Heads .frame Γ) (s : Symbol) : ∀ n ∈ Γ, n.Covers s := by
  intro n mem
  rcases heads n mem with ⟨-, pixel⟩ | all
  · cases pixel
  · exact all s

/-- Only readings are in the expressions of nodes. -/
lemma reading_lowered (wf : r.WellFormed) (lowers : Lowers r values)
    (lowered : values[v]? = some (some l)) : ∀ m ∈ l.expr.names, ∀ s, m = .symbol s → Reading s := by
  refine lowers.expr_induction wf (P := fun _ e => ∀ m ∈ e.names, ∀ s, m = .symbol s → Reading s)
    ?_ ?_ lowered
  · intro v l _ _
    simp
  · intro v n e place _ _ formed inputs
    exact names_form place (fun s reading => by simpa using reading) (fun _ => by simp)
      (fun _ => by simp) (fun _ => by simp) inputs formed

/-- A node that needs the statements of the strongest candidate does not depend on the pixel. -/
lemma not_perPixel_of_beat (wf : r.WellFormed) {n : ResolvedNode} (place : r.nodes[v]? = some n)
    (kind : n.kind = .beat) : ¬ r.PerPixel v := by
  have inputs : n.inputs = [] := by
    have most := (wf.arity v n place).2
    rw [kind] at most
    exact List.eq_nil_of_length_eq_zero (Nat.le_zero.1 most)
  rw [perPixel_iff place, kind, inputs]
  simp [Kind.isPerPixel]

/-- The statements of a node use symbols under names that may be in scope there. -/
lemma covered_block (wf : r.WellFormed) (lowers : Lowers r values)
    (lowered : values[v]? = some (some l)) (materialized : r.Materialized v)
    (heads : Heads l.scope Γ) : Covered (usesIn Γ l.block) := by
  obtain ⟨-, n, place, -, -, shape⟩ := lowers.variable_of_materialized lowered materialized
  rcases shape with ⟨body, formed, block⟩ | ⟨e, formed, block⟩
  · rw [block]
    cases formed with
    | spectrumRange kind bounds =>
      have outer := heads.covers (s := .spectrogram) (by decide)
      simp only [spectrumMean, usesIn, Statement.uses, covered_append, covered_map]
      simpa [symbol] using outer
    | spectrumInterpolate kind bounds =>
      have outer := heads.covers (s := .spectrogram) (by decide)
      simp only [spectrumStretch, usesIn, Statement.uses, covered_append, covered_map]
      simpa [stripPosition, Program.pixel, symbol] using outer
    | strongest kind bin auto =>
      have frame : l.scope = .frame := by
        cases scope : l.scope with
        | frame => rfl
        | pixel =>
          exact absurd ((lowers.scope_iff wf lowered).1 scope) (not_perPixel_of_beat wf place kind)
      rw [frame] at heads
      have outer := heads.covers_frame .tempi
      have limit := heads.covers_frame .numTempi
      simp only [strongestBeat, usesIn, Statement.uses, covered_append, covered_map]
      simpa [beatPhase, symbol] using ⟨limit, outer⟩
  · have names := names_form place (P := fun m => ∀ s, m = .symbol s → Reading s)
      (fun s reading => by simpa using reading) (fun _ => by simp) (fun _ => by simp)
      (fun _ => by simp) (fun u l read lowered => reading_lowered wf lowers lowered) formed
    rw [block]
    intro o mem s named
    simp only [usesIn, Statement.uses, List.mem_append, List.mem_map, List.not_mem_nil, or_false,
      false_or] at mem
    obtain ⟨m, mentioned, rfl⟩ := mem
    have reading := names m mentioned s named
    have other : s ≠ .numTempi := by
      rintro rfl
      exact reading
    simpa using heads.covers other

/-- After the statements of a node its own variables are in scope as well. -/
lemma heads_block (lowers : Lowers r values) (lowered : values[v]? = some (some l))
    (materialized : r.Materialized v) (heads : Heads scope Γ) :
    Heads scope (scopeAfter Γ l.block) := by
  have own : ∀ s ∈ l.block, ∀ m ∈ s.declared, m = .temporary v ∨ m = .best v := by
    obtain ⟨-, n, -, -, -, shape⟩ := lowers.variable_of_materialized lowered materialized
    rcases shape with ⟨body, formed, block⟩ | ⟨e, formed, block⟩
    · rw [block]
      cases formed with
      | spectrumRange kind bounds => simp [spectrumMean]
      | spectrumInterpolate kind bounds => simp [spectrumStretch]
      | strongest kind bin auto => simp [strongestBeat]
    · simp [block]
  intro m mem
  rcases mem_scopeAfter.1 mem with before | ⟨s, listed, declared⟩
  · exact heads m before
  · rcases own s listed m declared with rfl | rfl
    · exact .inr fun _ => trivial
    · exact .inr fun _ => trivial

/-- The statements of the nodes of a list use symbols under names that may be in scope there. -/
lemma covered_blocks (wf : r.WellFormed) (lowers : Lowers r values) {list : List Nat}
    (heads : Heads scope Γ) :
    Covered (usesIn Γ (list.flatMap (blockAt values scope))) ∧
      Heads scope (scopeAfter Γ (list.flatMap (blockAt values scope))) := by
  induction list generalizing Γ with
  | nil => exact ⟨nofun, heads⟩
  | cons v list ih =>
    obtain ⟨here, heads'⟩ : Covered (usesIn Γ (blockAt values scope v)) ∧
        Heads scope (scopeAfter Γ (blockAt values scope v)) := by
      by_cases emitted : Emitted values scope v
      · obtain ⟨l, lowered, here, block⟩ := emitted
        have materialized := (lowers.block_ne_nil_iff lowered).1 block
        rw [blockAt_eq lowered here]
        exact ⟨covered_block wf lowers lowered materialized (here ▸ heads),
          heads_block lowers lowered materialized heads⟩
      · rw [blockAt_eq_nil emitted]
        exact ⟨nofun, heads⟩
    obtain ⟨later, heads''⟩ := ih heads'
    rw [List.flatMap_cons, usesIn_append, scopeAfter_append]
    exact ⟨here.append later, heads''⟩

/-! ## Programs -/

variable {palette : Palette} {name : String} {p : Program} {code : SinkCode} {s : Nat}

/-- Before the pixel loops symbols are used under names that may be in scope there. -/
lemma covered_preamble (wf : r.WellFormed) (lowers : Lowers r values)
    (coded : Coded r palette name values p) :
    Covered (usesIn [] p.preamble) ∧ Heads .frame (scopeAfter [] p.preamble) := by
  have constants : ∀ Γ, Heads .frame Γ →
      Covered (usesIn Γ p.constants) ∧ Heads .frame (scopeAfter Γ p.constants) := by
    intro Γ heads
    have outer := heads.covers_frame .numLeds
    have declared : ∀ s ∈ p.constants, ∀ m ∈ s.declared, m = .center ∨ m = .last := by
      unfold Program.constants
      cases p.usesCenter <;> cases p.usesLast <;> simp
    refine ⟨?_, fun m mem => ?_⟩
    · unfold Program.constants
      cases p.usesCenter <;> cases p.usesLast <;>
        simp +contextual [Covered, lastPixel, outer]
    · rcases mem_scopeAfter.1 mem with before | ⟨s, listed, here⟩
      · exact heads m before
      · rcases declared s listed m here with rfl | rfl
        · exact .inr fun _ => trivial
        · exact .inr fun _ => trivial
  have start : Heads .frame [] := List.forall_mem_nil _
  obtain ⟨strip, heads⟩ := constants _ start
  obtain ⟨frame, heads'⟩ := @covered_blocks _ _ _ _ wf lowers r.order.toList heads
  simp only [preamble, coded.frame, usesIn_append, scopeAfter_append]
  exact ⟨(Covered.append .nil strip).append frame, heads'⟩

/-- A sink finds its palette position under names that may be in scope there. -/
lemma covered_position (wf : r.WellFormed) (lowers : Lowers r values) {n : ResolvedNode}
    {position : List Statement} (place : r.nodes[s]? = some n) (kind : n.kind = .paletteInterpolate)
    (positioned : Positioned values n position) (heads : Heads .pixel Γ) :
    Covered (usesIn Γ position) ∧ scopeAfter Γ position = .pos :: Γ := by
  refine ⟨?_, by cases positioned <;> rfl⟩
  cases positioned with
  | centred inputs =>
    simp [Covered, centreDistance, Program.pixel]
  | @wrapped v rest x inputs operand =>
    have input : n.inputs[0]? = some v := by simp [inputs]
    obtain ⟨l, lowered⟩ := lowers.input wf place ⟨s, ⟨n, place, kind⟩, .refl⟩ (by rw [kind]; decide)
      (List.mem_of_getElem? input)
    obtain rfl := Option.some_inj.1 ((operand?_eq_some input lowered).symm.trans operand)
    intro o mem s named
    have used : o ∈ l.expr.names.map (⟨.pos :: Γ, ·⟩) := by
      simp only [usesIn, Statement.uses, Statement.declared, Expr.names, List.append_nil,
        List.map_nil, List.map_cons, List.mem_append, List.mem_cons, List.not_mem_nil,
        or_false] at mem
      rcases mem with mem | rfl | rfl
      · exact mem
      · cases named
      · cases named
    obtain ⟨m, mentioned, rfl⟩ := List.mem_map.1 used
    have reading := reading_lowered wf lowers lowered m mentioned s named
    have other : s ≠ .numLeds ∧ s ≠ .numTempi := by
      constructor
      · rintro rfl
        exact reading
      · rintro rfl
        exact reading
    simpa [other] using heads.covers other.2

lemma covered_write (length : Nat) (brightness : Binary64) (heads : Heads .pixel Γ) :
    Covered (usesIn (.pos :: Γ) (paletteWrite (.table s) length brightness)) := by
  have outer := heads.covers (s := .leds) (by decide)
  simp only [paletteWrite, writeChannel_eq, usesIn, Statement.uses, covered_append, covered_map]
  simpa [mixedChannel, symbol] using outer

/-- The code of a sink uses symbols under names that may be in scope there. -/
lemma covered_sink (wf : r.WellFormed) (lowers : Lowers r values)
    (coded : SinkCoded r palette values s code) (sink : r.IsPaletteSink s)
    (heads : Heads .frame Γ) :
    Covered (usesIn Γ code.statements) ∧ Heads .frame (scopeAfter Γ code.statements) := by
  obtain ⟨n, position, brightness, place, positioned, -, -, body⟩ := coded.body
  obtain ⟨n', place', kind⟩ := id sink
  obtain rfl := Option.some_inj.1 (place.symm.trans place')
  have inner : Heads .pixel (.i :: .table code.node :: Γ) := by
    intro m mem
    simp only [List.mem_cons] at mem
    rcases mem with rfl | rfl | mem
    · exact .inl ⟨rfl, rfl⟩
    · exact .inr fun _ => trivial
    · exact .inr fun s => heads.covers_frame s m mem
  obtain ⟨blocks, heads'⟩ := @covered_blocks _ _ _ _ wf lowers (r.reached s) inner
  obtain ⟨found, after⟩ :=
    covered_position wf lowers place kind (.of_palettePosition? positioned) heads'
  have inside : Covered (usesIn (.i :: .table code.node :: Γ) code.body) := by
    rw [body, usesIn_append, usesIn_append, scopeAfter_append, after]
    exact (blocks.append found).append (covered_write _ brightness heads')
  have outer := heads.covers_frame .numLeds
  refine ⟨?_, fun m mem => ?_⟩
  · have limit : Covered ((.i :: (Expr.name (.symbol .numLeds)).names).map
        (⟨.i :: .table code.node :: Γ, ·⟩)) := by
      simpa [Covered] using outer
    simpa [SinkCode.statements] using limit.append inside
  · simp only [SinkCode.statements, scopeAfter, List.foldl_cons, List.foldl_nil, Statement.declared,
      List.nil_append, List.cons_append, List.mem_cons] at mem
    rcases mem with rfl | mem
    · exact .inr fun _ => trivial
    · exact heads m mem

/-- A program uses every symbol under names that may be in scope there. -/
lemma covered_program (wf : r.WellFormed) (lowers : Lowers r values)
    (coded : Coded r palette name values p) : Covered (usesIn [] p.statements) := by
  have sinks : ∀ {codes : List SinkCode} {Γ : List Name},
      (∀ code ∈ codes, ∃ s, r.IsPaletteSink s ∧ SinkCoded r palette values s code) →
        Heads .frame Γ → Covered (usesIn Γ (codes.flatMap SinkCode.statements)) := by
    intro codes
    induction codes with
    | nil => exact fun _ _ => nofun
    | cons code codes ih =>
      intro Γ coded heads
      obtain ⟨⟨s, sink, here⟩, rest⟩ := List.forall_mem_cons.1 coded
      obtain ⟨first, heads'⟩ := covered_sink wf lowers here sink heads
      rw [List.flatMap_cons, usesIn_append]
      exact first.append (ih rest heads')
  obtain ⟨before, heads⟩ := covered_preamble wf lowers coded
  rw [statements_eq, usesIn_append]
  refine before.append (sinks (fun code mem => ?_) heads)
  obtain ⟨s, sink, here⟩ := Forall₂.exists_mem_left coded.sinks mem
  exact ⟨s, wf.mem_paletteSinks.1 sink, here⟩

/-! ## Compiled effects -/

variable {target : TargetProfile} {e : Effect} {c : CompiledEffect}

/-- A name denotes itself where no name in scope has its text. -/
lemma Occurrence.denotes_self {o : Occurrence}
    (apart : ∀ n ∈ o.scope, n.text target ≠ o.name.text target) : o.denotes target = o.name := by
  have absent : (o.scope.find? fun n => n.text target == o.name.text target) = none :=
    List.find?_eq_none.2 fun n mem => by simpa using apart n mem
  rw [denotes, absent, Option.getD_none]

/-- The symbols of a profile that passes the check are identifiers. -/
lemma isIdentifier_of_valid (valid : target.invalidSymbol? = none) (s : Symbol) :
    isIdentifier (target.name s) = true := by
  have listed : (s.field, target.name s) ∈ target.symbols :=
    List.mem_map.2 ⟨s, by cases s <;> decide, rfl⟩
  simpa using List.find?_eq_none.1 valid _ listed

/-- Under a profile that passes its check, a symbol is an identifier wherever compiled code uses it,
and denotes what the firmware declares unless its text is that of a name which the code declares and
which may be in scope there. -/
theorem compile_hygienic (valid : target.invalidSymbol? = none) (compiled : e.compile target = .ok c) :
    ∃ r palette p stats, e.resolve = .ok r ∧ Palette.ofEffect e = .ok palette ∧
      lower? r palette e.displayName = some (p, stats) ∧ c.code = p.render target ∧
      ∀ o ∈ usesIn [] p.statements, ∀ s, o.name = .symbol s →
        isIdentifier (target.name s) = true ∧
        (∀ n ∈ o.scope, n ∈ declarationsIn p.statements ∧ n.Covers s) ∧
        ((∀ n ∈ declarationsIn p.statements, n.Covers s → n.text target ≠ target.name s) →
          o.denotes target = .symbol s) := by
  obtain ⟨r, resolved, compiled⟩ := bind_eq_ok.1 compiled
  obtain ⟨palette, chosen, compiled⟩ := bind_eq_ok.1 compiled
  have wf := Effect.resolve_wellFormed resolved
  obtain ⟨p, stats, values, run, lowers, coded⟩ :=
    lower?_spec wf (Palette.two_le_length chosen) e.displayName
  rw [run] at compiled
  cases compiled
  refine ⟨r, palette, p, stats, resolved, chosen, run, rfl, fun o used s named => ?_⟩
  have scope : ∀ n ∈ o.scope, n ∈ declarationsIn p.statements ∧ n.Covers s := fun n inside =>
    ⟨(scope_usesIn p.statements [] o used n inside).resolve_left List.not_mem_nil,
      covered_program wf lowers coded o used s named n inside⟩
  refine ⟨isIdentifier_of_valid valid s, scope, fun apart => ?_⟩
  rw [← named]
  refine Occurrence.denotes_self fun n inside => ?_
  rw [named]
  exact apart n (scope n inside).1 (scope n inside).2

/-- A strip in the colours of the default palette. -/
def strip : Effect := Effect.empty.node (NodeSpec.new "strip" "palette-interpolate")

/-- A property of the program of the strip that is found by lowering it. -/
lemma strip_lowered {P : Program → Bool}
    (found : (strip.resolve.toOption.bind fun r => (Palette.ofEffect strip).toOption.bind
      fun palette => (lower? r palette strip.displayName).map fun x => P x.1) = some true) :
    ∃ r palette p stats, strip.resolve = .ok r ∧ Palette.ofEffect strip = .ok palette ∧
      lower? r palette strip.displayName = some (p, stats) ∧ P p = true ∧
      ∀ target, strip.compile target = .ok ⟨strip.displayName, p.render target, stats⟩ := by
  cases resolved : strip.resolve with
  | error fault => simp [resolved, Except.toOption] at found
  | ok r =>
    cases chosen : Palette.ofEffect strip with
    | error fault => simp [resolved, chosen, Except.toOption] at found
    | ok palette =>
      cases run : lower? r palette strip.displayName with
      | none => simp [resolved, chosen, run, Except.toOption] at found
      | some x =>
        obtain ⟨p, stats⟩ := x
        refine ⟨r, palette, p, stats, rfl, rfl, run, ?_, fun target => ?_⟩
        · simpa [resolved, chosen, run, Except.toOption] using found
        · exact bind_eq_ok.2 ⟨r, resolved, bind_eq_ok.2 ⟨palette, chosen, by rw [run]; rfl⟩⟩

/-- The default profile avoids the names that the strip declares, so what its code uses of the
firmware is what the firmware declares. -/
theorem strip_hygienic : (default : TargetProfile).invalidSymbol? = none ∧
    ∃ c r palette p stats, strip.compile default = .ok c ∧
      lower? r palette strip.displayName = some (p, stats) ∧ c.code = p.render default ∧
      ∀ o ∈ usesIn [] p.statements, ∀ s, o.name = .symbol s → o.denotes default = .symbol s := by
  have valid : (default : TargetProfile).invalidSymbol? = none := by decide
  obtain ⟨r, palette, p, stats, resolved, chosen, run, apart, compiled⟩ := @strip_lowered
    (fun p => (declarationsIn p.statements).all fun n =>
      Symbol.all.all fun s => n.text default != TargetProfile.name default s) (by decide +kernel)
  obtain ⟨r', palette', p', stats', resolved', chosen', run', code, denotes⟩ :=
    compile_hygienic valid (compiled default)
  obtain rfl := Except.ok.inj (resolved.symm.trans resolved')
  obtain rfl := Except.ok.inj (chosen.symm.trans chosen')
  obtain ⟨rfl, rfl⟩ := Prod.mk.inj (Option.some_inj.1 (run.symm.trans run'))
  refine ⟨valid, _, r, palette, p, stats, compiled default, run, code, fun o used s named => ?_⟩
  refine (denotes o used s named).2.2 fun n declared _ => ?_
  have differ := List.all_eq_true.1 (List.all_eq_true.1 apart n declared) s
    (by cases s <;> decide)
  simpa using differ

/-- The profile in which the pixel buffer has the name of the counter of the pixel loop. -/
def counterProfile : TargetProfile := TargetProfile.default.rename .leds "i"

/-- A profile that passes its check may still have its pixel buffer captured: the code of a strip
writes to what is the counter of its loop. -/
theorem captured_by_pixel : counterProfile.invalidSymbol? = none ∧
    ∃ c r palette p stats, strip.compile counterProfile = .ok c ∧ strip.resolve = .ok r ∧
      lower? r palette strip.displayName = some (p, stats) ∧ c.code = p.render counterProfile ∧
      ∃ o ∈ usesIn [] p.statements, o.name = .symbol .leds ∧ o.denotes counterProfile = .i := by
  obtain ⟨r, palette, p, stats, resolved, chosen, run, captured, compiled⟩ := @strip_lowered
    (fun p => (usesIn [] p.statements).any fun o =>
      o.name = .symbol .leds && o.denotes counterProfile = .i) (by decide +kernel)
  refine ⟨by decide, _, r, palette, p, stats, compiled counterProfile, resolved, run, rfl, ?_⟩
  simpa using captured

end LedEffect.Program
