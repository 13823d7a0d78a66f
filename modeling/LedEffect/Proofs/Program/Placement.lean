import LedEffect.Proofs.Program.Within
import LedEffect.Proofs.Effect.Palettes
import LedEffect.Program.Compile

/-!
# Placement of variables

Every variable of a live node is declared once, before the pixel loops or in the loops of the sinks
that reach the node, it is mentioned in the scope of its declaration only, and the constants of the
strip are declared exactly when they are mentioned (`compile_placed`).
-/

namespace LedEffect.Program

open ResolvedEffect

variable {r : ResolvedEffect} {values : Values} {scope : Scope} {v s : Nat} {n : ResolvedNode}
  {l : Lowered} {palette : Palette} {name : String} {p : Program} {code : SinkCode}

/-! ## Declarations -/

/-- Which nodes with a variable have their statements in a scope. -/
lemma emitted_iff (wf : r.WellFormed) (lowers : Lowers r values)
    (lowered : values[v]? = some (some l)) (materialized : r.Materialized v) :
    Emitted values scope v ↔ (r.PerPixel v ↔ scope = .pixel) := by
  rw [← lowers.scope_iff wf lowered]
  constructor
  · rintro ⟨l', lowered', rfl, -⟩
    obtain rfl := Option.some_inj.1 (Option.some_inj.1 (lowered.symm.trans lowered'))
    rfl
  · intro same
    refine ⟨l, lowered, ?_, (lowers.block_ne_nil_iff lowered).2 materialized⟩
    cases eq : l.scope <;> cases scope <;> simp_all

/-- A variable is declared by each node of a list that is its own. -/
lemma count_blocks (lowers : Lowers r values) {list : List Nat} :
    (declarationsIn (list.flatMap (blockAt values scope))).count (.temporary v) =
      list.count v * (declarationsIn (blockAt values scope v)).count (.temporary v) := by
  induction list with
  | nil => simp
  | cons u list ih =>
    rw [List.flatMap_cons, declarationsIn_append, List.count_append, ih, List.count_cons]
    by_cases same : u = v
    · subst same
      simp [Nat.add_mul, Nat.add_comm]
    · -- Another node declares its own variables only.
      have other : (declarationsIn (blockAt values scope u)).count (.temporary v) = 0 := by
        rw [List.count_eq_zero]
        intro mem
        by_cases emitted : Emitted values scope u
        · obtain ⟨l, lowered, here, block⟩ := emitted
          rw [blockAt_eq lowered here] at mem
          have own := own_block lowers lowered ((lowers.block_ne_nil_iff lowered).1 block) _ mem
          simp [Ne.symm same] at own
        · rw [blockAt_eq_nil emitted] at mem
          cases mem
      simp [same, other]

/-- What the statements of a scope declare: variables of nodes that belong to it, and local ones. -/
lemma own_blocks (lowers : Lowers r values) {list : List Nat} {m : Name}
    (mem : m ∈ declarationsIn (list.flatMap (blockAt values scope))) :
    (∃ v, Emitted values scope v ∧ (m = .temporary v ∨ m = .best v)) ∨
      m ∈ [.k, .k1, .f, .t] := by
  rw [declarationsIn_flatMap, List.mem_flatMap] at mem
  obtain ⟨v, -, mem⟩ := mem
  by_cases emitted : Emitted values scope v
  · obtain ⟨l, lowered, here, block⟩ := id emitted
    rw [blockAt_eq lowered here] at mem
    rcases own_block lowers lowered ((lowers.block_ne_nil_iff lowered).1 block) m mem with
      own | own | loc
    · exact .inl ⟨v, emitted, .inl own⟩
    · exact .inl ⟨v, emitted, .inr own⟩
    · exact .inr loc
  · rw [blockAt_eq_nil emitted] at mem
    cases mem

lemma declarations_preamble (coded : Coded r palette name values p) :
    declarationsIn p.preamble = (if p.usesCenter then [.center] else []) ++
      (if p.usesLast then [.last] else []) ++
      declarationsIn (r.order.toList.flatMap (blockAt values .frame)) := by
  rw [preamble, coded.frame, declarationsIn_append]
  congr 1
  unfold constants
  cases p.usesCenter <;> cases p.usesLast <;> rfl

lemma declarations_body (coded : SinkCoded r palette values s code) :
    declarationsIn code.body =
      declarationsIn ((r.reached s).flatMap (blockAt values .pixel)) ++ [.pos, .scaled, .lo, .t] := by
  obtain ⟨n, position, brightness, -, positioned, -, -, body⟩ := coded.body
  have place : declarationsIn position = [.pos] := by
    cases Positioned.of_palettePosition? positioned with
    | centred inputs => rfl
    | wrapped inputs operand => rfl
  have write : declarationsIn (paletteWrite (.table s) palette.keyframes.length brightness) =
      [.scaled, .lo, .t] := rfl
  rw [body, declarationsIn_append, declarationsIn_append, place, write, List.append_assoc]
  rfl

/-- Neither the variables of nodes nor those of loops are constants of the strip. -/
lemma constant_not_mem_blocks (lowers : Lowers r values) {list : List Nat} :
    .center ∉ declarationsIn (list.flatMap (blockAt values scope)) ∧
      .last ∉ declarationsIn (list.flatMap (blockAt values scope)) := by
  constructor <;> intro mem
  · rcases own_blocks lowers mem with ⟨v, -, own⟩ | loc
    · simp at own
    · simp at loc
  · rcases own_blocks lowers mem with ⟨v, -, own⟩ | loc
    · simp at own
    · simp at loc

lemma constant_mem_declarations (lowers : Lowers r values) (coded : Coded r palette name values p) :
    (.center ∈ declarationsIn p.statements ↔ r.UsesCenter) ∧
      (.last ∈ declarationsIn p.statements ↔ r.UsesLast) := by
  have sinks : .center ∉ declarationsIn (p.sinks.flatMap SinkCode.statements) ∧
      .last ∉ declarationsIn (p.sinks.flatMap SinkCode.statements) := by
    have loops : ∀ code ∈ p.sinks, .center ∉ declarationsIn code.statements ∧
        .last ∉ declarationsIn code.statements := by
      intro code mem
      obtain ⟨s, -, here⟩ := Forall₂.exists_mem_left coded.sinks mem
      simp [SinkCode.statements, declarations_body here, constant_not_mem_blocks lowers]
    simp only [declarationsIn_flatMap, List.mem_flatMap, not_exists, not_and]
    exact ⟨fun code mem => (loops code mem).1, fun code mem => (loops code mem).2⟩
  rw [statements_eq, declarationsIn_append, declarations_preamble coded, ← coded.usesCenter,
    ← coded.usesLast]
  cases p.usesCenter <;> cases p.usesLast <;>
    simp [sinks, constant_not_mem_blocks lowers]

/-! ## Mentions -/

/-- What a palette sink reaches is the sink itself or no sink. -/
lemma value_of_reaches (wf : r.WellFormed) (sink : r.IsPaletteSink s) (path : r.Reaches s v) :
    v = s ∨ ∃ n, r.nodes[v]? = some n ∧ n.kind.isSink = false := by
  induction path with
  | refl => exact .inl rfl
  | @tail u w _ read ih =>
    obtain ⟨n, place, input⟩ := read
    have notOutput : n.kind ≠ .output := by
      rcases ih with rfl | ⟨n', place', value⟩
      · obtain ⟨n', place', kind⟩ := sink
        obtain rfl := Option.some_inj.1 (place.symm.trans place')
        rw [kind]
        decide
      · obtain rfl := Option.some_inj.1 (place.symm.trans place')
        exact Kind.ne_output value
    obtain ⟨m, here⟩ : ∃ m, r.nodes[w]? = some m :=
      ⟨_, Array.getElem?_eq_getElem (wf.inside u w ⟨n, place, input⟩)⟩
    exact .inr ⟨m, here, wf.sinks u n place notOutput w input m here⟩

lemma mentions_sink (mem : code ∈ p.sinks) {m : Name} (mentioned : m ∈ mentions code.body) :
    m ∈ mentions p.statements := by
  have loop : m ∈ mentions code.statements := by
    obtain ⟨o, mem, eq⟩ := (@mem_mentions [.i, .table code.node] m code.body).1 mentioned
    refine (@mem_mentions [] m code.statements).2 ⟨o, ?_, eq⟩
    simp [SinkCode.statements, mem]
  rw [statements_eq, mentions_append, mentions_flatMap]
  exact List.mem_append_right _ (List.mem_flatMap.2 ⟨code, mem, loop⟩)

/-- The program mentions what the position of a palette sink does. -/
lemma mentions_position (wf : r.WellFormed) (coded : Coded r palette name values p)
    (sink : r.IsPaletteSink s) (place : r.nodes[s]? = some n) :
    ∃ position, Positioned values n position ∧
      ∀ m ∈ mentions position, m ∈ mentions p.statements := by
  obtain ⟨code, mem, here⟩ := Forall₂.exists_mem_right coded.sinks (wf.mem_paletteSinks.2 sink)
  obtain ⟨n', position, brightness, place', positioned, -, -, body⟩ := here.body
  obtain rfl := Option.some_inj.1 (place.symm.trans place')
  refine ⟨position, .of_palettePosition? positioned, fun m mentioned => mentions_sink mem ?_⟩
  rw [body, mentions_append, mentions_append]
  exact List.mem_append_left _ (List.mem_append_right _ mentioned)

/-- The program mentions what the statements of a node do. -/
lemma mentions_block (wf : r.WellFormed) (lowers : Lowers r values)
    (coded : Coded r palette name values p) (lowered : values[v]? = some (some l)) {m : Name}
    (mentioned : m ∈ mentions l.block) : m ∈ mentions p.statements := by
  obtain ⟨n, form, place, live, -⟩ := lowers.stored lowered
  have listed := wf.mem_order.2 (wf.live_small live)
  cases scope : l.scope with
  | frame =>
    rw [statements_eq, mentions_append, preamble, coded.frame, mentions_append, mentions_flatMap]
    refine List.mem_append_left _ (List.mem_append_right _ (List.mem_flatMap.2 ⟨v, listed, ?_⟩))
    rwa [blockAt_eq lowered scope]
  | pixel =>
    obtain ⟨s, sink, path⟩ := live
    obtain ⟨code, mem, here⟩ := Forall₂.exists_mem_right coded.sinks (wf.mem_paletteSinks.2 sink)
    obtain ⟨n', position, brightness, -, -, -, -, body⟩ := here.body
    apply mentions_sink mem
    rw [body, mentions_append, mentions_append, mentions_flatMap]
    refine List.mem_append_left _ (List.mem_append_left _ (List.mem_flatMap.2 ⟨v, ?_, ?_⟩))
    · exact mem_reached.2 ⟨listed, path⟩
    · rwa [blockAt_eq lowered scope]

/-- The program mentions what consumers read of a node that a palette sink reaches. -/
lemma mentions_lowered (wf : r.WellFormed) (lowers : Lowers r values)
    (coded : Coded r palette name values p) (sink : r.IsPaletteSink s) (path : r.Reaches s v)
    (lowered : values[v]? = some (some l)) : ∀ m ∈ l.expr.names, m ∈ mentions p.statements := by
  -- On the path: what the last node but one shows of its input is mentioned already.
  induction path generalizing l with
  | refl =>
    obtain ⟨n, place, -, value, -⟩ := lowers.entry lowered
    obtain ⟨n', place', kind⟩ := sink
    obtain rfl := Option.some_inj.1 (place.symm.trans place')
    rw [kind] at value
    cases value
  | @tail u v path read ih =>
    obtain ⟨n, place, input⟩ := read
    obtain ⟨slot, input⟩ := List.getElem?_of_mem input
    have operand := operand?_eq_some input lowered
    have small : slot < n.kind.maxInputs :=
      Nat.lt_of_lt_of_le (List.getElem?_eq_some_iff.1 input).1 (wf.arity u n place).2
    rcases value_of_reaches wf sink path with rfl | ⟨n', place', value⟩
    · -- The sink itself wraps its input into the palette position.
      obtain ⟨position, positioned, mentioned⟩ := mentions_position wf coded sink place
      intro m mem
      apply mentioned m
      obtain ⟨n', place', kind⟩ := sink
      obtain rfl := Option.some_inj.1 (place.symm.trans place')
      obtain rfl : slot = 0 := Nat.lt_one_iff.1 (by rwa [kind] at small)
      cases positioned with
      | centred inputs => simp [inputs] at input
      | wrapped inputs operand' =>
        obtain rfl := Option.some_inj.1 (operand.symm.trans operand')
        simp [mentions, mem]
    · obtain rfl := Option.some_inj.1 (place.symm.trans place')
      obtain ⟨l', lowered', -⟩ := lowers.lowered u n place ⟨s, sink, path⟩ value
      by_cases materialized : r.Materialized u
      · obtain ⟨-, n', place', -, -, shape⟩ :=
          lowers.variable_of_materialized lowered' materialized
        obtain rfl := Option.some_inj.1 (place.symm.trans place')
        rcases shape with ⟨body, formed, block⟩ | ⟨e, formed, block⟩
        · cases formed <;> simp_all [Kind.maxInputs]
        · intro m mem
          apply mentions_block wf lowers coded lowered'
          have inside := names_operand formed small operand m mem
          simp [block, mentions, inside]
      · obtain ⟨n', place', -, -, formed⟩ := lowers.inlined lowered' materialized
        obtain rfl := Option.some_inj.1 (place.symm.trans place')
        intro m mem
        exact ih lowered' m (names_operand formed small operand m mem)

/-- The program mentions what a live node asks for. -/
lemma mentions_live (wf : r.WellFormed) (lowers : Lowers r values)
    (coded : Coded r palette name values p) (live : r.Live v) (place : r.nodes[v]? = some n)
    (value : n.kind.isSink = false) :
    (∃ e, Formed v n (operand? values n) (.expr e) ∧ ∀ m ∈ e.names, m ∈ mentions p.statements) ∨
      ∃ body, Formed v n (operand? values n) (.statements body) ∧
        ∀ m ∈ mentions body, m ∈ mentions p.statements := by
  obtain ⟨l, lowered, -⟩ := lowers.lowered v n place live value
  obtain ⟨s, sink, path⟩ := live
  by_cases materialized : r.Materialized v
  · obtain ⟨-, n', place', -, -, shape⟩ := lowers.variable_of_materialized lowered materialized
    obtain rfl := Option.some_inj.1 (place.symm.trans place')
    rcases shape with ⟨body, formed, block⟩ | ⟨e, formed, block⟩
    · exact .inr ⟨body, formed, fun m mem => mentions_block wf lowers coded lowered (block ▸ mem)⟩
    · refine .inl ⟨e, formed, fun m mem => mentions_block wf lowers coded lowered ?_⟩
      simp [block, mentions, mem]
  · obtain ⟨n', place', -, -, formed⟩ := lowers.inlined lowered materialized
    obtain rfl := Option.some_inj.1 (place.symm.trans place')
    exact .inl ⟨l.expr, formed, mentions_lowered wf lowers coded sink path lowered⟩

/-- The constants of the strip that a program mentions. -/
lemma constant_mem_mentions (wf : r.WellFormed) (lowers : Lowers r values)
    (coded : Coded r palette name values p) :
    (.center ∈ mentions p.statements ↔ r.UsesCenter) ∧
      (.last ∈ mentions p.statements ↔ r.UsesLast) := by
  have within : ∀ m ∈ mentions p.statements, ∃ Γ, m.Within r .pixel Γ := by
    intro m mem
    obtain ⟨o, here, rfl⟩ := List.mem_map.1 mem
    exact ⟨o.scope, within_program wf lowers coded o here⟩
  refine ⟨⟨fun mem => (within _ mem).elim fun _ used => used, ?_⟩,
    ⟨fun mem => (within _ mem).elim fun _ used => used, ?_⟩⟩
  · rintro ⟨v, n, live, place, kind | ⟨kind, inputs⟩⟩
    · rcases mentions_live wf lowers coded live place (by rw [kind]; rfl) with
        ⟨e, formed, mentioned⟩ | ⟨body, formed, -⟩
      · apply mentioned .center
        cases formed <;> simp_all [Expr.names, centreDistance]
      · cases formed <;> simp_all
    · have sink : r.IsPaletteSink v := ⟨n, place, kind⟩
      obtain ⟨position, positioned, mentioned⟩ := mentions_position wf coded sink place
      apply mentioned .center
      cases positioned with
      | centred => simp [mentions, centreDistance]
      | wrapped inputs' => cases inputs.symm.trans inputs'
  · rintro ⟨v, n, live, place, kind⟩
    have value : n.kind.isSink = false := by
      rcases kind with kind | kind
      · rw [kind]
        rfl
      · rw [kind]
        rfl
    rcases mentions_live wf lowers coded live place value with
      ⟨e, formed, mentioned⟩ | ⟨body, formed, mentioned⟩
    · apply mentioned .last
      cases formed <;> simp_all [Expr.names, stripPosition]
    · apply mentioned .last
      cases formed <;>
        simp_all [mentions, spectrumStretch, stripPosition, occurrencesIn, Statement.occurrences,
          Expr.names]

/-! ## Compiled effects -/

variable {target : TargetProfile}

/-- How often statements declare the variable of a node, here or further inside. -/
def timesDeclared (target : TargetProfile) (v : Nat) (stmts : List Statement) : Nat :=
  ((declarationsIn stmts).map (Name.text target)).count (Name.text target (.temporary v))

/-- How the names of a program are placed, told by their texts. Each variable of a live node is
declared once, in the preamble or in the loops of the sinks that reach the node, and mentioned in the
scope of its declaration; the preamble names nothing of a pixel; and the constants of the strip are
declared when they are mentioned. -/
structure Placed (target : TargetProfile) (r : ResolvedEffect) (p : Program) : Prop where
  layout : p.statements = p.preamble ++ p.sinks.flatMap SinkCode.statements
  sinks : p.sinks.map (·.node) = r.paletteSinks
  frame : ∀ v n, r.Live v → r.nodes[v]? = some n → n.kind.isSink = false → r.Materialized v →
    ¬ r.PerPixel v → timesDeclared target v p.preamble = 1 ∧
      ∀ code ∈ p.sinks, timesDeclared target v code.body = 0
  pixel : ∀ v n, r.Live v → r.nodes[v]? = some n → n.kind.isSink = false → r.Materialized v →
    r.PerPixel v → timesDeclared target v p.preamble = 0 ∧
      ∀ code ∈ p.sinks, (r.Reaches code.node v → timesDeclared target v code.body = 1) ∧
        (¬ r.Reaches code.node v → timesDeclared target v code.body = 0)
  inScope : ∀ v < r.nodes.size, ∀ m : Name, m = .temporary v ∨ m = .best v →
    ∀ o ∈ occurrencesIn [] p.statements, o.name.text target = m.text target →
      m.text target ∈ o.scope.map (Name.text target)
  early : ∀ m ∈ declarationsIn p.preamble ++ mentions p.preamble,
    m.text target ≠ Name.text target .i ∧ ∀ v < r.nodes.size, r.PerPixel v →
      m.text target ≠ Name.text target (.temporary v) ∧ m.text target ≠ Name.text target (.best v)
  centre : Name.text target .center ∈ (declarationsIn p.statements).map (Name.text target) ↔
    Name.text target .center ∈ (mentions p.statements).map (Name.text target)
  last : Name.text target .last ∈ (declarationsIn p.statements).map (Name.text target) ↔
    Name.text target .last ∈ (mentions p.statements).map (Name.text target)

/-- How often the variable of a live node is declared before the pixel loops. -/
lemma timesDeclared_preamble (wf : r.WellFormed) (lowers : Lowers r values)
    (coded : Coded r palette name values p) (separate : target.Separate r.nodes.size)
    (lowered : values[v]? = some (some l)) (materialized : r.Materialized v) :
    (¬ r.PerPixel v → timesDeclared target v p.preamble = 1) ∧
      (r.PerPixel v → timesDeclared target v p.preamble = 0) := by
  obtain ⟨n, form, place, live, -⟩ := lowers.stored lowered
  have small := wf.live_small live
  have times : timesDeclared target v p.preamble =
      (declarationsIn (blockAt values .frame v)).count (.temporary v) := by
    rw [timesDeclared, count_text separate (n := .temporary v) small, declarations_preamble coded,
      List.count_append, count_blocks lowers, List.count_eq_one_of_mem wf.nodup_order
        (wf.mem_order.2 small), Nat.one_mul]
    cases p.usesCenter <;> cases p.usesLast <;> simp
  have emitted : Emitted values .frame v ↔ (r.PerPixel v ↔ Scope.frame = .pixel) :=
    emitted_iff wf lowers lowered materialized
  rw [times]
  constructor
  · intro frame
    obtain ⟨l', lowered', here, -⟩ := emitted.2 (by simp [frame])
    rw [blockAt_eq lowered' here]
    exact (declared_block lowers lowered' materialized).1
  · intro perPixel
    rw [blockAt_eq_nil fun idle => by simp [perPixel] at emitted; exact emitted idle]
    rfl

/-- How often the variable of a live node is declared in the loop of a sink. -/
lemma timesDeclared_body (wf : r.WellFormed) (lowers : Lowers r values)
    (coded : SinkCoded r palette values s code) (separate : target.Separate r.nodes.size)
    (lowered : values[v]? = some (some l)) (materialized : r.Materialized v) :
    (r.PerPixel v ∧ r.Reaches s v → timesDeclared target v code.body = 1) ∧
      (¬ (r.PerPixel v ∧ r.Reaches s v) → timesDeclared target v code.body = 0) := by
  obtain ⟨n, form, place, live, -⟩ := lowers.stored lowered
  have small := wf.live_small live
  have times : timesDeclared target v code.body =
      (r.reached s).count v * (declarationsIn (blockAt values .pixel v)).count (.temporary v) := by
    rw [timesDeclared, count_text separate (n := .temporary v) small, declarations_body coded,
      List.count_append, count_blocks lowers]
    simp
  have emitted : Emitted values .pixel v ↔ (r.PerPixel v ↔ Scope.pixel = .pixel) :=
    emitted_iff wf lowers lowered materialized
  rw [times]
  constructor
  · rintro ⟨perPixel, path⟩
    obtain ⟨l', lowered', here, -⟩ := emitted.2 (by simp [perPixel])
    rw [blockAt_eq lowered' here, (declared_block lowers lowered' materialized).1,
      List.count_eq_one_of_mem (wf.nodup_reached s)
        (mem_reached.2 ⟨wf.mem_order.2 small, path⟩)]
  · intro outside
    by_cases perPixel : r.PerPixel v
    · have unreached : v ∉ r.reached s := fun mem => outside ⟨perPixel, (mem_reached.1 mem).2⟩
      rw [List.count_eq_zero.2 unreached, Nat.zero_mul]
    · rw [blockAt_eq_nil fun idle => perPixel (by simpa using emitted.1 idle)]
      simp

/-- Before the pixel loops nothing of a pixel is declared or mentioned. -/
lemma early_preamble (wf : r.WellFormed) (lowers : Lowers r values)
    (coded : Coded r palette name values p) {m : Name}
    (mem : m ∈ declarationsIn p.preamble ++ mentions p.preamble) :
    m ≠ .i ∧ ∀ v, r.PerPixel v → m ≠ .temporary v ∧ m ≠ .best v := by
  rcases List.mem_append.1 mem with mem | mem
  · rw [declarations_preamble coded, List.mem_append] at mem
    rcases mem with mem | mem
    · have constant : m = .center ∨ m = .last := by
        revert mem
        cases p.usesCenter <;> cases p.usesLast <;> simp +contextual
      rcases constant with rfl | rfl <;> simp
    · rcases own_blocks lowers mem with ⟨u, ⟨l, lowered, frame, block⟩, own⟩ | loc
      · have outside : ¬ r.PerPixel u := fun perPixel => by
          have pixel := (lowers.scope_iff wf lowered).2 perPixel
          rw [frame] at pixel
          cases pixel
        rcases own with rfl | rfl
        · refine ⟨by simp, fun v perPixel => ⟨?_, by simp⟩⟩
          rintro ⟨⟩
          exact outside perPixel
        · refine ⟨by simp, fun v perPixel => ⟨by simp, ?_⟩⟩
          rintro ⟨⟩
          exact outside perPixel
      · simp at loc
        rcases loc with rfl | rfl | rfl | rfl <;> simp
  · obtain ⟨o, here, rfl⟩ := List.mem_map.1 mem
    have within := (within_preamble wf lowers coded).1 o here
    refine ⟨fun eq => ?_, fun v perPixel => ⟨fun eq => ?_, fun eq => ?_⟩⟩
    · rw [eq] at within
      cases within
    · rw [eq] at within
      cases within.2 perPixel
    · rw [eq] at within
      cases within.2 perPixel

/-- A program that is lowered from a well-formed effect places its variables as they are scoped. -/
lemma Coded.placed (wf : r.WellFormed) (lowers : Lowers r values)
    (coded : Coded r palette name values p) (separate : target.Separate r.nodes.size) :
    Placed target r p := by
  have declared := constant_mem_declarations lowers coded
  have mentioned := constant_mem_mentions wf lowers coded
  refine ⟨statements_eq p, ?_, fun v n live place value materialized frame => ?_,
    fun v n live place value materialized perPixel => ?_, fun v small m own o mem same => ?_,
    fun m mem => ⟨fun same => ?_, fun v small perPixel => ⟨fun same => ?_, fun same => ?_⟩⟩, ?_, ?_⟩
  · have nodes := coded.sinks.imp fun s code sink => sink.node
    simpa using @Forall₂.map_eq _ _ _ id SinkCode.node _ _ nodes
  · obtain ⟨l, lowered, -⟩ := lowers.lowered v n place live value
    refine ⟨(timesDeclared_preamble wf lowers coded separate lowered materialized).1 frame,
      fun code mem => ?_⟩
    obtain ⟨s, -, here⟩ := Forall₂.exists_mem_left coded.sinks mem
    exact (timesDeclared_body wf lowers here separate lowered materialized).2 fun h => frame h.1
  · obtain ⟨l, lowered, -⟩ := lowers.lowered v n place live value
    refine ⟨(timesDeclared_preamble wf lowers coded separate lowered materialized).2 perPixel,
      fun code mem => ?_⟩
    obtain ⟨s, -, here⟩ := Forall₂.exists_mem_left coded.sinks mem
    rw [here.node]
    exact ⟨fun path => (timesDeclared_body wf lowers here separate lowered materialized).1
        ⟨perPixel, path⟩, fun unreached =>
      (timesDeclared_body wf lowers here separate lowered materialized).2 fun h => unreached h.2⟩
  · have generated : m.Generated r.nodes.size := by
      rcases own with rfl | rfl
      · exact small
      · exact small
    have within := within_program wf lowers coded o mem
    rw [separate.eq_of_text generated same] at within
    apply (mem_text separate generated).2
    rcases own with rfl | rfl
    · exact within.1
    · exact within.1
  · exact (early_preamble wf lowers coded mem).1 (separate.eq_of_text (n := .i) trivial same)
  · exact ((early_preamble wf lowers coded mem).2 v perPixel).1
      (separate.eq_of_text (n := .temporary v) small same)
  · exact ((early_preamble wf lowers coded mem).2 v perPixel).2
      (separate.eq_of_text (n := .best v) small same)
  · rw [mem_text separate (n := .center) trivial, mem_text separate (n := .center) trivial,
      declared.1, mentioned.1]
  · rw [mem_text separate (n := .last) trivial, mem_text separate (n := .last) trivial, declared.2,
      mentioned.2]

/-- Whatever effect compiles, its code is that of a program which places its variables as they are
scoped. -/
theorem compile_placed {e : Effect} {c : CompiledEffect} (compiled : e.compile target = .ok c)
    (separate : target.Separate e.nodes.length) :
    ∃ r palette p stats, e.resolve = .ok r ∧ Palette.ofEffect e = .ok palette ∧
      lower? r palette e.displayName = some (p, stats) ∧ c.code = p.render target ∧
      Placed target r p := by
  obtain ⟨r, resolved, compiled⟩ := bind_eq_ok.1 compiled
  obtain ⟨palette, chosen, compiled⟩ := bind_eq_ok.1 compiled
  have wf := Effect.resolve_wellFormed resolved
  obtain ⟨p, stats, values, run, lowers, coded⟩ :=
    lower?_spec wf (Palette.two_le_length chosen) e.displayName
  have size : r.nodes.size = e.nodes.length := by
    rw [← Array.length_toList, ← (Effect.resolve_eq_ok.1 resolved).1.nodes.length_eq]
  rw [run] at compiled
  cases compiled
  exact ⟨r, palette, p, stats, resolved, chosen, run, rfl, coded.placed wf lowers (size ▸ separate)⟩

/-- A ramp dimmed by the mean of the spectrum, shown by two sinks. -/
def dimmedRamp : Effect :=
  let nodes := [NodeSpec.new "mean" "spectrum-range", NodeSpec.new "ramp" "gradient",
    ((NodeSpec.new "dimmed" "multiply").input "ramp").input "mean",
    (NodeSpec.new "left" "palette-interpolate").input "dimmed",
    (NodeSpec.new "right" "palette-interpolate").input "dimmed"]
  nodes.foldl Effect.node Effect.empty

/-- The dimmed ramp compiles to a program that places its variables. -/
theorem dimmedRamp_placed : ∃ c r palette p stats, dimmedRamp.compile default = .ok c ∧
    (default : TargetProfile).Separate dimmedRamp.nodes.length ∧
    lower? r palette dimmedRamp.displayName = some (p, stats) ∧ c.code = p.render default ∧
    Placed default r p := by
  have accepted : (dimmedRamp.compile default).isOk = true := by decide +kernel
  have separate := TargetProfile.separate_default dimmedRamp.nodes.length
  cases compiled : dimmedRamp.compile default with
  | error fault =>
    rw [compiled] at accepted
    cases accepted
  | ok c =>
    obtain ⟨r, palette, p, stats, -, -, run, code, placed⟩ := compile_placed compiled separate
    exact ⟨c, r, palette, p, stats, rfl, separate, run, code, placed⟩

end LedEffect.Program
