import LedEffect.Proofs.Program.Bracing
import LedEffect.Proofs.Program.Hygiene

/-!
# Precedence

The text that is kept of a node is a postfix expression, so a consumer can put it wherever an operand may
stand: it is read there as one, and as nothing else (`Consumes.operands`). All that a program prints is read
as what it means (`lower_precedenceSafe`).
-/

namespace LedEffect

/-- The operands in what the expression of a node is read as, by the kind of the node. -/
def Kind.operands : Kind → Tree → List Tree
  | .add, .call _ (.list (.binary .add a b) _) => [a, b]
  | .multiply, .paren (.binary .mul a b) => [a, b]
  | .clamp, .call _ (.list _ (.call _ (.list _ a))) => [a]
  | .modulo, .call _ (.list a _) => [a]
  | .scale, .paren (.binary .mul a _) => [a]
  | .sin, .paren (.binary .add (.binary .mul (.call _ (.binary .mul (.binary .mul a _) _)) _) _) => [a]
  | .paletteInterpolate, .call _ (.list a _) => [a]
  | _, _ => []

namespace Program

open ResolvedEffect

variable {r : ResolvedEffect} {values : Values} {v s : Nat} {n : ResolvedNode} {l : Lowered}
  {target : TargetProfile} {palette : Palette} {name : String} {p : Program} {code : SinkCode}

/-! ## Operands -/

/-- The expression in which a node reads its inputs: that of its value, or the palette position of a sink. -/
inductive Consumes (values : Values) (v : Nat) (n : ResolvedNode) : Expr → Prop
  | value {e : Expr} (asked : form? v n (operand? values n) = some (.expr e)) : Consumes values v n e
  | position {e : Expr} {rest : List Statement} (kind : n.kind = .paletteInterpolate)
    (asked : palettePosition? values n = some (.declare .float .pos (some e) :: rest)) :
    Consumes values v n e

/-- Whether a tree is what the expression of a lowered node is to be read as. -/
def TreeOf (values : Values) (target : TargetProfile) (u : Nat) (a : Tree) : Prop :=
  ∃ l, values[u]? = some (some l) ∧ l.expr.tree target = a

/-- The operands of what a consumer is read as are what the expressions of its inputs are read as. -/
lemma Consumes.operands {e : Expr} (consumes : Consumes values v n e)
    (arity : n.kind.minInputs ≤ n.inputs.length ∧ n.inputs.length ≤ n.kind.maxInputs) :
    List.Forall₂ (TreeOf values target) n.inputs (n.kind.operands (e.tree target)) := by
  have none (kind : n.kind.maxInputs = 0) : n.inputs = [] :=
    List.length_eq_zero_iff.1 (Nat.le_zero.1 (kind ▸ arity.2))
  have one {a : Expr} (kind : n.kind.maxInputs = 1) (first : operand? values n 0 = some a) :
      List.Forall₂ (TreeOf values target) n.inputs [a.tree target] := by
    obtain ⟨u, l, input, lowered, rfl⟩ := exists_of_operand? first
    match inputs : n.inputs with
    | [] => simp [inputs] at input
    | [w] =>
      obtain rfl : w = u := by simpa [inputs] using input
      exact .cons ⟨l, lowered, rfl⟩ .nil
    | _ :: _ :: _ => simp [inputs, kind] at arity
  have two {a b : Expr} (kind : n.kind.maxInputs = 2) (first : operand? values n 0 = some a)
      (second : operand? values n 1 = some b) :
      List.Forall₂ (TreeOf values target) n.inputs [a.tree target, b.tree target] := by
    obtain ⟨u, l, input, lowered, rfl⟩ := exists_of_operand? first
    obtain ⟨u', l', input', lowered', rfl⟩ := exists_of_operand? second
    match inputs : n.inputs with
    | [] | [_] => simp [inputs] at input'
    | [w, w'] =>
      obtain rfl : w = u := by simpa [inputs] using input
      obtain rfl : w' = u' := by simpa [inputs] using input'
      exact .cons ⟨l, lowered, rfl⟩ (.cons ⟨l', lowered', rfl⟩ .nil)
    | _ :: _ :: _ :: _ => simp [inputs, kind] at arity
  cases consumes with
  | value asked =>
    cases Formed.of_form? asked with
    | add kind first second | multiply kind first second =>
      rw [kind]
      exact two (by rw [kind]; rfl) first second
    | clamp kind _ _ first | modulo kind first _ | scale kind first _ | sin kind first _ =>
      rw [kind]
      exact one (by rw [kind]; rfl) first
    | _ kind =>
      rw [none (by rw [kind]; rfl), kind]
      exact .nil
  | position kind asked =>
    rw [kind]
    cases Positioned.of_palettePosition? asked with
    | centred inputs =>
      rw [inputs]
      exact .nil
    | wrapped inputs first => exact one (by rw [kind]; rfl) first

/-! ## Expressions of nodes -/

/-- A literal is a primary expression: what has a sign stands in parentheses. -/
lemma binds_literal {x : Binary64} (pointed : x.Pointed) (k : Nat) : (literal x).Binds k := by
  unfold literal
  split
  next => exact ⟨nofun, pointed, fun _ => by decide⟩
  next positive => exact ⟨pointed, fun negative => absurd negative positive⟩

lemma pointed_constants : (0 : Binary64).Pointed ∧ (1 : Binary64).Pointed ∧ (0.5 : Binary64).Pointed ∧
    (6.2831853 : Binary64).Pointed := by
  decide +kernel

/-- What a node asks for is a postfix expression if the expressions of its inputs are. -/
lemma binds_formed {operand? : Nat → Option Expr} {e : Expr} (range : n.InRange)
    (formed : Formed v n operand? (.expr e)) (operands : ∀ slot a, operand? slot = some a → a.Binds 0) :
    e.Binds 0 := by
  obtain ⟨-, one, half, turn⟩ := pointed_constants
  have param {name : String} {x : Binary64} (declared : ∃ p ∈ n.kind.params, p.name = name)
      (value : n.param? name = some x) (k : Nat) : (literal x).Binds k :=
    binds_literal (range.pointed declared value) k
  have operand {slot : Nat} {a : Expr} (operand : operand? slot = some a) (k : Nat) : a.Binds k :=
    (operands slot a operand).mono (Nat.zero_le k)
  cases formed with
  | constant kind value => exact param (by rw [kind]; decide) value 0
  | gradient kind => simp [centreDistance, Program.pixel, Operator.level, one]
  | positionGradient kind => simp [stripPosition, Program.pixel, Operator.level, one]
  | scaledSeconds kind speed =>
    have factor := param (by rw [kind]; decide) speed
    simp [symbol, Operator.level, factor]
  | add kind first second => simp [Operator.level, operand first, operand second, one]
  | multiply kind first second => simp [Operator.level, operand first, operand second]
  | clamp kind min max first =>
    have least := param (by rw [kind]; decide) min
    have most := param (by rw [kind]; decide) max
    simp [operand first, least, most]
  | modulo kind first divisor =>
    have divisor := param (by rw [kind]; decide) divisor
    simp [operand first, divisor]
  | scale kind first factor =>
    have factor := param (by rw [kind]; decide) factor
    simp [Operator.level, operand first, factor]
  | sin kind first frequency =>
    have frequency := param (by rw [kind]; decide) frequency
    simp [Operator.level, operand first, frequency, half, turn]
  | spectrumBin kind whole | chromagram kind whole => simp [symbol]
  | fixedBeat kind bin fixed whole =>
    simp [beatPhase, symbol, Operator.level, half]
  | _ => trivial

/-- The expressions of the statements that write a pixel bind. -/
lemma binds_write {brightness : Binary64} (pointed : brightness.Pointed) (table : Name) (colours : Nat) :
    ∀ e ∈ expressionsIn (paletteWrite table colours brightness), e.Binds 5 := by
  have factor := binds_literal pointed
  unfold paletteWrite writeChannel
  split <;>
    simp [mixedChannel, symbol, Operator.level, factor]

section

variable (wf : r.WellFormed) (ranges : ∀ (v : Nat) n, r.nodes[v]? = some n → n.InRange)
  (lowers : Lowers r values)

include ranges in
/-- The expression of a node is a postfix expression if those of its inputs are. -/
lemma binds_form (place : r.nodes[v]? = some n)
    (inputs : ∀ u l, r.Reads v u → values[u]? = some (some l) → l.expr.Binds 0) {e : Expr}
    (formed : Formed v n (operand? values n) (.expr e)) : e.Binds 0 := by
  refine binds_formed (ranges v n place) formed fun slot a operand => ?_
  obtain ⟨u, l, input, lowered, rfl⟩ := exists_of_operand? operand
  exact inputs u l ⟨n, place, List.mem_of_getElem? input⟩ lowered

include wf ranges lowers

/-- What consumers read of a node is a postfix expression. -/
lemma binds_lowered (lowered : values[v]? = some (some l)) : l.expr.Binds 0 := by
  refine lowers.expr_induction wf (P := fun _ e => e.Binds 0) ?_ ?_ lowered
  · intro v l _ _
    trivial
  · intro v n e place _ _ formed inputs
    exact binds_form ranges place inputs formed

/-! ## Statements -/

/-- The expressions of the statements of a node bind. -/
lemma binds_block (lowered : values[v]? = some (some l)) (materialized : r.Materialized v) :
    ∀ e ∈ expressionsIn l.block, e.Binds 5 := by
  obtain ⟨zero, one, half, -⟩ := pointed_constants
  obtain ⟨-, n, place, -, -, shape⟩ := lowers.variable_of_materialized lowered materialized
  rcases shape with ⟨body, formed, block⟩ | ⟨e, formed, block⟩
  · rw [block]
    cases formed with
    | spectrumRange kind bounds =>
      simp [spectrumMean, symbol, zero]
    | spectrumInterpolate kind bounds =>
      simp [spectrumStretch, symbol, stripPosition, Program.pixel, Operator.level, one]
    | strongest kind bin auto =>
      simp [strongestBeat, symbol, beatPhase, Operator.level, half]
  · have binds := binds_form ranges place (fun u l _ lowered => binds_lowered wf ranges lowers lowered) formed
    simpa [block] using binds.mono (Nat.zero_le 5)

lemma binds_blockAt (scope : Scope) (vs : List Nat) :
    ∀ e ∈ expressionsIn (vs.flatMap (blockAt values scope)), e.Binds 5 := by
  rw [expressionsIn_flatMap]
  intro e mem
  obtain ⟨v, -, mem⟩ := List.mem_flatMap.1 mem
  by_cases emitted : Emitted values scope v
  · obtain ⟨l, lowered, here, block⟩ := emitted
    rw [blockAt_eq lowered here] at mem
    exact binds_block wf ranges lowers lowered ((lowers.block_ne_nil_iff lowered).1 block) e mem
  · rw [blockAt_eq_nil emitted] at mem
    cases mem

/-- The expressions that give the palette position of a sink bind. -/
lemma binds_position {position : List Statement} (positioned : Positioned values n position) :
    ∀ e ∈ expressionsIn position, e.Binds 5 := by
  obtain ⟨zero, one, -, -⟩ := pointed_constants
  cases positioned with
  | centred inputs =>
    simp [centreDistance, Program.pixel, Operator.level, one]
  | wrapped inputs operand =>
    obtain ⟨u, l, -, lowered, rfl⟩ := exists_of_operand? operand
    have binds := (binds_lowered wf ranges lowers lowered).mono (Nat.zero_le 5)
    simp [Operator.level, zero, one, binds]

/-- The expressions of the code of a sink bind. -/
lemma binds_sink (coded : SinkCoded r palette values s code) (sink : r.IsPaletteSink s) :
    ∀ e ∈ expressionsIn code.statements, e.Binds 5 := by
  obtain ⟨n, position, brightness, place, positioned, bright, -, body⟩ := coded.body
  obtain ⟨n', place', kind⟩ := id sink
  obtain rfl := Option.some_inj.1 (place.symm.trans place')
  have pointed : brightness.Pointed := (ranges s n place).pointed (by rw [kind]; decide) bright
  have inside : ∀ e ∈ expressionsIn code.body, e.Binds 5 := by
    intro e mem
    rw [body, expressionsIn_append, expressionsIn_append] at mem
    rcases List.mem_append.1 mem with mem | mem
    · rcases List.mem_append.1 mem with mem | mem
      · exact binds_blockAt wf ranges lowers _ _ e mem
      · exact binds_position wf ranges lowers (.of_palettePosition? positioned) e mem
    · exact binds_write pointed _ _ e mem
  simpa [SinkCode.statements] using inside

/-- The expressions of a program bind. -/
lemma binds_program (coded : Coded r palette name values p) :
    ∀ e ∈ expressionsIn p.statements, e.Binds 5 := by
  obtain ⟨-, -, half, -⟩ := pointed_constants
  have constants : ∀ e ∈ expressionsIn p.constants, e.Binds 5 := by
    unfold constants
    cases p.usesCenter <;> cases p.usesLast <;> simp [lastPixel, Operator.level, half]
  intro e mem
  rw [statements_eq, preamble, expressionsIn_append, expressionsIn_append, expressionsIn_append, coded.frame,
    expressionsIn_flatMap SinkCode.statements] at mem
  rcases List.mem_append.1 mem with mem | mem
  · rcases List.mem_append.1 mem with mem | mem
    · rcases List.mem_append.1 mem with mem | mem
      · cases mem
      · exact constants e mem
    · exact binds_blockAt wf ranges lowers _ _ e mem
  · obtain ⟨code, listed, mem⟩ := List.mem_flatMap.1 mem
    obtain ⟨s, sink, here⟩ := Forall₂.exists_mem_left coded.sinks listed
    exact binds_sink wf ranges lowers here (wf.mem_paletteSinks.1 sink) e mem

/-! ## Programs -/

lemma Consumes.binds (place : r.nodes[v]? = some n) {e : Expr} (consumes : Consumes values v n e) :
    e.Binds 5 := by
  cases consumes with
  | value asked =>
    have binds := binds_form ranges place (fun u l _ lowered => binds_lowered wf ranges lowers lowered)
      (.of_form? asked)
    exact binds.mono (Nat.zero_le 5)
  | position kind asked =>
    exact binds_position wf ranges lowers (.of_palettePosition? asked) e (.head _)

end

/-- Whether the text that is kept of each node is a postfix expression without operators outside of its
delimiters, every text it is put in is read with exactly that expression as the operand, and what the program
prints to is read as what it means, delimiters balanced. Float literals are written as such everywhere. -/
structure PrecedenceSafe (target : TargetProfile) (r : ResolvedEffect) (values : Values) (p : Program) :
    Prop where
  kept : ∀ (v : Nat) l, values[v]? = some (some l) → l.expr.ReadAs target 0 (l.expr.tree target) ∧
    Token.Sealed (Token.tokens (l.expr.text target).toList) ∧
    ∀ s ∈ l.expr.floats, ∃ negative, IsFloat negative s
  consumers : ∀ (v : Nat) n e, r.nodes[v]? = some n → Consumes values v n e →
    e.ReadAs target 5 (e.tree target) ∧ List.Forall₂
      (fun u a => ∃ l, values[u]? = some (some l) ∧ l.expr.ReadAs target 0 a) n.inputs
      (n.kind.operands (e.tree target))
  printed : ∀ e ∈ expressionsIn p.statements, e.ReadAs target 5 (e.tree target) ∧
    ∀ s ∈ e.floats, ∃ negative, IsFloat negative s
  balanced : Token.Balanced (Token.tokens (p.render target).toList)

/-- Lowering a resolved effect is safe with regard to precedence, under any profile whose symbols are
identifiers. -/
theorem lower_precedenceSafe {e : Effect} (resolved : e.resolve = .ok r)
    (enough : 2 ≤ palette.keyframes.length) (valid : target.invalidSymbol? = none) (name : String) :
    ∃ ordered live counts values p stats, Tabulated r ordered live counts values ∧
      lower? r palette name = some (p, stats) ∧ PrecedenceSafe target r values p := by
  have wf := Effect.resolve_wellFormed resolved
  have ranges := Effect.resolve_inRange resolved
  have identifiers := isIdentifier_of_valid valid
  obtain ⟨ordered, live, counts, values, tables⟩ := exists_tabulated wf
  obtain ⟨p, stats, values', run, lowers', coded⟩ := lower?_spec wf enough name
  have lowers := tables.lowers
  have printed := binds_program wf ranges lowers' coded
  refine ⟨ordered, live, counts, values, p, stats, tables, run, ?_, ?_, ?_, ?_⟩
  · intro v l lowered
    have binds := binds_lowered wf ranges lowers lowered
    have derives : Tree.Derives 0 _ _ := (binds.readAs identifiers _).2 rfl
    exact ⟨binds.readAs identifiers, derives.sealed, binds.isFloat⟩
  · intro v n e place consumes
    refine ⟨(consumes.binds wf ranges lowers place).readAs identifiers, ?_⟩
    refine (consumes.operands (wf.arity v n place)).imp fun u a tree => ?_
    obtain ⟨l, lowered, rfl⟩ := tree
    exact ⟨l, lowered, (binds_lowered wf ranges lowers lowered).readAs identifiers⟩
  · exact fun e mem => ⟨(printed e mem).readAs identifiers, (printed e mem).isFloat⟩
  · exact balanced_linesOf identifiers printed

/-- A shade below zero that moves backwards, in parameters of either sign. -/
def backwards : Effect :=
  let nodes := [(NodeSpec.new "shade" "constant").param "value" (.number (-0.0)),
    ((NodeSpec.new "dim" "scale").param "factor" (.number (-0.0001))).input "shade",
    (NodeSpec.new "drift" "time").param "speed" (.number (-1.5)),
    ((NodeSpec.new "sum" "add").input "dim").input "drift",
    (NodeSpec.new "strip" "palette-interpolate").input "sum"]
  nodes.foldl Effect.node Effect.empty

/-- Literals of a zero below zero, of a small and of a negative number are kept apart from what is around
them. -/
theorem backwards_precedenceSafe : (default : TargetProfile).invalidSymbol? = none ∧
    ∃ r palette ordered live counts values p stats, backwards.resolve = .ok r ∧
      Palette.ofEffect backwards = .ok palette ∧ Tabulated r ordered live counts values ∧
      lower? r palette backwards.displayName = some (p, stats) ∧ PrecedenceSafe default r values p ∧
      (values[1]?.join.map fun l => l.expr.text default) = some "((-0.0f) * (-0.0001f))" := by
  have valid : (default : TargetProfile).invalidSymbol? = none := by decide
  have found : (backwards.resolve.toOption.bind fun r => (orderedNodes? r).bind fun ordered =>
      let sinks := (ordered.filter fun x => x.2.kind = .paletteInterpolate).map (·.1)
      (liveNodes? r.nodes sinks).bind fun live => (readers? r.nodes live).bind fun counts =>
        (lowerValues? live counts ordered).bind fun values =>
          values[1]?.join.map fun l => l.expr.text default) = some "((-0.0f) * (-0.0001f))" := by
    decide +kernel
  have coloured : (Palette.ofEffect backwards).isOk = true := by decide
  cases chosen : Palette.ofEffect backwards with
  | error fault => simp [chosen, Except.isOk, Except.toBool] at coloured
  | ok palette =>
    cases resolved : backwards.resolve with
    | error fault => simp [resolved, Except.toOption] at found
    | ok r =>
      obtain ⟨ordered, live, counts, values, p, stats, tables, run, safe⟩ := lower_precedenceSafe resolved
        (Palette.two_le_length chosen) valid backwards.displayName
      simp only [resolved, Except.toOption, Option.bind_some, tables.listed, tables.alive, tables.counted,
        tables.filled] at found
      exact ⟨valid, r, palette, ordered, live, counts, values, p, stats, rfl, rfl, tables, run, safe, found⟩

end Program

end LedEffect
