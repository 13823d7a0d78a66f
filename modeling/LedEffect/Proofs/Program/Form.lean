import LedEffect.Proofs.Effect.WellFormed
import LedEffect.Program.Lowering

/-!
# Forms

What a node asks for, kind by kind (`Formed`), and how a lowered node is kept (`Stored`). A node that
is no sink has a form when its inputs are lowered (`exists_form?`).
-/

namespace LedEffect

/-- Whether the value of a node needs statements: a mean, a stretched spectrum, or the beat of the
strongest candidate. -/
def ResolvedNode.NeedsStatements (n : ResolvedNode) : Prop :=
  n.kind = .spectrumRange ∨ n.kind = .spectrumInterpolate ∨
    n.kind = .beat ∧ ∃ bin, n.param? "tempoBin" = some bin ∧ bin.eq autoTempoBin = true

lemma Kind.ne_output {k : Kind} (value : k.isSink = false) : k ≠ .output := by
  rintro rfl
  cases value

/-- The sinks are the palette sinks and the outputs. -/
lemma Kind.isSink_iff {k : Kind} : k.isSink = true ↔ k = .output ∨ k = .paletteInterpolate := by
  cases k <;> decide

namespace Program

variable {values : Values}

/-- How a node is kept: as statements that define its variable, as a variable that holds its
expression, or as the expression itself. -/
inductive Stored (index readers : Nat) (n : ResolvedNode) : Form → Expr → List Statement → Prop
  | statements (body : List Statement) :
    Stored index readers n (.statements body) (.name (.temporary index))
      (.comment (heading n) :: body)
  | shared (e : Expr) (many : 2 ≤ readers) (operation : n.inputs ≠ []) :
    Stored index readers n (.expr e) (.name (.temporary index))
      [.comment (heading n), .declare .float (.temporary index) (some e)]
  | inlined (e : Expr) (once : ¬ (2 ≤ readers ∧ n.inputs ≠ [])) :
    Stored index readers n (.expr e) e []

/-- A lowered node is kept as its form asks for. -/
lemma lowerNode?_eq_some {index readers : Nat} {n : ResolvedNode} {l : Lowered}
    (run : lowerNode? values index readers n = some l) :
    l.scope = scopeOf values n ∧ ∃ form, form? index n (operand? values n) = some form ∧
      Stored index readers n form l.expr l.block := by
  obtain ⟨form, asked, run⟩ := Option.bind_eq_some_iff.1 run
  cases form with
  | statements body =>
    cases run
    exact ⟨rfl, _, asked, .statements body⟩
  | expr e =>
    dsimp only at run
    split at run
    next shared =>
      cases run
      exact ⟨rfl, _, asked, .shared e shared.1 shared.2⟩
    next inlined =>
      cases run
      exact ⟨rfl, _, asked, .inlined e inlined⟩

lemma exists_lowerNode? {index readers : Nat} {n : ResolvedNode} {form : Form}
    (asked : form? index n (operand? values n) = some form) :
    ∃ l, lowerNode? values index readers n = some l := by
  rw [lowerNode?, asked]
  cases form with
  | statements body => exact ⟨_, rfl⟩
  | expr e =>
    simp only [Option.bind_eq_bind, Option.bind_some]
    split
    · exact ⟨_, rfl⟩
    · exact ⟨_, rfl⟩

/-- Lowering a node looks at its inputs only. -/
lemma lowerNode?_congr {values' : Values} {index readers : Nat} {n : ResolvedNode}
    (same : ∀ v ∈ n.inputs, values[v]? = values'[v]?) :
    lowerNode? values index readers n = lowerNode? values' index readers n := by
  have scope : scopeOf values n = scopeOf values' n := by
    unfold scopeOf
    congr 1
    refine List.filterMap_congr fun v mem => ?_
    rw [same v mem]
  have operands : operand? values n = operand? values' n := by
    funext slot
    unfold operand?
    cases input : n.inputs[slot]? with
    | none => rfl
    | some v => simp [same v (List.mem_of_getElem? input)]
  rw [lowerNode?, lowerNode?, scope, operands]

lemma operand?_eq_some {n : ResolvedNode} {slot v : Nat} {l : Lowered}
    (input : n.inputs[slot]? = some v) (lowered : values[v]? = some (some l)) :
    operand? values n slot = some l.expr := by
  simp [operand?, input, lowered]

/-- An operand is the expression of a lowered input. -/
lemma exists_of_operand? {n : ResolvedNode} {slot : Nat} {a : Expr}
    (operand : operand? values n slot = some a) :
    ∃ u l, n.inputs[slot]? = some u ∧ values[u]? = some (some l) ∧ l.expr = a := by
  obtain ⟨u, input, operand⟩ := Option.bind_eq_some_iff.1 operand
  obtain ⟨entry, found, operand⟩ := Option.bind_eq_some_iff.1 operand
  obtain ⟨l, rfl, eq⟩ := Option.bind_eq_some_iff.1 operand
  exact ⟨u, l, input, found, Option.some_inj.1 eq⟩

/-- What a node asks for, kind by kind. -/
inductive Formed (index : Nat) (n : ResolvedNode) (operand? : Nat → Option Expr) : Form → Prop
  | constant {x : Binary64} (kind : n.kind = .constant) (value : n.param? "value" = some x) :
    Formed index n operand? (.expr (literal x))
  | gradient (kind : n.kind = .gradient) : Formed index n operand? (.expr (.paren centreDistance))
  | positionGradient (kind : n.kind = .positionGradient) :
    Formed index n operand? (.expr stripPosition)
  | seconds {x : Binary64} (kind : n.kind = .time) (speed : n.param? "speed" = some x)
    (one : x.eq 1 = true) : Formed index n operand? (.expr (symbol .timeSeconds))
  | scaledSeconds {x : Binary64} (kind : n.kind = .time) (speed : n.param? "speed" = some x)
    (other : x.eq 1 = false) :
    Formed index n operand? (.expr (.paren (.binary .mul (symbol .timeSeconds) (literal x))))
  | add {a b : Expr} (kind : n.kind = .add) (first : operand? 0 = some a)
    (second : operand? 1 = some b) :
    Formed index n operand? (.expr (.call2 .fminf (.binary .add a b) (.real 1)))
  | multiply {a b : Expr} (kind : n.kind = .multiply) (first : operand? 0 = some a)
    (second : operand? 1 = some b) : Formed index n operand? (.expr (.paren (.binary .mul a b)))
  | clamp {x y : Binary64} {a : Expr} (kind : n.kind = .clamp) (min : n.param? "min" = some x)
    (max : n.param? "max" = some y) (first : operand? 0 = some a) :
    Formed index n operand?
      (.expr (.call2 .fmaxf (literal x) (.call2 .fminf (literal y) a)))
  | modulo {x : Binary64} {a : Expr} (kind : n.kind = .modulo) (first : operand? 0 = some a)
    (divisor : n.param? "divisor" = some x) :
    Formed index n operand? (.expr (.call2 .fmodf a (literal x)))
  | scale {x : Binary64} {a : Expr} (kind : n.kind = .scale) (first : operand? 0 = some a)
    (factor : n.param? "factor" = some x) :
    Formed index n operand? (.expr (.paren (.binary .mul a (literal x))))
  | sin {x : Binary64} {a : Expr} (kind : n.kind = .sin) (first : operand? 0 = some a)
    (frequency : n.param? "frequency" = some x) :
    Formed index n operand?
      (.expr (.paren (.binary .add
        (.binary .mul
          (.call1 .sinf (.binary .mul (.binary .mul a (literal x)) (.real 6.2831853))) (.real 0.5))
        (.real 0.5))))
  | spectrumBin {bin : Int} (kind : n.kind = .spectrumBin) (whole : wholeParam? n "bin" = some bin) :
    Formed index n operand? (.expr (.index (symbol .spectrogram) (.int bin)))
  | spectrumRange {lo hi : Int} (kind : n.kind = .spectrumRange)
    (bounds : binBounds? n = some (lo, hi)) :
    Formed index n operand? (.statements (spectrumMean (.temporary index) lo hi))
  | spectrumInterpolate {lo hi : Int} (kind : n.kind = .spectrumInterpolate)
    (bounds : binBounds? n = some (lo, hi)) :
    Formed index n operand? (.statements (spectrumStretch (.temporary index) lo hi))
  | audioLevel (kind : n.kind = .audioLevel) : Formed index n operand? (.expr (symbol .vuLevel))
  | strongest {x : Binary64} (kind : n.kind = .beat) (bin : n.param? "tempoBin" = some x)
    (auto : x.eq autoTempoBin = true) :
    Formed index n operand? (.statements (strongestBeat (.temporary index) (.best index)))
  | fixedBeat {x : Binary64} {candidate : Int} (kind : n.kind = .beat)
    (bin : n.param? "tempoBin" = some x) (fixed : x.eq autoTempoBin = false)
    (whole : wholeParam? n "tempoBin" = some candidate) :
    Formed index n operand? (.expr (.paren (beatPhase (.int candidate))))
  | chromagram {pitch : Int} (kind : n.kind = .chromagram)
    (whole : wholeParam? n "pitch" = some pitch) :
    Formed index n operand? (.expr (.index (symbol .chromagram) (.int pitch)))
  | tempoConfidence (kind : n.kind = .tempoConfidence) :
    Formed index n operand? (.expr (symbol .tempoConfidence))

/-- Whatever a node asks for is in the table of the kinds. -/
lemma Formed.of_form? {index : Nat} {n : ResolvedNode} {operand? : Nat → Option Expr} {form : Form}
    (asked : form? index n operand? = some form) : Formed index n operand? form := by
  unfold form? at asked
  cases kind : n.kind <;> simp only [kind] at asked
  case paletteInterpolate => cases asked
  case output => cases asked
  case gradient =>
    cases asked
    exact .gradient kind
  case positionGradient =>
    cases asked
    exact .positionGradient kind
  case audioLevel =>
    cases asked
    exact .audioLevel kind
  case tempoConfidence =>
    cases asked
    exact .tempoConfidence kind
  case constant =>
    obtain ⟨x, value, eq⟩ := Option.bind_eq_some_iff.1 asked
    cases eq
    exact .constant kind value
  case time =>
    obtain ⟨x, speed, eq⟩ := Option.bind_eq_some_iff.1 asked
    cases one : x.eq 1
    · rw [one] at eq
      cases eq
      exact .scaledSeconds kind speed one
    · rw [one] at eq
      cases eq
      exact .seconds kind speed one
  case add =>
    obtain ⟨a, first, rest⟩ := Option.bind_eq_some_iff.1 asked
    obtain ⟨b, second, eq⟩ := Option.bind_eq_some_iff.1 rest
    cases eq
    exact .add kind first second
  case multiply =>
    obtain ⟨a, first, rest⟩ := Option.bind_eq_some_iff.1 asked
    obtain ⟨b, second, eq⟩ := Option.bind_eq_some_iff.1 rest
    cases eq
    exact .multiply kind first second
  case clamp =>
    obtain ⟨x, min, rest⟩ := Option.bind_eq_some_iff.1 asked
    obtain ⟨y, max, rest⟩ := Option.bind_eq_some_iff.1 rest
    obtain ⟨a, first, eq⟩ := Option.bind_eq_some_iff.1 rest
    cases eq
    exact .clamp kind min max first
  case modulo =>
    obtain ⟨a, first, rest⟩ := Option.bind_eq_some_iff.1 asked
    obtain ⟨x, divisor, eq⟩ := Option.bind_eq_some_iff.1 rest
    cases eq
    exact .modulo kind first divisor
  case scale =>
    obtain ⟨a, first, rest⟩ := Option.bind_eq_some_iff.1 asked
    obtain ⟨x, factor, eq⟩ := Option.bind_eq_some_iff.1 rest
    cases eq
    exact .scale kind first factor
  case sin =>
    obtain ⟨a, first, rest⟩ := Option.bind_eq_some_iff.1 asked
    obtain ⟨x, frequency, eq⟩ := Option.bind_eq_some_iff.1 rest
    cases eq
    exact .sin kind first frequency
  case spectrumBin =>
    obtain ⟨bin, whole, eq⟩ := Option.bind_eq_some_iff.1 asked
    cases eq
    exact .spectrumBin kind whole
  case spectrumRange =>
    obtain ⟨⟨lo, hi⟩, bounds, eq⟩ := Option.bind_eq_some_iff.1 asked
    cases eq
    exact .spectrumRange kind bounds
  case spectrumInterpolate =>
    obtain ⟨⟨lo, hi⟩, bounds, eq⟩ := Option.bind_eq_some_iff.1 asked
    cases eq
    exact .spectrumInterpolate kind bounds
  case beat =>
    obtain ⟨x, bin, rest⟩ := Option.bind_eq_some_iff.1 asked
    cases auto : x.eq autoTempoBin
    · rw [auto] at rest
      obtain ⟨candidate, whole, eq⟩ := Option.bind_eq_some_iff.1 rest
      cases eq
      exact .fixedBeat kind bin auto whole
    · rw [auto] at rest
      cases rest
      exact .strongest kind bin auto
  case chromagram =>
    obtain ⟨pitch, whole, eq⟩ := Option.bind_eq_some_iff.1 asked
    cases eq
    exact .chromagram kind whole

lemma exists_param? {n : ResolvedNode} {name : String} (listed : name ∈ n.params.map (·.1)) :
    ∃ x, n.param? name = some x := by
  obtain ⟨entry, mem, rfl⟩ := List.mem_map.1 listed
  have found : (n.params.find? fun p => p.1 == entry.1).isSome :=
    List.find?_isSome.2 ⟨entry, mem, by simp⟩
  obtain ⟨other, eq⟩ := Option.isSome_iff_exists.1 found
  exact ⟨other.2, by simp [ResolvedNode.param?, eq]⟩

/-- A node that is no sink has a form when its parameters are those of the schema and its inputs, as
many as the kind takes, are operands. -/
lemma exists_form? {index : Nat} {n : ResolvedNode} {operand? : Nat → Option Expr}
    (value : n.kind.isSink = false) (params : n.params.map (·.1) = n.kind.params.map (·.name))
    (arity : n.kind.minInputs ≤ n.inputs.length)
    (operands : ∀ slot < n.inputs.length, ∃ e, operand? slot = some e) :
    ∃ form, form? index n operand? = some form := by
  have param : ∀ name ∈ n.kind.params.map (·.name), ∃ x, n.param? name = some x := fun name mem =>
    exists_param? (params ▸ mem)
  have operand : ∀ slot < n.kind.minInputs, ∃ e, operand? slot = some e := fun slot small =>
    operands slot (Nat.lt_of_lt_of_le small arity)
  unfold form?
  cases kind : n.kind with
  | gradient => exact ⟨_, rfl⟩
  | positionGradient => exact ⟨_, rfl⟩
  | audioLevel => exact ⟨_, rfl⟩
  | tempoConfidence => exact ⟨_, rfl⟩
  | paletteInterpolate => simp [kind, Kind.isSink, Kind.category] at value
  | output => simp [kind, Kind.isSink, Kind.category] at value
  | constant =>
    obtain ⟨x, eq⟩ := param "value" (by rw [kind]; decide)
    exact ⟨_, by simp only [eq]; rfl⟩
  | time =>
    obtain ⟨x, eq⟩ := param "speed" (by rw [kind]; decide)
    simp only [eq, Option.bind_eq_bind, Option.bind_some]
    split
    · exact ⟨_, rfl⟩
    · exact ⟨_, rfl⟩
  | add =>
    obtain ⟨a, first⟩ := operand 0 (by rw [kind]; decide)
    obtain ⟨b, second⟩ := operand 1 (by rw [kind]; decide)
    exact ⟨_, by simp only [first, second]; rfl⟩
  | multiply =>
    obtain ⟨a, first⟩ := operand 0 (by rw [kind]; decide)
    obtain ⟨b, second⟩ := operand 1 (by rw [kind]; decide)
    exact ⟨_, by simp only [first, second]; rfl⟩
  | clamp =>
    obtain ⟨min, least⟩ := param "min" (by rw [kind]; decide)
    obtain ⟨max, most⟩ := param "max" (by rw [kind]; decide)
    obtain ⟨a, first⟩ := operand 0 (by rw [kind]; decide)
    exact ⟨_, by simp only [least, most, first]; rfl⟩
  | modulo =>
    obtain ⟨x, eq⟩ := param "divisor" (by rw [kind]; decide)
    obtain ⟨a, first⟩ := operand 0 (by rw [kind]; decide)
    exact ⟨_, by simp only [eq, first]; rfl⟩
  | scale =>
    obtain ⟨x, eq⟩ := param "factor" (by rw [kind]; decide)
    obtain ⟨a, first⟩ := operand 0 (by rw [kind]; decide)
    exact ⟨_, by simp only [eq, first]; rfl⟩
  | sin =>
    obtain ⟨x, eq⟩ := param "frequency" (by rw [kind]; decide)
    obtain ⟨a, first⟩ := operand 0 (by rw [kind]; decide)
    exact ⟨_, by simp only [eq, first]; rfl⟩
  | spectrumBin =>
    obtain ⟨x, eq⟩ := param "bin" (by rw [kind]; decide)
    exact ⟨_, by simp only [wholeParam?, eq]; rfl⟩
  | spectrumRange =>
    obtain ⟨a, first⟩ := param "startBin" (by rw [kind]; decide)
    obtain ⟨b, last⟩ := param "endBin" (by rw [kind]; decide)
    exact ⟨_, by simp only [binBounds?, wholeParam?, first, last]; rfl⟩
  | spectrumInterpolate =>
    obtain ⟨a, first⟩ := param "startBin" (by rw [kind]; decide)
    obtain ⟨b, last⟩ := param "endBin" (by rw [kind]; decide)
    exact ⟨_, by simp only [binBounds?, wholeParam?, first, last]; rfl⟩
  | beat =>
    obtain ⟨x, eq⟩ := param "tempoBin" (by rw [kind]; decide)
    simp only [eq, Option.bind_eq_bind, Option.bind_some]
    split
    · exact ⟨_, rfl⟩
    · exact ⟨_, by simp only [wholeParam?, eq]; rfl⟩
  | chromagram =>
    obtain ⟨x, eq⟩ := param "pitch" (by rw [kind]; decide)
    exact ⟨_, by simp only [wholeParam?, eq]; rfl⟩

lemma form?_statements_iff {index : Nat} {n : ResolvedNode} {operand? : Nat → Option Expr}
    {form : Form} (asked : form? index n operand? = some form) :
    (∃ body, form = .statements body) ↔ n.NeedsStatements := by
  unfold ResolvedNode.NeedsStatements
  have formed := Formed.of_form? asked
  cases formed with
  | strongest kind bin auto => simp [kind, bin, auto]
  | fixedBeat kind bin fixed whole => simp [kind, bin, fixed]
  | _ => simp [*]

/-! ## Channels -/

/-- An expression, dimmed if the brightness is below one. -/
def dimmed (brightness : Binary64) (e : Expr) : Expr :=
  if brightness.lt 1 then .binary .mul e (literal brightness) else e

lemma writeChannel_eq (table : Name) (brightness : Binary64) (channel : Int) (m : Member) :
    writeChannel table brightness channel m =
      .assign (.member (.index (symbol .leds) (.name .i)) m) .set
        (.cast .byte (.paren (dimmed brightness (mixedChannel table channel)))) := rfl

end Program

end LedEffect
