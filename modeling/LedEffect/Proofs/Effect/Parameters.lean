import LedEffect.Proofs.Effect.Valid
import LedEffect.Proofs.Keyed
import LedEffect.Proofs.Traversal

/-!
# Resolving parameters

A schema resolves exactly the numbers it accepts, and the parameters of a node resolve exactly when
they are valid (`exists_resolveParams_iff`). That defaults need no check of their own is a fact about
the catalog (`Kind.params_sound`).
-/

namespace LedEffect

/-! ## Comparisons -/

/-- Of two finite numbers one is at most the other. -/
lemma Binary64.lt_eq_false_iff {x y : Binary64} (hx : x.isFinite = true) (hy : y.isFinite = true) :
    x.lt y = false ↔ y.le x = true := by
  cases x with
  | finite s a =>
    cases y with
    | finite t b =>
      have cases : (signedUnits s a < signedUnits t b) = false ↔
          signedUnits t b < signedUnits s a ∨ signedUnits t b = signedUnits s a := by
        simp only [Bool.false_eq_true, eq_iff_iff, iff_false, Int.not_lt]
        omega
      simpa [lt, le, compare?, Int.compare_eq_lt, Int.compare_eq_eq] using cases
    | _ => cases hy
  | _ => cases hx

/-! ## Schemas -/

namespace ParamSpec

variable {p : ParamSpec} {x y : Binary64}

/-- What a schema answers to a number that it takes: a number in its range as it is, any other one moved
into the range. -/
lemma resolve_eq_ok : p.resolve x = .ok y ↔
    x.isFinite = true ∧ (p.integer = true → x.isIntegral = true) ∧
      ((p.min.le x = true ∧ x.le p.max = true) ∧ y = x ∨
        ¬ (p.min.le x = true ∧ x.le p.max = true) ∧ p.outOfRange = .clamp ∧
          Binary64.clamp? p.min p.max x = some y) := by
  unfold resolve
  split
  next infinite =>
    refine iff_of_false nofun fun accepted => ?_
    simp [accepted.1] at infinite
  next finite =>
    rw [and_iff_right (by simpa using finite)]
    split
    next broken =>
      refine iff_of_false nofun fun accepted => ?_
      obtain ⟨integer, fraction⟩ := Bool.and_eq_true_iff.1 broken
      simp [accepted.1 integer] at fraction
    next whole =>
      rw [and_iff_right (fun integer => by simpa [integer] using whole)]
      split
      next inside =>
        have inside := Bool.and_eq_true_iff.1 inside
        simp [inside, eq_comm]
      next outside =>
        rw [Bool.and_eq_true] at outside
        rw [or_iff_right fun inside => outside inside.1, and_iff_right outside]
        cases p.outOfRange with
        | reject => simp
        | clamp => cases Binary64.clamp? p.min p.max x <;> simp

/-- A schema with a range that is not empty resolves exactly the numbers it accepts. -/
lemma exists_resolve_iff (range : p.min.le p.max = true) :
    (∃ y, p.resolve x = .ok y) ↔ p.Accepts x := by
  simp only [resolve_eq_ok]
  constructor
  · rintro ⟨y, finite, whole, ⟨inside, -⟩ | ⟨-, policy, -⟩⟩
    · exact ⟨finite, whole, .inr inside⟩
    · exact ⟨finite, whole, .inl policy⟩
  · rintro ⟨finite, whole, inRange⟩
    by_cases inside : p.min.le x = true ∧ x.le p.max = true
    · exact ⟨x, finite, whole, .inl ⟨inside, rfl⟩⟩
    · have policy := inRange.resolve_right inside
      exact ⟨_, finite, whole, .inr ⟨inside, policy, if_pos range⟩⟩

lemma resolve_eq_self (policy : p.outOfRange = .reject) (eq : p.resolve x = .ok y) :
    y = x ∧ x.isFinite = true := by
  obtain ⟨finite, -, ⟨-, same⟩ | ⟨-, clamped, -⟩⟩ := resolve_eq_ok.1 eq
  · exact ⟨same, finite⟩
  · cases policy.symm.trans clamped

end ParamSpec

lemma Kind.mem_all (k : Kind) : k ∈ Kind.all := by cases k <;> decide

/-- Every schema of the catalog has a range that is not empty, and accepts its own default. -/
lemma Kind.params_sound (k : Kind) : ∀ p ∈ k.params, p.min.le p.max = true ∧
    ∀ x ∈ p.default, x.isFinite = true ∧ (p.integer = true → x.isIntegral = true) ∧
      p.min.le x = true ∧ x.le p.max = true := by
  have sound : ∀ k ∈ Kind.all, ∀ p ∈ k.params, p.min.le p.max = true ∧
      ∀ x ∈ p.default, x.isFinite = true ∧ (p.integer = true → x.isIntegral = true) ∧
        p.min.le x = true ∧ x.le p.max = true := by
    decide +kernel
  exact sound k k.mem_all

lemma Kind.accepts_default {k : Kind} {p : ParamSpec} {x : Binary64} (mem : p ∈ k.params)
    (default : p.default = some x) : p.Accepts x := by
  obtain ⟨finite, whole, range⟩ := (k.params_sound p mem).2 x default
  exact ⟨finite, whole, .inr range⟩

/-! ## Nodes -/

namespace Effect

variable {n : NodeSpec} {k : Kind} {p : ParamSpec}

/-- A parameter is resolved in two steps: its number is found, and its schema is asked. -/
lemma resolveParam_eq (n : NodeSpec) (k : Kind) (p : ParamSpec) : resolveParam n k p =
    (match n.parameters.get? p.name, p.default with
      | some value, _ =>
        match value.toNumber? with
        | some x => pure x
        | none => .error (.invalidParameter n.id k p.name (.notNumeric value))
      | none, some default => pure default
      | none, none => .error (.invalidParameter n.id k p.name .missing)) >>= fun raw =>
    match p.resolve raw with
    | .ok x => pure (p.name, x)
    | .error (.notFinite x) => .error (.invalidParameter n.id k p.name (.notFinite x))
    | .error (.notInteger x) => .error (.invalidParameter n.id k p.name (.notInteger x))
    | .error (.outOfRange x min max) => .error (.parameterRange n.id k p.name x min max)
    | .error .emptyRange => .error .outOfBounds := by
  unfold resolveParam
  cases n.parameters.get? p.name with
  | some value =>
    dsimp only
    cases value.toNumber? <;> rfl
  | none => cases p.default <;> rfl

lemma resolveParam_eq_ok {entry : String × Binary64} :
    resolveParam n k p = .ok entry ↔
      entry.1 = p.name ∧ ∃ x, n.number? p = some x ∧ p.resolve x = .ok entry.2 := by
  obtain ⟨name, y⟩ := entry
  -- Where there is a number, all that is left is the answer of the schema.
  have answer : ∀ x, p.resolve x = .ok y ∧ p.name = name ↔
      name = p.name ∧ ∃ x', some x = some x' ∧ p.resolve x' = .ok y := by
    intro x
    simp [and_comm, eq_comm]
  unfold resolveParam NodeSpec.number?
  cases authored : n.parameters.get? p.name with
  | some value =>
    cases number : value.toNumber? with
    | none => simp [number, bind, Except.bind]
    | some x =>
      simp only [number, ← answer, bind, Except.bind, pure, Except.pure]
      cases held : p.resolve x with
      | ok y' => simp [and_comm]
      | error violation => cases violation <;> simp
  | none =>
    cases default : p.default with
    | none => simp [bind, Except.bind]
    | some x =>
      simp only [← answer, bind, Except.bind, pure, Except.pure]
      cases held : p.resolve x with
      | ok y' => simp [and_comm]
      | error violation => cases violation <;> simp

/-- A parameter resolves when it has a number that its schema accepts. -/
lemma exists_resolveParam_iff (mem : p ∈ k.params) :
    (∃ entry, resolveParam n k p = .ok entry) ↔ ∃ x, n.number? p = some x ∧ p.Accepts x := by
  simp only [resolveParam_eq_ok, ← ParamSpec.exists_resolve_iff (k.params_sound p mem).1]
  constructor
  · rintro ⟨entry, -, x, number, held⟩
    exact ⟨x, number, entry.2, held⟩
  · rintro ⟨x, number, y, held⟩
    exact ⟨(p.name, y), rfl, x, number, held⟩

/-- The parameters of a node resolve one by one; the bounds of a clamp are compared at the end. -/
lemma resolveParams_eq_ok {params : List (String × Binary64)} :
    resolveParams n k = .ok params ↔
      (∀ name ∈ n.parameters.keys, ∃ p ∈ k.params, p.name = name) ∧
        List.Forall₂ (fun p entry => resolveParam n k p = .ok entry) k.params params ∧
        ∀ min max, k = .clamp → params = [min, max] → max.2.lt min.2 = false := by
  have undeclared : (n.parameters.keys.find? fun name => (k.param? name).isNone) = none ↔
      ∀ name ∈ n.parameters.keys, ∃ p ∈ k.params, p.name = name := by
    simp [Kind.param?, List.find?_eq_none]
  unfold resolveParams
  rw [← undeclared, ← mapM_eq_ok]
  split
  next name found => simp [found]
  next found =>
    rw [found, bind_eq_ok]
    constructor
    · rintro ⟨ps, each, eq⟩
      split at eq
      next first min second max =>
        split at eq
        · cases eq
        next inOrder =>
          obtain rfl := pure_eq_ok.1 eq
          refine ⟨rfl, each, ?_⟩
          rintro - - - ⟨rfl, rfl⟩
          simpa using inOrder
      next other =>
        obtain rfl := pure_eq_ok.1 eq
        exact ⟨rfl, each, fun min max clamp eq => (other _ _ _ _ clamp eq).elim⟩
    · rintro ⟨-, each, inOrder⟩
      refine ⟨params, each, ?_⟩
      split
      next first min second max =>
        rw [if_neg (by simpa using inOrder (first, min) (second, max) rfl rfl)]
        rfl
      next => rfl

/-- Every parameter of a node has a number that its schema accepts when the required ones are there
and the authored ones are legal. -/
lemma forall_number?_iff :
    (∀ p ∈ k.params, ∃ x, n.number? p = some x ∧ p.Accepts x) ↔
      (∀ p ∈ k.params, p.isRequired = true → p.name ∈ n.parameters.keys) ∧
        ∀ p ∈ k.params, ∀ value, n.parameters.get? p.name = some value →
          ∃ x, value.toNumber? = some x ∧ p.Accepts x := by
  rw [← forall₂_and]
  refine forall₂_congr fun p mem => ?_
  unfold NodeSpec.number?
  cases authored : n.parameters.get? p.name with
  | some value =>
    have listed : p.name ∈ n.parameters.keys := Keyed.mem_keys_iff.2 ⟨value, authored⟩
    simp [listed]
  | none =>
    have missing : p.name ∉ n.parameters.keys := by
      rw [Keyed.mem_keys_iff]
      simp [authored]
    cases default : p.default with
    | none => simp [missing, ParamSpec.isRequired, default]
    | some x => simp [ParamSpec.isRequired, default, Kind.accepts_default mem default]

/-- The resolved bounds of a clamp are in order exactly when its numbers are. -/
lemma bounds_inOrder_iff {params : List (String × Binary64)}
    (each : List.Forall₂ (fun p entry => resolveParam n .clamp p = .ok entry) Kind.clamp.params
      params) :
    (∀ min max, params = [min, max] → max.2.lt min.2 = false) ↔
      ∀ p ∈ Kind.clamp.params, ∀ q ∈ Kind.clamp.params, p.name = "min" → q.name = "max" →
        ∀ min max, n.number? p = some min → n.number? q = some max → min.le max = true := by
  obtain ⟨lower, others, first, rest, rfl⟩ := List.forall₂_cons_left_iff.1 each
  obtain ⟨upper, none, second, last, rfl⟩ := List.forall₂_cons_left_iff.1 rest
  obtain rfl := List.forall₂_nil_left_iff.1 last
  obtain ⟨-, x, number, held⟩ := resolveParam_eq_ok.1 first
  obtain ⟨-, y, number', held'⟩ := resolveParam_eq_ok.1 second
  obtain ⟨same, finite⟩ := ParamSpec.resolve_eq_self rfl held
  obtain ⟨same', finite'⟩ := ParamSpec.resolve_eq_self rfl held'
  rw [← same] at number finite
  rw [← same'] at number' finite'
  have inOrder := Binary64.lt_eq_false_iff finite' finite
  have distinct : "max" ≠ "min" := by decide
  constructor
  · intro h p memP q memQ nameP nameQ min max eq eq'
    have le := inOrder.1 (h lower upper rfl)
    rcases List.mem_pair.1 memP with rfl | rfl
    · rcases List.mem_pair.1 memQ with rfl | rfl
      · exact absurd nameQ.symm distinct
      · rw [number] at eq
        rw [number'] at eq'
        cases eq
        cases eq'
        exact le
    · exact absurd nameP distinct
  · rintro h min max ⟨rfl, rfl⟩
    exact inOrder.2 (h _ (.head _) _ (.tail _ (.head _)) rfl rfl _ _ number number')

/-- The parameters of a node resolve exactly when they are valid. -/
theorem exists_resolveParams_iff :
    (∃ params, resolveParams n k = .ok params) ↔ n.ParametersValid k := by
  constructor
  · rintro ⟨params, run⟩
    obtain ⟨declared, each, inOrder⟩ := resolveParams_eq_ok.1 run
    have numbers : ∀ p ∈ k.params, ∃ x, n.number? p = some x ∧ p.Accepts x := by
      intro p mem
      obtain ⟨entry, -, resolved⟩ := Forall₂.exists_mem_right each mem
      exact (exists_resolveParam_iff mem).1 ⟨entry, resolved⟩
    obtain ⟨required, legal⟩ := forall_number?_iff.1 numbers
    refine ⟨declared, required, legal, ?_⟩
    rintro rfl
    exact (bounds_inOrder_iff each).1 fun min max => inOrder min max rfl
  · rintro ⟨declared, required, legal, ordered⟩
    have numbers := forall_number?_iff.2 ⟨required, legal⟩
    obtain ⟨params, each⟩ := exists_forall₂ fun p mem =>
      (exists_resolveParam_iff mem).2 (numbers p mem)
    refine ⟨params, resolveParams_eq_ok.2 ⟨declared, each, ?_⟩⟩
    rintro min max rfl eq
    exact (bounds_inOrder_iff each).2 (ordered rfl) min max eq

end Effect

end LedEffect
