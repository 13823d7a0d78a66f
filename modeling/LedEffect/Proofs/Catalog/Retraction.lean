import LedEffect.Proofs.Effect.Ranges

/-!
# Resolving a number once more

A schema with a finite range that is not empty refuses just the numbers that are not finite, broken
numbers where it asks for whole ones, and, if it rejects, numbers out of range (`resolve_eq_error`). What
it answers lies in the range, and is answered as it is when asked for again, with one exception: a number
beyond an end that is no whole number is moved to this end although the schema asks for whole numbers
(`resolve_retracts`). A schema with whole ends has no such numbers; `clamped_off_whole` is one that has.
-/

namespace LedEffect.ParamSpec

variable {p : ParamSpec} {x y : Binary64} {fault : ParamViolation}

/-- Why a schema refuses a number. -/
inductive Refuses (p : ParamSpec) (x : Binary64) : ParamViolation → Prop
  | notFinite (infinite : x.isFinite = false) : p.Refuses x (.notFinite x)
  | notInteger (finite : x.isFinite = true) (integer : p.integer = true)
    (broken : x.isIntegral = false) : p.Refuses x (.notInteger x)
  | outOfRange (finite : x.isFinite = true) (whole : p.integer = true → x.isIntegral = true)
    (policy : p.outOfRange = .reject) (outside : ¬ (p.min.le x = true ∧ x.le p.max = true)) :
    p.Refuses x (.outOfRange x p.min p.max)

/-- A number that a schema accepts is not refused. -/
lemma Accepts.not_refuses (accepts : p.Accepts x) : ¬ p.Refuses x fault := by
  intro refuses
  cases refuses with
  | notFinite infinite => cases infinite.symm.trans accepts.finite
  | notInteger finite integer broken => cases broken.symm.trans (accepts.whole integer)
  | outOfRange finite whole policy outside =>
    rcases accepts.inRange with clamp | inside
    · cases policy.symm.trans clamp
    · exact outside inside

lemma refuses_of_resolve (range : p.min.le p.max = true) (refused : p.resolve x = .error fault) :
    p.Refuses x fault := by
  unfold resolve at refused
  split at refused
  next infinite =>
    cases refused
    exact .notFinite (by simpa using infinite)
  next finite =>
    have finite : x.isFinite = true := by simpa using finite
    split at refused
    next broken =>
      cases refused
      obtain ⟨integer, broken⟩ := Bool.and_eq_true_iff.1 broken
      exact .notInteger finite integer (by simpa using broken)
    next whole =>
      split at refused
      · cases refused
      next outside =>
        rw [Bool.and_eq_true] at outside
        cases policy : p.outOfRange with
        | reject =>
          rw [policy] at refused
          cases refused
          exact .outOfRange finite (fun integer => by simpa [integer] using whole) policy outside
        | clamp =>
          -- There is always an end to move to.
          rw [policy, Binary64.clamp?, if_pos range] at refused
          cases refused

lemma resolve_eq_error (range : p.min.le p.max = true) :
    p.resolve x = .error fault ↔ p.Refuses x fault := by
  refine ⟨refuses_of_resolve range, fun refuses => ?_⟩
  cases answer : p.resolve x with
  | ok y =>
    have accepts := (exists_resolve_iff range).1 ⟨y, answer⟩
    exact absurd refuses accepts.not_refuses
  | error other =>
    have refuses' := refuses_of_resolve range answer
    cases refuses <;> cases refuses' <;> simp_all

/-- Whether a number is beyond an end of the range that is no whole number, where a schema asks for whole
numbers and moves those out of range to the nearer end. -/
def Strands (p : ParamSpec) (x : Binary64) : Prop :=
  p.integer = true ∧ p.outOfRange = .clamp ∧
    (x.lt p.min = true ∧ p.min.isIntegral = false ∨ p.max.lt x = true ∧ p.max.isIntegral = false)

/-- A number below a range that is not empty is not above it. -/
lemma not_above_of_below (hmin : p.min.isFinite = true) (hmax : p.max.isFinite = true)
    (range : p.min.le p.max = true) (hx : x.isFinite = true) (less : x.lt p.min = true) :
    p.max.lt x = false := by
  rw [Binary64.lt_eq_false_iff hmax hx, Binary64.le_iff hx hmax]
  have order := (Binary64.le_iff hmin hmax).1 range
  have below : ¬ p.min.units ≤ x.units := by
    rw [← Binary64.le_iff hmin hx, ← Binary64.lt_eq_false_iff hx hmin, less]
    exact Bool.true_eq_false_eq_False
  omega

namespace Moves

/-- Where a number is put is finite and in the range. -/
lemma inRange (hmin : p.min.isFinite = true) (hmax : p.max.isFinite = true)
    (range : p.min.le p.max = true) (hx : x.isFinite = true) (moves : p.Moves x y) :
    y.isFinite = true ∧ p.min.le y = true ∧ y.le p.max = true := by
  cases moves with
  | inside least most => exact ⟨hx, least, most⟩
  | below policy less => exact ⟨hmin, Binary64.le_refl hmin, range⟩
  | above policy greater => exact ⟨hmax, range, Binary64.le_refl hmax⟩

/-- A whole number is put at a whole number unless it is stranded. -/
lemma whole (moves : p.Moves x y) (whole : p.integer = true → x.isIntegral = true)
    (free : ¬ p.Strands x) (integer : p.integer = true) : y.isIntegral = true := by
  cases moves with
  | inside least most => exact whole integer
  | below policy less =>
    by_contra broken
    exact free ⟨integer, policy, .inl ⟨less, Bool.eq_false_iff.2 broken⟩⟩
  | above policy greater =>
    by_contra broken
    exact free ⟨integer, policy, .inr ⟨greater, Bool.eq_false_iff.2 broken⟩⟩

/-- A stranded number is put at a broken one. -/
lemma broken (hmin : p.min.isFinite = true) (hmax : p.max.isFinite = true)
    (range : p.min.le p.max = true) (hx : x.isFinite = true) (moves : p.Moves x y)
    (stranded : p.Strands x) : y.isIntegral = false := by
  obtain ⟨-, -, beyond⟩ := stranded
  cases moves with
  | inside least most =>
    have notBelow := (Binary64.lt_eq_false_iff hx hmin).2 least
    have notAbove := (Binary64.lt_eq_false_iff hmax hx).2 most
    simp [notBelow, notAbove] at beyond
  | below policy less =>
    have notAbove := not_above_of_below hmin hmax range hx less
    simpa [less, notAbove] using beyond
  | above policy greater =>
    have notBelow : x.lt p.min = false := by
      by_contra less
      rw [Bool.not_eq_false] at less
      cases greater.symm.trans (not_above_of_below hmin hmax range hx less)
    simpa [greater, notBelow] using beyond

end Moves

/-- Whatever number a schema with a finite range that is not empty is asked for: what it answers is finite
and in the range, and whole where the schema asks for it and answered again as it is, unless the number is
moved to an end that is broken, which is then refused; a number that is legal is answered as it is; and
those refused are the ones that have a reason. -/
theorem resolve_retracts (hmin : p.min.isFinite = true) (hmax : p.max.isFinite = true)
    (range : p.min.le p.max = true) (x : Binary64) :
    (∀ y, p.resolve x = .ok y → y.isFinite = true ∧ p.min.le y = true ∧ y.le p.max = true ∧
      (¬ p.Strands x → (p.integer = true → y.isIntegral = true) ∧ p.resolve y = .ok y) ∧
      (p.Strands x → y.isIntegral = false ∧ p.resolve y = .error (.notInteger y))) ∧
    (p.Holds x → p.resolve x = .ok x) ∧
    ∀ fault, p.resolve x = .error fault ↔ p.Refuses x fault := by
  refine ⟨fun y answer => ?_, Holds.resolve, fun fault => resolve_eq_error range⟩
  obtain ⟨hx, asked, moves⟩ := moves_of_resolve hmin hmax answer
  obtain ⟨finite, least, most⟩ := moves.inRange hmin hmax range hx
  refine ⟨finite, least, most, fun free => ?_, fun stranded => ?_⟩
  · have whole := moves.whole asked free
    exact ⟨whole, Holds.resolve ⟨finite, whole, least, most⟩⟩
  · have broken := moves.broken hmin hmax range hx stranded
    exact ⟨broken, (resolve_eq_error range).2 (.notInteger finite stranded.1 broken)⟩

/-- A whole number from -2 to 3, into which others are moved. -/
def bounded : ParamSpec := (ParamSpec.int "steps" (-2) 3 1).clamped

/-- A number below the range is moved to its lower end, which is whole and stays. -/
theorem resolve_retracts_bounded : bounded.min.isFinite = true ∧ bounded.max.isFinite = true ∧
    bounded.min.le bounded.max = true ∧ bounded.resolve (-8) = .ok (-2) ∧ ¬ bounded.Strands (-8) ∧
    (-2 : Binary64).isIntegral = true ∧ bounded.resolve (-2) = .ok (-2) := by
  have ends : bounded.min.isFinite = true ∧ bounded.max.isFinite = true ∧
      bounded.min.le bounded.max = true := by decide +kernel
  have answer : bounded.resolve (-8) = .ok (-2) := by decide +kernel
  have free : ¬ bounded.Strands (-8) := by
    unfold Strands
    decide +kernel
  obtain ⟨hmin, hmax, range⟩ := ends
  obtain ⟨-, -, -, retract, -⟩ := (resolve_retracts hmin hmax range (-8)).1 (-2) answer
  exact ⟨hmin, hmax, range, answer, free, (retract free).1 rfl, (retract free).2⟩

/-- A whole number from 0.5 to 1.5, into which others are moved. -/
def halves : ParamSpec := (ParamSpec.int "share" 0.5 1.5 1).clamped

/-- A schema that asks for whole numbers may answer one that is broken, although there is a whole number in
its range, and refuses this number itself. -/
theorem clamped_off_whole : halves.integer = true ∧ halves.min.isFinite = true ∧
    halves.max.isFinite = true ∧ halves.min.le halves.max = true ∧ halves.Holds 1 ∧
    halves.resolve 0 = .ok 0.5 ∧ (0.5 : Binary64).isIntegral = false ∧
    halves.resolve 0.5 = .error (.notInteger 0.5) := by
  have legal : halves.Holds 1 := by
    constructor <;> decide +kernel
  refine ⟨rfl, ?_, ?_, ?_, legal, ?_, ?_, ?_⟩ <;> decide +kernel

end LedEffect.ParamSpec
