import LedEffect.Proofs.Effect.WellFormed
import LedEffect.Proofs.Number.Rounding
import LedEffect.Program.Lowering

/-!
# Ranges of resolved parameters

Every resolved parameter lies in the range of its schema, whether its number was in it or was moved
into it (`Effect.resolve_inRange`). The whole part of a number grows with the number, so a parameter
that is used as an index lies between the whole parts of its bounds.
-/

namespace LedEffect

namespace Binary64

/-! ## Units -/

/-- The units of a number, signed; what is not finite has none. -/
def units : Binary64 → Int
  | finite s m => signedUnits s m
  | _ => 0

/-- A short whole number is finite. -/
lemma isFinite_ofNat {n : Nat} (short : n < 2 ^ 53) : (ofNat n).isFinite = true := by
  obtain ⟨m, eq, -⟩ := exists_ofNat_of_short short
  rw [eq]
  rfl

lemma units_ofNat {n : Nat} (short : n < 2 ^ 53) : (ofNat n).units = n * Magnitude.unitsPerOne := by
  obtain ⟨m, eq, exact⟩ := exists_ofNat_of_short short
  rw [eq, units, signedUnits, if_neg Bool.false_ne_true, exact, Int.natCast_mul]

/-- A literal without places behind the point is a whole number. -/
lemma ofScientific_whole (m e : Nat) :
    (OfScientific.ofScientific m false e : Binary64) = ofNat (m * 10 ^ e) := if_neg Bool.false_ne_true

lemma ofScientific_decimal (m e : Nat) :
    (OfScientific.ofScientific m true e : Binary64) = ofRatio false m (10 ^ e) := if_pos rfl

open Magnitude in
/-- One half is a double. -/
lemma units_half : (0.5 : Binary64).units * 2 = unitsPerOne := by
  have near : nearest? (5 * unitsPerOne) (10 ^ 1) = nearest? (2 ^ 1073) 1 := by
    refine nearest?_congr (by decide) Nat.one_pos ?_
    rw [unitsPerOne, Nat.pow_succ 2 1073]
    omega
  have below : rounded (2 ^ 1073) < limit := by
    rw [rounded_two_pow]
    exact Nat.pow_lt_pow_right (by decide) (by decide)
  have literal : (0.5 : Binary64) = ofRatio false 5 (10 ^ 1) := ofScientific_decimal 5 1
  rcases nearest?_eq (2 ^ 1073) with ⟨-, past⟩ | ⟨m, some, exact, -⟩
  · exact absurd past (Nat.not_le.2 below)
  · rw [literal, ofRatio, near, some, ofMagnitude?, Binary64.units, signedUnits,
      if_neg Bool.false_ne_true, exact, rounded_two_pow, unitsPerOne, Nat.pow_succ 2 1073,
      Int.natCast_mul, Nat.cast_ofNat]

lemma isFinite_neg (x : Binary64) : (-x).isFinite = x.isFinite := by cases x <;> rfl

lemma units_neg (x : Binary64) : (-x).units = -x.units := by
  cases x with
  | finite s m =>
    cases s with
    | false => rfl
    | true => exact (Int.neg_neg _).symm
  | _ => rfl

/-! ## Comparisons -/

lemma le_iff {x y : Binary64} (hx : x.isFinite = true) (hy : y.isFinite = true) :
    x.le y = true ↔ x.units ≤ y.units := by
  cases x with
  | finite s a =>
    cases y with
    | finite t b =>
      have cases : signedUnits s a < signedUnits t b ∨ signedUnits s a = signedUnits t b ↔
          signedUnits s a ≤ signedUnits t b := by omega
      simpa [le, compare?, units, Int.compare_eq_lt, Int.compare_eq_eq] using cases
    | _ => cases hy
  | _ => cases hx

lemma eq_iff {x y : Binary64} (hx : x.isFinite = true) (hy : y.isFinite = true) :
    x.eq y = true ↔ x.units = y.units := by
  cases x with
  | finite s a =>
    cases y with
    | finite t b => simp [eq, compare?, units]
    | _ => cases hy
  | _ => cases hx

lemma le_refl {x : Binary64} (hx : x.isFinite = true) : x.le x = true :=
  (le_iff hx hx).2 (Int.le_refl _)

/-- A whole number is a multiple of one. -/
lemma dvd_units {x : Binary64} (whole : x.isIntegral = true) :
    (Magnitude.unitsPerOne : Int) ∣ x.units := by
  cases x with
  | finite s m =>
    have divides : (Magnitude.unitsPerOne : Int) ∣ m.units :=
      Int.natCast_dvd_natCast.2 (Nat.dvd_of_mod_eq_zero (beq_iff_eq.1 whole))
    cases s with
    | false => exact divides
    | true => exact Int.dvd_neg.2 divides
  | _ => cases whole

/-- The whole part of a finite number is the quotient of its units, rounded toward zero. -/
lemma truncate_eq {lo hi : Int} {x : Binary64} (finite : x.isFinite = true) :
    x.truncate lo hi = max lo (Min.min hi (x.units.tdiv Magnitude.unitsPerOne)) := by
  cases x with
  | finite s m =>
    have whole : ((m.units / Magnitude.unitsPerOne : Nat) : Int) =
        (m.units : Int).tdiv Magnitude.unitsPerOne := (Int.ofNat_tdiv _ _).symm
    cases s with
    | false => rw [truncate, units, signedUnits, if_neg Bool.false_ne_true, if_neg Bool.false_ne_true,
        whole]
    | true => rw [truncate, units, signedUnits, if_pos rfl, if_pos rfl, whole, Int.neg_tdiv]
  | _ => cases finite

/-- The whole part of a greater number is at least that of a lesser one. -/
lemma truncate_mono {lo hi : Int} {x y : Binary64} (hx : x.isFinite = true)
    (hy : y.isFinite = true) (le : x.le y = true) : x.truncate lo hi ≤ y.truncate lo hi := by
  have positive : (0 : Int) < Magnitude.unitsPerOne := Int.natCast_pos.2 Magnitude.unitsPerOne_pos
  have quotients := Int.tdiv_le_tdiv positive ((le_iff hx hy).1 le)
  rw [truncate_eq hx, truncate_eq hy]
  omega

end Binary64

/-! ## Schemas -/

/-- Whether a number is one that a schema lets through. -/
structure ParamSpec.Holds (p : ParamSpec) (x : Binary64) : Prop where
  finite : x.isFinite = true
  whole : p.integer = true → x.isIntegral = true
  least : p.min.le x = true
  most : x.le p.max = true

/-- Where a schema puts a number that it takes: one in the range stays, any other one is moved to the end
of the range that it is beyond. -/
inductive ParamSpec.Moves (p : ParamSpec) (x : Binary64) : Binary64 → Prop
  | inside (least : p.min.le x = true) (most : x.le p.max = true) : p.Moves x x
  | below (policy : p.outOfRange = .clamp) (less : x.lt p.min = true) : p.Moves x p.min
  | above (policy : p.outOfRange = .clamp) (greater : p.max.lt x = true) : p.Moves x p.max

/-- A schema with a finite range resolves a number to where it puts it. -/
lemma ParamSpec.moves_of_resolve {p : ParamSpec} {x y : Binary64} (hmin : p.min.isFinite = true)
    (hmax : p.max.isFinite = true) (resolved : p.resolve x = .ok y) :
    x.isFinite = true ∧ (p.integer = true → x.isIntegral = true) ∧ p.Moves x y := by
  obtain ⟨finite, whole, ⟨⟨least, most⟩, rfl⟩ | ⟨outside, policy, held⟩⟩ := resolve_eq_ok.1 resolved
  · exact ⟨finite, whole, .inside least most⟩
  · refine ⟨finite, whole, ?_⟩
    unfold Binary64.clamp? at held
    split at held
    · obtain rfl := Option.some_inj.1 held
      split_ifs with below above
      · exact .below policy below
      · exact .above policy above
      · rw [Bool.not_eq_true] at below above
        exact absurd ⟨(Binary64.lt_eq_false_iff finite hmin).1 below,
          (Binary64.lt_eq_false_iff hmax finite).1 above⟩ outside
    · cases held

/-- The ends of the range of a schema of the catalog are in the range themselves. -/
lemma Kind.bounds_hold (k : Kind) : ∀ p ∈ k.params,
    p.min.isFinite = true ∧ p.max.isFinite = true ∧
      (p.integer = true → p.min.isIntegral = true ∧ p.max.isIntegral = true) := by
  have hold : ∀ k ∈ Kind.all, ∀ p ∈ k.params, p.min.isFinite = true ∧ p.max.isFinite = true ∧
      (p.integer = true → p.min.isIntegral = true ∧ p.max.isIntegral = true) := by
    decide +kernel
  exact hold k k.mem_all

/-- What a schema of the catalog resolves to lies in its range. -/
lemma ParamSpec.holds_of_resolve {k : Kind} {p : ParamSpec} {x y : Binary64} (mem : p ∈ k.params)
    (resolved : p.resolve x = .ok y) : p.Holds y := by
  obtain ⟨hmin, hmax, bounds⟩ := k.bounds_hold p mem
  have range := (k.params_sound p mem).1
  obtain ⟨finite, whole, moves⟩ := moves_of_resolve hmin hmax resolved
  cases moves with
  | inside least most => exact ⟨finite, whole, least, most⟩
  | below policy less =>
    exact ⟨hmin, fun integer => (bounds integer).1, Binary64.le_refl hmin, range⟩
  | above policy greater =>
    exact ⟨hmax, fun integer => (bounds integer).2, range, Binary64.le_refl hmax⟩

/-- A number that a schema lets through stays as it is. -/
lemma ParamSpec.Holds.resolve {p : ParamSpec} {x : Binary64} (holds : p.Holds x) :
    p.resolve x = .ok x := by
  unfold ParamSpec.resolve
  rw [if_neg (by simp [holds.finite]), if_neg (by
    cases integer : p.integer
    · simp
    · simp [holds.whole integer]), if_pos (Bool.and_eq_true_iff.2 ⟨holds.least, holds.most⟩)]

/-! ## Nodes -/

/-- No two parameters of a kind have one name. -/
lemma Kind.nodup_names (k : Kind) : (k.params.map (·.name)).Nodup := by
  cases k <;> decide

/-- Whether every parameter of a node has a value, which its schema lets through. -/
def ResolvedNode.InRange (n : ResolvedNode) : Prop :=
  ∀ p ∈ n.kind.params, ∃ x, n.param? p.name = some x ∧ p.Holds x

/-- A list of entries under different names answers with the entry of a name. -/
lemma find?_entry {entries : List (String × Binary64)} (distinct : (entries.map (·.1)).Nodup)
    {entry : String × Binary64} (mem : entry ∈ entries) :
    entries.find? (fun e => e.1 == entry.1) = some entry := by
  cases found : entries.find? fun e => e.1 == entry.1 with
  | none => simpa using List.find?_eq_none.1 found entry mem
  | some other =>
    have same : other.1 = entry.1 := by simpa using List.find?_some found
    rw [List.inj_on_of_nodup_map distinct (List.mem_of_find?_eq_some found) mem same]

/-- The nodes of a resolved effect have their parameters in range. -/
theorem Effect.resolve_inRange {e : Effect} {r : ResolvedEffect} (run : e.resolve = .ok r) (u : Nat)
    (n : ResolvedNode) (place : r.nodes[u]? = some n) : n.InRange := by
  obtain ⟨checks, -⟩ := resolve_eq_ok.1 run
  have names := (resolve_wellFormed run).params u n place
  obtain ⟨_, -, checked⟩ := Forall₂.exists_mem_left checks.nodes
    (List.mem_of_getElem? (by rwa [Array.getElem?_toList] : r.nodes.toList[u]? = some n))
  obtain ⟨-, each, -⟩ := resolveParams_eq_ok.1 checked.params
  intro p mem
  obtain ⟨entry, listed, resolved⟩ := Forall₂.exists_mem_right each mem
  obtain ⟨name, x, -, held⟩ := resolveParam_eq_ok.1 resolved
  refine ⟨entry.2, ?_, ParamSpec.holds_of_resolve mem held⟩
  rw [ResolvedNode.param?, ← name, find?_entry (names ▸ n.kind.nodup_names) listed]
  rfl

/-! ## Parameters -/

/-- Whether the range of a parameter of a kind ends at two numbers, which are cut to whole ones. -/
def Kind.Spans (k : Kind) (name : String) (lo hi : Int) : Prop :=
  ∃ p ∈ k.params, p.name = name ∧ p.min.truncate (-(2 ^ 63)) (2 ^ 63 - 1) = lo ∧
    p.max.truncate (-(2 ^ 63)) (2 ^ 63 - 1) = hi

instance {k : Kind} {name : String} {lo hi : Int} : Decidable (k.Spans name lo hi) :=
  inferInstanceAs (Decidable (∃ p ∈ k.params, _))

/-- The ranges of the parameters that emitted code counts with. -/
lemma Kind.spans_whole : Kind.spectrumBin.Spans "bin" 0 63 ∧ Kind.chromagram.Spans "pitch" 0 11 ∧
    Kind.beat.Spans "tempoBin" (-1) 95 ∧
    ∀ k ∈ [Kind.spectrumRange, .spectrumInterpolate],
      k.Spans "startBin" 0 63 ∧ k.Spans "endBin" 0 63 := by
  decide +kernel

namespace ResolvedNode

open Program

variable {n : ResolvedNode}

/-- What a node has under the name of a parameter is let through by its schema. -/
lemma InRange.holds (range : n.InRange) {p : ParamSpec} (mem : p ∈ n.kind.params) {x : Binary64}
    (value : n.param? p.name = some x) : p.Holds x := by
  obtain ⟨y, value', holds⟩ := range p mem
  obtain rfl := Option.some_inj.1 (value.symm.trans value')
  exact holds

/-- A divisor is above zero. -/
lemma InRange.divisor_pos (range : n.InRange) (kind : n.kind = .modulo) {x : Binary64}
    (value : n.param? "divisor" = some x) : x.isFinite = true ∧ 0 < x.units := by
  have holds := range.holds (p := .float "divisor" 0.0001 1000 1) (by rw [kind]; exact .head _) value
  have least : (0.0001 : Binary64).isFinite = true ∧ 0 < (0.0001 : Binary64).units := by
    decide +kernel
  have le := (Binary64.le_iff least.1 holds.finite).1 holds.least
  exact ⟨holds.finite, by omega⟩

/-- The whole part of a parameter lies between those of the ends of its range. -/
lemma InRange.whole_mem (range : n.InRange) {name : String} {lo hi x : Int}
    (spans : n.kind.Spans name lo hi) (whole : wholeParam? n name = some x) : lo ≤ x ∧ x ≤ hi := by
  obtain ⟨p, mem, rfl, rfl, rfl⟩ := spans
  obtain ⟨y, value, holds⟩ := range p mem
  obtain ⟨hmin, hmax, -⟩ := n.kind.bounds_hold p mem
  rw [wholeParam?, value] at whole
  cases whole
  exact ⟨Binary64.truncate_mono hmin holds.finite holds.least,
    Binary64.truncate_mono holds.finite hmax holds.most⟩

/-- A bin of the spectrum is one of its bins. -/
lemma InRange.bin_mem (range : n.InRange) (kind : n.kind = .spectrumBin) {bin : Int}
    (whole : wholeParam? n "bin" = some bin) : 0 ≤ bin ∧ bin ≤ 63 :=
  range.whole_mem (kind ▸ Kind.spans_whole.1) whole

/-- The bounds of a bin range are bins of the spectrum in ascending order. -/
lemma InRange.bounds_mem (range : n.InRange)
    (kind : n.kind = .spectrumRange ∨ n.kind = .spectrumInterpolate) {lo hi : Int}
    (bounds : binBounds? n = some (lo, hi)) : 0 ≤ lo ∧ lo ≤ hi ∧ hi ≤ 63 := by
  obtain ⟨first, last⟩ := Kind.spans_whole.2.2.2 n.kind (by simpa using kind)
  obtain ⟨a, start, rest⟩ := Option.bind_eq_some_iff.1 bounds
  obtain ⟨b, stop, eq⟩ := Option.bind_eq_some_iff.1 rest
  cases eq
  have least := range.whole_mem first start
  have most := range.whole_mem last stop
  omega

/-- A pitch is one of the pitch classes. -/
lemma InRange.pitch_mem (range : n.InRange) (kind : n.kind = .chromagram) {pitch : Int}
    (whole : wholeParam? n "pitch" = some pitch) : 0 ≤ pitch ∧ pitch ≤ 11 :=
  range.whole_mem (kind ▸ Kind.spans_whole.2.1) whole

/-- A tempo bin that does not stand for the strongest candidate is a candidate. -/
lemma InRange.candidate_mem (range : n.InRange) (kind : n.kind = .beat) {x : Binary64}
    (value : n.param? "tempoBin" = some x) (fixed : x.eq autoTempoBin = false) {candidate : Int}
    (whole : wholeParam? n "tempoBin" = some candidate) : 0 ≤ candidate ∧ candidate ≤ 95 := by
  have most : -1 ≤ candidate ∧ candidate ≤ 95 :=
    range.whole_mem (kind ▸ Kind.spans_whole.2.2.1) whole
  refine ⟨?_, most.2⟩
  -- A whole number whose whole part is minus one is minus one.
  have holds := range.holds
    (p := .int "tempoBin" autoTempoBin (Kind.lastIndex tempoCandidates) autoTempoBin)
    (by rw [kind]; exact .head _) value
  have auto : autoTempoBin.isFinite = true ∧ autoTempoBin.units = -Magnitude.unitsPerOne := by
    have short : 1 < 2 ^ 53 := by decide
    refine ⟨(Binary64.isFinite_neg 1).trans (Binary64.isFinite_ofNat short), ?_⟩
    rw [autoTempoBin, Binary64.units_neg]
    exact congrArg Neg.neg ((Binary64.units_ofNat short).trans (Int.one_mul _))
  have positive := Magnitude.unitsPerOne_pos
  obtain ⟨count, units⟩ := Binary64.dvd_units (holds.whole rfl)
  have other : count ≠ -1 := by
    rintro rfl
    refine Bool.eq_false_iff.1 fixed ((Binary64.eq_iff holds.finite auto.1).2 ?_)
    rw [auto.2, units, Int.mul_neg_one]
  rw [wholeParam?, value] at whole
  cases whole
  rw [Binary64.truncate_eq holds.finite, units, Int.mul_tdiv_cancel_left _ (by omega)] at most ⊢
  omega

end ResolvedNode

end LedEffect
