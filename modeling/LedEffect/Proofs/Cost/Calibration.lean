import LedEffect.Cost.Calibration
import LedEffect.Proofs.Keyed
import Mathlib.Data.List.Induction
import Mathlib.Tactic.Common

/-!
# Calibrated models

Calibration sums the timings of each kind in their order, so what it makes of a kind depends on the
timings of that kind and on nothing else (`TimingSum.get?_byKind`). `calibrateOnto_local` says what
follows for whole models.
-/

namespace LedEffect

variable {kind : String} {samples samples' first rest : List CalibrationSample}
  {s : CalibrationSample} {base model : CostModel} {e : Estimator}

/-! ## Samples by kind -/

namespace CalibrationSample

/-- The kinds that were sampled. -/
def sampledKinds (samples : List CalibrationSample) : List String := samples.map (·.kind)

/-- The timings of one kind, in the order of the samples. -/
def timings (kind : String) (samples : List CalibrationSample) : List Binary64 :=
  (samples.filter (·.kind == kind)).map (·.us)

lemma timings_append (kind : String) (first rest : List CalibrationSample) :
    timings kind (first ++ rest) = timings kind first ++ timings kind rest := by
  rw [timings, List.filter_append, List.map_append]
  rfl

/-- Kinds are sampled that have timings. -/
lemma timings_eq_nil_iff : timings kind samples = [] ↔ kind ∉ sampledKinds samples := by
  simp [timings, sampledKinds]

lemma mem_timings_iff {us : Binary64} :
    us ∈ timings kind samples ↔ ∃ s ∈ samples, s.kind = kind ∧ s.us = us := by
  simp [timings, and_assoc]

/-- Lists that sample different kinds may change places. -/
lemma timings_comm (apart : ∀ kind ∈ sampledKinds first, kind ∉ sampledKinds rest) (kind : String) :
    timings kind (rest ++ first) = timings kind (first ++ rest) := by
  rw [timings_append, timings_append]
  by_cases mem : kind ∈ sampledKinds first
  · rw [timings_eq_nil_iff.2 (apart kind mem), List.nil_append, List.append_nil]
  · rw [timings_eq_nil_iff.2 mem, List.nil_append, List.append_nil]

/-- A timing that cannot be used: it is not finite, or below zero. -/
def Unusable (s : CalibrationSample) : Prop := s.us.isFinite = false ∨ s.us.lt .zero = true

instance : Decidable s.Unusable := inferInstanceAs (Decidable (_ ∨ _))

lemma isValid_eq_false_iff : s.isValid = false ↔ s.Unusable := by
  unfold isValid Unusable
  cases s.us.isFinite <;> simp

lemma isValid_iff : s.isValid = true ↔ ¬ s.Unusable := by
  rw [← isValid_eq_false_iff, Bool.not_eq_false]

end CalibrationSample

open CalibrationSample

namespace TimingSum

/-- The sum of timings in their order. -/
def ofTimings (timings : List Binary64) : TimingSum := timings.foldl add ⟨.zero, 0⟩

lemma byKind_snoc (samples : List CalibrationSample) (s : CalibrationSample) :
    byKind (samples ++ [s]) = (byKind samples).update s.kind ⟨.zero, 0⟩ (·.add s.us) := by
  rw [byKind, List.foldl_append]
  rfl

lemma ofTimings_snoc (timings : List Binary64) (us : Binary64) :
    ofTimings (timings ++ [us]) = (ofTimings timings).add us := by
  rw [ofTimings, List.foldl_append]
  rfl

/-- A kind is summed along its own timings, whatever lies between them. -/
lemma get?_byKind (samples : List CalibrationSample) (kind : String) :
    (byKind samples).get? kind =
      if kind ∈ sampledKinds samples then some (ofTimings (timings kind samples)) else none := by
  induction samples using List.reverseRecOn with
  | nil => rfl
  | append_singleton samples s ih =>
    have kinds : sampledKinds (samples ++ [s]) = sampledKinds samples ++ [s.kind] := List.map_append
    rw [byKind_snoc, Keyed.get?_update, timings_append, kinds]
    by_cases same : s.kind = kind
    · subst same
      have start : ((byKind samples).get? s.kind).getD ⟨.zero, 0⟩ =
          ofTimings (timings s.kind samples) := by
        rw [ih]
        split
        · rfl
        next absent => rw [timings_eq_nil_iff.2 absent]; rfl
      have one : timings s.kind [s] = [s.us] := by simp [timings]
      rw [if_pos rfl, if_pos (List.mem_append_right _ List.mem_cons_self), start, one, ofTimings_snoc]
    · have none : timings kind [s] = [] := by simp [timings, same]
      have mem : kind ∈ sampledKinds samples ++ [s.kind] ↔ kind ∈ sampledKinds samples := by
        rw [List.mem_append, List.mem_singleton, or_iff_left (Ne.symm same)]
      rw [if_neg same, ih, none, List.append_nil]
      simp only [mem]

end TimingSum

/-! ## Calibrated models -/

namespace Estimator

/-- The coefficients of a kind after calibration: operations from its timings, and otherwise those of
the base model, or the fallback ones if it does not have the kind. -/
def recalibrated (e : Estimator) (base : CostModel) (kind : String) (sum : TimingSum) :
    Coefficients :=
  { (base.get? kind).getD .fallback with ops := sum.ops e.opsPerMs }

/-- A calibrated model has new coefficients for the sampled kinds, made of their own timings, and the
old ones for all others. -/
structure Recalibrates (e : Estimator) (base : CostModel) (samples : List CalibrationSample)
    (model : CostModel) : Prop where
  sampled : ∀ kind ∈ sampledKinds samples,
    model.get? kind = some (e.recalibrated base kind (.ofTimings (timings kind samples)))
  unsampled : ∀ kind, kind ∉ sampledKinds samples → model.get? kind = base.get? kind

/-- The model that calibration makes of samples that can be used. -/
lemma recalibrates_byKind (e : Estimator) (base : CostModel) (samples : List CalibrationSample) :
    e.Recalibrates base samples ((TimingSum.byKind samples).entries.foldl
      (fun m (kind, sum) =>
        m.insert kind { (base.get? kind).getD .fallback with ops := sum.ops e.opsPerMs }) base) := by
  let entries := (TimingSum.byKind samples).entries.map fun entry =>
    (entry.1, e.recalibrated base entry.1 entry.2)
  have keys : entries.map (·.1) = (TimingSum.byKind samples).keys := by
    rw [List.map_map]
    rfl
  have put : (TimingSum.byKind samples).entries.foldl
      (fun m (kind, sum) =>
        m.insert kind { (base.get? kind).getD .fallback with ops := sum.ops e.opsPerMs }) base =
      entries.foldl (fun m entry => m.insert entry.1 entry.2) base := by
    rw [List.foldl_map]
    rfl
  rw [put]
  constructor
  · intro kind mem
    have found := TimingSum.get?_byKind samples kind
    rw [if_pos mem] at found
    have listed : (kind, e.recalibrated base kind (.ofTimings (timings kind samples))) ∈ entries :=
      List.mem_map.2 ⟨_, Keyed.get?_eq_some_iff.1 found, rfl⟩
    exact Keyed.get?_foldl_insert_of_mem (keys ▸ Keyed.nodup_keys _) listed base
  · intro kind absent
    have none := TimingSum.get?_byKind samples kind
    rw [if_neg absent, Keyed.get?_eq_none_iff, ← keys] at none
    exact Keyed.get?_foldl_insert none base

namespace Recalibrates

lemma mem_keys_iff (calibrated : e.Recalibrates base samples model) :
    kind ∈ model.keys ↔ kind ∈ base.keys ∨ kind ∈ sampledKinds samples := by
  by_cases mem : kind ∈ sampledKinds samples
  · rw [Keyed.mem_keys_iff, calibrated.sampled kind mem]
    exact iff_of_true ⟨_, rfl⟩ (.inr mem)
  · rw [or_iff_left mem, Keyed.mem_keys_iff, Keyed.mem_keys_iff, calibrated.unsampled kind mem]

/-- Samples with the same timings of every kind make the same model. -/
lemma unique {model' : CostModel} (calibrated : e.Recalibrates base samples model)
    (same : ∀ kind, timings kind samples' = timings kind samples)
    (calibrated' : e.Recalibrates base samples' model') : model' = model := by
  apply Keyed.ext_get?
  intro kind
  have mem : kind ∈ sampledKinds samples' ↔ kind ∈ sampledKinds samples := by
    rw [← not_iff_not, ← timings_eq_nil_iff, ← timings_eq_nil_iff, same kind]
  by_cases sampled : kind ∈ sampledKinds samples
  · rw [calibrated.sampled kind sampled, calibrated'.sampled kind (mem.2 sampled), same kind]
  · rw [calibrated.unsampled kind sampled, calibrated'.unsampled kind (mt mem.1 sampled)]

/-- Calibrations with different kinds, one after the other, are one calibration. -/
lemma append {between : CostModel} (apart : ∀ kind ∈ sampledKinds first, kind ∉ sampledKinds rest)
    (calibrated : e.Recalibrates base first between) (calibrated' : e.Recalibrates between rest model) :
    e.Recalibrates base (first ++ rest) model := by
  have kinds : sampledKinds (first ++ rest) = sampledKinds first ++ sampledKinds rest :=
    List.map_append
  constructor
  · intro kind mem
    rw [kinds, List.mem_append] at mem
    rw [timings_append]
    by_cases here : kind ∈ sampledKinds first
    · have later := apart kind here
      rw [timings_eq_nil_iff.2 later, List.append_nil, calibrated'.unsampled kind later,
        calibrated.sampled kind here]
    · have later := mem.resolve_left here
      rw [timings_eq_nil_iff.2 here, List.nil_append, calibrated'.sampled kind later, recalibrated,
        recalibrated, calibrated.unsampled kind here]
  · intro kind absent
    rw [kinds, List.mem_append, not_or] at absent
    rw [calibrated'.unsampled kind absent.2, calibrated.unsampled kind absent.1]

end Recalibrates

/-! ## Runs -/

lemma invalidSample?_eq_none : invalidSample? samples = none ↔ ∀ s ∈ samples, ¬ s.Unusable := by
  unfold invalidSample?
  rw [List.find?_eq_none]
  constructor
  · intro all s mem
    obtain ⟨i, bound, rfl⟩ := List.mem_iff_getElem.1 mem
    have listed : (samples[i], i) ∈ samples.zipIdx :=
      List.mk_mem_zipIdx_iff_getElem?.2 (List.getElem?_eq_getElem bound)
    exact isValid_iff.1 (by simpa using all _ listed)
  · rintro all ⟨s, i⟩ listed
    simpa using isValid_iff.2 (all s (List.fst_mem_of_mem_zipIdx listed))

/-- The sample that is refused is the first that cannot be used. -/
def Refused (samples : List CalibrationSample) (s : CalibrationSample) (index : Nat) : Prop :=
  samples[index]? = some s ∧ s.Unusable ∧
    ∀ j < index, ∀ t, samples[j]? = some t → ¬ t.Unusable

lemma refused_of_invalidSample? {index : Nat} (found : invalidSample? samples = some (s, index)) :
    Refused samples s index := by
  obtain ⟨invalid, i, bound, here, before⟩ := List.find?_eq_some_iff_getElem.1 found
  rw [List.getElem_zipIdx, Nat.zero_add, Prod.mk.injEq] at here
  obtain ⟨rfl, rfl⟩ := here
  rw [List.length_zipIdx] at bound
  refine ⟨List.getElem?_eq_getElem bound, isValid_eq_false_iff.1 (by simpa using invalid), ?_⟩
  intro j lt t there
  obtain ⟨inside, rfl⟩ := List.getElem?_eq_some_iff.1 there
  exact isValid_iff.1 (by simpa using before j lt)

lemma calibrateOnto_of_usable (e : Estimator) (base : CostModel)
    (usable : ∀ s ∈ samples, ¬ s.Unusable) :
    ∃ model, e.calibrateOnto base samples = .ok model ∧ e.Recalibrates base samples model := by
  refine ⟨_, ?_, e.recalibrates_byKind base samples⟩
  rw [calibrateOnto, invalidSample?_eq_none.2 usable]

lemma usable_of_ok (run : e.calibrateOnto base samples = .ok model) : ∀ s ∈ samples, ¬ s.Unusable := by
  unfold calibrateOnto at run
  split at run
  next => cases run
  next none => exact invalidSample?_eq_none.1 none

/-- Calibration depends on the timings of each kind alone. -/
lemma calibrateOnto_eq (calibrated : e.Recalibrates base samples model)
    (usable : ∀ s ∈ samples, ¬ s.Unusable)
    (same : ∀ kind, timings kind samples' = timings kind samples) :
    e.calibrateOnto base samples' = .ok model := by
  have usable' : ∀ s ∈ samples', ¬ s.Unusable := by
    intro s mem
    have timed : s.us ∈ timings s.kind samples' := mem_timings_iff.2 ⟨s, mem, rfl, rfl⟩
    rw [same] at timed
    obtain ⟨t, here, -, us⟩ := mem_timings_iff.1 timed
    have good := usable t here
    unfold Unusable at good ⊢
    rwa [us] at good
  obtain ⟨model', run, calibrated'⟩ := calibrateOnto_of_usable e base usable'
  rw [run, calibrated.unique same calibrated']

lemma refused_of_error {error : CostError} (failed : e.calibrateOnto base samples = .error error) :
    ∃ s index, Refused samples s index ∧ error = .invalidSample index s.kind s.us := by
  unfold calibrateOnto at failed
  split at failed
  next s index found => exact ⟨s, index, refused_of_invalidSample? found, (Except.error.inj failed).symm⟩
  next => cases failed

/-- Calibration fails just when a sample cannot be used, and names the first such sample. Otherwise the
model has the kinds of the base model and the sampled ones: the latter with operations made of their own
timings, so that the timings of other kinds may lie between them in any way, and everything else as in
the base model. So lists that sample different kinds may be calibrated one after the other or together,
in either order. -/
theorem calibrateOnto_local (e : Estimator) (base : CostModel) (samples : List CalibrationSample) :
    ((∃ error, e.calibrateOnto base samples = .error error) ↔ ∃ s ∈ samples, s.Unusable) ∧
    (∀ error, e.calibrateOnto base samples = .error error →
      ∃ s index, Refused samples s index ∧ error = .invalidSample index s.kind s.us) ∧
    ((∀ s ∈ samples, ¬ s.Unusable) → ∃ model, e.calibrateOnto base samples = .ok model ∧
      e.Recalibrates base samples model ∧
      (∀ kind, kind ∈ model.keys ↔ kind ∈ base.keys ∨ kind ∈ sampledKinds samples) ∧
      (∀ samples', (∀ kind, timings kind samples' = timings kind samples) →
        e.calibrateOnto base samples' = .ok model) ∧
      ∀ first rest, samples = first ++ rest →
        (∀ kind ∈ sampledKinds first, kind ∉ sampledKinds rest) →
        ∃ between, e.calibrateOnto base first = .ok between ∧
          e.calibrateOnto between rest = .ok model ∧
          e.calibrateOnto base (rest ++ first) = .ok model) := by
  refine ⟨⟨?_, ?_⟩, fun error => refused_of_error, fun usable => ?_⟩
  · rintro ⟨error, failed⟩
    obtain ⟨s, index, ⟨here, unusable, -⟩, -⟩ := refused_of_error failed
    exact ⟨s, List.mem_of_getElem? here, unusable⟩
  · rintro ⟨s, mem, unusable⟩
    cases run : e.calibrateOnto base samples with
    | error error => exact ⟨error, rfl⟩
    | ok model => exact absurd unusable (usable_of_ok run s mem)
  · obtain ⟨model, run, calibrated⟩ := calibrateOnto_of_usable e base usable
    refine ⟨model, run, calibrated, fun kind => calibrated.mem_keys_iff,
      fun samples' => calibrateOnto_eq calibrated usable, ?_⟩
    rintro first rest rfl apart
    obtain ⟨before, after⟩ := List.forall_mem_append.1 usable
    obtain ⟨between, run₁, calibrated₁⟩ := calibrateOnto_of_usable e base before
    obtain ⟨model', run₂, calibrated₂⟩ := calibrateOnto_of_usable e between after
    obtain rfl := calibrated.unique (fun _ => rfl) (calibrated₁.append apart calibrated₂)
    exact ⟨between, run₁, run₂,
      calibrateOnto_eq calibrated usable fun kind => timings_comm apart kind⟩

/-- A model with coefficients for one kind that is sampled and one that is not. -/
def sparseModel : CostModel := .ofList [("output", ⟨1, 2, 384, 1⟩), ("add", ⟨9, 5, 0, 0⟩)]

/-- Two timings of sines and one of an addition. -/
def threeSamples : List CalibrationSample := [⟨"sin", 0.1⟩, ⟨"sin", 0.05625⟩, ⟨"add", 2⟩]

/-- The addition may be timed between the sines, or be calibrated on its own before or after them; a
timing below zero is refused. -/
theorem calibrateOnto_interleaved : ∃ model between,
    default.calibrateOnto sparseModel threeSamples = .ok model ∧
    default.Recalibrates sparseModel threeSamples model ∧
    default.calibrateOnto sparseModel [⟨"sin", 0.1⟩, ⟨"add", 2⟩, ⟨"sin", 0.05625⟩] = .ok model ∧
    default.calibrateOnto sparseModel [⟨"sin", 0.1⟩, ⟨"sin", 0.05625⟩] = .ok between ∧
    default.calibrateOnto between [⟨"add", 2⟩] = .ok model ∧
    default.calibrateOnto sparseModel [⟨"add", 2⟩, ⟨"sin", 0.1⟩, ⟨"sin", 0.05625⟩] = .ok model ∧
    ∃ error, default.calibrateOnto sparseModel [⟨"sin", 0.1⟩, ⟨"add", -2⟩] = .error error := by
  obtain ⟨model, run, calibrated, -, interleaved, composed⟩ :=
    (calibrateOnto_local default sparseModel threeSamples).2.2 (by decide +kernel)
  obtain ⟨between, first, rest, turned⟩ :=
    composed [⟨"sin", 0.1⟩, ⟨"sin", 0.05625⟩] [⟨"add", 2⟩] rfl (by decide)
  refine ⟨model, between, run, calibrated, ?_, first, rest, turned, ?_⟩
  · refine interleaved _ fun kind => ?_
    rcases eq_or_ne "sin" kind with rfl | notSine
    · rfl
    · simp [timings, threeSamples, List.filter_cons, notSine]
  · exact (calibrateOnto_local default sparseModel _).1.2
      ⟨⟨"add", -2⟩, by simp, by decide +kernel⟩

end Estimator

end LedEffect
