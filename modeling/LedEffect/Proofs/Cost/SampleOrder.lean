import LedEffect.Proofs.Cost.Calibration
import LedEffect.Proofs.Cost.Estimates
import LedEffect.Proofs.Number.Sums

/-!
# The order of samples

The timings of a kind are added up in the order in which they were measured, and each addition is rounded.
So the order can show in the operations of the kind (`calibrateOnto_thrice`), but only by as much as the
roundings come to, and not at all if the timings are few or short (`calibrateOnto_perm`).
-/

namespace LedEffect

open Binary64 CalibrationSample

variable {kind : String} {samples samples' : List CalibrationSample} {s : CalibrationSample}
  {ts ts' : List Binary64} {rate : Binary64} {base model model' : CostModel} {e : Estimator}

/-! ## Timings -/

namespace CalibrationSample

/-- A timing that can be used is a weight. -/
lemma isWeight_us (usable : ¬ s.Unusable) : s.us.IsWeight := by
  rw [isWeight_iff]
  simpa [Unusable] using usable

lemma isWeight_of_mem_timings (usable : ∀ s ∈ samples, ¬ s.Unusable) :
    ∀ us ∈ timings kind samples, us.IsWeight := by
  intro us mem
  obtain ⟨s, listed, -, rfl⟩ := mem_timings_iff.1 mem
  exact isWeight_us (usable s listed)

lemma timings_perm (perm : samples'.Perm samples) (kind : String) :
    (timings kind samples').Perm (timings kind samples) :=
  (perm.filter _).map _

end CalibrationSample

namespace TimingSum

lemma ofTimings_eq (ts : List Binary64) : ofTimings ts = ⟨sum ts, ts.length⟩ := by
  induction ts using List.reverseRecOn with
  | nil => rfl
  | append_singleton ts us ih =>
    rw [ofTimings_snoc, ih, sum_snoc, List.length_append]
    rfl

/-- Settled timings have one sum in any order. -/
lemma ofTimings_perm (settled : Settled ts) (weights : ∀ us ∈ ts, us.IsWeight) (perm : ts.Perm ts') :
    ofTimings ts' = ofTimings ts := by
  rw [ofTimings_eq, ofTimings_eq, sum_perm settled weights perm, perm.length_eq]

/-- The operations of a kind with these timings before any rounding: the mean of the timings in
milliseconds, times the operations in one of them. -/
def exactOps (ts : List Binary64) (rate : Binary64) : ℚ :=
  (ts.map value).sum / ts.length / 1000 * rate.value

lemma exactOps_perm (perm : ts.Perm ts') (rate : Binary64) : exactOps ts rate = exactOps ts' rate := by
  rw [exactOps, exactOps, perm.length_eq, (perm.map value).sum_eq]

/-- The operations of a kind are off by five roundings and one for each timing, and by one operation,
unless the counter is full. -/
lemma near_ops (weights : ∀ us ∈ ts, us.IsWeight) (some : ts ≠ []) (few : ts.length ≤ Json.wordLimit)
    (usable : Estimator.isUsable rate = true) (below : (ofTimings ts).ops rate < Json.wordLimit) :
    Near (ts.length + 5) 1 (exactOps ts rate) ((ofTimings ts).ops rate) := by
  obtain ⟨r, rfl, pos⟩ := Estimator.isUsable_iff.1 usable
  let unit : ℚ := 1 / Magnitude.unitsPerOne
  have unit_nonneg : 0 ≤ unit := (one_div_pos.2 Magnitude.cast_unitsPerOne_pos).le
  have half : (1 / 2 / Magnitude.unitsPerOne : ℚ) = unit / 2 := div_right_comm _ _ _
  have mean : Tracks (ts.length + 2) unit ((ts.map value).sum / ts.length) (sum ts / ofNat ts.length) := by
    refine ((tracks_sum weights).div_ofNat le_rfl (List.length_pos_iff.2 some) few).loosen ?_
    rw [half, zero_div]
    linarith
  have inMs : Tracks (ts.length + 4) unit ((ts.map value).sum / ts.length / 1000)
      (sum ts / ofNat ts.length / 1000) := by
    refine (mean.div_ofNat unit_nonneg (show 0 < 1000 by decide) (by decide)).loosen ?_
    rw [half, Nat.cast_ofNat]
    linarith
  have product : Tracks (ts.length + 5) (1 / 2) (exactOps ts (finite false r))
      (sum ts / ofNat ts.length / 1000 * finite false r) := by
    refine (inMs.mul unit_nonneg pos).loosen ?_
    have rate_le : unit * (finite false r).value ≤ 1 / 2 ^ 50 := by
      rw [one_div_mul_eq_div, div_le_div_iff₀ Magnitude.cast_unitsPerOne_pos (by norm_num), one_mul]
      exact value_mul_le r
    have unit_le : unit ≤ 1 / 2 := by
      have two : (2 : ℚ) ≤ Magnitude.unitsPerOne := by
        exact_mod_cast (show 2 ≤ Magnitude.unitsPerOne from Nat.le_self_pow (by decide) 2)
      exact one_div_le_one_div_of_le two_pos two
    rw [half]
    linarith
  rw [ofTimings_eq] at below ⊢
  have counter := product.roundToCounter below
  rwa [add_halves] at counter

end TimingSum

/-! ## Reordered samples -/

namespace Estimator

/-- How the models of one list of samples in two orders compare: only the operations of sampled kinds can
differ, and those only if the order of the timings of the kind is another one and their sum is not
settled. In any order operations are near the ones that exact arithmetic makes of the timings. -/
structure Reordered (e : Estimator) (samples samples' : List CalibrationSample)
    (model model' : CostModel) : Prop where
  unsampled : ∀ kind, kind ∉ sampledKinds samples → model'.get? kind = model.get? kind
  sampled : ∀ kind ∈ sampledKinds samples, ∃ c ops', model.get? kind = some c ∧
    model'.get? kind = some { c with ops := ops' }
  settled : ∀ kind, timings kind samples' = timings kind samples ∨ Settled (timings kind samples) →
    model'.get? kind = model.get? kind
  near : isUsable e.opsPerMs = true → samples.length ≤ Json.wordLimit →
    ∀ kind ∈ sampledKinds samples, ∀ c, model.get? kind = some c ∨ model'.get? kind = some c →
      c.ops < Json.wordLimit → Near ((timings kind samples).length + 5) 1
        (TimingSum.exactOps (timings kind samples) e.opsPerMs) c.ops

lemma near_of_recalibrates (calibrated : e.Recalibrates base samples model)
    (usable : ∀ s ∈ samples, ¬ s.Unusable) (rate : isUsable e.opsPerMs = true)
    (few : samples.length ≤ Json.wordLimit) (mem : kind ∈ sampledKinds samples) {c : Coefficients}
    (found : model.get? kind = some c) (below : c.ops < Json.wordLimit) :
    Near ((timings kind samples).length + 5) 1
      (TimingSum.exactOps (timings kind samples) e.opsPerMs) c.ops := by
  obtain rfl := Option.some_inj.1 ((calibrated.sampled kind mem).symm.trans found)
  have some : timings kind samples ≠ [] := fun none => timings_eq_nil_iff.1 none mem
  have length : (timings kind samples).length ≤ samples.length := by
    rw [timings, List.length_map]
    exact List.length_filter_le _ _
  exact TimingSum.near_ops (isWeight_of_mem_timings usable) some (length.trans few) rate below

lemma reordered (calibrated : e.Recalibrates base samples model)
    (calibrated' : e.Recalibrates base samples' model') (perm : samples'.Perm samples)
    (usable : ∀ s ∈ samples, ¬ s.Unusable) : Reordered e samples samples' model model' := by
  have kinds : ∀ kind, kind ∈ sampledKinds samples' ↔ kind ∈ sampledKinds samples := fun kind =>
    (perm.map (·.kind)).mem_iff
  have unsampled : ∀ kind, kind ∉ sampledKinds samples → model'.get? kind = model.get? kind := by
    intro kind absent
    rw [calibrated.unsampled kind absent, calibrated'.unsampled kind (mt (kinds kind).1 absent)]
  refine ⟨unsampled, ?_, ?_, ?_⟩
  · intro kind mem
    exact ⟨_, _, calibrated.sampled kind mem, calibrated'.sampled kind ((kinds kind).2 mem)⟩
  · intro kind sameSum
    by_cases mem : kind ∈ sampledKinds samples
    · have sums : TimingSum.ofTimings (timings kind samples') =
          TimingSum.ofTimings (timings kind samples) := by
        rcases sameSum with sameOrder | settled
        · rw [sameOrder]
        · exact TimingSum.ofTimings_perm settled (isWeight_of_mem_timings usable)
            (timings_perm perm kind).symm
      rw [calibrated.sampled kind mem, calibrated'.sampled kind ((kinds kind).2 mem), sums]
    · exact unsampled kind mem
  · intro rate few kind mem c found below
    rcases found with found | found
    · exact near_of_recalibrates calibrated usable rate few mem found below
    · have usable' : ∀ s ∈ samples', ¬ s.Unusable := fun s listed => usable s (perm.mem_iff.1 listed)
      have timed := timings_perm perm kind
      rw [← timed.length_eq, ← TimingSum.exactOps_perm timed]
      exact near_of_recalibrates calibrated' usable' rate (perm.length_eq ▸ few)
        ((kinds kind).2 mem) found below

/-- Samples that can be used may be calibrated in any order: both calibrations succeed, and their models
compare as `Reordered` says. They are the same model if the timings of every kind keep their order, or
are at most two, or sum up without a rounding before the last addition. -/
theorem calibrateOnto_perm (e : Estimator) (base : CostModel) (samples samples' : List CalibrationSample)
    (perm : samples'.Perm samples) (usable : ∀ s ∈ samples, ¬ s.Unusable) :
    ∃ model model', e.calibrateOnto base samples = .ok model ∧
      e.calibrateOnto base samples' = .ok model' ∧ Reordered e samples samples' model model' ∧
      ((∀ kind, timings kind samples' = timings kind samples ∨ Settled (timings kind samples)) →
        model' = model) := by
  have usable' : ∀ s ∈ samples', ¬ s.Unusable := fun s listed => usable s (perm.mem_iff.1 listed)
  obtain ⟨model, run, calibrated⟩ := calibrateOnto_of_usable e base usable
  obtain ⟨model', run', calibrated'⟩ := calibrateOnto_of_usable e base usable'
  have compared := reordered calibrated calibrated' perm usable
  exact ⟨model, model', run, run', compared, fun settled =>
    Keyed.ext_get? fun kind => compared.settled kind (settled kind)⟩

/-- Three timings of sines and two of additions. -/
def fiveSamples : List CalibrationSample :=
  [⟨"sin", 0.1⟩, ⟨"add", 2⟩, ⟨"sin", 0.1⟩, ⟨"add", 3.5⟩, ⟨"sin", 0.05625⟩]

/-- With the samples in the opposite order the addition keeps its coefficients, and the operations of the
sine stay near the exact ones. -/
theorem calibrateOnto_reversed : ∃ model model' c c',
    default.calibrateOnto sparseModel fiveSamples = .ok model ∧
    default.calibrateOnto sparseModel fiveSamples.reverse = .ok model' ∧
    model'.get? "add" = model.get? "add" ∧ model'.get? "output" = model.get? "output" ∧
    model.get? "sin" = some c ∧ model'.get? "sin" = some { c with ops := c' } ∧
    (c.ops < Json.wordLimit → Near 8 1
      (TimingSum.exactOps [0.1, 0.1, 0.05625] defaultOpsPerMs) c.ops) := by
  obtain ⟨model, model', run, run', compared, -⟩ := calibrateOnto_perm default sparseModel fiveSamples
    fiveSamples.reverse (List.reverse_perm _) (by decide +kernel)
  obtain ⟨c, c', found, found'⟩ := compared.sampled "sin" (by decide)
  refine ⟨model, model', c, c', run, run', ?_, ?_, found, found', ?_⟩
  · exact compared.settled "add" (.inr (.inl (by decide)))
  · exact compared.unsampled "output" (by decide)
  · exact compared.near (by decide +kernel) (by decide) "sin" (by decide) c (.inl found)

/-- The order of three timings can show: in one order their sum falls just short of the half at which the
operations are rounded up, and in the other it does not. -/
theorem calibrateOnto_thrice : ∃ model model',
    [⟨"sin", 0.05625⟩, ⟨"sin", 0.1⟩, ⟨"sin", 0.1⟩].Perm
      [⟨"sin", 0.1⟩, ⟨"sin", 0.1⟩, (⟨"sin", 0.05625⟩ : CalibrationSample)] ∧
    default.calibrateOnto .empty [⟨"sin", 0.1⟩, ⟨"sin", 0.1⟩, ⟨"sin", 0.05625⟩] = .ok model ∧
    default.calibrateOnto .empty [⟨"sin", 0.05625⟩, ⟨"sin", 0.1⟩, ⟨"sin", 0.1⟩] = .ok model' ∧
    model.get? "sin" = some ⟨21, 16, 8, 0⟩ ∧ model'.get? "sin" = some ⟨20, 16, 8, 0⟩ ∧
    model' ≠ model := by
  have usable : ∀ s ∈ [⟨"sin", 0.1⟩, ⟨"sin", 0.1⟩, (⟨"sin", 0.05625⟩ : CalibrationSample)],
      ¬ s.Unusable := by decide +kernel
  have usable' : ∀ s ∈ [⟨"sin", 0.05625⟩, ⟨"sin", 0.1⟩, (⟨"sin", 0.1⟩ : CalibrationSample)],
      ¬ s.Unusable := by decide +kernel
  obtain ⟨model, run, calibrated⟩ := calibrateOnto_of_usable default .empty usable
  obtain ⟨model', run', calibrated'⟩ := calibrateOnto_of_usable default .empty usable'
  have sine : model.get? "sin" = some ⟨21, 16, 8, 0⟩ := by
    rw [calibrated.sampled "sin" (by decide)]
    decide +kernel
  have sine' : model'.get? "sin" = some ⟨20, 16, 8, 0⟩ := by
    rw [calibrated'.sampled "sin" (by decide)]
    decide +kernel
  refine ⟨model, model', by decide +kernel, run, run', sine, sine', ?_⟩
  rintro rfl
  rw [sine] at sine'
  exact absurd sine' (by decide)

end Estimator

end LedEffect
