import LedEffect.Proofs.Cost.Estimates
import LedEffect.Proofs.Json.Records
import LedEffect.Proofs.Number.Overflow

/-!
# Estimates printed and read back

An estimate is read from its printed text with the counters, kinds and entries that it had, and its four
other numbers become the doubles that their digits are read as (`Estimate.read_pretty`). With accepted
settings these numbers are finite, but for the time, which overflows where the device is very slow
(`Estimator.Ranges`), and an infinite time is not read back (`Estimator.estimate_printed`).
-/

namespace LedEffect

open Binary64 Json Json.Document

variable {est : Estimate}

namespace Estimate

/-! ## Reading -/

/-- Whether the counters of an estimate fit 64 bits. -/
structure Fits (est : Estimate) : Prop where
  totalOps : est.totalOps ≤ wordLimit
  ioCalls : est.ioCalls ≤ wordLimit
  memReads : est.memReads ≤ wordLimit
  memWrites : est.memWrites ≤ wordLimit
  entries : ∀ kind cost, (kind, cost) ∈ est.breakdown.entries →
    cost.count ≤ wordLimit ∧ cost.ops ≤ wordLimit

/-- The estimate that the printed text of an estimate is read as. -/
def reread? (est : Estimate) : Option Estimate := do
  return { est with
    ms := ← est.ms.reread?
    cpuPct := ← est.cpuPct.reread?
    memKB := ← est.memKB.reread?
    frameBudgetMs := ← est.frameBudgetMs.reread? }

/-- The costs of a kind that a document describes. -/
def kindCost? (d : Document) : Option KindCost := do
  let fields ← d.record? ["count", "ops"]
  return ⟨← required? fields "count" (natural? wordLimit), ← required? fields "ops" (natural? wordLimit)⟩

lemma kindCost?_object {cost : KindCost} (count : cost.count ≤ wordLimit) (ops : cost.ops ≤ wordLimit) :
    kindCost? (document (.object [("count", .natural cost.count), ("ops", .natural cost.ops)])) =
      some cost := by
  have distinct : ([("count", Json.natural cost.count), ("ops", .natural cost.ops)].map (·.1)).Nodup := by
    simp
  rw [kindCost?, record?_object (by simp) distinct]
  simp [required?_object distinct, natural?_natural, count, ops]

/-- The members of a printed estimate. -/
def members (est : Estimate) : List (String × Json) :=
  [("totalOps", .natural est.totalOps), ("ms", .double est.ms), ("cpuPct", .double est.cpuPct),
    ("memKB", .double est.memKB), ("ioCalls", .natural est.ioCalls),
    ("memReads", .natural est.memReads), ("memWrites", .natural est.memWrites),
    ("frameBudgetMs", .double est.frameBudgetMs), ("fallbackKinds", .strings est.fallbackKinds),
    ("breakdown", .object (est.breakdown.entries.map fun (kind, c) =>
      (kind, .object [("count", .natural c.count), ("ops", .natural c.ops)])))]

lemma entries?_breakdown (fits : est.Fits) :
    (document (.object (est.breakdown.entries.map fun (kind, c) =>
      (kind, .object [("count", .natural c.count), ("ops", .natural c.ops)])))).entries? kindCost? =
      some est.breakdown.entries := by
  rw [entries?_object, List.mapM_map, mapM_eq_some]
  refine List.forall₂_same.2 fun (kind, cost) listed => ?_
  obtain ⟨count, ops⟩ := fits.entries kind cost listed
  simp [kindCost?_object count ops]

/-- The names of the members of a printed estimate. -/
lemma map_members (est : Estimate) : est.members.map (·.1) = ["totalOps", "ms", "cpuPct", "memKB",
    "ioCalls", "memReads", "memWrites", "frameBudgetMs", "fallbackKinds", "breakdown"] := rfl

lemma toValue_eq (est : Estimate) : est.toValue = .object est.members := rfl

lemma ofDocument?_toValue (fits : est.Fits) : ofDocument? (document est.toValue) = est.reread? := by
  have distinct : (est.members.map (·.1)).Nodup := by
    rw [map_members]
    decide
  have counter {n : Nat} {name : String} (mem : (name, Json.natural n) ∈ est.members)
      (small : n ≤ wordLimit) : required? (fields est.members) name (natural? wordLimit) = some n := by
    rw [required?_object distinct mem, natural?_natural small small]
  have number {x : Binary64} {name : String} (mem : (name, Json.double x) ∈ est.members) :
      required? (fields est.members) name double? = x.reread? :=
    required?_object distinct mem double?
  have totalOps : required? _ "totalOps" _ = some est.totalOps := counter (by simp [members]) fits.totalOps
  have ioCalls : required? _ "ioCalls" _ = some est.ioCalls := counter (by simp [members]) fits.ioCalls
  have memReads : required? _ "memReads" _ = some est.memReads := counter (by simp [members]) fits.memReads
  have memWrites : required? _ "memWrites" _ = some est.memWrites := counter (by simp [members]) fits.memWrites
  have ms : required? _ "ms" _ = est.ms.reread? := number (by simp [members])
  have cpuPct : required? _ "cpuPct" _ = est.cpuPct.reread? := number (by simp [members])
  have memKB : required? _ "memKB" _ = est.memKB.reread? := number (by simp [members])
  have frameBudgetMs : required? _ "frameBudgetMs" _ = est.frameBudgetMs.reread? :=
    number (by simp [members])
  have fallbackKinds : required? (fields est.members) "fallbackKinds" (list? text?) =
      some est.fallbackKinds := by
    rw [required?_object distinct (show ("fallbackKinds", _) ∈ est.members by simp [members]; rfl),
      list?_strings]
  have breakdown : required? (fields est.members) "breakdown" (entries? kindCost?) =
      some est.breakdown.entries := by
    rw [required?_object distinct (show ("breakdown", _) ∈ est.members by simp [members]; rfl)]
    exact entries?_breakdown fits
  have known : ∀ member ∈ est.members, member.1 ∈ est.members.map (·.1) :=
    fun member mem => List.mem_map.2 ⟨member, mem, rfl⟩
  rw [ofDocument?, toValue_eq, ← map_members est, record?_object known distinct]
  unfold kindCost? at breakdown
  rw [Option.bind_eq_bind, Option.bind_some]
  dsimp only
  rw [totalOps, ioCalls, memReads, memWrites, ms, cpuPct, memKB, frameBudgetMs, fallbackKinds, breakdown]
  simp only [Option.bind_eq_bind, Option.bind_some, Keyed.ofList_entries]
  rfl

/-- A printed estimate is read as itself but for its four numbers that are no counters: each becomes the
double that its digits are read as. -/
lemma read_pretty (fits : est.Fits) :
    (Document.read? est.toValue.pretty).bind ofDocument? = est.reread? := by
  rw [read?_pretty, Option.bind_some, ofDocument?_toValue fits]

/-- An infinite time is printed as null, which is not read. -/
lemma reread?_of_infinite (past : est.ms = .infinite false) : est.reread? = none := by
  rw [reread?, past, reread?_eq_none rfl]
  rfl

end Estimate

namespace Estimator

variable {e : Estimator} {g : Graph} {kinds : List String} {m : CostModel}
  {opsPerMs frameBudgetMs : Binary64}

/-- Counters of estimates fit. -/
lemma fits_of_estimate (run : e.estimate g kinds m = .ok est) (few : kinds.length ≤ wordLimit) :
    est.Fits := by
  have items := itemizes_of_estimate run
  refine ⟨?_, ?_, ?_, ?_, ?_⟩
  · exact items.totalOps ▸ Nat.min_le_right _ _
  · exact items.ioCalls ▸ Nat.min_le_right _ _
  · exact items.memReads ▸ Nat.min_le_right _ _
  · exact items.memWrites ▸ Nat.min_le_right _ _
  · intro kind cost entry
    obtain ⟨-, rfl⟩ := (items.entries kind cost).1 entry
    exact ⟨(List.count_le_length).trans few, Nat.min_le_right _ _⟩

/-- Settings that are accepted are usable. -/
lemma usable_of_new (accepted : new opsPerMs frameBudgetMs = .ok e) :
    e = ⟨opsPerMs, frameBudgetMs⟩ ∧ isUsable opsPerMs = true ∧ isUsable frameBudgetMs = true := by
  unfold new at accepted
  split_ifs at accepted with rate budget
  exact ⟨(Except.ok.inj accepted).symm, by simpa using rate, by simpa using budget⟩

lemma new_of_usable (rate : isUsable opsPerMs = true) (budget : isUsable frameBudgetMs = true) :
    new opsPerMs frameBudgetMs = .ok ⟨opsPerMs, frameBudgetMs⟩ := by
  simp [new, rate, budget]

/-- What the numbers of an estimate are. -/
structure Ranges (e : Estimator) (est : Estimate) : Prop where
  ms : est.ms.IsDistance
  overflow : est.ms = .infinite false ↔
    Magnitude.overflow * e.opsPerMs.value ≤ (ofNat est.totalOps).value
  cpuPct : est.cpuPct.isFinite = true
  memKB : est.memKB.isFinite = true
  frameBudgetMs : est.frameBudgetMs.isFinite = true

lemma upTo_counter {n : Nat} (small : n ≤ wordLimit) : UpTo 66 (ofNat n) :=
  upTo_ofNat (small.trans (by decide : wordLimit ≤ 2 ^ 64)) (by decide)

lemma ranges_of_estimate (accepted : new opsPerMs frameBudgetMs = .ok e)
    (run : e.estimate g kinds m = .ok est) (few : kinds.length ≤ wordLimit) : Ranges e est := by
  obtain ⟨rfl, rate, budget⟩ := usable_of_new accepted
  obtain ⟨r, rfl, r_pos⟩ := isUsable_iff.1 rate
  obtain ⟨b, rfl, b_pos⟩ := isUsable_iff.1 budget
  have fits := fits_of_estimate run few
  rw [estimate, if_neg (not_not_intro (length_of_estimate run))] at run
  obtain rfl := Except.ok.inj run
  obtain ⟨a, total, -⟩ := exists_word fits.totalOps
  obtain ⟨c, hundred, units⟩ := exists_ofNat_of_short (show 100 < 2 ^ 53 by decide)
  have c_pos : 0 < c.units := units ▸ Nat.mul_pos (by decide) Magnitude.unitsPerOne_pos
  have ms : (ofNat (totals m kinds).ops / finite false r).IsDistance := by
    rw [total]
    exact (isDistance_finite a).div r_pos
  refine ⟨ms, ?_, ?_, ?_, rfl⟩
  · dsimp only [opsToMs]
    rw [total]
    exact finite_div_eq_infinite_iff a r_pos
  · have percent : (100 : Binary64) = finite false c := hundred
    dsimp only [opsToMs]
    rw [percent]
    exact ((ms.div b_pos).mul c_pos).isFinite_min c
  · have sum : UpTo 69 (ofNat (totals m kinds).memReads + ofNat (totals m kinds).memWrites) :=
      (upTo_counter fits.memReads).add (upTo_counter fits.memWrites) (by decide)
    have word : UpTo 4 (ofNat 4) := upTo_ofNat (show 4 ≤ 2 ^ 2 by decide) (by decide)
    have bytes := sum.mul word (by decide)
    have kibi := bytes.div_ofNat (n := 1024) (by decide) (by decide) (by decide)
    exact kibi.isFinite

/-- All that a word counts, at the slowest pace that is looked at, is short of an overflow. -/
lemma ten_pow_lt_overflow : 2 ^ 66 * 10 ^ 288 < Magnitude.overflow :=
  calc 2 ^ 66 * 10 ^ 288 = 2 ^ 66 * ((5 ^ 96) ^ 3 * 2 ^ 288) := by rw [← Nat.pow_mul, ← Nat.mul_pow]
    _ ≤ 2 ^ 66 * ((2 ^ 223) ^ 3 * 2 ^ 288) :=
        Nat.mul_le_mul_left _ (Nat.mul_le_mul_right _ (Nat.pow_le_pow_left (by decide) 3))
    _ = 2 ^ 53 * 2 ^ 970 := by rw [← Nat.pow_mul, ← Nat.pow_add, ← Nat.pow_add, ← Nat.pow_add]
    _ < Magnitude.overflow := Nat.mul_lt_mul_of_pos_right (by decide) (Nat.two_pow_pos 970)

/-- Times are finite for all but the very slowest devices. -/
lemma Ranges.isFinite_ms (ranges : Ranges e est) (small : est.totalOps ≤ wordLimit)
    (fast : 1 / 10 ^ 288 ≤ e.opsPerMs.value) : est.ms.isFinite = true := by
  obtain past | ⟨k, eq⟩ := ranges.ms.eq
  · exfalso
    obtain ⟨a, eq, units⟩ := upTo_counter small
    have bound := ranges.overflow.1 past
    have value : (ofNat est.totalOps).value ≤ 2 ^ 66 := by
      have cast : (a.units : ℚ) ≤ ((2 ^ 66 * Magnitude.unitsPerOne : ℕ) : ℚ) := Nat.cast_le.2 units
      rw [eq, value_finite, div_le_iff₀ Magnitude.cast_unitsPerOne_pos]
      rwa [Nat.cast_mul, Nat.cast_pow, Nat.cast_ofNat] at cast
    have large : (2 ^ 66 * 10 ^ 288 : ℚ) < Magnitude.overflow := by
      have cast : ((2 ^ 66 * 10 ^ 288 : ℕ) : ℚ) < Magnitude.overflow :=
        Nat.cast_lt.2 ten_pow_lt_overflow
      rwa [Nat.cast_mul, Nat.cast_pow, Nat.cast_pow, Nat.cast_ofNat, Nat.cast_ofNat] at cast
    have least : Magnitude.overflow * (1 / 10 ^ 288 : ℚ) ≤ 2 ^ 66 :=
      (mul_le_mul_of_nonneg_left fast (Nat.cast_nonneg _)).trans (bound.trans value)
    rw [mul_one_div, div_le_iff₀ (by positivity)] at least
    exact absurd least large.not_ge
  · rw [eq]
    rfl

/-- An estimate with settings that were accepted has finite numbers, except that the time may overflow:
that is when the operations come to as many milliseconds as lie halfway between the largest double and
the power of two behind it. The printed text of an estimate with a finite time is read as the estimate
but for what the reader makes of the digits of the four numbers, and so as the estimate itself if it reads
each of them as it was. An infinite time is printed as null and cannot be read. -/
theorem estimate_printed (accepted : new opsPerMs frameBudgetMs = .ok e)
    (run : e.estimate g kinds m = .ok est) (few : kinds.length ≤ wordLimit) :
    Ranges e est ∧ (1 / 10 ^ 288 ≤ opsPerMs.value → est.ms.isFinite = true) ∧
    (Document.read? est.toValue.pretty).bind Estimate.ofDocument? = est.reread? ∧
    (est.ms.isFinite = true → (∀ x ∈ [est.ms, est.cpuPct, est.memKB, est.frameBudgetMs],
      x.isFinite = true → x.reread? = some x) →
      (Document.read? est.toValue.pretty).bind Estimate.ofDocument? = some est) ∧
    (est.ms = .infinite false →
      (Document.read? est.toValue.pretty).bind Estimate.ofDocument? = none) := by
  have ranges := ranges_of_estimate accepted run few
  have fits := fits_of_estimate run few
  have read := Estimate.read_pretty fits
  refine ⟨ranges, ?_, read, ?_, ?_⟩
  · obtain ⟨rfl, -⟩ := usable_of_new accepted
    exact ranges.isFinite_ms fits.totalOps
  · intro finite same
    rw [read, Estimate.reread?, same _ (by simp) finite, same _ (by simp) ranges.cpuPct,
      same _ (by simp) ranges.memKB, same _ (by simp) ranges.frameBudgetMs]
    rfl
  · intro past
    rw [read, Estimate.reread?_of_infinite past]

/-- One node without edges. -/
def oneNode : Graph := ⟨true, #[0, 0], #[], none, by decide⟩

/-- One strip takes a millisecond here, and all numbers are read as they were. -/
theorem estimate_printed_millisecond : ∃ e est, new 256 16 = .ok e ∧
    e.estimate oneNode ["output"] .builtin = .ok est ∧ Ranges e est ∧ est.ms = 1 ∧
    (Document.read? est.toValue.pretty).bind Estimate.ofDocument? = some est := by
  have accepted : new 256 16 = .ok ⟨256, 16⟩ := new_of_usable (by decide +kernel) (by decide +kernel)
  obtain ⟨est, run⟩ : ∃ est, estimate ⟨256, 16⟩ oneNode ["output"] .builtin = .ok est :=
    ⟨_, if_neg (by decide)⟩
  obtain ⟨ranges, -, -, same, -⟩ := estimate_printed accepted run (by decide)
  have numbers : est.ms = 1 ∧ est.cpuPct = 6.25 ∧ est.memKB = 1.5 ∧ est.frameBudgetMs = 16 := by
    rw [estimate, if_neg (by decide)] at run
    obtain rfl := Except.ok.inj run
    decide +kernel
  refine ⟨_, est, accepted, run, ranges, numbers.1, same ?_ ?_⟩
  · rw [numbers.1]
    decide +kernel
  · obtain ⟨ms, cpuPct, memKB, frameBudgetMs⟩ := numbers
    rw [ms, cpuPct, memKB, frameBudgetMs]
    decide +kernel

/-- On a device that takes far longer than the largest double for an operation, the time is infinity, and
the printed estimate cannot be read. -/
theorem slow_estimate_unreadable : ∃ e est, new 1e-306 16 = .ok e ∧
    e.estimate oneNode ["output"] .builtin = .ok est ∧ est.ms = .infinite false ∧
    (Document.read? est.toValue.pretty).bind Estimate.ofDocument? = none := by
  have accepted : new 1e-306 16 = .ok ⟨1e-306, 16⟩ := new_of_usable (by decide +kernel) (by decide +kernel)
  obtain ⟨est, run⟩ : ∃ est,
      estimate ⟨1e-306, 16⟩ oneNode ["output"] .builtin = .ok est := ⟨_, if_neg (by decide)⟩
  have past : est.ms = .infinite false := by
    rw [estimate, if_neg (by decide)] at run
    obtain rfl := Except.ok.inj run
    decide +kernel
  refine ⟨_, est, accepted, run, past, ?_⟩
  rw [Estimate.read_pretty (fits_of_estimate run (by decide)), Estimate.reread?_of_infinite past]

end Estimator

end LedEffect
