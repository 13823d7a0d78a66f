import LedEffect.Proofs.Cost.Breakdown

/-!
# Estimates

An estimate is a function of how often each kind occurs: of the graph it reads the number of nodes
alone, and of the list of kinds not the order (`estimate_perm`). What it reports are exact sums held
at the greatest counter (`Itemizes`), so estimates of the parts of a list of kinds add up to the
estimate of the whole (`AddsUp`). `estimate_exact` says so for all graphs, lists and models.
-/

namespace LedEffect.Estimator

variable {e : Estimator} {m : CostModel} {g g' : Graph} {kinds kinds' : List String}
  {est first rest : Estimate}

/-! ## Settings -/

/-- Numbers can be settings that are finite and above zero. -/
lemma isUsable_iff {x : Binary64} :
    isUsable x = true ↔ ∃ m : Magnitude, x = .finite false m ∧ 0 < m.units := by
  cases x with
  | finite s m =>
    have sign : isUsable (.finite s m) = true ↔ 0 < Binary64.signedUnits s m := by
      have none : Binary64.signedUnits false Magnitude.zero = 0 := rfl
      simp [isUsable, Binary64.isFinite, Binary64.lt, Binary64.compare?, Binary64.zero, none,
        Int.compare_eq_lt]
    rw [sign]
    cases s with
    | false => simp [Binary64.signedUnits]
    | true => simp [Binary64.signedUnits]
  | _ => simp [isUsable, Binary64.isFinite]

/-! ## Texts in order -/

/-- Sorting puts texts in ascending order. -/
lemma ascending_mergeSort (l : List String) :
    (l.mergeSort fun a b => !decide (b < a)).Pairwise (· ≤ ·) := by
  have sorted := @List.pairwise_mergeSort _ (fun a b : String => !decide (b < a))
    (fun a b c ab bc => by
      simp only [Bool.not_eq_true', decide_eq_false_iff_not, String.not_lt] at ab bc ⊢
      exact String.le_trans ab bc)
    (fun a b => by
      simp only [Bool.or_eq_true, Bool.not_eq_true', decide_eq_false_iff_not, String.not_lt]
      exact String.le_total a b) l
  refine sorted.imp fun {a b} before => ?_
  rwa [Bool.not_eq_true', decide_eq_false_iff_not, String.not_lt] at before

/-- Texts without repetition are strictly ascending once they are sorted. -/
lemma strict_mergeSort {l : List String} (nodup : l.Nodup) :
    (l.mergeSort fun a b => !decide (b < a)).Pairwise (· < ·) := by
  have distinct : (l.mergeSort fun a b => !decide (b < a)).Nodup :=
    (List.mergeSort_perm l _).nodup_iff.2 nodup
  refine ((ascending_mergeSort l).and distinct).imp fun {a b} ⟨le, ne⟩ => ?_
  exact Decidable.byContradiction fun not => ne (String.le_antisymm le (String.not_lt.1 not))

/-- Sorting forgets in which order texts were listed. -/
lemma mergeSort_eq_of_perm {l l' : List String} (perm : l.Perm l') :
    (l.mergeSort fun a b => !decide (b < a)) = l'.mergeSort fun a b => !decide (b < a) := by
  apply List.Perm.eq_of_pairwise (fun _ _ _ _ => String.le_antisymm)
    (ascending_mergeSort l) (ascending_mergeSort l')
  exact ((List.mergeSort_perm l _).trans perm).trans (List.mergeSort_perm l' _).symm

/-! ## What an estimate reports -/

/-- An estimate is for one kind per node. -/
lemma length_of_estimate (run : e.estimate g kinds m = .ok est) : kinds.length = g.nodeCount := by
  by_contra differ
  rw [estimate, if_pos differ] at run
  cases run

/-- Estimates report sums that are exact up to the greatest counter, an entry for each kind, and the
kinds without coefficients in ascending order. -/
structure Itemizes (m : CostModel) (kinds : List String) (est : Estimate) : Prop where
  totalOps : est.totalOps = min (charged m kinds Coefficients.ops) Json.wordLimit
  memReads : est.memReads = min (charged m kinds Coefficients.memReads) Json.wordLimit
  memWrites : est.memWrites = min (charged m kinds Coefficients.memWrites) Json.wordLimit
  ioCalls : est.ioCalls = min (charged m kinds Coefficients.ioCalls) Json.wordLimit
  nodup : est.breakdown.keys.Nodup
  entries : ∀ kind cost, (kind, cost) ∈ est.breakdown.entries ↔
    kind ∈ kinds ∧ cost = costOf m kinds kind
  breakdown : est.totalOps =
    min (est.breakdown.entries.map fun entry => entry.2.ops).sum Json.wordLimit
  sorted : est.fallbackKinds.Pairwise (· < ·)
  unknown : ∀ kind, kind ∈ est.fallbackKinds ↔ kind ∈ kinds ∧ m.get? kind = none

lemma itemizes_of_estimate (run : e.estimate g kinds m = .ok est) : Itemizes m kinds est := by
  have sums := sums_totals m kinds
  rw [estimate, if_neg (not_not_intro (length_of_estimate run))] at run
  obtain rfl := Except.ok.inj run
  exact {
    totalOps := sums.ops
    memReads := sums.memReads
    memWrites := sums.memWrites
    ioCalls := sums.ioCalls
    nodup := Keyed.nodup_keys _
    entries := fun kind cost => sums.mem_entries_iff
    breakdown := sums.ops_eq_breakdown
    sorted := strict_mergeSort sums.nodup
    unknown := fun kind => (List.mergeSort_perm _ _).mem_iff.trans (sums.unknown kind) }

/-- Of the graph an estimate depends on the number of nodes, and of the kinds on how often each
occurs. -/
lemma estimate_perm (count : g'.nodeCount = g.nodeCount) (perm : kinds'.Perm kinds) :
    e.estimate g' kinds' m = e.estimate g kinds m := by
  obtain ⟨same, unknown⟩ := Sums.perm_unique perm (sums_totals m kinds') (sums_totals m kinds)
  unfold estimate
  rw [count, perm.length_eq, same]
  split
  · rfl
  · simp only [mergeSort_eq_of_perm unknown]

/-! ## Parts -/

/-- The counters of an estimate are those of two others added up. -/
structure AddsUp (first rest whole : Estimate) : Prop where
  totalOps : whole.totalOps = addCounters first.totalOps rest.totalOps
  memReads : whole.memReads = addCounters first.memReads rest.memReads
  memWrites : whole.memWrites = addCounters first.memWrites rest.memWrites
  ioCalls : whole.ioCalls = addCounters first.ioCalls rest.ioCalls

lemma Itemizes.addsUp (whole : Itemizes m (kinds ++ kinds') est) (left : Itemizes m kinds first)
    (right : Itemizes m kinds' rest) : AddsUp first rest est where
  totalOps := whole.totalOps.trans (counter_append left.totalOps right.totalOps)
  memReads := whole.memReads.trans (counter_append left.memReads right.memReads)
  memWrites := whole.memWrites.trans (counter_append left.memWrites right.memWrites)
  ioCalls := whole.ioCalls.trans (counter_append left.ioCalls right.ioCalls)

/-- A list with one kind per node is estimated exactly, and any other is refused with both numbers.
Whatever the edges and the order of the nodes, the estimate is the same, and estimates of the parts of
a list add up to it. -/
theorem estimate_exact (e : Estimator) (m : CostModel) (g : Graph) (kinds : List String) :
    (kinds.length ≠ g.nodeCount →
      e.estimate g kinds m = .error (.shapeMismatch g.nodeCount kinds.length)) ∧
    (kinds.length = g.nodeCount → ∃ est, e.estimate g kinds m = .ok est ∧ Itemizes m kinds est ∧
      ∀ g₁ kinds₁ first g₂ kinds₂ rest, kinds = kinds₁ ++ kinds₂ →
        e.estimate g₁ kinds₁ m = .ok first → e.estimate g₂ kinds₂ m = .ok rest →
        AddsUp first rest est) ∧
    (∀ g' kinds', g'.nodeCount = g.nodeCount → kinds'.Perm kinds →
      e.estimate g' kinds' m = e.estimate g kinds m) := by
  refine ⟨fun differ => if_pos differ, fun length => ?_, fun g' kinds' => estimate_perm⟩
  obtain ⟨est, run⟩ : ∃ est, e.estimate g kinds m = .ok est :=
    ⟨_, by rw [estimate, if_neg (not_not_intro length)]⟩
  refine ⟨est, run, itemizes_of_estimate run, ?_⟩
  intro g₁ kinds₁ first g₂ kinds₂ rest parts left right
  have whole := itemizes_of_estimate run
  rw [parts] at whole
  exact whole.addsUp (itemizes_of_estimate left) (itemizes_of_estimate right)

/-- Coefficients that fill a counter. -/
def heavyModel : CostModel :=
  .ofList [("heavy", ⟨Json.wordLimit, 4294967295, 1, 2⟩), ("light", ⟨3, 0, 0, 1⟩)]

/-- Four nodes without edges. -/
def fourNodes : Graph := ⟨true, #[0, 0, 0, 0, 0], #[], none, by decide⟩

/-- Two nodes, one of which reads the other. -/
def twoNodes : Graph := ⟨true, #[0, 1, 1], #[1], none, by decide⟩

/-- The counter of operations is full with the second node, and stays so. -/
theorem estimate_heavy : ∃ est first rest,
    default.estimate fourNodes ["light", "heavy", "zeal", "ardor"] heavyModel = .ok est ∧
    default.estimate twoNodes ["light", "heavy"] heavyModel = .ok first ∧
    default.estimate twoNodes ["zeal", "ardor"] heavyModel = .ok rest ∧
    default.estimate fourNodes ["zeal", "light", "ardor", "heavy"] heavyModel = .ok est ∧
    default.estimate twoNodes ["heavy"] heavyModel = .error (.shapeMismatch 2 1) ∧
    AddsUp first rest est ∧ est.totalOps = Json.wordLimit ∧ est.ioCalls = 3 ∧
    est.memReads = 4294967295 + 32 ∧ "zeal" ∈ est.fallbackKinds ∧ "light" ∉ est.fallbackKinds := by
  obtain ⟨first, left, -⟩ :=
    (estimate_exact default heavyModel twoNodes ["light", "heavy"]).2.1 rfl
  obtain ⟨rest, right, -⟩ :=
    (estimate_exact default heavyModel twoNodes ["zeal", "ardor"]).2.1 rfl
  obtain ⟨-, whole, reordered⟩ :=
    estimate_exact default heavyModel fourNodes ["light", "heavy", "zeal", "ardor"]
  obtain ⟨est, run, items, parts⟩ := whole rfl
  refine ⟨est, first, rest, run, left, right, ?_, ?_, ?_, ?_, ?_, ?_, ?_, ?_⟩
  · rw [← run]
    exact reordered fourNodes _ rfl (by decide)
  · exact (estimate_exact default heavyModel twoNodes ["heavy"]).1 (by decide)
  · exact parts twoNodes _ first twoNodes _ rest rfl left right
  · rw [items.totalOps]
    decide
  · rw [items.ioCalls]
    decide
  · rw [items.memReads]
    decide
  · exact (items.unknown "zeal").2 (by decide)
  · exact fun listed => absurd ((items.unknown "light").1 listed) (by decide)

end LedEffect.Estimator
