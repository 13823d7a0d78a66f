import LedEffect.Proofs.Command.Report
import LedEffect.Proofs.Cost.Estimates

/-!
# Layers of cost models

Models merged over the builtin one give each kind the coefficients of the last of them that has it
(`CostModel.get?_layered`). The builtin model has every kind of the catalog, so effects that resolve
are charged nothing by default (`estimate_layered`).
-/

namespace LedEffect

/-- The text of a file is read, and the disk stays as it is. -/
lemma CostError.readText_iff {path text : String} {d d' : Disk} :
    Succeeds (CostError.readText path) d text d' ↔ d.readText path = .ok text ∧ d = d' := by
  rw [CostError.readText, Succeeds.bind_iff]
  constructor
  · rintro ⟨answer, _, read, rest⟩
    obtain ⟨found, rfl⟩ := Succeeds.readText_iff.1 read
    cases answer with
    | ok text =>
      obtain ⟨rfl, rfl⟩ := Succeeds.pure_iff.1 rest
      exact ⟨found, rfl⟩
    | error cause => exact absurd rest Succeeds.not_throw
  · rintro ⟨found, rfl⟩
    exact ⟨.ok text, d, Succeeds.readText_iff.2 ⟨found, rfl⟩, Succeeds.pure_iff.2 ⟨rfl, rfl⟩⟩

namespace CostModel

variable {stack : List CostModel} {kind : String} {c : Coefficients} {m model : CostModel}
  {d d' : Disk}

/-- The builtin model with a stack of models merged over it in order. -/
def layered (stack : List CostModel) : CostModel := stack.foldl Keyed.merge builtin

/-- What a stack of models over the builtin one gives a kind: the coefficients of the last model that
has the kind, or the builtin ones where no model has it. -/
inductive Prices (kind : String) (c : Coefficients) : List CostModel → Prop
  | builtin {stack : List CostModel} (absent : ∀ m ∈ stack, m.get? kind = none)
      (found : builtin.get? kind = some c) : Prices kind c stack
  | layer {below above : List CostModel} {top : CostModel} (found : top.get? kind = some c)
      (absent : ∀ m ∈ above, m.get? kind = none) : Prices kind c (below ++ top :: above)

lemma layered_snoc (stack : List CostModel) (m : CostModel) :
    layered (stack ++ [m]) = (layered stack).merge m := by
  rw [layered, List.foldl_append]
  rfl

/-- Models without a kind do not change what a kind stands for. -/
lemma get?_foldl_merge (absent : ∀ m ∈ stack, m.get? kind = none) (m : CostModel) :
    (stack.foldl Keyed.merge m).get? kind = m.get? kind := by
  induction stack generalizing m with
  | nil => rfl
  | cons top stack ih =>
    obtain ⟨here, absent⟩ := List.forall_mem_cons.1 absent
    rw [List.foldl_cons, ih absent, Keyed.get?_merge, here, Option.none_or]

lemma Prices.snoc (prices : Prices kind c stack) (absent : m.get? kind = none) :
    Prices kind c (stack ++ [m]) := by
  cases prices with
  | builtin none found =>
    exact .builtin (List.forall_mem_append.2 ⟨none, List.forall_mem_singleton.2 absent⟩) found
  | layer found none =>
    rw [List.append_assoc, List.cons_append]
    exact .layer found (List.forall_mem_append.2 ⟨none, List.forall_mem_singleton.2 absent⟩)

/-- A layered model has the coefficients of the last model with the kind. -/
lemma get?_layered : (layered stack).get? kind = some c ↔ Prices kind c stack := by
  constructor
  · intro found
    induction stack using List.reverseRecOn with
    | nil =>
      rw [layered, List.foldl_nil] at found
      exact .builtin (List.forall_mem_nil _) found
    | append_singleton stack m ih =>
      rw [layered_snoc, Keyed.get?_merge] at found
      cases here : m.get? kind with
      | none =>
        rw [here, Option.none_or] at found
        exact (ih found).snoc here
      | some top =>
        rw [here, Option.some_or] at found
        exact .layer (here.trans found) (List.forall_mem_nil _)
  · rintro (⟨absent, found⟩ | ⟨found, absent⟩)
    · rw [layered, get?_foldl_merge absent, found]
    · rw [layered, List.foldl_append, List.foldl_cons, get?_foldl_merge absent, Keyed.get?_merge,
        found, Option.some_or]

lemma Prices.lookup (prices : Prices kind c stack) : lookup (layered stack) kind = (c, .model) := by
  rw [CostModel.lookup, get?_layered.2 prices]

/-- The builtin model has every kind of the catalog. -/
lemma exists_builtin (k : Kind) : ∃ c, builtin.get? k.id = some c := by
  have keys : ∀ k ∈ Kind.all, k.id ∈ builtin.keys := by decide
  exact Keyed.mem_keys_iff.1 (keys k k.mem_all)

/-- Every kind of the catalog has coefficients, whatever models are merged over the builtin one. -/
lemma exists_prices (k : Kind) (stack : List CostModel) : ∃ c, Prices k.id c stack := by
  induction stack using List.reverseRecOn with
  | nil =>
    obtain ⟨c, found⟩ := exists_builtin k
    exact ⟨c, .builtin (List.forall_mem_nil _) found⟩
  | append_singleton stack m ih =>
    obtain ⟨c, prices⟩ := ih
    cases here : m.get? k.id with
    | none => exact ⟨c, prices.snoc here⟩
    | some top => exact ⟨top, .layer here (List.forall_mem_nil _)⟩

/-! ## Commands -/

/-- The model that is loaded is that of the text of the file. -/
lemma load_iff {path : String} : Succeeds (load path) d m d' ↔
    ∃ text, d.readText path = .ok text ∧ ofJson text = .ok m ∧ d = d' := by
  rw [load, Succeeds.bind_iff]
  constructor
  · rintro ⟨text, _, read, parsed⟩
    obtain ⟨found, rfl⟩ := CostError.readText_iff.1 read
    obtain ⟨decoded, rfl⟩ := Succeeds.mk_pure_iff.1 parsed
    exact ⟨text, found, decoded, rfl⟩
  · rintro ⟨text, found, decoded, rfl⟩
    exact ⟨text, d, CostError.readText_iff.2 ⟨found, rfl⟩, Succeeds.mk_pure_iff.2 ⟨decoded, rfl⟩⟩

/-- Reading a model leaves the disk as it is. -/
lemma unchanged_of_load {path : String} (run : Succeeds (load path) d m d') : d = d' := by
  obtain ⟨text, -, -, rfl⟩ := load_iff.1 run
  rfl

/-- The models in files, read in order. -/
def Loaded (d : Disk) (paths : List String) (stack : List CostModel) : Prop :=
  List.Forall₂ (fun m path => Succeeds (load path) d m d) stack paths

/-- Merging a model that a file may be named for. -/
lemma merged_iff {ε : Type} {f : CostError → ε} {path? : Option String} :
    Succeeds (match path? with
      | none => pure m
      | some path => do
        let further ← (load path).adapt f
        pure (m.merge further) : ExceptT ε (StateM Disk) CostModel) d model d' ↔
      d = d' ∧ ∃ stack, Loaded d path?.toList stack ∧ model = stack.foldl Keyed.merge m := by
  cases path? with
  | none => simp [Succeeds.pure_iff, Loaded, eq_comm, and_comm]
  | some path =>
    simp only [Loaded, Option.toList_some, List.forall₂_cons_right_iff, List.forall₂_nil_right_iff]
    rw [Succeeds.bind_iff]
    constructor
    · rintro ⟨further, left, run, rest⟩
      have read := Succeeds.adapt_iff.1 run
      obtain rfl := unchanged_of_load read
      obtain ⟨rfl, rfl⟩ := Succeeds.pure_iff.1 rest
      exact ⟨rfl, _, ⟨further, [], read, rfl, rfl⟩, rfl⟩
    · rintro ⟨rfl, _, ⟨further, _, read, rfl, rfl⟩, rfl⟩
      exact ⟨further, d, Succeeds.adapt_iff.2 read, Succeeds.pure_iff.2 ⟨rfl, rfl⟩⟩

/-- The cost model of a command is the builtin one with the configured model and a further one over
it, as far as they are named. -/
lemma costModel_iff {s : Settings} {further : Option String} :
    Succeeds (Command.costModel s further) d model d' ↔
      d = d' ∧ ∃ stack, Loaded d (s.costModel.toList ++ further.toList) stack ∧
        model = layered stack := by
  have configured : ∀ {m d₁}, Succeeds s.loadCostModel d m d₁ ↔
      d = d₁ ∧ ∃ stack, Loaded d s.costModel.toList stack ∧ m = stack.foldl Keyed.merge builtin :=
    merged_iff
  unfold Command.costModel
  rw [Succeeds.bind_iff]
  constructor
  · rintro ⟨m, left, first, rest⟩
    obtain ⟨rfl, below, loaded, rfl⟩ := configured.1 (Succeeds.adapt_iff.1 first)
    obtain ⟨rfl, above, loaded', rfl⟩ := merged_iff.1 rest
    exact ⟨rfl, below ++ above, List.rel_append loaded loaded', List.foldl_append.symm⟩
  · rintro ⟨rfl, stack, loaded, rfl⟩
    have below := List.forall₂_take_append _ _ _ loaded
    have above := List.forall₂_drop_append _ _ _ loaded
    refine ⟨_, d, Succeeds.adapt_iff.2 (configured.2 ⟨rfl, _, below, rfl⟩),
      merged_iff.2 ⟨rfl, _, above, ?_⟩⟩
    rw [layered, ← List.foldl_append, List.take_append_drop]

end CostModel

/-! ## Estimates of effects -/

variable {effect : Effect} {r : ResolvedEffect} {est : Estimate} {stack : List CostModel}

open CostModel

/-- An estimate charges every node what a stack of models gives its kind, and nothing by default. -/
structure ChargedBy (stack : List CostModel) (r : ResolvedEffect) (est : Estimate) : Prop where
  fallbackKinds : est.fallbackKinds = []
  charges : ∃ charges, List.Forall₂ (fun n c => Prices n.kind.id c stack) r.nodes.toList charges ∧
    est.totalOps = min (charges.map Coefficients.ops).sum Json.wordLimit ∧
    est.memReads = min (charges.map Coefficients.memReads).sum Json.wordLimit ∧
    est.memWrites = min (charges.map Coefficients.memWrites).sum Json.wordLimit ∧
    est.ioCalls = min (charges.map Coefficients.ioCalls).sum Json.wordLimit
  entries : ∀ kind cost, (kind, cost) ∈ est.breakdown.entries → ∃ c, Prices kind c stack ∧
    cost = ⟨r.kinds.count kind, min (r.kinds.count kind * c.ops) Json.wordLimit⟩

lemma chargedBy_of_itemizes (items : Estimator.Itemizes (layered stack) r.kinds est) :
    ChargedBy stack r est where
  fallbackKinds := by
    rw [List.eq_nil_iff_forall_not_mem]
    intro kind listed
    obtain ⟨mem, unknown⟩ := (items.unknown kind).1 listed
    obtain ⟨n, -, rfl⟩ := List.mem_map.1 mem
    obtain ⟨c, prices⟩ := exists_prices n.kind stack
    rw [get?_layered.2 prices] at unknown
    cases unknown
  charges := by
    have sums : ∀ part : Coefficients → Nat, Estimator.charged (layered stack) r.kinds part =
        ((r.nodes.toList.map fun n => (lookup (layered stack) n.kind.id).1).map part).sum := by
      intro part
      rw [Estimator.charged, ResolvedEffect.kinds, List.map_map, List.map_map]
      rfl
    refine ⟨r.nodes.toList.map fun n => (lookup (layered stack) n.kind.id).1, ?_,
      by rw [items.totalOps, sums], by rw [items.memReads, sums], by rw [items.memWrites, sums],
      by rw [items.ioCalls, sums]⟩
    rw [List.forall₂_map_right_iff, List.forall₂_same]
    intro n _
    obtain ⟨c, prices⟩ := exists_prices n.kind stack
    rwa [prices.lookup]
  entries kind cost entry := by
    obtain ⟨mem, eq⟩ := (items.entries kind cost).1 entry
    obtain ⟨n, -, rfl⟩ := List.mem_map.1 mem
    obtain ⟨c, prices⟩ := exists_prices n.kind stack
    refine ⟨c, prices, ?_⟩
    rw [eq, Estimator.costOf, prices.lookup]

/-- A resolved effect can be estimated with whatever models are merged over the builtin one, and each
of its nodes is charged what the last model with its kind says, or else the builtin model. Commands
estimate with such a model: the configured one lies over the builtin one and a further one over both.
How models are grouped when they are merged does not matter, nor does a model merged twice or without
entries. -/
theorem estimate_layered (resolved : effect.resolve = .ok r) (e : Estimator) :
    (∀ stack, ∃ est, e.estimate r.view r.kinds (layered stack) = .ok est ∧ ChargedBy stack r est) ∧
    (∀ s further d d' model, Succeeds (Command.costModel s further) d model d' ↔
      d = d' ∧ ∃ stack, Loaded d (s.costModel.toList ++ further.toList) stack ∧
        model = layered stack) ∧
    (∀ a b c : CostModel, (a.merge b).merge c = a.merge (b.merge c)) ∧
    ∀ m : CostModel, m.merge m = m ∧ m.merge .empty = m ∧ Keyed.empty.merge m = m := by
  refine ⟨fun stack => ?_, fun s further d d' model => costModel_iff, Keyed.merge_assoc,
    fun m => ⟨m.merge_self, m.merge_empty, m.empty_merge⟩⟩
  obtain ⟨est, run⟩ := exists_estimate resolved e (layered stack)
  exact ⟨est, run, chargedBy_of_itemizes (Estimator.itemizes_of_estimate run)⟩

/-- Two models over the builtin one: both have the time, and one has a kind outside the catalog. -/
def retimed : List CostModel :=
  [.ofList [("time", ⟨5, 0, 0, 0⟩), ("zeal", ⟨1, 1, 1, 1⟩)], .ofList [("time", ⟨7, 2, 0, 0⟩)]]

/-- Two strips are charged the time of the last model and the builtin palettes. -/
theorem estimate_retimed : ∃ r est, twoStrips.resolve = .ok r ∧
    Estimator.default.estimate r.view r.kinds (layered retimed) = .ok est ∧
    ChargedBy retimed r est ∧ Prices "time" ⟨7, 2, 0, 0⟩ retimed ∧
    Prices "palette-interpolate" ⟨6144, 768, 384, 0⟩ retimed := by
  have accepted : twoStrips.resolve.isOk = true := by decide +kernel
  obtain ⟨r, resolved⟩ := exists_of_isOk accepted
  obtain ⟨est, run, charged⟩ := (estimate_layered resolved .default).1 retimed
  exact ⟨r, est, resolved, run, charged, get?_layered.1 (by decide),
    get?_layered.1 (by decide)⟩

end LedEffect
