import LedEffect.Proofs.Program.Lowered

/-!
# Lowered effects

What the program of a resolved effect consists of (`Coded`): the statements of the nodes of frame
scope along the order, and for every palette sink a loop with the statements of the nodes of pixel
scope that the sink reaches. Lowering always gives such a program (`lower?_spec`).
-/

namespace LedEffect

namespace ResolvedEffect

/-- The palette sinks in dependency order. -/
noncomputable def paletteSinks (r : ResolvedEffect) : List Nat :=
  open Classical in r.order.toList.filter fun s => r.IsPaletteSink s

/-- The nodes that a node reaches, in dependency order. -/
noncomputable def reached (r : ResolvedEffect) (s : Nat) : List Nat :=
  open Classical in r.order.toList.filter fun v => r.Reaches s v

/-- Whether a live node computes with the centre of the strip. -/
def UsesCenter (r : ResolvedEffect) : Prop :=
  ∃ v n, r.Live v ∧ r.nodes[v]? = some n ∧
    (n.kind = .gradient ∨ n.kind = .paletteInterpolate ∧ n.inputs = [])

/-- Whether a live node computes with the index of the last pixel. -/
def UsesLast (r : ResolvedEffect) : Prop :=
  ∃ v n, r.Live v ∧ r.nodes[v]? = some n ∧
    (n.kind = .positionGradient ∨ n.kind = .spectrumInterpolate)

lemma mem_reached {r : ResolvedEffect} {s v : Nat} :
    v ∈ r.reached s ↔ v ∈ r.order.toList ∧ r.Reaches s v := by
  simp [reached]

lemma WellFormed.nodup_reached {r : ResolvedEffect} (wf : r.WellFormed) (s : Nat) :
    (r.reached s).Nodup := wf.nodup_order.filter _

/-- What a reached node reads over some others comes before it among the reached ones. -/
lemma WellFormed.reached_before {r : ResolvedEffect} (wf : r.WellFormed) {s u v : Nat}
    {before after : List Nat} (split : r.reached s = before ++ u :: after)
    (path : Relation.TransGen r.Reads u v) : v ∈ before := by
  classical
  unfold reached at split
  -- The order splits where its filtered part does.
  obtain ⟨first, second, order, rfl, tail⟩ := List.filter_eq_append_iff.1 split
  obtain ⟨dropped, rest, rfl, unreached, reaches, rfl⟩ := List.filter_eq_cons_iff.1 tail
  rw [← List.append_assoc] at order
  have reaches' : r.Reaches s v := (of_decide_eq_true reaches).trans path.to_reflTransGen
  rcases List.mem_append.1 (wf.path_before order path) with mem | mem
  · exact List.mem_filter.2 ⟨mem, decide_eq_true reaches'⟩
  · exact absurd (decide_eq_true reaches') (unreached v mem)

lemma WellFormed.mem_paletteSinks {r : ResolvedEffect} (wf : r.WellFormed) {s : Nat} :
    s ∈ r.paletteSinks ↔ r.IsPaletteSink s := by
  simp only [paletteSinks, List.mem_filter, decide_eq_true_eq, wf.mem_order, and_iff_right_iff_imp]
  exact IsPaletteSink.small

end ResolvedEffect

namespace Program

open ResolvedEffect

variable {r : ResolvedEffect} {palette : Palette} {values : Values}

/-- The constants of the strip that a program declares. -/
def constants (p : Program) : List Statement :=
  (if p.usesCenter then [.constant .center (.binary .mul lastPixel (.real 0.5))] else []) ++
    (if p.usesLast then [.constant .last lastPixel] else [])

/-- What a program does before its pixel loops. -/
def preamble (p : Program) : List Statement :=
  [.comment s!"glint effect: {p.name}", .comment "generated by glint; do not edit"] ++
    p.constants ++ p.frame

lemma statements_eq (p : Program) :
    p.statements = p.preamble ++ p.sinks.flatMap SinkCode.statements := by
  simp only [statements, preamble, constants, List.append_assoc]

/-- The statements of a node in a scope. -/
def blockAt (values : Values) (scope : Scope) (v : Nat) : List Statement :=
  match (values[v]?).join with
  | some l => if l.scope = scope then l.block else []
  | none => []

/-- Whether a node has statements in a scope. -/
def Emitted (values : Values) (scope : Scope) (v : Nat) : Prop :=
  ∃ l, values[v]? = some (some l) ∧ l.scope = scope ∧ l.block ≠ []

lemma blockAt_eq {scope : Scope} {v : Nat} {l : Lowered} (lowered : values[v]? = some (some l))
    (here : l.scope = scope) : blockAt values scope v = l.block := by
  simp [blockAt, lowered, here]

lemma blockAt_eq_nil {scope : Scope} {v : Nat} (idle : ¬ Emitted values scope v) :
    blockAt values scope v = [] := by
  unfold blockAt
  split
  next l lowered =>
    split
    next here =>
      by_contra block
      exact idle ⟨l, Option.join_eq_some_iff.1 lowered, here, block⟩
    next => rfl
  next => rfl

/-- Whether the variable of a node is computed when those of the nodes `done` are, as far as they
belong to a scope: at a pixel all that do not depend on it are computed before. -/
def Computed (r : ResolvedEffect) (scope : Scope) (done : List Nat) (v : Nat) : Prop :=
  scope = .pixel ∧ ¬ r.PerPixel v ∨ v ∈ done ∧ (r.PerPixel v → scope = .pixel)

/-- What a node without statements in a scope computes there is computed before. -/
lemma Computed.of_idle (wf : r.WellFormed) (lowers : Lowers r values) {scope : Scope}
    {done : List Nat} {u v : Nat} {l : Lowered} (idle : ¬ Emitted values scope v)
    (lowered : values[u]? = some (some l)) (materialized : r.Materialized u)
    (computed : Computed r scope (done ++ [v]) u) : Computed r scope done u := by
  rcases computed with before | ⟨mem, inside⟩
  · exact .inl before
  · rcases List.mem_append.1 mem with mem | mem
    · exact .inr ⟨mem, inside⟩
    · obtain rfl := List.mem_singleton.1 mem
      have outside : l.scope ≠ scope := fun here =>
        idle ⟨l, lowered, here, (lowers.block_ne_nil_iff lowered).2 materialized⟩
      have scope_iff := lowers.scope_iff wf lowered
      cases scope with
      | frame =>
        have perPixel : r.PerPixel u := scope_iff.1 (by
          cases eq : l.scope with
          | frame => exact absurd eq outside
          | pixel => rfl)
        cases inside perPixel
      | pixel => exact .inl ⟨rfl, fun perPixel => outside (scope_iff.2 perPixel)⟩

/-- A node computes only its own variable. -/
lemma Computed.of_snoc {scope : Scope} {done : List Nat} {u v : Nat}
    (computed : Computed r scope (done ++ [v]) u) : Computed r scope done u ∨ u = v := by
  rcases computed with before | ⟨mem, inside⟩
  · exact .inl (.inl before)
  · exact (List.mem_append.1 mem).imp (fun mem => .inr ⟨mem, inside⟩) List.mem_singleton.1

/-- What the code of a palette sink consists of. -/
structure SinkCoded (r : ResolvedEffect) (palette : Palette) (values : Values) (s : Nat)
    (code : SinkCode) : Prop where
  node : code.node = s
  colours : code.palette = palette
  body : ∃ n position brightness, r.nodes[s]? = some n ∧
    palettePosition? values n = some position ∧ n.param? "brightness" = some brightness ∧
    code.label = heading n ∧
    code.body = (r.reached s).flatMap (blockAt values .pixel) ++ position ++
      paletteWrite (.table s) palette.keyframes.length brightness

/-- What the program of a resolved effect consists of. -/
structure Coded (r : ResolvedEffect) (palette : Palette) (name : String) (values : Values)
    (p : Program) : Prop where
  title : p.name = name
  frame : p.frame = r.order.toList.flatMap (blockAt values .frame)
  sinks : List.Forall₂ (SinkCoded r palette values) r.paletteSinks p.sinks
  usesCenter : p.usesCenter = true ↔ r.UsesCenter
  usesLast : p.usesLast = true ↔ r.UsesLast

/-! ## Sinks -/

/-- What gives the palette position of a sink. -/
inductive Positioned (values : Values) (n : ResolvedNode) : List Statement → Prop
  | centred (inputs : n.inputs = []) :
    Positioned values n [.declare .float .pos (some centreDistance)]
  | wrapped {v : Nat} {rest : List Nat} {x : Expr} (inputs : n.inputs = v :: rest)
    (operand : operand? values n 0 = some x) :
    Positioned values n [.declare .float .pos (some (.call2 .fmodf x (.real 1))),
      .branch (.binary .lt (.name .pos) (.real 0)) [.assign (.name .pos) .add (.real 1)]]

lemma Positioned.of_palettePosition? {n : ResolvedNode} {position : List Statement}
    (positioned : palettePosition? values n = some position) : Positioned values n position := by
  unfold Program.palettePosition? at positioned
  split at positioned
  next inputs =>
    cases positioned
    exact .centred inputs
  next v rest inputs =>
    obtain ⟨x, operand, eq⟩ := Option.bind_eq_some_iff.1 positioned
    cases eq
    exact .wrapped inputs operand

lemma exists_palettePosition? (wf : r.WellFormed) (lowers : Lowers r values) {s : Nat}
    {n : ResolvedNode} (place : r.nodes[s]? = some n) (kind : n.kind = .paletteInterpolate) :
    ∃ position, palettePosition? values n = some position := by
  unfold palettePosition?
  split
  next => exact ⟨_, rfl⟩
  next v rest inputs =>
    have live : r.Live s := ⟨s, ⟨n, place, kind⟩, .refl⟩
    have first : n.inputs[0]? = some v := by simp [inputs]
    obtain ⟨l, lowered⟩ := lowers.input wf place live (by rw [kind]; decide)
      (List.mem_of_getElem? first)
    exact ⟨_, by rw [operand?_eq_some first lowered]; rfl⟩

lemma lowerSink?_spec (wf : r.WellFormed) (lowers : Lowers r values)
    (enough : 2 ≤ palette.keyframes.length) {s : Nat} (sink : r.IsPaletteSink s) :
    ∃ code, lowerSink? r palette values s = some code ∧ SinkCoded r palette values s code := by
  obtain ⟨n, place, kind⟩ := id sink
  obtain ⟨marks, search, size, marked⟩ := reachedBy?_spec wf sink.small
  obtain ⟨position, positioned⟩ := exists_palettePosition? wf lowers place kind
  obtain ⟨brightness, bright⟩ := @exists_param? n "brightness" (by
    rw [wf.params s n place, kind]
    decide)
  have reached : (r.order.toList.filter fun v => marks.getD v false) = r.reached s := by
    classical
    refine List.filter_congr fun v mem => ?_
    have small : v < marks.size := by
      rw [size]
      exact wf.mem_order.1 mem
    have mark := marked v
    rw [Array.getElem?_eq_getElem small, Option.some_inj] at mark
    rw [Array.getD_eq_getD_getElem?, Array.getElem?_eq_getElem small, Option.getD_some]
    exact Bool.eq_iff_iff.2 (mark.trans (by simp))
  refine ⟨⟨s, heading n, palette, (r.reached s).flatMap (blockAt values .pixel) ++ position ++
    paletteWrite (.table s) palette.keyframes.length brightness⟩,
    Option.bind_eq_some_iff.2 ⟨n, place, ?_⟩, rfl, rfl, n, position, brightness, place, positioned,
    bright, rfl, rfl⟩
  dsimp only
  rw [if_neg (Nat.not_lt.2 enough)]
  refine Option.bind_eq_some_iff.2 ⟨marks, search, Option.bind_eq_some_iff.2 ⟨position, positioned,
    Option.bind_eq_some_iff.2 ⟨brightness, bright, ?_⟩⟩⟩
  rw [reached]
  rfl

/-! ## Programs -/

/-- The statements of one scope, along the order. -/
lemma flatMap_stored {ordered : List (Nat × ResolvedNode)} {scope : Scope} :
    (((ordered.filterMap fun x => (values[x.1]?).join).filter fun l => !l.block.isEmpty).filter
        fun l => l.scope = scope).flatMap (·.block) =
      (ordered.map (·.1)).flatMap (blockAt values scope) := by
  induction ordered with
  | nil => rfl
  | cons x ordered ih =>
    rw [List.map_cons, List.flatMap_cons, ← ih, List.filterMap_cons, blockAt]
    cases entry : (values[x.1]?).join with
    | none => simp
    | some l =>
      cases block : l.block with
      | nil => simp [block]
      | cons first rest =>
        by_cases same : l.scope = scope
        · simp [block, same]
        · simp [block, same]

lemma filter_paletteSinks {ordered : List (Nat × ResolvedNode)}
    (nodes : ordered.map (·.1) = r.order.toList)
    (places : ∀ x ∈ ordered, r.nodes[x.1]? = some x.2) :
    (ordered.filter fun x => x.2.kind = .paletteInterpolate).map (·.1) = r.paletteSinks := by
  classical
  rw [paletteSinks, ← nodes, List.filter_map]
  congr 1
  refine List.filter_congr fun x mem => ?_
  have place := places x mem
  simp [IsPaletteSink, place]

/-- An emitted node is a live one. -/
lemma any_emitted_iff (wf : r.WellFormed) {live : Array Bool}
    (live_iff : ∀ v : Nat, live[v]? = some true ↔ r.Live v)
    {ordered : List (Nat × ResolvedNode)} (nodes : ordered.map (·.1) = r.order.toList)
    (places : ∀ x ∈ ordered, r.nodes[x.1]? = some x.2) (p : ResolvedNode → Bool) :
    ((ordered.filter fun x => live.getD x.1 false).any fun x => p x.2) = true ↔
      ∃ v n, r.Live v ∧ r.nodes[v]? = some n ∧ p n = true := by
  simp only [List.any_eq_true, List.mem_filter]
  constructor
  · rintro ⟨x, ⟨mem, mark⟩, chosen⟩
    refine ⟨x.1, x.2, (live_iff x.1).1 ?_, places x mem, chosen⟩
    cases entry : live[x.1]? with
    | none => simp [Array.getD_eq_getD_getElem?, entry] at mark
    | some b => simpa [Array.getD_eq_getD_getElem?, entry] using mark
  · rintro ⟨v, n, alive, place, chosen⟩
    have listed : v ∈ ordered.map (·.1) := by
      rw [nodes]
      exact wf.mem_order.2 (wf.live_small alive)
    obtain ⟨x, mem, rfl⟩ := List.mem_map.1 listed
    obtain rfl := Option.some_inj.1 ((places x mem).symm.trans place)
    refine ⟨x, ⟨mem, ?_⟩, chosen⟩
    rw [Array.getD_eq_getD_getElem?, (live_iff x.1).2 alive, Option.getD_some]

/-- What lowering tabulates before it emits code: the nodes in order, which of them are live, how
often each is read, and the lowered values. -/
structure Tabulated (r : ResolvedEffect) (ordered : List (Nat × ResolvedNode)) (live : Array Bool)
    (counts : Array Nat) (values : Values) : Prop where
  listed : orderedNodes? r = some ordered
  alive : liveNodes? r.nodes
    ((ordered.filter fun x => x.2.kind = .paletteInterpolate).map (·.1)) = some live
  counted : readers? r.nodes live = some counts
  filled : lowerValues? live counts ordered = some values
  nodes : ordered.map (·.1) = r.order.toList
  places : ∀ x ∈ ordered, r.nodes[x.1]? = some x.2
  size : live.size = r.nodes.size
  live_iff : ∀ v : Nat, live[v]? = some true ↔ r.Live v
  lowers : Lowers r values

/-- Lowering a well-formed effect tabulates what it needs. -/
lemma exists_tabulated (wf : r.WellFormed) :
    ∃ ordered live counts values, Tabulated r ordered live counts values := by
  obtain ⟨ordered, listed, nodes, places⟩ := orderedNodes?_spec wf
  have sinks := filter_paletteSinks nodes places
  obtain ⟨live, alive, size, live_iff⟩ := @liveNodes?_spec r wf r.paletteSinks fun s mem =>
    (wf.mem_paletteSinks.1 mem).small
  have live_iff : ∀ v : Nat, live[v]? = some true ↔ r.Live v := by
    intro v
    rw [live_iff]
    exact exists_congr fun s => and_congr_left fun _ => wf.mem_paletteSinks
  obtain ⟨counts, counted, -, readers⟩ := readers?_spec wf size live_iff
  obtain ⟨values, filled, lowers⟩ := lowerValues?_spec wf size live_iff readers nodes places
  exact ⟨ordered, live, counts, values, listed, sinks ▸ alive, counted, filled, nodes, places, size,
    live_iff, lowers⟩

/-- Lowering a well-formed effect with at least two colours gives its program. -/
theorem lower?_spec (wf : r.WellFormed) (enough : 2 ≤ palette.keyframes.length) (name : String) :
    ∃ program stats values, lower? r palette name = some (program, stats) ∧ Lowers r values ∧
      Coded r palette name values program := by
  obtain ⟨ordered, live, counts, values, tables⟩ := exists_tabulated wf
  have lowers := tables.lowers
  obtain ⟨codes, coded⟩ : ∃ codes, List.Forall₂
      (fun s code => lowerSink? r palette values s = some code ∧ SinkCoded r palette values s code)
      r.paletteSinks codes :=
    exists_forall₂ fun s mem => lowerSink?_spec wf lowers enough (wf.mem_paletteSinks.1 mem)
  let emitted := ordered.filter fun x => live.getD x.1 false
  let stored := (ordered.filterMap fun x => (values[x.1]?).join).filter fun l => !l.block.isEmpty
  let program : Program := {
    name := name
    usesCenter := emitted.any fun x =>
      x.2.kind = .gradient || (x.2.kind = .paletteInterpolate && x.2.inputs.isEmpty)
    usesLast := emitted.any fun x =>
      x.2.kind = .positionGradient || x.2.kind = .spectrumInterpolate
    frame := (stored.filter fun l => l.scope = .frame).flatMap (·.block)
    sinks := codes }
  have run : ∃ stats, lower? r palette name = some (program, stats) := by
    refine ⟨_, Option.bind_eq_some_iff.2 ⟨ordered, tables.listed, Option.bind_eq_some_iff.2
      ⟨live, tables.alive, Option.bind_eq_some_iff.2 ⟨counts, tables.counted,
        Option.bind_eq_some_iff.2 ⟨values, tables.filled,
          Option.bind_eq_some_iff.2 ⟨codes, ?_, rfl⟩⟩⟩⟩⟩⟩
    rw [filter_paletteSinks tables.nodes tables.places]
    exact mapM_eq_some.2 (coded.imp fun _ _ h => h.1)
  have any_emitted := any_emitted_iff wf tables.live_iff tables.nodes tables.places
  obtain ⟨stats, run⟩ := run
  refine ⟨program, stats, values, run, lowers, rfl, ?_, coded.imp fun _ _ h => h.2, ?_, ?_⟩
  · rw [← tables.nodes]
    exact flatMap_stored
  · simpa [program, emitted, UsesCenter] using any_emitted fun n =>
      n.kind = .gradient || (n.kind = .paletteInterpolate && n.inputs.isEmpty)
  · simpa [program, emitted, UsesLast] using any_emitted fun n =>
      n.kind = .positionGradient || n.kind = .spectrumInterpolate

end Program

end LedEffect
