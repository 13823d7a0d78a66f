import LedEffect.Program.Printer
import LedEffect.Proofs.Program.Counters
import LedEffect.Proofs.Program.Embedding

/-!
# Programs along other orders

The nodes of an embedded effect occur in some order of theirs inside the larger one
(`Embeds.exists_order`). The program of the larger effect is the program of the embedded one along
that order, renumbered (`Coded.embedded`); along different orders an effect has the same statements
in different places (`Coded.rearranged`), hence the same lines (`Rearranged.lines_perm`).
-/

namespace LedEffect

/-- A resolved effect with its nodes in another order. -/
def ResolvedEffect.along (r : ResolvedEffect) (order : List Nat) : ResolvedEffect :=
  { r with order := order.toArray }

namespace ResolvedEffect

variable {φ : Nat → Nat} {r r' : ResolvedEffect} {σ : List Nat} {s : Nat}

/-- The nodes that correspond to those of an embedded effect, in dependency order. -/
noncomputable def kept (φ : Nat → Nat) (r r' : ResolvedEffect) : List Nat :=
  open Classical in r'.order.toList.filter fun w => ∃ v < r.nodes.size, φ v = w

lemma mem_kept {w : Nat} :
    w ∈ kept φ r r' ↔ w ∈ r'.order.toList ∧ ∃ v < r.nodes.size, φ v = w := by
  simp [kept]

/-- Nodes that correspond to others are found among the kept ones. -/
lemma filter_kept {P : Nat → Prop} [DecidablePred P]
    (image : ∀ w, P w → ∃ v < r.nodes.size, φ v = w) :
    (kept φ r r').filter P = r'.order.toList.filter P := by
  rw [kept, List.filter_filter]
  refine List.filter_congr fun w _ => ?_
  rw [Bool.eq_iff_iff]
  simpa using image w

/-- The nodes of an embedded effect occur in some order of theirs. -/
lemma Embeds.exists_order (embeds : r.Embeds φ r') (wf : r.WellFormed) (wf' : r'.WellFormed) :
    ∃ σ : List Nat, kept φ r r' = σ.map φ ∧ σ.Perm r.order.toList := by
  have nodup : (kept φ r r').Nodup := wf'.nodup_order.filter _
  have perm : (kept φ r r').Perm (r.order.toList.map φ) := by
    refine (List.perm_ext_iff_of_nodup nodup (wf.nodup_order.map embeds.injective)).2 fun w => ?_
    rw [mem_kept, wf'.mem_order]
    simp only [List.mem_map, wf.mem_order, and_iff_right_iff_imp]
    rintro ⟨v, small, rfl⟩
    obtain ⟨n, place⟩ := Embeds.exists_node small
    exact (Array.getElem?_eq_some_iff.1 (embeds.node v n place)).1
  exact (congrFun₂ (List.eq_map_comp_perm φ) _ _).mpr perm

/-- Of the kept nodes those are chosen that correspond to the chosen ones. -/
lemma Embeds.filter_order (embeds : r.Embeds φ r') (same : kept φ r r' = σ.map φ)
    {P P' : Nat → Prop} [DecidablePred P] [DecidablePred P'] (inside : ∀ v, P v → v < r.nodes.size)
    (corresponds : ∀ w, P' w ↔ ∃ v, P v ∧ φ v = w) :
    r'.order.toList.filter P' = (σ.filter P).map φ := by
  have image : ∀ w, P' w → ∃ v < r.nodes.size, φ v = w := by
    intro w chosen
    obtain ⟨v, here, rfl⟩ := (corresponds w).1 chosen
    exact ⟨v, inside v here, rfl⟩
  rw [← filter_kept image, same, List.filter_map]
  refine congrArg _ (List.filter_congr fun v _ => decide_eq_decide.2 ?_)
  rw [corresponds]
  exact ⟨fun ⟨u, here, eq⟩ => embeds.injective eq ▸ here, fun here => ⟨v, here, rfl⟩⟩

lemma Embeds.paletteSinks (embeds : r.Embeds φ r') (same : kept φ r r' = σ.map φ) :
    r'.paletteSinks = (r.along σ).paletteSinks.map φ := by
  classical
  exact embeds.filter_order same (fun _ => IsPaletteSink.small) fun _ => embeds.isPaletteSink_iff

lemma mem_paletteSinks_along : s ∈ (r.along σ).paletteSinks ↔ s ∈ σ ∧ r.IsPaletteSink s := by
  classical
  exact List.mem_filter.trans (and_congr_right fun _ => decide_eq_true_iff)

lemma Embeds.reached (embeds : r.Embeds φ r') (wf : r.WellFormed) (same : kept φ r r' = σ.map φ)
    (small : s < r.nodes.size) : r'.reached (φ s) = ((r.along σ).reached s).map φ := by
  classical
  exact embeds.filter_order same (fun _ => wf.reaches_small small) fun _ => embeds.reaches_iff wf small

/-- A property of nodes that does not depend on numbers holds of live nodes of both or of none. -/
lemma Embeds.exists_live (embeds : r.Embeds φ r') (wf : r.WellFormed) {P : ResolvedNode → Prop}
    (free : ∀ n, P { n with inputs := n.inputs.map φ } ↔ P n) :
    (∃ (w : Nat) (n : ResolvedNode), r'.Live w ∧ r'.nodes[w]? = some n ∧ P n) ↔
      ∃ (v : Nat) (n : ResolvedNode), r.Live v ∧ r.nodes[v]? = some n ∧ P n := by
  constructor
  · rintro ⟨w, n', live', place', holds⟩
    obtain ⟨v, live, rfl⟩ := (embeds.live_iff wf).1 live'
    obtain ⟨n, place⟩ := Embeds.exists_node (wf.live_small live)
    obtain rfl := Option.some_inj.1 ((embeds.node v n place).symm.trans place')
    exact ⟨v, n, live, place, (free n).1 holds⟩
  · rintro ⟨v, n, live, place, holds⟩
    exact ⟨φ v, _, (embeds.live wf).2 live, embeds.node v n place, (free n).2 holds⟩

lemma Embeds.usesCenter (embeds : r.Embeds φ r') (wf : r.WellFormed) :
    r'.UsesCenter ↔ r.UsesCenter :=
  embeds.exists_live wf fun n => by simp

lemma Embeds.usesLast (embeds : r.Embeds φ r') (wf : r.WellFormed) : r'.UsesLast ↔ r.UsesLast :=
  embeds.exists_live wf fun n => by simp

end ResolvedEffect

namespace Program

open ResolvedEffect

variable {φ : Nat → Nat} {r r' : ResolvedEffect} {palette : Palette} {name : String}
  {values values' : Values} {σ : List Nat} {s : Nat} {p p' : Program} {code code' : SinkCode}

/-! ## Embedded programs -/

/-- The blocks along a list of corresponding nodes are those of the nodes, renumbered. -/
lemma flatMap_blockAt_map (lowers : Lowers r values) (lowers' : Lowers r' values')
    (embeds : r.Embeds φ r') (wf : r.WellFormed) (scope : Scope) (vs : List Nat) :
    (vs.map φ).flatMap (blockAt values' scope) =
      renumberAll φ (vs.flatMap (blockAt values scope)) := by
  rw [List.flatMap_map, renumberAll_flatMap]
  exact congrArg (List.flatMap · vs)
    (funext fun v => blockAt_renumber lowers lowers' embeds wf scope v)

/-- Nodes that correspond to none have no blocks. -/
lemma flatMap_blockAt_kept (lowers : Lowers r values) (lowers' : Lowers r' values')
    (embeds : r.Embeds φ r') (wf : r.WellFormed) (scope : Scope) :
    r'.order.toList.flatMap (blockAt values' scope) =
      (kept φ r r').flatMap (blockAt values' scope) := by
  unfold kept
  induction r'.order.toList with
  | nil => rfl
  | cons w rest ih =>
    rw [List.flatMap_cons, ih, List.filter_cons]
    split
    next => rw [List.flatMap_cons]
    next besides =>
      have idle : blockAt values' scope w = [] := by
        rw [blockAt, join_eq_none lowers lowers' embeds wf fun v small eq =>
          besides (decide_eq_true ⟨v, small, eq⟩)]
      rw [idle, List.nil_append]

lemma palettePosition?_renumber {n : ResolvedNode} (inputs : InputsAlike φ values values' n) :
    palettePosition? values' { n with inputs := n.inputs.map φ } =
      (palettePosition? values n).map (renumberAll φ) := by
  have operands := operand?_renumber inputs 0
  unfold palettePosition?
  cases empty : n.inputs with
  | nil => rfl
  | cons v rest =>
    rw [empty] at operands
    simp only [List.map_cons] at operands ⊢
    rw [operands]
    cases operand? values n 0 <;> rfl

/-- The code of an embedded palette sink is that of the sink, renumbered. -/
lemma SinkCoded.embedded (lowers : Lowers r values) (lowers' : Lowers r' values')
    (embeds : r.Embeds φ r') (wf : r.WellFormed) (same : kept φ r r' = σ.map φ)
    (sink : r.IsPaletteSink s) (coded : SinkCoded r' palette values' (φ s) code') :
    ∃ code, SinkCoded (r.along σ) palette values s code ∧ code.renumber φ = code' := by
  obtain ⟨n, place, kind⟩ := id sink
  have live : r.Live s := ⟨s, sink, .refl⟩
  have inputs : InputsAlike φ values values' n := by
    intro u mem
    obtain ⟨l, input⟩ := lowers.input wf place live (by rw [kind]; decide) mem
    exact ⟨l, input, lowers.renumber lowers' embeds wf input⟩
  obtain ⟨n', position', brightness, place', positioned', bright, label, body⟩ := coded.body
  obtain rfl := Option.some_inj.1 ((embeds.node s n place).symm.trans place')
  rw [palettePosition?_renumber inputs] at positioned'
  obtain ⟨position, positioned, rfl⟩ := Option.map_eq_some_iff.1 positioned'
  refine ⟨⟨s, heading n, palette, ((r.along σ).reached s).flatMap (blockAt values .pixel) ++
    position ++ paletteWrite (.table s) palette.keyframes.length brightness⟩,
    ⟨rfl, rfl, n, position, brightness, place, positioned, bright, rfl, rfl⟩, ?_⟩
  rw [embeds.reached wf same sink.small, flatMap_blockAt_map lowers lowers' embeds wf] at body
  obtain ⟨node, label', colours, body'⟩ := code'
  obtain rfl : node = φ s := coded.node
  obtain rfl : colours = palette := coded.colours
  obtain rfl : label' = heading n := label
  simp only at body
  rw [body, SinkCode.renumber, renumberAll_append, renumberAll_append, renumber_paletteWrite]
  rfl

/-- The program of a larger effect is that of the embedded one along the order in which its nodes
occur, renumbered. -/
lemma Coded.embedded (lowers : Lowers r values) (lowers' : Lowers r' values')
    (embeds : r.Embeds φ r') (wf : r.WellFormed) (same : kept φ r r' = σ.map φ)
    (coded : Coded r' palette name values' p') :
    ∃ p, Coded (r.along σ) palette name values p ∧ p' = p.renumber φ := by
  have sinks := coded.sinks
  rw [embeds.paletteSinks same, List.forall₂_map_left_iff] at sinks
  obtain ⟨codes, coded', eq⟩ := Forall₂.exists_map sinks fun s mem code here =>
    here.embedded lowers lowers' embeds wf same (mem_paletteSinks_along.1 mem).2
  refine ⟨⟨name, p'.usesCenter, p'.usesLast, σ.flatMap (blockAt values .frame), codes⟩,
    ⟨rfl, by simp [along], coded', ?_, ?_⟩, ?_⟩
  · exact coded.usesCenter.trans (embeds.usesCenter wf)
  · exact coded.usesLast.trans (embeds.usesLast wf)
  · have frame := coded.frame
    rw [flatMap_blockAt_kept lowers lowers' embeds wf, same,
      flatMap_blockAt_map lowers lowers' embeds wf] at frame
    obtain ⟨title, center, last, statements, all⟩ := p'
    obtain rfl : title = name := coded.title
    simp only at frame eq
    rw [frame, ← eq]
    rfl

/-! ## Programs along two orders -/

/-- Whether the codes of two sinks have the same statements, possibly in different places. -/
structure RearrangedSink (code code' : SinkCode) : Prop where
  node : code.node = code'.node
  label : code.label = code'.label
  colours : code.palette = code'.palette
  body : code.body.Perm code'.body

/-- Whether two programs have the same statements and sinks, possibly in different places. -/
structure Rearranged (p p' : Program) : Prop where
  title : p.name = p'.name
  usesCenter : p.usesCenter = p'.usesCenter
  usesLast : p.usesLast = p'.usesLast
  frame : p.frame.Perm p'.frame
  sinks : Relation.Comp (List.Forall₂ RearrangedSink) List.Perm p.sinks p'.sinks

/-- The codes of a sink along two orders differ in the order of the blocks of the reached nodes. -/
lemma SinkCoded.along (coded : SinkCoded (r.along σ) palette values s code)
    (coded' : SinkCoded r palette values s code') :
    ∃ label tail,
      code = ⟨s, label, palette, ((r.along σ).reached s).flatMap (blockAt values .pixel) ++ tail⟩ ∧
        code' = ⟨s, label, palette, (r.reached s).flatMap (blockAt values .pixel) ++ tail⟩ := by
  obtain ⟨n, position, brightness, place, positioned, bright, label, body⟩ := coded.body
  obtain ⟨n', position', brightness', place', positioned', bright', label', body'⟩ := coded'.body
  obtain rfl := Option.some_inj.1 (place.symm.trans place')
  obtain rfl := Option.some_inj.1 (positioned.symm.trans positioned')
  obtain rfl := Option.some_inj.1 (bright.symm.trans bright')
  rw [List.append_assoc] at body body'
  refine ⟨heading n, position ++ paletteWrite (.table s) palette.keyframes.length brightness, ?_, ?_⟩
  · rw [← body, ← label, ← coded.node, ← coded.colours]
  · rw [← body', ← label', ← coded'.node, ← coded'.colours]

/-- A resolved effect has one program. -/
lemma Coded.unique (coded : Coded r palette name values p) (coded' : Coded r palette name values p') :
    p = p' := by
  have center : p.usesCenter = p'.usesCenter := by
    rw [Bool.eq_iff_iff, coded.usesCenter, coded'.usesCenter]
  have last : p.usesLast = p'.usesLast := by
    rw [Bool.eq_iff_iff, coded.usesLast, coded'.usesLast]
  have sinks : List.Forall₂ Eq p.sinks p'.sinks := by
    refine Forall₂.meet coded.sinks coded'.sinks fun s _ code code' here here' => ?_
    obtain ⟨label, tail, rfl, rfl⟩ := SinkCoded.along (σ := r.order.toList) here here'
    rfl
  have title := coded.title.trans coded'.title.symm
  have frame := coded.frame.trans coded'.frame.symm
  rw [List.forall₂_eq_eq_eq] at sinks
  cases p
  cases p'
  simp only at title center last frame sinks
  rw [title, center, last, frame, sinks]

/-- The program of an effect has the same statements along every order. -/
lemma Coded.rearranged (perm : σ.Perm r.order.toList) (coded : Coded (r.along σ) palette name values p)
    (coded' : Coded r palette name values p') : p.Rearranged p' := by
  classical
  have sinks : ((r.along σ).paletteSinks).Perm r.paletteSinks := perm.filter _
  refine ⟨coded.title.trans coded'.title.symm, ?_, ?_, ?_, ?_⟩
  · rw [Bool.eq_iff_iff, coded.usesCenter, coded'.usesCenter]
    rfl
  · rw [Bool.eq_iff_iff, coded.usesLast, coded'.usesLast]
    rfl
  · rw [coded.frame, coded'.frame]
    exact perm.flatMap_right _
  · obtain ⟨codes, each, all⟩ := List.perm_comp_forall₂ sinks coded'.sinks
    refine ⟨codes, Forall₂.meet coded.sinks each fun s _ code code' here here' => ?_, all⟩
    obtain ⟨label, tail, rfl, rfl⟩ := here.along here'
    have reached : ((r.along σ).reached s).Perm (r.reached s) := perm.filter _
    exact ⟨rfl, rfl, rfl, (reached.flatMap_right _).append_right _⟩

lemma RearrangedSink.renumber (same : RearrangedSink code code') :
    RearrangedSink (code.renumber φ) (code'.renumber φ) := by
  refine ⟨congrArg φ same.node, same.label, same.colours, ?_⟩
  simp only [SinkCode.renumber, renumberAll_eq_map]
  exact same.body.map _

/-- Renumbered programs have the same statements when the programs do. -/
lemma Rearranged.renumber (same : p.Rearranged p') :
    (p.renumber φ).Rearranged (p'.renumber φ) := by
  refine ⟨same.title, same.usesCenter, same.usesLast, ?_, ?_⟩
  · simp only [Program.renumber, renumberAll_eq_map]
    exact same.frame.map _
  · obtain ⟨codes, each, all⟩ := same.sinks
    refine ⟨codes.map (SinkCode.renumber φ), ?_, all.map _⟩
    rw [Program.renumber, List.forall₂_map_left_iff, List.forall₂_map_right_iff]
    exact each.imp fun _ _ here => here.renumber

/-! ## Lines -/

variable (target : TargetProfile)

lemma linesOf_eq_flatMap (level : Nat) (stmts : List Statement) :
    linesOf target level stmts = stmts.flatMap (Statement.lines target level) := by
  induction stmts with
  | nil => rfl
  | cons s stmts ih => exact congrArg (s.lines target level ++ ·) ih

/-- The same statements have the same lines. -/
lemma linesOf_perm {stmts stmts' : List Statement} (perm : stmts.Perm stmts') (level : Nat) :
    (linesOf target level stmts).Perm (linesOf target level stmts') := by
  rw [linesOf_eq_flatMap, linesOf_eq_flatMap]
  exact perm.flatMap_right _

lemma RearrangedSink.lines_perm (same : RearrangedSink code code') (level : Nat) :
    (linesOf target level code.statements).Perm (linesOf target level code'.statements) := by
  have body := linesOf_perm target same.body (level + 1)
  simp only [SinkCode.statements, linesOf, Statement.lines, same.node, same.label, same.colours]
  exact (((body.cons _).append_right _).append_right _).append_left _ |>.append_left _

/-- Rearranged programs have the same lines. -/
lemma Rearranged.lines_perm (same : p.Rearranged p') : (p.lines target).Perm (p'.lines target) := by
  have preamble : p.preamble.Perm p'.preamble := by
    rw [Program.preamble, Program.preamble, constants, constants, same.title, same.usesCenter,
      same.usesLast]
    exact same.frame.append_left _
  have sinks : (p.sinks.flatMap fun code => linesOf target 0 code.statements).Perm
      (p'.sinks.flatMap fun code => linesOf target 0 code.statements) := by
    obtain ⟨codes, each, all⟩ := same.sinks
    refine (List.Perm.flatten_congr ?_).trans (all.flatMap_right _)
    rw [List.forall₂_map_left_iff, List.forall₂_map_right_iff]
    exact each.imp fun _ _ here => here.lines_perm target 0
  have split : ∀ q : Program, q.lines target =
      linesOf target 0 q.preamble ++ q.sinks.flatMap fun code => linesOf target 0 code.statements := by
    intro q
    simp only [lines, statements_eq, linesOf_eq_flatMap, List.flatMap_append, List.flatMap_assoc]
  rw [split, split]
  exact (linesOf_perm target preamble 0).append sinks

/-! ## Counters -/

variable {r' : ResolvedEffect} {values' : Values}

/-- As many nodes are lowered to something with a property as in an embedded effect. -/
lemma countP_embedded (lowers : Lowers r values) (lowers' : Lowers r' values')
    (embeds : r.Embeds φ r') (wf : r.WellFormed) (wf' : r'.WellFormed) {P : Lowered → Bool}
    (free : ∀ l, P (l.renumber φ) = P l) :
    r'.order.toList.countP (lowersTo values' P) = r.order.toList.countP (lowersTo values P) := by
  obtain ⟨σ, same, perm⟩ := embeds.exists_order wf wf'
  have inside : ∀ v, lowersTo values P v = true → v < r.nodes.size := by
    intro v counted
    cases entry : (values[v]?).join with
    | none => simp [lowersTo, entry] at counted
    | some l =>
      rw [← lowers.size]
      exact (Array.getElem?_eq_some_iff.1 (Option.join_eq_some_iff.1 entry)).1
  have alike : ∀ v, lowersTo values' P (φ v) = lowersTo values P v := by
    intro v
    rw [lowersTo, lowersTo, join_renumber lowers lowers' embeds wf]
    cases (values[v]?).join with
    | none => rfl
    | some l => exact free l
  have corresponds : ∀ w, lowersTo values' P w = true ↔ ∃ v, lowersTo values P v = true ∧ φ v = w := by
    intro w
    constructor
    · intro counted
      by_cases image : ∃ v < r.nodes.size, φ v = w
      · obtain ⟨v, -, rfl⟩ := image
        exact ⟨v, alike v ▸ counted, rfl⟩
      · have entry := @join_eq_none φ r r' values values' w lowers lowers' embeds wf
          fun v small eq => image ⟨v, small, eq⟩
        simp [lowersTo, entry] at counted
    · rintro ⟨v, counted, rfl⟩
      rw [alike, counted]
  rw [List.countP_eq_length_filter, List.countP_eq_length_filter]
  have kept := embeds.filter_order same inside corresponds
  simp only [Bool.decide_eq_true] at kept
  rw [kept, List.length_map]
  exact (perm.filter _).length_eq

end Program

end LedEffect
