import LedEffect.Program.Compile
import LedEffect.Proofs.Effect.Palettes
import LedEffect.Proofs.Effect.Renaming
import LedEffect.Proofs.Program.Coded
import LedEffect.Proofs.Program.Comments

/-!
# Names end in comments

Resolved effects that differ in the identifiers of their nodes only are lowered to programs that
differ in comments only, since all that lowering computes goes by numbers. So what an author calls
an effect and its nodes has no influence on the code (`Effect.compile_renamed`).
-/

namespace LedEffect

/-! ## Liveness -/

namespace ResolvedEffect.Alike

variable {r r' : ResolvedEffect} {u v : Nat} {n : ResolvedNode}

lemma size (alike : r.Alike r') : r'.nodes.size = r.nodes.size := by
  simpa using alike.nodes.length_eq.symm

/-- The node with a number is the same but for its identifier. -/
lemma node (alike : r.Alike r') (place : r.nodes[u]? = some n) :
    ∃ id, r'.nodes[u]? = some { n with id := id } := by
  obtain ⟨n', partner, same⟩ := Forall₂.exists_right alike.nodes
    (by rwa [Array.getElem?_toList] : r.nodes.toList[u]? = some n)
  rw [Array.getElem?_toList] at partner
  exact ⟨n'.id, partner.trans (congrArg some same)⟩

lemma reads (alike : r.Alike r') : r'.Reads = r.Reads := by
  have forward : ∀ {r r' : ResolvedEffect}, r.Alike r' → ∀ {u v}, r.Reads u v → r'.Reads u v := by
    rintro r r' alike u v ⟨n, place, mem⟩
    obtain ⟨id, place'⟩ := alike.node place
    exact ⟨_, place', mem⟩
  funext u v
  exact propext ⟨forward alike.symm, forward alike⟩

lemma isPaletteSink (alike : r.Alike r') : r'.IsPaletteSink = r.IsPaletteSink := by
  have forward : ∀ {r r' : ResolvedEffect}, r.Alike r' →
      ∀ {s}, r.IsPaletteSink s → r'.IsPaletteSink s := by
    rintro r r' alike s ⟨n, place, kind⟩
    obtain ⟨id, place'⟩ := alike.node place
    exact ⟨_, place', kind⟩
  funext s
  exact propext ⟨forward alike.symm, forward alike⟩

lemma reaches (alike : r.Alike r') : r'.Reaches = r.Reaches := by
  rw [Reaches, Reaches, alike.reads]

lemma live (alike : r.Alike r') : r'.Live = r.Live := by
  funext v
  rw [Live, Live, alike.isPaletteSink, alike.reaches]

/-- As many operand slots read a node. -/
lemma readers (alike : r.Alike r') : r'.readers = r.readers := by
  classical
  have reads : ∀ {ms ms' : List ResolvedNode}, List.Forall₂ ResolvedNode.Alike ms ms' →
      ∀ first, ((ms'.zipIdx first).filter fun m => r.Live m.2).flatMap (fun m => m.1.inputs) =
        ((ms.zipIdx first).filter fun m => r.Live m.2).flatMap fun m => m.1.inputs := by
    intro ms ms' same
    induction same with
    | nil => exact fun _ => rfl
    | @cons m m' ms ms' here _ ih =>
      intro first
      rw [List.zipIdx_cons, List.zipIdx_cons, List.filter_cons, List.filter_cons]
      split
      · rw [List.flatMap_cons, List.flatMap_cons, ih, here]
      · exact ih (first + 1)
  funext v
  unfold ResolvedEffect.readers liveReads
  rw [alike.live]
  exact congrArg (List.count v) (reads alike.nodes 0)

lemma paletteSinks (alike : r.Alike r') : r'.paletteSinks = r.paletteSinks := by
  unfold ResolvedEffect.paletteSinks
  rw [alike.isPaletteSink, alike.order]

lemma reached (alike : r.Alike r') : r'.reached = r.reached := by
  funext s
  unfold ResolvedEffect.reached
  rw [alike.reaches, alike.order]

/-- What does not look at ids holds of a live node of one effect when it does of the other. -/
lemma exists_live (alike : r.Alike r') {P : ResolvedNode → Prop}
    (blind : ∀ n id, P n → P { n with id := id }) :
    (∃ v n, r'.Live v ∧ r'.nodes[v]? = some n ∧ P n) ↔
      ∃ v n, r.Live v ∧ r.nodes[v]? = some n ∧ P n := by
  have forward : ∀ {r r' : ResolvedEffect}, r.Alike r' →
      (∃ v n, r.Live v ∧ r.nodes[v]? = some n ∧ P n) →
        ∃ v n, r'.Live v ∧ r'.nodes[v]? = some n ∧ P n := by
    rintro r r' alike ⟨v, n, live, place, holds⟩
    obtain ⟨id, place'⟩ := alike.node place
    exact ⟨v, _, alike.live ▸ live, place', blind n id holds⟩
  exact ⟨forward alike.symm, forward alike⟩

lemma usesCenter (alike : r.Alike r') : r'.UsesCenter ↔ r.UsesCenter :=
  alike.exists_live fun _ _ uses => uses

lemma usesLast (alike : r.Alike r') : r'.UsesLast ↔ r.UsesLast :=
  alike.exists_live fun _ _ uses => uses

end ResolvedEffect.Alike

namespace Program

open ResolvedEffect

variable {r r' : ResolvedEffect} {values values' : Values} {v : Nat}

/-! ## Lowered values -/

/-- Whether two lowered nodes are the same but for the texts of comments. -/
structure Lowered.Alike (l l' : Lowered) : Prop where
  expr : l'.expr = l.expr
  scope : l'.scope = l.scope
  block : bareAll l'.block = bareAll l.block

/-- What is asked for in the same way is kept in the same way. -/
lemma Stored.alike {readers : Nat} {n : ResolvedNode} {id : String} {form : Form} {e e' : Expr}
    {block block' : List Statement} (stored : Stored v readers n form e block)
    (stored' : Stored v readers { n with id := id } form e' block') :
    e' = e ∧ bareAll block' = bareAll block := by
  cases stored with
  | statements body =>
    cases stored'
    exact ⟨rfl, rfl⟩
  | shared e many operation =>
    cases stored' with
    | shared => exact ⟨rfl, rfl⟩
    | inlined _ once => exact absurd ⟨many, operation⟩ once
  | inlined e once =>
    cases stored' with
    | shared _ many operation => exact absurd ⟨many, operation⟩ once
    | inlined => exact ⟨rfl, rfl⟩

/-- Two tables of lowered values that agree on what a node reads offer it the same operands. -/
lemma operand?_alike {n : ResolvedNode} (id : String)
    (inputs : ∀ u ∈ n.inputs, ∃ l l', values[u]? = some (some l) ∧
      values'[u]? = some (some l') ∧ l.Alike l') :
    operand? values' { n with id := id } = operand? values n := by
  funext slot
  cases input : n.inputs[slot]? with
  | none => simp [operand?, input]
  | some u =>
    obtain ⟨l, l', lowered, lowered', same⟩ := inputs u (List.mem_of_getElem? input)
    rw [operand?_eq_some input lowered, ← same.expr]
    exact operand?_eq_some input lowered'

lemma scopeOf_alike {n : ResolvedNode} (id : String)
    (inputs : ∀ u ∈ n.inputs, ∃ l l', values[u]? = some (some l) ∧
      values'[u]? = some (some l') ∧ l.Alike l') :
    scopeOf values' { n with id := id } = scopeOf values n := by
  unfold scopeOf
  congr 1
  refine List.filterMap_congr fun u mem => ?_
  obtain ⟨l, l', lowered, lowered', same⟩ := inputs u mem
  simp [lowered, lowered', same.scope]

/-- Lowered nodes are the same but for the texts of comments. -/
lemma Lowers.alike (wf : r.WellFormed) (alike : r.Alike r') (lowers : Lowers r values)
    (lowers' : Lowers r' values') {l : Lowered} (lowered : values[v]? = some (some l)) :
    ∃ l', values'[v]? = some (some l') ∧ l.Alike l' := by
  -- Along the order: what the node reads is lowered alike before.
  induction v using wf.induction generalizing l with
  | step v ih =>
    obtain ⟨n, place, live, value, run⟩ := lowers.entry lowered
    obtain ⟨id, place'⟩ := alike.node place
    obtain ⟨l', lowered', run'⟩ := lowers'.lowered v _ place' (alike.live ▸ live) value
    have inputs : ∀ u ∈ n.inputs, ∃ l l', values[u]? = some (some l) ∧
        values'[u]? = some (some l') ∧ l.Alike l' := by
      intro u mem
      obtain ⟨l, input⟩ := lowers.input wf place live (Kind.ne_output value) mem
      obtain ⟨l', input', same⟩ := ih u ⟨n, place, mem⟩ input
      exact ⟨l, l', input, input', same⟩
    obtain ⟨scope, form, asked, stored⟩ := lowerNode?_eq_some run
    obtain ⟨scope', form', asked', stored'⟩ := lowerNode?_eq_some run'
    rw [operand?_alike id inputs] at asked'
    obtain rfl : form' = form := Option.some_inj.1 (asked'.symm.trans asked)
    rw [alike.readers] at stored'
    obtain ⟨expr, block⟩ := stored.alike stored'
    exact ⟨l', lowered', expr, by rw [scope', scope, scopeOf_alike id inputs], block⟩

lemma blockAt_alike (wf : r.WellFormed) (wf' : r'.WellFormed) (alike : r.Alike r')
    (lowers : Lowers r values) (lowers' : Lowers r' values') (scope : Scope) (v : Nat) :
    bareAll (blockAt values' scope v) = bareAll (blockAt values scope v) := by
  by_cases lowered : ∃ l, values[v]? = some (some l)
  · obtain ⟨l, lowered⟩ := lowered
    obtain ⟨l', lowered', same⟩ := lowers.alike wf alike lowers' lowered
    simp only [blockAt, lowered, lowered', Option.join_some, same.scope]
    split
    · exact same.block
    · rfl
  · have lowered' : ¬ ∃ l', values'[v]? = some (some l') := by
      rintro ⟨l', lowered'⟩
      obtain ⟨l, here, -⟩ := lowers'.alike wf' alike.symm lowers lowered'
      exact lowered ⟨l, here⟩
    rw [blockAt_eq_nil fun placed => lowered' (placed.imp fun _ => And.left),
      blockAt_eq_nil fun placed => lowered (placed.imp fun _ => And.left)]

/-! ## Programs -/

/-- The code of a palette sink is the same but for the texts of comments. -/
lemma SinkCoded.alike (wf : r.WellFormed) (wf' : r'.WellFormed) (alike : r.Alike r')
    (lowers : Lowers r values) (lowers' : Lowers r' values') {palette : Palette} {s : Nat}
    (sink : r.IsPaletteSink s) {code code' : SinkCode} (coded : SinkCoded r palette values s code)
    (coded' : SinkCoded r' palette values' s code') :
    bareAll code'.statements = bareAll code.statements := by
  obtain ⟨n, position, brightness, place, positioned, bright, -, body⟩ := coded.body
  obtain ⟨n', position', brightness', place', positioned', bright', -, body'⟩ := coded'.body
  obtain ⟨id, same⟩ := alike.node place
  obtain rfl := Option.some_inj.1 (place'.symm.trans same)
  obtain rfl : brightness' = brightness := Option.some_inj.1 (bright'.symm.trans bright)
  obtain ⟨m, here, kind⟩ := sink
  obtain rfl := Option.some_inj.1 (place.symm.trans here)
  have operands := @operand?_alike values values' n id fun u mem => by
    obtain ⟨l, input⟩ := lowers.input wf place ⟨s, ⟨n, place, kind⟩, .refl⟩ (by rw [kind]; decide) mem
    obtain ⟨l', input', same⟩ := lowers.alike wf alike lowers' input
    exact ⟨l, l', input, input', same⟩
  have positions : palettePosition? values' { n with id := id } = palettePosition? values n := by
    unfold palettePosition?
    dsimp only
    rw [operands]
  obtain rfl : position' = position :=
    Option.some_inj.1 (positioned'.symm.trans (positions.trans positioned))
  have bodies : bareAll code'.body = bareAll code.body := by
    rw [body, body', alike.reached]
    simp only [bareAll_append, bareAll_flatMap, blockAt_alike wf wf' alike lowers lowers']
  simp only [SinkCode.statements, bareAll, Statement.bare, bodies, coded.node, coded'.node,
    coded.colours, coded'.colours]

/-- The programs of resolved effects that differ in identifiers differ in comments only. -/
lemma Coded.alike (wf : r.WellFormed) (wf' : r'.WellFormed) (alike : r.Alike r')
    (lowers : Lowers r values) (lowers' : Lowers r' values') {palette : Palette}
    {name name' : String} {p p' : Program} (coded : Coded r palette name values p)
    (coded' : Coded r' palette name' values' p') :
    bareAll p'.statements = bareAll p.statements := by
  have center : p'.usesCenter = p.usesCenter := by
    rw [Bool.eq_iff_iff, coded'.usesCenter, coded.usesCenter, alike.usesCenter]
  have last : p'.usesLast = p.usesLast := by
    rw [Bool.eq_iff_iff, coded'.usesLast, coded.usesLast, alike.usesLast]
  have frame : bareAll p'.frame = bareAll p.frame := by
    rw [coded.frame, coded'.frame, alike.order]
    simp only [bareAll_flatMap, blockAt_alike wf wf' alike lowers lowers']
  have sinks : p'.sinks.flatMap (fun code => bareAll code.statements) =
      p.sinks.flatMap fun code => bareAll code.statements := by
    have each : ∀ {ss : List Nat} {codes codes' : List SinkCode}, (∀ s ∈ ss, r.IsPaletteSink s) →
        List.Forall₂ (SinkCoded r palette values) ss codes →
          List.Forall₂ (SinkCoded r' palette values') ss codes' →
            codes'.flatMap (fun code => bareAll code.statements) =
              codes.flatMap fun code => bareAll code.statements := by
      intro ss codes codes' sinks first second
      induction first generalizing codes' with
      | nil =>
        cases second
        rfl
      | cons here _ ih =>
        cases second with
        | cons here' rest' =>
          obtain ⟨sink, sinks⟩ := List.forall_mem_cons.1 sinks
          rw [List.flatMap_cons, List.flatMap_cons, ih sinks rest',
            here.alike wf wf' alike lowers lowers' sink here']
    exact each (fun s mem => wf.mem_paletteSinks.1 mem) coded.sinks
      (alike.paletteSinks ▸ coded'.sinks)
  rw [statements_eq, statements_eq, preamble, preamble, constants, constants, center, last]
  simp only [bareAll_append, bareAll_flatMap, frame, sinks]
  rfl

end Program

namespace Effect

open Program

/-- Lowering depends on names in comments only. -/
lemma compileResolved_alike (target : TargetProfile) {e e' : Effect} {r r' : ResolvedEffect}
    (palette : Palette.ofEffect e' = Palette.ofEffect e) (wf : r.WellFormed) (wf' : r'.WellFormed)
    (alike : r.Alike r') {c : CompiledEffect} (run : e.compileResolved target r = .ok c) :
    ∃ c', e'.compileResolved target r' = .ok c' ∧
      List.Forall₂ SameCode (textLines c.code) (textLines c'.code) := by
  obtain ⟨colours, chosen, eq⟩ := bind_eq_ok.1 run
  have enough := Palette.two_le_length chosen
  obtain ⟨p, stats, values, lowered, lowers, coded⟩ := lower?_spec wf enough e.displayName
  obtain ⟨p', stats', values', lowered', lowers', coded'⟩ := lower?_spec wf' enough e'.displayName
  rw [lowered] at eq
  obtain rfl := pure_eq_ok.1 eq
  refine ⟨⟨e'.displayName, p'.render target, stats'⟩, ?_,
    render_congr target (coded.alike wf wf' alike lowers lowers' coded').symm⟩
  exact bind_eq_ok.2 ⟨colours, palette.trans chosen, by rw [lowered']; rfl⟩

lemma Renamed.palette_eq {ρ : String → String → Prop} {e e' : Effect} (renamed : e.Renamed ρ e') :
    Palette.ofEffect e' = Palette.ofEffect e := by
  rw [Palette.ofEffect, Palette.ofEffect, renamed.palette, renamed.paletteData]

/-- Effects whose names correspond one to one compile together, to codes that differ in comments
only. -/
lemma Renamed.compile (target : TargetProfile) {ρ : String → String → Prop}
    (unique : Relator.BiUnique ρ) {e e' : Effect} (renamed : e.Renamed ρ e') {c : CompiledEffect}
    (run : e.compile target = .ok c) :
    ∃ c', e'.compile target = .ok c' ∧
      List.Forall₂ SameCode (textLines c.code) (textLines c'.code) := by
  obtain ⟨r, resolved, lowered⟩ := bind_eq_ok.1 run
  obtain ⟨r', resolved', alike⟩ := renamed.resolve unique resolved
  obtain ⟨c', lowered', same⟩ := compileResolved_alike target renamed.palette_eq
    (resolve_wellFormed resolved) (resolve_wellFormed resolved') alike lowered
  exact ⟨c', bind_eq_ok.2 ⟨r', resolved', lowered'⟩, same⟩

/-- Names do not get out of comments. When the names of an effect are replaced one to one, and its own
name and all descriptions at will, it compiles as before, to as many lines: comments where there were
comments, and every other line unchanged. -/
theorem compile_renamed (target : TargetProfile) {f : String → String} (injective : f.Injective)
    {e e' : Effect} (renamed : e.Renamed (fun id id' => f id = id') e') :
    ((∃ c, e.compile target = .ok c) ↔ ∃ c', e'.compile target = .ok c') ∧
      ∀ c c', e.compile target = .ok c → e'.compile target = .ok c' →
        List.Forall₂ SameCode (textLines c.code) (textLines c'.code) := by
  have unique : Relator.BiUnique fun id id' => f id = id' :=
    ⟨fun _ _ _ h h' => injective (h.trans h'.symm), fun _ _ _ h h' => h.symm.trans h'⟩
  refine ⟨⟨fun ⟨c, run⟩ => ?_, fun ⟨c', run⟩ => ?_⟩, fun c c' run run' => ?_⟩
  · obtain ⟨c', run', -⟩ := renamed.compile target unique run
    exact ⟨c', run'⟩
  · obtain ⟨c, run', -⟩ := renamed.symm.compile target (biUnique_flip unique) run
    exact ⟨c, run'⟩
  · obtain ⟨c'', run'', same⟩ := renamed.compile target unique run
    obtain rfl := Except.ok.inj (run'.symm.trans run'')
    exact same

/-- A level that is squared, shared by two sinks, under plain names. -/
def twice : Effect :=
  (((((empty.node (NodeSpec.new "level" "audio-level")).node
    (((NodeSpec.new "square" "multiply").input "level").input "level")).node
    (NodeSpec.new "left" "palette-interpolate")).node
    (NodeSpec.new "right" "palette-interpolate")).wire "square" "left").wire "square" "right"

/-- The same effect under names that try to end the comments which they stand in. -/
def twiceQuoted : Effect :=
  { (((((empty.node (NodeSpec.new "x\n*/level" "audio-level")).node
    (((NodeSpec.new "x\n*/square" "multiply").input "x\n*/level").input "x\n*/level")).node
    (NodeSpec.new "x\n*/left" "palette-interpolate")).node
    (NodeSpec.new "x\n*/right" "palette-interpolate")).wire "x\n*/square" "x\n*/left").wire
      "x\n*/square" "x\n*/right" with name := some "\r\n#error \\", description := some "*/" }

/-- Names with line breaks are blanked out, so both effects compile, to codes that differ in comments
only. -/
theorem compile_twiceQuoted :
    Function.Injective ("x\n*/" ++ ·) ∧
      twice.Renamed (fun id id' => "x\n*/" ++ id = id') twiceQuoted ∧
      ∃ c c', twice.compile .default = .ok c ∧ twiceQuoted.compile .default = .ok c' ∧
        List.Forall₂ SameCode (textLines c.code) (textLines c'.code) := by
  have injective : Function.Injective ("x\n*/" ++ ·) := by
    intro a b eq
    simpa [← String.toList_inj] using eq
  have renamed : twice.Renamed (fun id id' => "x\n*/" ++ id = id') twiceQuoted := by
    refine ⟨rfl, rfl, ?_, ?_⟩
    · repeat' constructor
    · repeat' constructor
  obtain ⟨together, same⟩ := compile_renamed .default injective renamed
  have accepted : (twice.compile .default).isOk = true := by decide +kernel
  cases run : twice.compile .default with
  | error fault => simp [run, Except.isOk, Except.toBool] at accepted
  | ok c =>
    obtain ⟨c', run'⟩ := together.1 ⟨c, run⟩
    exact ⟨injective, renamed, c, c', rfl, run', same c c' run run'⟩

end Effect

end LedEffect
