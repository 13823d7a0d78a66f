import LedEffect.Proofs.Effect.Palettes
import LedEffect.Proofs.Program.Counters

/-!
# Accounts

A compilation decides once what becomes of each node (`ResolvedEffect.fate`), and counts the nodes of
each fate: so the counters add up to the number of nodes (`compile_accounts`). Liveness is said of the
authored effect here: a node is unused when no palette sink reads it, directly or over others
(`Effect.Unused`).
-/

namespace LedEffect

/-! ## Reading by name -/

namespace Effect

variable {e : Effect} {nodes : Array ResolvedNode} {r : ResolvedEffect} {id input : String} {u v : Nat}

/-- Whether an identifier is that of a node other than an output which no palette sink is or reads,
directly or over other nodes. -/
def Unused (e : Effect) (id : String) : Prop :=
  ∃ n ∈ e.nodes, n.id = id ∧ n.kind ≠ Kind.output.id ∧
    ¬ ∃ s ∈ e.nodes, s.kind = Kind.paletteInterpolate.id ∧ Relation.ReflTransGen e.Reads s.id id

/-- A checked node is found under the number of its identifier. -/
lemma Checks.id_eq_iff (checks : e.Checks nodes.toList) :
    (nodes[v]?).map (·.id) = some id ↔ e.HasNumber id v := by
  rw [HasNumber, ← Array.getElem?_toList, ← List.getElem?_map, ← List.getElem?_map, checks.ids]

/-- Authored and resolved nodes of one number are of one kind. -/
lemma Checks.partner (checks : e.Checks nodes.toList) {n : NodeSpec} (mem : n ∈ e.nodes) :
    ∃ v m, e.HasNumber n.id v ∧ nodes[v]? = some m ∧ m.kind.id = n.kind := by
  obtain ⟨v, place⟩ := List.getElem?_of_mem mem
  obtain ⟨m, there, checked⟩ := Forall₂.exists_right checks.nodes place
  rw [Array.getElem?_toList] at there
  exact ⟨v, m, hasNumber_iff.2 ⟨n, place, rfl⟩, there, checked.kind⟩

lemma Checks.exists_author (checks : e.Checks nodes.toList) {m : ResolvedNode}
    (place : nodes[v]? = some m) : ∃ n ∈ e.nodes, e.HasNumber n.id v ∧ m.kind.id = n.kind := by
  obtain ⟨n, here, checked⟩ := Forall₂.exists_left checks.nodes
    (by rwa [Array.getElem?_toList] : nodes.toList[v]? = some m)
  exact ⟨n, List.mem_of_getElem? here, hasNumber_iff.2 ⟨n, here, rfl⟩, checked.kind⟩

/-- Reading over others is the same between identifiers and between numbers. -/
lemma Checks.reaches_iff (checks : e.Checks r.nodes.toList) (here : e.HasNumber id v)
    (there : e.HasNumber input u) :
    r.Reaches v u ↔ Relation.ReflTransGen e.Reads id input := by
  constructor
  · intro path
    induction path generalizing input with
    | refl => rw [here.name_unique there]
    | tail _ read ih =>
      obtain ⟨m, place, mem⟩ := read
      obtain ⟨n, -, number, -⟩ := checks.exists_author place
      exact (ih number).tail ((checks.reads_iff number there).2 ⟨m, place, mem⟩)
  · intro path
    induction path generalizing u with
    | refl =>
      rw [here.unique checks.distinct there]
      exact .refl
    | tail _ read ih =>
      obtain ⟨w, number⟩ := names_iff.1 (checks.names read).1
      exact (ih number).tail ((checks.reads_iff number there).1 read)

/-- A node is live when a palette sink is or reads it. -/
lemma Checks.live_iff (checks : e.Checks r.nodes.toList) (number : e.HasNumber id v) :
    r.Live v ↔ ∃ s ∈ e.nodes, s.kind = Kind.paletteInterpolate.id ∧
      Relation.ReflTransGen e.Reads s.id id := by
  constructor
  · rintro ⟨s, ⟨m, place, kind⟩, path⟩
    obtain ⟨n, mem, here, same⟩ := checks.exists_author place
    refine ⟨n, mem, ?_, (checks.reaches_iff here number).1 path⟩
    rw [← same, kind]
  · rintro ⟨n, mem, kind, path⟩
    obtain ⟨s, m, here, place, same⟩ := checks.partner mem
    refine ⟨s, ⟨m, place, ?_⟩, (checks.reaches_iff here number).2 path⟩
    exact Kind.id_injective (same.trans kind)

end Effect

/-! ## Fates -/

/-- What becomes of a node in a compilation. -/
inductive Fate
  | output
  | unused
  | pixelLoop
  | inlined
  | frameTemporary
  | pixelTemporary
deriving DecidableEq

/-- Every node has one of the fates. -/
lemma length_fates (fates : List Fate) : fates.length =
    fates.count .inlined + fates.count .frameTemporary + fates.count .pixelTemporary +
      fates.count .pixelLoop + fates.count .unused + fates.count .output := by
  induction fates with
  | nil => rfl
  | cons fate fates ih =>
    rw [List.length_cons, ih]
    cases fate <;> simp <;> omega

namespace Program

/-- The variables of a scope. -/
def Scope.fate : Scope → Fate
  | frame => .frameTemporary
  | pixel => .pixelTemporary

/-- What becomes of a lowered node. -/
def Lowered.fate (l : Lowered) : Fate := if l.block.isEmpty then .inlined else l.scope.fate

lemma Lowered.fate_inlined_iff (l : Lowered) : l.block.isEmpty = true ↔ l.fate = .inlined := by
  unfold fate
  split
  next empty => exact iff_of_true empty rfl
  next block =>
    refine iff_of_false block ?_
    cases l.scope <;> exact nofun

lemma Lowered.fate_stored_iff (l : Lowered) (scope : Scope) :
    l.storedIn scope = true ↔ l.fate = scope.fate := by
  rw [storedIn, Bool.and_eq_true, Bool.not_eq_true', beq_iff_eq, fate]
  split
  next empty =>
    refine iff_of_false (fun stored => ?_) ?_
    · exact Bool.noConfusion (stored.1.symm.trans empty)
    · cases scope <;> exact nofun
  next block =>
    rw [Bool.not_eq_true] at block
    rw [and_iff_right block]
    cases l.scope <;> cases scope <;> decide

end Program

namespace ResolvedEffect

variable {r : ResolvedEffect} {u v : Nat}

/-- No node reads a later one of the order, directly or over others. -/
lemma WellFormed.forward_order (wf : r.WellFormed) :
    r.order.toList.Pairwise fun u v => ¬ Relation.TransGen r.Reads u v := by
  rw [List.pairwise_iff_getElem]
  intro i j hi hj lt path
  have places := wf.path_lt path
  rw [wf.nodup_order.idxOf_getElem, wf.nodup_order.idxOf_getElem] at places
  exact Nat.lt_asymm lt places

/-- Whether a number is that of an output. -/
def IsOutput (r : ResolvedEffect) (v : Nat) : Prop := ∃ n, r.nodes[v]? = some n ∧ n.kind = .output

/-- What becomes of a node: outputs and nodes that no palette sink reads are passed over, palette sinks
become loops, and of the values some have a variable of their own, before the loops or in them. -/
noncomputable def fate (r : ResolvedEffect) (v : Nat) : Fate :=
  open Classical in
  if r.IsOutput v then .output
  else if ¬ r.Live v then .unused
  else if r.IsPaletteSink v then .pixelLoop
  else if ¬ r.Materialized v then .inlined
  else if r.PerPixel v then .pixelTemporary
  else .frameTemporary

/-- The fates of all nodes in dependency order. -/
noncomputable def fates (r : ResolvedEffect) : List Fate := r.order.toList.map r.fate

lemma fate_output_iff : r.fate v = .output ↔ r.IsOutput v := by
  unfold fate
  split_ifs <;> simp [*]

lemma not_isOutput_iff : ¬ r.IsOutput v ↔ ∀ n, r.nodes[v]? = some n → n.kind ≠ .output :=
  not_exists.trans (forall_congr' fun _ => not_and)

lemma fate_unused_iff : r.fate v = .unused ↔
    ¬ r.Live v ∧ ∀ n, r.nodes[v]? = some n → n.kind ≠ .output := by
  rw [← not_isOutput_iff]
  unfold fate
  split_ifs <;> simp [*]

lemma IsPaletteSink.live (sink : r.IsPaletteSink v) : r.Live v := ⟨v, sink, .refl⟩

lemma IsPaletteSink.not_output (sink : r.IsPaletteSink v) : ¬ r.IsOutput v := by
  rintro ⟨m, there, output⟩
  obtain ⟨n, here, palette⟩ := sink
  obtain rfl := Option.some_inj.1 (here.symm.trans there)
  cases palette.symm.trans output

lemma fate_pixelLoop_iff : r.fate v = .pixelLoop ↔ r.IsPaletteSink v := by
  constructor
  · unfold fate
    split_ifs <;> simp [*]
  · intro sink
    rw [fate, if_neg sink.not_output, if_neg (not_not_intro sink.live), if_pos sink]

end ResolvedEffect

namespace Program

open ResolvedEffect

variable {r : ResolvedEffect} {values : Values} {stats : CompileStats} {v : Nat} {n : ResolvedNode}
  {l : Lowered}

/-- Nodes with an entry in the table of lowered values are inlined or computed in their scope. -/
lemma Lowers.fate_of_lowered (wf : r.WellFormed) (lowers : Lowers r values)
    (lowered : values[v]? = some (some l)) : r.fate v = l.fate := by
  obtain ⟨n, place, live, value, -⟩ := lowers.entry lowered
  have kind : ∀ m, r.nodes[v]? = some m → m.kind.isSink = false := by
    intro m there
    obtain rfl := Option.some_inj.1 (place.symm.trans there)
    exact value
  have output : ¬ r.IsOutput v := not_isOutput_iff.2 fun m there => Kind.ne_output (kind m there)
  have sink : ¬ r.IsPaletteSink v := by
    rintro ⟨m, there, palette⟩
    have value := kind m there
    rw [palette] at value
    cases value
  rw [fate, if_neg output, if_neg (not_not_intro live), if_neg sink, Lowered.fate]
  by_cases materialized : r.Materialized v
  · have block : ¬ l.block.isEmpty := by
      rw [List.isEmpty_iff]
      exact (lowers.block_ne_nil_iff lowered).2 materialized
    rw [if_neg (not_not_intro materialized), if_neg block]
    have scope := lowers.scope_iff wf lowered
    split
    next perPixel => rw [scope.2 perPixel, Scope.fate]
    next frame =>
      cases narrow : l.scope with
      | frame => rfl
      | pixel => exact absurd (scope.1 narrow) frame
  · have empty : l.block.isEmpty := by
      rw [List.isEmpty_iff]
      by_contra block
      exact materialized ((lowers.block_ne_nil_iff lowered).1 block)
    rw [if_pos materialized, if_pos empty]

/-- The other nodes are passed over or become loops. -/
lemma Lowers.fate_of_absent (lowers : Lowers r values) (place : r.nodes[v]? = some n)
    (absent : values[v]? = some none) :
    r.fate v = .output ∨ r.fate v = .unused ∨ r.fate v = .pixelLoop := by
  by_cases live : r.Live v
  · have sink : n.kind.isSink = true := by
      by_contra value
      obtain ⟨l, lowered, -⟩ := lowers.lowered v n place live (Bool.not_eq_true _ ▸ value)
      cases absent.symm.trans lowered
    rcases Kind.isSink_iff.1 sink with kind | kind
    · exact .inl (fate_output_iff.2 ⟨n, place, kind⟩)
    · exact .inr (.inr (fate_pixelLoop_iff.2 ⟨n, place, kind⟩))
  · by_cases output : r.IsOutput v
    · exact .inl (fate_output_iff.2 output)
    · exact .inr (.inl (fate_unused_iff.2 ⟨live, not_isOutput_iff.1 output⟩))

/-- Counting lowered nodes is counting nodes of a fate. -/
lemma Lowers.countP_lowersTo (wf : r.WellFormed) (lowers : Lowers r values) {p : Lowered → Bool}
    {kept : Fate} (chosen : ∀ l : Lowered, p l = true ↔ l.fate = kept)
    (value : kept ≠ .output ∧ kept ≠ .unused ∧ kept ≠ .pixelLoop) :
    r.order.toList.countP (lowersTo values p) = r.fates.count kept := by
  rw [fates, List.count, List.countP_map]
  refine List.countP_congr fun v mem => ?_
  have small := wf.mem_order.1 mem
  have place : r.nodes[v]? = some r.nodes[v] := Array.getElem?_eq_getElem small
  obtain ⟨found, entry⟩ : ∃ found, values[v]? = some found :=
    ⟨_, Array.getElem?_eq_getElem (lowers.size ▸ small)⟩
  rw [Function.comp_apply, beq_iff_eq, lowersTo, entry]
  cases found with
  | some l =>
    rw [lowers.fate_of_lowered wf entry, ← chosen l]
    rfl
  | none =>
    refine iff_of_false Bool.false_ne_true ?_
    obtain ⟨output, unused, loop⟩ := value
    rintro rfl
    rcases lowers.fate_of_absent place entry with fate | fate | fate
    · exact output fate
    · exact unused fate
    · exact loop fate

/-! ## Counters -/

/-- How the counters of a compilation account for the nodes of an effect. Each is the number of nodes of
one fate, so that together with the outputs they make up all nodes; the palette sinks are those that were
authored; and the unused nodes are listed once each in dependency order, in which no node reads a later
one. -/
structure Accounts (e : Effect) (r : ResolvedEffect) (stats : CompileStats) : Prop where
  nodes : stats.nodeCount = e.nodes.length
  inlined : stats.inlined = r.fates.count .inlined
  frameTemporaries : stats.frameTemporaries = r.fates.count .frameTemporary
  pixelTemporaries : stats.pixelTemporaries = r.fates.count .pixelTemporary
  total : stats.nodeCount = stats.inlined + stats.frameTemporaries + stats.pixelTemporaries +
    stats.pixelLoops + stats.unused.length + (e.nodes.map (·.kind)).count Kind.output.id
  pixelLoops : stats.pixelLoops = (e.nodes.map (·.kind)).count Kind.paletteInterpolate.id
  distinct : stats.unused.Nodup
  unused : ∀ id, id ∈ stats.unused ↔ e.Unused id
  sublist : stats.unused.Sublist (r.order.toList.filterMap fun v => (r.nodes[v]?).map (·.id))
  forward : stats.unused.Pairwise fun id later => ¬ Relation.TransGen e.Reads id later

lemma mem_unusedNodes (wf : r.WellFormed) :
    v ∈ r.unusedNodes ↔ v < r.nodes.size ∧ r.fate v = .unused := by
  classical
  rw [unusedNodes, List.mem_filter, wf.mem_order, decide_eq_true_eq, fate_unused_iff]

lemma length_unused (wf : r.WellFormed) :
    (r.unusedNodes.filterMap fun v => (r.nodes[v]?).map (·.id)).length = r.fates.count .unused := by
  classical
  have placed : ∀ v ∈ r.unusedNodes, ((r.nodes[v]?).map (·.id)).isSome := by
    intro v mem
    rw [Array.getElem?_eq_getElem ((mem_unusedNodes wf).1 mem).1]
    rfl
  rw [List.filterMap_length_eq_length.2 placed, unusedNodes, ← List.countP_eq_length_filter, fates,
    List.count, List.countP_map]
  refine List.countP_congr fun v _ => ?_
  rw [decide_eq_true_eq, Function.comp_apply, beq_iff_eq, fate_unused_iff]

/-- The number of nodes that become loops, or are outputs, is that of the nodes of a kind. -/
lemma count_fates (wf : r.WellFormed) {k : Kind} {kept : Fate}
    (kind : ∀ v, r.fate v = kept ↔ ∃ n, r.nodes[v]? = some n ∧ n.kind = k) :
    r.fates.count kept = r.kinds.count k.id := by
  rw [count_kinds, ← wf.countP_order, fates, List.count, List.countP_map]
  refine List.countP_congr fun v _ => ?_
  rw [Function.comp_apply, beq_iff_eq, kind, Option.any_eq_true]
  simp only [decide_eq_true_eq]

/-- The identifiers of the unused nodes are those of the authored nodes that are unused. -/
lemma mem_unused_iff {e : Effect} (wf : r.WellFormed) (checks : e.Checks r.nodes.toList) (id : String) :
    id ∈ (r.unusedNodes.filterMap fun v => (r.nodes[v]?).map (·.id)) ↔ e.Unused id := by
  rw [List.mem_filterMap]
  constructor
  · rintro ⟨v, mem, named⟩
    obtain ⟨dead, value⟩ := fate_unused_iff.1 ((mem_unusedNodes wf).1 mem).2
    have number := checks.id_eq_iff.1 named
    obtain ⟨m, place, rfl⟩ := Option.map_eq_some_iff.1 named
    obtain ⟨n, listed, here, kind⟩ := checks.exists_author place
    refine ⟨n, listed, here.name_unique number, fun output => ?_, fun live => ?_⟩
    · exact value m place (Kind.id_injective (kind.trans output))
    · exact dead ((checks.live_iff number).2 live)
  · rintro ⟨n, listed, rfl, value, dead⟩
    obtain ⟨v, m, number, place, kind⟩ := checks.partner listed
    refine ⟨v, (mem_unusedNodes wf).2 ⟨?_, fate_unused_iff.2 ⟨fun live => ?_, ?_⟩⟩,
      checks.id_eq_iff.2 number⟩
    · exact (Array.getElem?_eq_some_iff.1 place).1
    · exact dead ((checks.live_iff number).1 live)
    · rintro m' place' output
      obtain rfl := Option.some_inj.1 (place.symm.trans place')
      rw [output] at kind
      exact value kind.symm

/-- The counters of a compilation account for all nodes. -/
lemma Counted.accounts {e : Effect} (run : e.resolve = .ok r) (lowers : Lowers r values)
    (counted : Counted r values stats) : Accounts e r stats := by
  have wf := Effect.resolve_wellFormed run
  have kinds := Effect.kinds_of_resolve run
  obtain ⟨checks, -⟩ := Effect.resolve_eq_ok.1 run
  have inlined : stats.inlined = r.fates.count .inlined := by
    rw [counted.inlined]
    exact lowers.countP_lowersTo wf Lowered.fate_inlined_iff (by decide)
  have frame : stats.frameTemporaries = r.fates.count .frameTemporary := by
    rw [counted.frameTemporaries]
    exact lowers.countP_lowersTo wf (·.fate_stored_iff .frame) (by decide)
  have pixel : stats.pixelTemporaries = r.fates.count .pixelTemporary := by
    rw [counted.pixelTemporaries]
    exact lowers.countP_lowersTo wf (·.fate_stored_iff .pixel) (by decide)
  have loops : stats.pixelLoops = r.fates.count .pixelLoop := by
    rw [counted.pixelLoops, wf.length_paletteSinks, count_fates wf fun v => fate_pixelLoop_iff]
  have unused : stats.unused.length = r.fates.count .unused := by
    rw [counted.unused, length_unused wf]
  have outputs : r.fates.count .output = (e.nodes.map (·.kind)).count Kind.output.id := by
    rw [count_fates wf fun v => fate_output_iff, kinds]
  have size : stats.nodeCount = r.fates.length := by
    rw [counted.nodeCount, fates, List.length_map, wf.order.length_eq, List.length_range]
  have numbers : ∀ {v id}, (r.nodes[v]?).map (·.id) = some id → e.HasNumber id v :=
    checks.id_eq_iff.1
  exact {
    nodes := by rw [counted.nodeCount, checks.nodes.length_eq, Array.length_toList]
    inlined := inlined
    frameTemporaries := frame
    pixelTemporaries := pixel
    total := by rw [size, length_fates, inlined, frame, pixel, loops, unused, outputs]
    pixelLoops := by rw [counted.pixelLoops, wf.length_paletteSinks, kinds]
    distinct := by
      rw [counted.unused]
      refine List.Nodup.filterMap (fun v v' id named named' => ?_) (wf.nodup_order.filter _)
      exact (numbers named).unique checks.distinct (numbers named')
    unused := fun id => by
      rw [counted.unused]
      exact mem_unused_iff wf checks id
    sublist := by
      rw [counted.unused]
      exact List.Sublist.filterMap _ List.filter_sublist
    forward := by
      rw [counted.unused, List.pairwise_filterMap]
      refine (wf.forward_order.filter _).imp fun {u v} apart id named id' named' path => apart ?_
      obtain ⟨mid, read, path⟩ := Relation.TransGen.head'_iff.1 path
      obtain ⟨w, number⟩ := Effect.names_iff.1 (checks.names read).2
      exact .head' ((checks.reads_iff (numbers named) number).1 read)
        ((checks.reaches_iff number (numbers named')).2 path) }

/-- Whatever effect compiles, the counters account for all its nodes. -/
theorem compile_accounts {target : TargetProfile} {e : Effect} {c : CompiledEffect}
    (compiled : e.compile target = .ok c) :
    ∃ r, e.resolve = .ok r ∧ e.compileResolved target r = .ok c ∧ Accounts e r c.stats := by
  obtain ⟨r, resolved, compiled⟩ := bind_eq_ok.1 compiled
  have wf := Effect.resolve_wellFormed resolved
  obtain ⟨palette, chosen, run⟩ := bind_eq_ok.1 compiled
  obtain ⟨p, stats, values, lowered, lowers, -⟩ :=
    lower?_spec wf (Palette.two_le_length chosen) e.displayName
  rw [lowered] at run
  cases run
  exact ⟨r, resolved, compiled, (Counted.of_lower? wf lowers lowered).accounts resolved lowers⟩

/-- A wave that is shown, and shown again after it is multiplied with itself; the frame that is sent
out; and a dimmed clock that nothing shows. -/
def spared : Effect :=
  let nodes := [NodeSpec.new "clock" "time", (NodeSpec.new "dimmed" "scale").input "clock",
    NodeSpec.new "level" "audio-level", NodeSpec.new "ramp" "gradient",
    (NodeSpec.new "wave" "sin").input "level",
    ((NodeSpec.new "near" "multiply").input "wave").input "ramp",
    ((NodeSpec.new "soft" "multiply").input "near").input "wave",
    (NodeSpec.new "left" "palette-interpolate").input "near",
    (NodeSpec.new "right" "palette-interpolate").input "soft",
    (NodeSpec.new "frame" "output").input "left"]
  nodes.foldl Effect.node Effect.empty

/-- Of its ten nodes three are inlined, two have variables, two are loops, one is the output, and the
clock and its dimming are unused. -/
theorem spared_accounts : ∃ c r, spared.compile default = .ok c ∧ Accounts spared r c.stats ∧
    c.stats.inlined = 3 ∧ c.stats.frameTemporaries = 1 ∧ c.stats.pixelTemporaries = 1 ∧
    c.stats.pixelLoops = 2 ∧ c.stats.unused = ["clock", "dimmed"] ∧ spared.Unused "dimmed" := by
  obtain ⟨c, compiled, seen⟩ := exists_of_any (x := spared.compile default)
    (p := fun c => c.stats.inlined = 3 ∧ c.stats.frameTemporaries = 1 ∧
      c.stats.pixelTemporaries = 1 ∧ c.stats.unused = ["clock", "dimmed"]) (by decide +kernel)
  obtain ⟨inlined, frame, pixel, unused⟩ := of_decide_eq_true seen
  obtain ⟨r, -, -, accounts⟩ := compile_accounts compiled
  refine ⟨c, r, compiled, accounts, inlined, frame, pixel, ?_, unused, ?_⟩
  · rw [accounts.pixelLoops]
    decide
  · exact (accounts.unused "dimmed").1 (by rw [unused]; decide)

end Program

end LedEffect
