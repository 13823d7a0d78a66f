import LedEffect.Proofs.Effect.WellFormed

/-!
# Renamed effects

Once names are resolved, nodes are known by their numbers. Effects whose names correspond one to one
therefore resolve alike, to nodes that differ in their identifiers only (`Effect.Renamed.resolve`).
-/

namespace LedEffect

/-! ## Correspondence of names -/

/-- Whether two nodes are the same but for names that correspond and for descriptions. -/
structure NodeSpec.Renamed (ρ : String → String → Prop) (n n' : NodeSpec) : Prop where
  id : ρ n.id n'.id
  kind : n'.kind = n.kind
  parameters : n'.parameters = n.parameters
  inputs : List.Forall₂ ρ n.inputs n'.inputs

/-- Whether two wires are between corresponding names. -/
structure WireSpec.Renamed (ρ : String → String → Prop) (w w' : WireSpec) : Prop where
  source : ρ w.source w'.source
  target : ρ w.target w'.target

/-- Whether two effects are the same but for names that correspond, their own names and
descriptions. -/
structure Effect.Renamed (ρ : String → String → Prop) (e e' : Effect) : Prop where
  palette : e'.palette = e.palette
  paletteData : e'.paletteData = e.paletteData
  nodes : List.Forall₂ (NodeSpec.Renamed ρ) e.nodes e'.nodes
  wires : List.Forall₂ (WireSpec.Renamed ρ) e.wires e'.wires

/-- Whether two resolved nodes are the same but for their identifiers. -/
def ResolvedNode.Alike (m m' : ResolvedNode) : Prop := m' = { m with id := m'.id }

/-- Whether two resolved effects are the same but for the identifiers of their nodes. -/
structure ResolvedEffect.Alike (r r' : ResolvedEffect) : Prop where
  nodes : List.Forall₂ ResolvedNode.Alike r.nodes.toList r'.nodes.toList
  order : r'.order = r.order

lemma ResolvedNode.Alike.symm {m m' : ResolvedNode} (alike : m.Alike m') : m'.Alike m := by
  rw [Alike, alike]

lemma ResolvedEffect.Alike.symm {r r' : ResolvedEffect} (alike : r.Alike r') : r'.Alike r :=
  ⟨alike.nodes.flip.imp fun _ _ same => ResolvedNode.Alike.symm same, alike.order.symm⟩

namespace Effect

variable {ρ : String → String → Prop} {e e' : Effect} {n n' : NodeSpec} {id id' : String} {i : Nat}

lemma Renamed.symm (renamed : e.Renamed ρ e') : e'.Renamed (flip ρ) e where
  palette := renamed.palette.symm
  paletteData := renamed.paletteData.symm
  nodes := renamed.nodes.flip.imp fun _ _ n =>
    ⟨n.id, n.kind.symm, n.parameters.symm, n.inputs.flip⟩
  wires := renamed.wires.flip.imp fun _ _ w => ⟨w.source, w.target⟩

lemma biUnique_flip (unique : Relator.BiUnique ρ) : Relator.BiUnique (flip ρ) :=
  ⟨fun _ _ _ h h' => unique.2 h h', fun _ _ _ h h' => unique.1 h h'⟩

/-! ## Names and numbers -/

lemma Renamed.distinct (unique : Relator.BiUnique ρ) (renamed : e.Renamed ρ e') :
    (e.nodes.map (·.id)).Nodup ↔ (e'.nodes.map (·.id)).Nodup :=
  List.rel_nodup unique (List.rel_map (fun _ _ same => same.id) renamed.nodes)

/-- Corresponding names have the same number. -/
lemma Renamed.hasNumber (unique : Relator.BiUnique ρ) (renamed : e.Renamed ρ e') (same : ρ id id')
    (number : e.HasNumber id i) : e'.HasNumber id' i := by
  obtain ⟨n, place, rfl⟩ := hasNumber_iff.1 number
  obtain ⟨n', partner, node⟩ := Forall₂.exists_right renamed.nodes place
  exact hasNumber_iff.2 ⟨n', partner, unique.2 node.id same⟩

lemma Renamed.names (unique : Relator.BiUnique ρ) (renamed : e.Renamed ρ e') (same : ρ id id')
    (named : e.Names id) : e'.Names id' := by
  obtain ⟨i, number⟩ := names_iff.1 named
  exact names_iff.2 ⟨i, renamed.hasNumber unique same number⟩

/-- Corresponding nodes read corresponding names. -/
lemma Renamed.effectiveInputs (unique : Relator.BiUnique ρ) (renamed : e.Renamed ρ e')
    (node : n.Renamed ρ n') : List.Forall₂ ρ (e.effectiveInputs n) (e'.effectiveInputs n') := by
  have wired : List.Forall₂ ρ ((e.wires.filter fun w => w.target = n.id).map (·.source))
      ((e'.wires.filter fun w => w.target = n'.id).map (·.source)) := by
    refine List.rel_map (fun _ _ wire => wire.source) (List.rel_filter (fun w w' wire => ?_)
      renamed.wires)
    simp only [decide_eq_true_eq]
    constructor
    · intro here
      exact unique.2 wire.target (here ▸ node.id)
    · intro here
      exact unique.1 wire.target (here ▸ node.id)
  have empty : n.inputs = [] ↔ n'.inputs = [] := by
    rw [← List.length_eq_zero_iff, node.inputs.length_eq, List.length_eq_zero_iff]
  unfold Effect.effectiveInputs
  by_cases none : n.inputs = []
  · rwa [if_pos none, if_pos (empty.1 none)]
  · rw [if_neg none, if_neg (mt empty.2 none)]
    exact node.inputs

/-! ## Checks -/

/-- Whether and to what parameters resolve depends on what is authored for them alone. -/
lemma resolveParams_congr {k : Kind} {params : List (String × Binary64)}
    (same : n'.parameters = n.parameters) (run : resolveParams n k = .ok params) :
    resolveParams n' k = .ok params := by
  have number : n'.number? = n.number? := by
    funext p
    rw [NodeSpec.number?, NodeSpec.number?, same]
  obtain ⟨declared, each, inOrder⟩ := resolveParams_eq_ok.1 run
  refine resolveParams_eq_ok.2 ⟨same ▸ declared, each.imp fun p entry resolved => ?_, inOrder⟩
  rw [resolveParam_eq_ok] at resolved ⊢
  rwa [number]

lemma Renamed.nodeChecked (unique : Relator.BiUnique ρ) (renamed : e.Renamed ρ e')
    (node : n.Renamed ρ n') {m : ResolvedNode} (checked : e.NodeChecked n m) :
    e'.NodeChecked n' { m with id := n'.id } where
  id := rfl
  kind := checked.kind.trans node.kind.symm
  inputs := by
    obtain ⟨length, read⟩ := forall₂_iff_getElem?.1 checked.inputs
    have same := renamed.effectiveInputs unique node
    refine forall₂_iff_getElem?.2
      ⟨same.length_eq.symm.trans length, fun slot input' i here there => ?_⟩
    obtain ⟨input, place, corresponds⟩ := Forall₂.exists_left same here
    exact renamed.hasNumber unique corresponds (read slot input i place there)
  enough := checked.enough
  bounded := checked.bounded
  params := resolveParams_congr node.parameters checked.params

/-- Corresponding effects are checked to the same nodes but for the identifiers. -/
lemma Renamed.checks (unique : Relator.BiUnique ρ) (renamed : e.Renamed ρ e')
    {nodes : List ResolvedNode} (checks : e.Checks nodes) :
    ∃ nodes', e'.Checks nodes' ∧ List.Forall₂ ResolvedNode.Alike nodes nodes' := by
  have each : ∀ {ns ns' : List NodeSpec} {ms : List ResolvedNode},
      List.Forall₂ (NodeSpec.Renamed ρ) ns ns' → List.Forall₂ e.NodeChecked ns ms →
        ∃ ms', List.Forall₂ e'.NodeChecked ns' ms' ∧ List.Forall₂ ResolvedNode.Alike ms ms' := by
    intro ns ns' ms same checked
    induction same generalizing ms with
    | nil =>
      cases checked
      exact ⟨[], .nil, .nil⟩
    | @cons n n' ns ns' here _ ih =>
      cases checked with
      | @cons _ m _ ms first rest =>
        obtain ⟨ms', others, alike⟩ := ih rest
        exact ⟨{ m with id := n'.id } :: ms', .cons (renamed.nodeChecked unique here first) others,
          .cons rfl alike⟩
  obtain ⟨nodes', checked, alike⟩ := each renamed.nodes checks.nodes
  refine ⟨nodes', ⟨(renamed.distinct unique).1 checks.distinct, fun w' mem => ?_, checked⟩, alike⟩
  obtain ⟨w, listed, wire⟩ := Forall₂.exists_mem_left renamed.wires mem
  obtain ⟨source, target⟩ := checks.wired w listed
  exact ⟨renamed.names unique wire.source source, renamed.names unique wire.target target⟩

/-! ## Sinks and order -/

lemma checkSinks_alike {nodes nodes' : Array ResolvedNode}
    (alike : List.Forall₂ ResolvedNode.Alike nodes.toList nodes'.toList)
    (sinks : checkSinks nodes = .ok ()) : checkSinks nodes' = .ok () := by
  obtain ⟨clean, n, mem, sink⟩ := checkSinks_eq_ok.1 sinks
  refine checkSinks_eq_ok.2 ⟨fun m' listed kind i read input' place => ?_, ?_⟩
  · obtain ⟨m, here, same⟩ := Forall₂.exists_mem_left alike listed
    obtain ⟨input, there, same'⟩ := Forall₂.exists_left alike
      (by rwa [Array.getElem?_toList] : nodes'.toList[i]? = some input')
    rw [Array.getElem?_toList] at there
    rw [same] at kind read
    rw [same']
    exact clean m here kind i read input there
  · obtain ⟨n', listed, same⟩ := Forall₂.exists_mem_right alike mem
    exact ⟨n', listed, by rwa [same]⟩

lemma slots_alike {nodes nodes' : List ResolvedNode}
    (alike : List.Forall₂ ResolvedNode.Alike nodes nodes') (first : Nat) :
    slots nodes' first = slots nodes first := by
  induction alike generalizing first with
  | nil => rfl
  | @cons m m' ms ms' same _ ih =>
    have rest := ih (first + 1)
    unfold slots at rest ⊢
    rw [List.zipIdx_cons, List.zipIdx_cons, List.flatMap_cons, List.flatMap_cons, rest, same]

lemma dependencies_alike {nodes nodes' : Array ResolvedNode}
    (alike : List.Forall₂ ResolvedNode.Alike nodes.toList nodes'.toList) :
    dependencies nodes' = dependencies nodes := by
  rw [dependencies_eq, dependencies_eq, slots_alike alike]

/-- Effects whose names correspond one to one resolve alike. -/
theorem Renamed.resolve (unique : Relator.BiUnique ρ) (renamed : e.Renamed ρ e')
    {r : ResolvedEffect} (run : e.resolve = .ok r) : ∃ r', e'.resolve = .ok r' ∧ r.Alike r' := by
  obtain ⟨checks, sinks, made, sorted⟩ := resolve_eq_ok.1 run
  obtain ⟨nodes', checks', alike⟩ := renamed.checks unique checks
  have size : nodes'.toArray.size = r.nodes.size := by
    simpa using alike.length_eq.symm
  refine ⟨⟨nodes'.toArray, r.view, r.order⟩, resolve_eq_ok.2 ⟨checks', ?_, ?_, sorted⟩, alike, rfl⟩
  · exact checkSinks_alike alike sinks
  · rw [size, dependencies_alike alike]
    exact made

end Effect

end LedEffect
