import LedEffect.Proofs.Effect.Ranges

/-!
# Canonical parameters

Resolving writes out the parameters of a node: all names of the schema in its order, each with a number
that the schema lets through as it is. So an effect may be authored with its resolved parameters in
place of defaults, numeric texts and numbers out of range, and resolves to the same
(`resolve_canonical`).
-/

namespace LedEffect

/-- The node with numbers for its authored parameters. -/
def NodeSpec.settled (n : NodeSpec) (params : List (String × Binary64)) : NodeSpec :=
  { n with parameters := .ofList (params.map fun entry => (entry.1, .number entry.2)) }

/-- Whether entries are those of a schema in its order, with numbers that it lets through. -/
def Kind.Settles (k : Kind) (params : List (String × Binary64)) : Prop :=
  List.Forall₂ (fun p entry => entry.1 = p.name ∧ p.Holds entry.2) k.params params

namespace Kind.Settles

variable {k : Kind} {params : List (String × Binary64)} {n : NodeSpec}

/-- Settled parameters have the names of the schema. -/
lemma names (settles : k.Settles params) : params.map (·.1) = k.params.map (·.name) :=
  Forall₂.map_eq (settles.imp fun _ _ here => here.1)

/-- A node with settled parameters has each of them under its name. -/
lemma get?_settled (settles : k.Settles params) {entry : String × Binary64} (mem : entry ∈ params) :
    (n.settled params).parameters.get? entry.1 = some (.number entry.2) := by
  have distinct :
      ((params.map fun entry => (entry.1, ParamValue.number entry.2)).map (·.1)).Nodup := by
    rw [List.map_map]
    exact settles.names ▸ k.nodup_names
  exact Keyed.get?_ofList distinct (List.mem_map_of_mem mem)

/-- A node with settled parameters has no others. -/
lemma declared (settles : k.Settles params) {name : String}
    (mem : name ∈ (n.settled params).parameters.keys) : ∃ p ∈ k.params, p.name = name := by
  have listed := Keyed.mem_of_mem_keys_ofList mem
  rw [List.map_map] at listed
  apply List.mem_map.1
  rw [← settles.names]
  exact listed

end Kind.Settles

namespace Effect

variable {e : Effect} {r : ResolvedEffect} {n : NodeSpec} {m : ResolvedNode} {k : Kind}
  {params : List (String × Binary64)}

/-! ## One node -/

/-- Resolving settles the parameters of a node. -/
lemma settles_of_resolveParams (run : resolveParams n k = .ok params) : k.Settles params := by
  obtain ⟨-, each, -⟩ := resolveParams_eq_ok.1 run
  have listed := (List.forall₂_and_left _ _).2 ⟨fun p mem => mem, each⟩
  refine listed.imp ?_
  rintro p entry ⟨mem, resolved⟩
  obtain ⟨name, x, -, held⟩ := resolveParam_eq_ok.1 resolved
  exact ⟨name, ParamSpec.holds_of_resolve mem held⟩

/-- Settled parameters resolve to themselves. -/
lemma resolveParams_settled (run : resolveParams n k = .ok params) :
    resolveParams (n.settled params) k = .ok params := by
  have settles := settles_of_resolveParams run
  obtain ⟨-, -, inOrder⟩ := resolveParams_eq_ok.1 run
  refine resolveParams_eq_ok.2 ⟨fun name mem => settles.declared mem, ?_, inOrder⟩
  have listed := ((List.forall₂_and_left _ _).2 ⟨fun entry mem => mem, settles.flip⟩).flip
  refine listed.imp ?_
  rintro p entry ⟨mem, name, holds⟩
  have number : (n.settled params).number? p = some entry.2 := by
    rw [NodeSpec.number?, ← name, settles.get?_settled mem]
    rfl
  exact resolveParam_eq_ok.2 ⟨name, entry.2, number, holds.resolve⟩

/-! ## All nodes -/

/-- The effect with the parameters that it resolves to. -/
def canonical (e : Effect) (r : ResolvedEffect) : Effect :=
  { e with nodes := List.zipWith (fun n m => n.settled m.params) e.nodes r.nodes.toList }

/-- The nodes keep their identifiers. -/
lemma Checks.ids_canonical (checks : e.Checks r.nodes.toList) :
    (e.canonical r).nodes.map (·.id) = e.nodes.map (·.id) := by
  have settled : List.Forall₂ (fun n m => m.id = n.id) (e.canonical r).nodes r.nodes.toList :=
    Forall₂.zipWith_left checks.nodes fun n m checked => checked.id
  rw [← checks.ids]
  exact (Forall₂.map_eq settled).symm

/-- A node passes its checks with the parameters that it resolves to. -/
lemma NodeChecked.settled (checked : e.NodeChecked n m) (checks : e.Checks r.nodes.toList) :
    (e.canonical r).NodeChecked (n.settled m.params) m where
  id := checked.id
  kind := checked.kind
  inputs := checked.inputs.imp fun _ _ => (hasNumber_congr checks.ids_canonical).2
  enough := checked.enough
  bounded := checked.bounded
  params := resolveParams_settled checked.params

lemma Checks.canonical (checks : e.Checks r.nodes.toList) :
    (e.canonical r).Checks r.nodes.toList where
  distinct := by
    rw [checks.ids_canonical]
    exact checks.distinct
  wired := by
    intro w mem
    obtain ⟨source, target⟩ := checks.wired w mem
    exact ⟨(names_congr checks.ids_canonical).2 source, (names_congr checks.ids_canonical).2 target⟩
  nodes := Forall₂.zipWith_left checks.nodes fun n m checked => checked.settled checks

/-- The parameters of every node of a resolved effect are those of its schema in order, each with a
number that the schema lets through; and the effect with these parameters in place of the authored ones
resolves to the same. -/
theorem resolve_canonical (e : Effect) (r : ResolvedEffect) (run : e.resolve = .ok r) :
    (∀ m ∈ r.nodes.toList, m.kind.Settles m.params) ∧ (e.canonical r).resolve = .ok r := by
  obtain ⟨checks, later⟩ := resolve_eq_ok.1 run
  constructor
  · intro m mem
    obtain ⟨n, -, checked⟩ := Forall₂.exists_mem_left checks.nodes mem
    exact settles_of_resolveParams checked.params
  · exact resolve_eq_ok.2 ⟨checks.canonical, later⟩

/-- A part of the spectrum from a bin beyond the last one to one that is given as a text, held between
the default and negative zero. -/
def roughBins : Effect :=
  (((empty.node (((NodeSpec.new "part" "spectrum-range").param "startBin" (.number 70)).param
    "endBin" (.text " 7 "))).node
    (((NodeSpec.new "held" "clamp").param "max" (.text "-0")).input "part")).node
    (NodeSpec.new "strip" "palette-interpolate")).wire "held" "strip"

/-- The first bin is moved to the last one, the text is read, and the defaults are filled in. -/
theorem resolve_roughBins : ∃ r, roughBins.resolve = .ok r ∧
    (∀ m ∈ r.nodes.toList, m.kind.Settles m.params) ∧ (roughBins.canonical r).resolve = .ok r ∧
    r.nodes.toList.map (·.params) = [[("startBin", 63), ("endBin", 7)],
      [("min", 0), ("max", (0 : Binary64).neg)], [("brightness", 1)]] := by
  have accepted : roughBins.resolve.toOption.any (fun r =>
      r.nodes.toList.map (·.params) == [[("startBin", 63), ("endBin", 7)],
        [("min", 0), ("max", (0 : Binary64).neg)], [("brightness", 1)]]) = true := by decide +kernel
  obtain ⟨r, run, params⟩ := exists_of_any accepted
  obtain ⟨settled, again⟩ := resolve_canonical roughBins r run
  exact ⟨r, run, settled, again, beq_iff_eq.1 params⟩

end Effect

end LedEffect
