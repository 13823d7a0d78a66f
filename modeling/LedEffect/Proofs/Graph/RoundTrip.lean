import LedEffect.Proofs.Graph.Described
import LedEffect.Proofs.Json.Short
import LedEffect.Proofs.Keyed

/-!
# Graphs printed and read back

The description of a graph is read as the graph, but for its weights: each becomes the double that its
digits are read as (`ofJson_toJson`). So a graph comes back unchanged just when its weights do
(`ofJson_toJson_eq_ok`), as they do when they have few digits (`ofJson_toJson_of_short`).
-/

namespace LedEffect

namespace Graph

open Json

variable {depth : Nat}

/-! ## Words -/

/-- The digits of words denote the words. -/
lemma value?_words (a : Array UInt32) :
    (document (.array (a.toList.map fun n => .natural n.toNat))).value? (depth + 1) =
      some (.array (a.toList.map fun n => .natural n.toNat)) := by
  rw [value?_array, mapM_eq_some.2 (List.forall₂_same.2 fun x mem => ?_)]
  · rfl
  · obtain ⟨n, -, rfl⟩ := List.mem_map.1 mem
    have small : n.toNat < 2 ^ 32 := n.toNat_lt
    exact value?_natural (by rw [wordLimit]; omega)

/-! ## Weights -/

/-- The digits of a finite double denote a number, unless they are past the largest double. -/
lemma value?_double {x : Binary64} (finite : x.isFinite = true) :
    ((document (.double x)).value? depth = none ∧ x.reread? = none) ∨
      ∃ j y, (document (.double x)).value? depth = some j ∧ double? j = some y ∧
        x.reread? = some y := by
  cases x with
  | finite s m =>
    rw [Binary64.reread?, document, Document.value?, Document.double?]
    cases (decimalLiteral s (m.shortest .even)).value? with
    | none => exact .inl ⟨rfl, rfl⟩
    | some number =>
      cases number with
      | integer i => exact .inr ⟨_, _, rfl, rfl, rfl⟩
      | double y => exact .inr ⟨_, _, rfl, rfl, rfl⟩
  | _ => cases finite

/-- The digits of finite doubles denote numbers, unless some are past the largest double. -/
lemma value?_doubles {ws : List Binary64} (finite : ∀ w ∈ ws, w.isFinite = true) :
    (((ws.map .double).mapM fun item => (document item).value? depth) = none ∧
        ws.mapM Binary64.reread? = none) ∨
      ∃ js ys, ((ws.map .double).mapM fun item => (document item).value? depth) = some js ∧
        List.Forall₂ (fun j y => double? j = some y) js ys ∧
        ws.mapM Binary64.reread? = some ys := by
  induction ws with
  | nil => exact .inr ⟨[], [], rfl, .nil, rfl⟩
  | cons w ws ih =>
    obtain ⟨here, finite⟩ := List.forall_mem_cons.1 finite
    rw [List.map_cons, List.mapM_cons, List.mapM_cons]
    rcases @value?_double depth w here with ⟨none, none'⟩ | ⟨j, y, value, number, read⟩
    · exact .inl ⟨by rw [none]; rfl, by rw [none']; rfl⟩
    · rw [value, read]
      rcases ih finite with ⟨none, none'⟩ | ⟨js, ys, values, numbers, reads⟩
      · exact .inl ⟨by rw [none]; rfl, by rw [none']; rfl⟩
      · exact .inr ⟨j :: js, y :: ys, by rw [values]; rfl, .cons number numbers, by rw [reads]; rfl⟩

/-! ## Graphs -/

/-- The members of a description: those that every graph has, and the weights if there are any. -/
def described (directed : Bool) (offsets edges : Array UInt32) (weights : Option Json) :
    List (String × Json) :=
  [("directed", .bool directed),
    ("offsets", .array (offsets.toList.map fun n => .natural n.toNat)),
    ("edges", .array (edges.toList.map fun n => .natural n.toNat))] ++
    (weights.map fun value => ("weights", value)).toList

variable {directed : Bool} {offsets edges : Array UInt32}

lemma toValue_eq (g : Graph) : g.toValue = .object (described g.directed g.offsets g.edges
    (g.weights.map fun ws => .array (ws.toList.map .double))) := by
  unfold toValue described
  cases g.weights <;> rfl

/-- What a description denotes holds the members that it was printed from. -/
lemma value?_described (weights : Option Json) :
    (document (.object (described directed offsets edges weights))).value? (depth + 2) =
      match weights with
      | none => some (.object (Keyed.ofList (described directed offsets edges none)).entries)
      | some value => ((document value).value? (depth + 1)).map fun value =>
          .object (Keyed.ofList (described directed offsets edges (some value))).entries := by
  have flag : (document (.bool directed)).value? (depth + 1) = some (.bool directed) := rfl
  rw [value?_object]
  cases weights with
  | none => simp [described, List.mapM_cons, flag, value?_words]
  | some value =>
    simp only [described, Option.map_some, Option.toList_some, List.cons_append, List.nil_append,
      List.mapM_cons, List.mapM_nil, flag, value?_words]
    cases (document value).value? (depth + 1) <;> rfl

/-- The members of a description are read whatever their order. -/
lemma ofValue_described (weights : Option Json) :
    ofValue (.object (Keyed.ofList (described directed offsets edges weights)).entries) =
      weightArray weights >>= ofRows directed offsets edges := by
  have member : ∀ name, member? (Keyed.ofList (described directed offsets edges weights)).entries
      name = (Keyed.ofList (described directed offsets edges weights)).get? name := fun _ => rfl
  have flag : (Keyed.ofList (described directed offsets edges weights)).get? "directed" =
      some (.bool directed) := by
    cases weights <;> simp [described, Keyed.ofList, Keyed.get?_insert]
  have starts : (Keyed.ofList (described directed offsets edges weights)).get? "offsets" =
      some (.array (offsets.toList.map fun n => .natural n.toNat)) := by
    cases weights <;> simp [described, Keyed.ofList, Keyed.get?_insert]
  have targets : (Keyed.ofList (described directed offsets edges weights)).get? "edges" =
      some (.array (edges.toList.map fun n => .natural n.toNat)) := by
    cases weights <;> simp [described, Keyed.ofList, Keyed.get?_insert]
  have extra : (Keyed.ofList (described directed offsets edges weights)).get? "weights" =
      weights := by
    cases weights <;> simp [described, Keyed.ofList, Keyed.get?_insert, Keyed.get?_empty]
  rw [ofValue, member, member, member, member, flag, starts, targets, extra, wordArray_eq_ok.2 rfl,
    wordArray_eq_ok.2 rfl]
  rfl

/-- The text of a graph is decoded as what its members denote. -/
lemma ofJson_toJson_eq (g : Graph) : ofJson g.toJson =
    ((document (.object (described g.directed g.offsets g.edges
      (g.weights.map fun ws => .array (ws.toList.map .double))))).value? 127).elim
        (.error .malformed) ofValue := by
  rw [ofJson, toJson, read?, read?_pretty, Option.bind_some, toValue_eq, nestingLimit]
  cases Document.value? 127 _ <;> rfl

/-- A graph without weights is read back from its members. -/
lemma ofValue_toValue_of_unweighted {g : Graph} (unweighted : g.weights = none) :
    ofValue g.toValue = .ok g := by
  refine ofValue_eq_ok.2 ⟨_, toValue_eq g, rfl, rfl, rfl, ?_⟩
  rw [unweighted]
  exact .absent

/-- A graph without weights is read back from its description. -/
lemma ofJson_toJson_of_unweighted {g : Graph} (unweighted : g.weights = none) :
    ofJson g.toJson = .ok g := by
  have self := ofRows_self g
  rw [unweighted] at self
  rw [ofJson_toJson_eq, value?_described, unweighted]
  exact (ofValue_described none).trans self

variable {g : Graph} {ws : Array Binary64} {ys : List Binary64}

/-- The description of a graph with weights is read as its rows with what the digits of its weights
are read as. -/
lemma ofJson_toJson_of_weighted (weighted : g.weights = some ws) :
    ofJson g.toJson = match ws.toList.mapM Binary64.reread? with
      | none => .error .malformed
      | some ys => ofRows g.directed g.offsets g.edges (some ys.toArray) := by
  have finite : ∀ w ∈ ws.toList, w.isFinite = true :=
    fun w mem => ((weights_sound weighted).2 w mem).isFinite
  rw [ofJson_toJson_eq, value?_described, weighted]
  simp only [Option.map_some, value?_array]
  rcases @value?_doubles 125 _ finite with ⟨none, none'⟩ | ⟨js, ys, values, numbers, reads⟩
  · rw [none, none']
    rfl
  · rw [values, reads]
    refine (ofValue_described _).trans ?_
    rw [weightArray_eq_ok.2 (.numbers (numbers.imp fun _ _ => isNumber_iff.2))]
    rfl

/-- A description is malformed when the digits of a weight are read past the largest double. -/
lemma ofJson_toJson_eq_malformed (weighted : g.weights = some ws)
    (past : ∃ w ∈ ws.toList, w.reread? = none) : ofJson g.toJson = .error .malformed := by
  rw [ofJson_toJson_of_weighted weighted, mapM_eq_none.2 past]

/-- What the digits of the weights are read as takes the place of the weights. -/
lemma exists_ofJson_toJson (weighted : g.weights = some ws)
    (each : List.Forall₂ (fun w y => w.reread? = some y) ws.toList ys) :
    ∃ checked, ofJson g.toJson =
      .ok ⟨g.directed, g.offsets, g.edges, some ys.toArray, checked⟩ := by
  obtain ⟨count, weights⟩ := weights_sound weighted
  have all : ∀ y ∈ ys, y.IsWeight := by
    intro y mem
    obtain ⟨w, here, read⟩ := Forall₂.exists_mem_left each mem
    exact (weights w here).reread read
  have faultless : Rows.fault? g.offsets g.edges (some ys.toArray) = none := by
    rw [g.wellFormed.fault?_eq, Option.bind_some, Rows.weightFault?_eq_none]
    exact ⟨each.length_eq.symm.trans count, all⟩
  refine ⟨faultless, ?_⟩
  rw [ofJson_toJson_of_weighted weighted, mapM_eq_some.2 each]
  exact ofRows_self ⟨_, _, _, _, faultless⟩

/-- The description of a graph is read as a graph with the same rows, each of whose weights is what the
digits of the weight are read as. It is not read at all when the digits of a weight are read past the
largest double. -/
theorem ofJson_toJson (g : Graph) :
    (ofJson g.toJson = .error .malformed ∧
        ∃ ws, g.weights = some ws ∧ ∃ w ∈ ws.toList, w.reread? = none) ∨
      ∃ read, ofJson g.toJson = .ok read ∧ read.directed = g.directed ∧ read.offsets = g.offsets ∧
        read.edges = g.edges ∧ Option.Rel
          (fun ws ys => List.Forall₂ (fun w y => w.reread? = some y) ws.toList ys.toList)
          g.weights read.weights := by
  cases weighted : g.weights with
  | none =>
    refine .inr ⟨g, ofJson_toJson_of_unweighted weighted, rfl, rfl, rfl, ?_⟩
    rw [weighted]
    exact .none
  | some ws =>
    cases reads : ws.toList.mapM Binary64.reread? with
    | none =>
      have past := mapM_eq_none.1 reads
      exact .inl ⟨ofJson_toJson_eq_malformed weighted past, ws, rfl, past⟩
    | some ys =>
      have each := mapM_eq_some.1 reads
      obtain ⟨checked, read⟩ := exists_ofJson_toJson weighted each
      exact .inr ⟨_, read, rfl, rfl, rfl, .some each⟩

/-- The sixteen digits of a weight are read as the double after it. -/
theorem weight_read_as_next :
    ∃ g, ofRows true #[0, 1, 1] #[1] (some #[0.9069395045058483]) = .ok g ∧
      ∃ read, ofJson g.toJson = .ok read ∧ read ≠ g := by
  obtain ⟨g, rows, seen⟩ := exists_of_any
    (x := ofRows true #[0, 1, 1] #[1] (some #[0.9069395045058483]))
    (p := fun g => g.weights = some #[0.9069395045058483]) (by decide +kernel)
  have weighted := of_decide_eq_true seen
  have next : (0.9069395045058483 : Binary64).reread? = some 0.9069395045058484 := by decide +kernel
  obtain ⟨checked, read⟩ := exists_ofJson_toJson weighted (.cons next .nil)
  refine ⟨g, rows, _, read, fun same => ?_⟩
  have apart : some #[(0.9069395045058484 : Binary64)] ≠ some #[0.9069395045058483] := by
    decide +kernel
  exact apart ((congrArg Graph.weights same).trans weighted)

/-- A graph is read back from its description just when each of its weights is read back. -/
theorem ofJson_toJson_eq_ok (g : Graph) : ofJson g.toJson = .ok g ↔
    ∀ ws, g.weights = some ws → ∀ w ∈ ws.toList, w.reread? = some w := by
  constructor
  · intro same ws weighted
    cases reads : ws.toList.mapM Binary64.reread? with
    | none =>
      rw [ofJson_toJson_eq_malformed weighted (mapM_eq_none.1 reads)] at same
      cases same
    | some ys =>
      have each := mapM_eq_some.1 reads
      obtain ⟨checked, read⟩ := exists_ofJson_toJson weighted each
      have weights := congrArg Graph.weights (Except.ok.inj (read.symm.trans same))
      obtain rfl := Option.some_inj.1 (weights.trans weighted)
      exact List.forall₂_same.1 each
  · intro each
    cases weighted : g.weights with
    | none => exact ofJson_toJson_of_unweighted weighted
    | some ws =>
      obtain ⟨checked, read⟩ :=
        exists_ofJson_toJson weighted (List.forall₂_same.2 (each ws weighted))
      rw [read]
      congr
      exact weighted.symm

/-- A graph is read back from its description when its weights have few digits. -/
theorem ofJson_toJson_of_short (g : Graph) (short : ∀ ws, g.weights = some ws → ∀ w ∈ ws.toList,
    ∃ negative m, w = .finite negative m ∧ (m.shortest .even).Short) : ofJson g.toJson = .ok g := by
  rw [ofJson_toJson_eq_ok]
  intro ws weighted w mem
  obtain ⟨negative, m, rfl, digits⟩ := short ws weighted w mem
  exact Binary64.reread?_of_short digits

end Graph

end LedEffect
