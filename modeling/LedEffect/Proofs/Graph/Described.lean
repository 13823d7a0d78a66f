import LedEffect.Graph.Json
import LedEffect.Proofs.Graph.Weights
import LedEffect.Proofs.Traversal

/-!
# Described graphs

A JSON value is read as a graph just when it is an object whose members describe the arrays of the
graph (`ofValue_eq_ok`), and arrays are those of a graph just when they fit together
(`exists_ofRows_iff`).
-/

namespace LedEffect

/-- All elements of a list are read when there is none that is not. -/
lemma Rows.findIndexed?_isNone {α β : Type} {read : α → Option β} {index : Nat} {xs : List α} :
    findIndexed? (fun x => (read x).isNone) index xs = none ↔
      List.Forall₂ (fun x y => read x = some y) xs (xs.filterMap read) := by
  rw [findIndexed?_eq_none]
  induction xs with
  | nil => exact iff_of_true (List.forall_mem_nil _) .nil
  | cons x xs ih =>
    rw [List.forall_mem_cons, List.filterMap_cons]
    cases here : read x with
    | none =>
      refine iff_of_false (fun all => Bool.noConfusion all.1) fun all => ?_
      obtain ⟨y, -, eq⟩ := Forall₂.exists_mem_right all List.mem_cons_self
      cases here.symm.trans eq
    | some y => simpa [here] using ih

lemma filterMap_eq_of_forall₂ {α β : Type} {read : α → Option β} {xs : List α} {ys : List β}
    (each : List.Forall₂ (fun x y => read x = some y) xs ys) : xs.filterMap read = ys := by
  induction each with
  | nil => rfl
  | cons here _ ih => rw [List.filterMap_cons_some here, ih]

namespace Graph

open Binary64

variable {g : Graph} {offsets edges : Array UInt32} {weights : Option (Array Binary64)}

/-! ## Members -/

lemma word?_eq_some {item : Json} {w : UInt32} :
    word? item = some w ↔ item = .natural w.toNat := by
  have small : w.toNat ≤ counterLimit := Nat.le_pred_of_lt w.toNat_lt
  constructor
  · intro read
    cases item with
    | integer n =>
      obtain ⟨range, eq⟩ := Option.ite_none_right_eq_some.1 read
      obtain rfl := Option.some_inj.1 eq
      have fits : n.toNat < UInt32.size := by
        have : UInt32.size = counterLimit + 1 := rfl
        omega
      rw [UInt32.toNat_ofNat_of_lt' fits, Json.natural, Int.toNat_of_nonneg range.1]
    | _ => cases read
  · rintro rfl
    have range : 0 ≤ (w.toNat : Int) ∧ (w.toNat : Int) ≤ counterLimit :=
      ⟨Int.natCast_nonneg _, Int.ofNat_le.2 small⟩
    refine (if_pos range).trans ?_
    rw [Int.toNat_natCast, UInt32.ofNat_toNat]

/-- An array of words is read from the array of their numbers, and from nothing else. -/
lemma wordArray_eq_ok {field : String} {member : Option Json} {a : Array UInt32} :
    wordArray field member = .ok a ↔
      member = some (.array (a.toList.map fun n => .natural n.toNat)) := by
  have described : ∀ {items : List Json} {ws : List UInt32},
      List.Forall₂ (fun item w => word? item = some w) items ws ↔
        items = ws.map fun n => .natural n.toNat := by
    intro items ws
    simp only [word?_eq_some]
    rw [← List.forall₂_eq_eq_eq, List.forall₂_map_right_iff]
  unfold wordArray
  split
  · exact iff_of_false nofun nofun
  next items =>
    rw [words]
    constructor
    · intro read
      split at read
      · cases read
      next all =>
        rw [← Except.ok.inj read, ← described.1 (Rows.findIndexed?_isNone.1 all)]
    · rintro ⟨⟩
      have all := described.2 (rfl : _ = a.toList.map fun n => Json.natural n.toNat)
      have same := filterMap_eq_of_forall₂ all
      rw [Rows.findIndexed?_isNone.2 (same.symm ▸ all), same]
  next other array =>
    refine iff_of_false nofun ?_
    rintro ⟨⟩
    exact array _ rfl

/-- The double that a number is. -/
inductive IsNumber : Json → Binary64 → Prop
  | integer (n : Int) : IsNumber (.integer n) (.ofInt n)
  | double (x : Binary64) : IsNumber (.double x) x

lemma isNumber_iff {item : Json} {x : Binary64} : IsNumber item x ↔ double? item = some x := by
  constructor
  · rintro (n | x) <;> rfl
  · intro read
    cases item with
    | integer n =>
      cases read
      exact .integer n
    | double y =>
      cases read
      exact .double x
    | _ => cases read

/-- The weights that a member says, or that there are none. -/
inductive DescribesWeights : Option Json → Option (Array Binary64) → Prop
  | absent : DescribesWeights none none
  | null : DescribesWeights (some .null) none
  | numbers {items : List Json} {weights : Array Binary64}
    (each : List.Forall₂ IsNumber items weights.toList) :
    DescribesWeights (some (.array items)) (some weights)

lemma weightArray_eq_ok {member : Option Json} {weights : Option (Array Binary64)} :
    weightArray member = .ok weights ↔ DescribesWeights member weights := by
  have numbers : ∀ {items : List Json} {ws : List Binary64}, List.Forall₂ IsNumber items ws ↔
      List.Forall₂ (fun item x => double? item = some x) items ws := by
    intro items ws
    simp only [← isNumber_iff]
  constructor
  · intro read
    unfold weightArray at read
    split at read
    · cases read
      exact .absent
    · cases read
      exact .null
    · split at read
      · cases read
      next all =>
        cases read
        exact .numbers (numbers.2 (Rows.findIndexed?_isNone.1 all))
    · cases read
  · rintro (- | - | each)
    · rfl
    · rfl
    next items weights =>
      have each := numbers.1 each
      have same := filterMap_eq_of_forall₂ each
      rw [weightArray, Rows.findIndexed?_isNone.2 (same.symm ▸ each), same]

/-- What the members of an object say about a graph. -/
structure Describes (members : List (String × Json)) (directed : Bool)
    (offsets edges : Array UInt32) (weights : Option (Array Binary64)) : Prop where
  directed : member? members "directed" = some (.bool directed)
  offsets : member? members "offsets" =
    some (.array (offsets.toList.map fun n => .natural n.toNat))
  edges : member? members "edges" = some (.array (edges.toList.map fun n => .natural n.toNat))
  weights : DescribesWeights (member? members "weights") weights

/-- With a flag, the members of an object are read one after the other. -/
lemma ofValue_object {members : List (String × Json)} {directed : Bool}
    (flag : member? members "directed" = some (.bool directed)) :
    ofValue (.object members) = (do
      let offsets ← wordArray "offsets" (member? members "offsets")
      let edges ← wordArray "edges" (member? members "edges")
      let weights ← weightArray (member? members "weights")
      ofRows directed offsets edges weights) := by
  rw [ofValue, flag]
  rfl

lemma exists_flag {members : List (String × Json)} (read : ofValue (.object members) = .ok g) :
    ∃ directed, member? members "directed" = some (.bool directed) := by
  unfold ofValue at read
  dsimp only at read
  split at read
  next directed flag => exact ⟨directed, flag⟩
  · cases read
  · cases read

/-- A value is read as a graph when its members describe the arrays of the graph. -/
lemma ofValue_eq_ok {value : Json} : ofValue value = .ok g ↔ ∃ members, value = .object members ∧
    Describes members g.directed g.offsets g.edges g.weights := by
  cases value with
  | object members =>
    constructor
    · intro read
      obtain ⟨directed, flag⟩ := exists_flag read
      rw [ofValue_object flag] at read
      obtain ⟨offsets, starts, read⟩ := bind_eq_ok.1 read
      obtain ⟨edges, targets, read⟩ := bind_eq_ok.1 read
      obtain ⟨weights, costs, read⟩ := bind_eq_ok.1 read
      obtain ⟨rfl, rfl, rfl, rfl⟩ := ofRows_eq_ok.1 read
      exact ⟨members, rfl, flag, wordArray_eq_ok.1 starts, wordArray_eq_ok.1 targets,
        weightArray_eq_ok.1 costs⟩
    · rintro ⟨_, ⟨⟩, described⟩
      rw [ofValue_object described.directed]
      exact bind_eq_ok.2 ⟨g.offsets, wordArray_eq_ok.2 described.offsets, bind_eq_ok.2 ⟨g.edges,
        wordArray_eq_ok.2 described.edges, bind_eq_ok.2 ⟨g.weights,
        weightArray_eq_ok.2 described.weights, ofRows_self g⟩⟩⟩
  | _ => exact iff_of_false nofun nofun

/-! ## Arrays that fit together -/

/-- How the arrays of a graph fit together. -/
structure Consistent (offsets edges : Array UInt32) (weights : Option (Array Binary64)) : Prop
    extends Rows.WellFormed offsets edges where
  weighted : ∀ ws, weights = some ws → ws.size = edges.size ∧
    ∀ w ∈ ws.toList, w.isFinite = true ∧ w.lt .zero = false

lemma fault?_eq_none_iff :
    Rows.fault? offsets edges weights = none ↔ Consistent offsets edges weights := by
  have weights_iff : ∀ {ws : Array Binary64} {count : Nat},
      Rows.weightFault? ws count = none ↔ ws.size = count ∧
        ∀ w ∈ ws.toList, w.isFinite = true ∧ w.lt .zero = false := by
    intro ws count
    rw [Rows.weightFault?_eq_none]
    simp only [isWeight_iff]
  constructor
  · intro faultless
    have wellFormed := Rows.WellFormed.of_fault? faultless
    refine ⟨wellFormed, ?_⟩
    rintro ws rfl
    rw [wellFormed.fault?_eq, Option.bind_some] at faultless
    exact weights_iff.1 faultless
  · intro consistent
    rw [consistent.toWellFormed.fault?_eq]
    cases weights with
    | none => rfl
    | some ws => exact weights_iff.2 (consistent.weighted ws rfl)

/-- Arrays that fit together are those of a graph. -/
lemma exists_ofRows_iff (directed : Bool) :
    (∃ g, ofRows directed offsets edges weights = .ok g) ↔ Consistent offsets edges weights := by
  rw [← fault?_eq_none_iff]
  constructor
  · rintro ⟨g, made⟩
    obtain ⟨-, rfl, rfl, rfl⟩ := ofRows_eq_ok.1 made
    exact g.checked
  · intro faultless
    exact ⟨⟨directed, offsets, edges, weights, faultless⟩, ofRows_eq_ok.2 ⟨rfl, rfl, rfl, rfl⟩⟩

end Graph

end LedEffect
