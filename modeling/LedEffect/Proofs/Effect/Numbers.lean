import LedEffect.Proofs.Effect.Valid
import LedEffect.Proofs.Grouping
import LedEffect.Proofs.Traversal
import Mathlib.Data.List.Nodup

/-!
# Names and numbers

Where identifiers are distinct, looking one up gives the number of its node (`indexOf?_eq_some`).
Wires and explicit inputs therefore turn into numbers end by end, and the wires into a node are the
pairs with its number, in wire order (`wired_numbers`).
-/

namespace LedEffect.Effect

variable {e : Effect} {id : String} {i j : Nat}

/-! ## Places of nodes -/

lemma hasNumber_iff : e.HasNumber id i ↔ ∃ n, e.nodes[i]? = some n ∧ n.id = id :=
  Option.map_eq_some_iff

/-- A name that has a number names a node, and every name of a node has a number. -/
lemma names_iff : e.Names id ↔ ∃ i, e.HasNumber id i := by
  constructor
  · rintro ⟨n, mem, rfl⟩
    obtain ⟨i, place⟩ := List.getElem?_of_mem mem
    exact ⟨i, hasNumber_iff.2 ⟨n, place, rfl⟩⟩
  · rintro ⟨i, number⟩
    obtain ⟨n, place, rfl⟩ := hasNumber_iff.1 number
    exact ⟨n, List.mem_of_getElem? place, rfl⟩

/-- Numbers depend on the identifiers of the nodes alone. -/
lemma hasNumber_congr {e' : Effect} (same : e'.nodes.map (·.id) = e.nodes.map (·.id)) :
    e'.HasNumber id i ↔ e.HasNumber id i := by
  rw [HasNumber, HasNumber, ← List.getElem?_map, ← List.getElem?_map, same]

lemma names_congr {e' : Effect} (same : e'.nodes.map (·.id) = e.nodes.map (·.id)) :
    e'.Names id ↔ e.Names id := by
  rw [names_iff, names_iff]
  exact exists_congr fun _ => hasNumber_congr same

lemma HasNumber.name_unique {id' : String} (h : e.HasNumber id i) (h' : e.HasNumber id' i) :
    id = id' :=
  Option.some_inj.1 (h.symm.trans h')

lemma HasNumber.unique (distinct : (e.nodes.map (·.id)).Nodup) (h : e.HasNumber id i)
    (h' : e.HasNumber id j) : i = j := by
  rw [HasNumber, ← List.getElem?_map] at h h'
  exact (List.getElem?_inj (List.getElem?_eq_some_iff.1 h).1 distinct).1 (h.trans h'.symm)

lemma indexOf?_eq_some (distinct : (e.nodes.map (·.id)).Nodup) :
    e.indexOf? id = some i ↔ e.HasNumber id i := by
  have found : ∀ i, e.indexOf? id = some i → e.HasNumber id i := by
    intro i eq
    obtain ⟨bound, here, -⟩ := List.findIdx?_eq_some_iff_getElem.1 eq
    exact hasNumber_iff.2 ⟨_, List.getElem?_eq_getElem bound, by simpa using here⟩
  refine ⟨found i, fun number => ?_⟩
  cases eq : e.indexOf? id with
  | some j => rw [(found j eq).unique distinct number]
  | none =>
    obtain ⟨n, place, rfl⟩ := hasNumber_iff.1 number
    have differ := List.findIdx?_eq_none_iff.1 eq n (List.mem_of_getElem? place)
    simp at differ

/-! ## Wires and inputs -/

lemma wireEnd_eq_ok (distinct : (e.nodes.map (·.id)).Nodup) {w : WireSpec} :
    e.wireEnd w id = .ok i ↔ e.HasNumber id i := by
  rw [← indexOf?_eq_some distinct, wireEnd]
  cases e.indexOf? id <;> simp

/-- Wires turn into the pairs of the numbers of their ends. -/
lemma wirePairs_eq_ok (distinct : (e.nodes.map (·.id)).Nodup) {pairs : List (Nat × Nat)} :
    e.wirePairs = .ok pairs ↔
      List.Forall₂ (fun w pair => e.HasNumber w.target pair.1 ∧ e.HasNumber w.source pair.2) e.wires
        pairs := by
  rw [wirePairs, mapM_eq_ok]
  have ends : ∀ (w : WireSpec) (pair : Nat × Nat),
      (do let source ← e.wireEnd w w.source
          let target ← e.wireEnd w w.target
          return (target, source) : Except CompileError (Nat × Nat)) = .ok pair ↔
        e.HasNumber w.target pair.1 ∧ e.HasNumber w.source pair.2 := by
    rintro w ⟨target, source⟩
    simp only [bind_eq_ok, pure_eq_ok, wireEnd_eq_ok distinct, Prod.mk.injEq]
    constructor
    · rintro ⟨source', hs, target', ht, rfl, rfl⟩
      exact ⟨ht, hs⟩
    · rintro ⟨ht, hs⟩
      exact ⟨source, hs, target, ht, rfl, rfl⟩
  simp only [ends]

lemma explicitInputs_eq_ok (distinct : (e.nodes.map (·.id)).Nodup) {n : NodeSpec} {k : Kind}
    {inputs : List Nat} :
    e.explicitInputs n k = .ok inputs ↔ List.Forall₂ e.HasNumber n.inputs inputs := by
  rw [explicitInputs, mapM_eq_ok]
  refine Iff.of_eq (congrArg (List.Forall₂ · n.inputs inputs) ?_)
  funext input i
  rw [← indexOf?_eq_some distinct]
  cases e.indexOf? input <;> simp

/-- The pairs with the number of a node are the sources of the wires into it, in wire order. -/
lemma wired_numbers (distinct : (e.nodes.map (·.id)).Nodup) {wires : List WireSpec}
    {pairs : List (Nat × Nat)}
    (ends : List.Forall₂
      (fun w pair => e.HasNumber w.target pair.1 ∧ e.HasNumber w.source pair.2) wires pairs)
    (number : e.HasNumber id i) :
    List.Forall₂ e.HasNumber ((wires.filter fun w => w.target = id).map (·.source))
      (numbered pairs i) := by
  induction ends with
  | nil => exact .nil
  | @cons w pair wires pairs here _ ih =>
    obtain ⟨target, source⟩ := here
    rw [numbered_cons, List.filter_cons]
    by_cases same : w.target = id
    · have eq : pair.1 = i := (same ▸ target).unique distinct number
      rw [if_pos eq, if_pos (by simpa using same), List.map_cons]
      exact .cons source ih
    · have differ : pair.1 ≠ i := by
        rintro rfl
        exact same (target.name_unique number)
      rw [if_neg differ, if_neg (by simpa using same)]
      exact ih

lemma numbers_unique (distinct : (e.nodes.map (·.id)).Nodup) {ids : List String}
    {inputs inputs' : List Nat} (h : List.Forall₂ e.HasNumber ids inputs)
    (h' : List.Forall₂ e.HasNumber ids inputs') : inputs = inputs' := by
  induction h generalizing inputs' with
  | nil => exact (List.forall₂_nil_left_iff.1 h').symm
  | cons here _ ih =>
    obtain ⟨j, rest, here', related, rfl⟩ := List.forall₂_cons_left_iff.1 h'
    rw [here.unique distinct here', ih related]

end LedEffect.Effect
