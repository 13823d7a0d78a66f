import LedEffect.Keyed
import Mathlib.Data.List.Nodup

/-!
# Keyed collections

What putting a value under a key does to looking one up, and what merging collections does
(`get?_merge`).
-/

namespace LedEffect.Keyed

variable {α : Type}

lemma find?_insertEntry (key : String) (value : α) (entries : List (String × α)) (name : String) :
    ((insertEntry key value entries).find? fun entry => entry.1 == name).map (·.2) =
      if key = name then some value else (entries.find? fun entry => entry.1 == name).map (·.2) := by
  induction entries with
  | nil => by_cases same : key = name <;> simp [insertEntry, same]
  | cons head rest ih =>
    obtain ⟨k, v⟩ := head
    unfold insertEntry
    split
    · by_cases same : key = name <;> simp [same]
    next notBefore =>
      split
      next here =>
        subst here
        by_cases same : key = name <;> simp [same]
      next differ =>
        by_cases other : k = name
        · have missed : key ≠ name := by
            rintro rfl
            exact differ other.symm
          simp [other, missed]
        · simp [other, ih]

/-- A value is found under its key, and the values under other keys stay. -/
lemma get?_insert (m : Keyed α) (key : String) (value : α) (name : String) :
    (m.insert key value).get? name = if key = name then some value else m.get? name :=
  find?_insertEntry key value m.entries name

lemma get?_empty (name : String) : (empty : Keyed α).get? name = none := rfl

lemma get?_update (m : Keyed α) (key : String) (initial : α) (change : α → α) (name : String) :
    (m.update key initial change).get? name =
      if key = name then some (change ((m.get? key).getD initial)) else m.get? name :=
  get?_insert m key _ name

lemma nodup_keys (m : Keyed α) : m.keys.Nodup :=
  List.pairwise_map.2 (m.ascending.imp fun lt => (String.lt_irrefl _ <| · ▸ lt))

/-- An entry is found under its key. -/
lemma get?_eq_some_iff {m : Keyed α} {key : String} {value : α} :
    m.get? key = some value ↔ (key, value) ∈ m.entries := by
  constructor
  · intro found
    obtain ⟨⟨k, v⟩, first, rfl⟩ := Option.map_eq_some_iff.1 found
    have same : k = key := by simpa using List.find?_some first
    exact same ▸ List.mem_of_find?_eq_some first
  · intro mem
    have found : (m.entries.find? fun entry => entry.1 == key).isSome :=
      List.find?_isSome.2 ⟨_, mem, by simp⟩
    obtain ⟨⟨k, v⟩, first⟩ := Option.isSome_iff_exists.1 found
    have same : k = key := by simpa using List.find?_some first
    -- Two entries with one key are one entry.
    have unique := List.inj_on_of_nodup_map m.nodup_keys (List.mem_of_find?_eq_some first) mem same
    simp [get?, first, unique]

/-- A collection has a value under each of its keys and no other. -/
lemma mem_keys_iff {m : Keyed α} {key : String} : key ∈ m.keys ↔ ∃ value, m.get? key = some value := by
  simp [keys, get?_eq_some_iff]

lemma get?_eq_none_iff {m : Keyed α} {key : String} : m.get? key = none ↔ key ∉ m.keys := by
  rw [mem_keys_iff, ← Option.isSome_iff_exists, Option.not_isSome_iff_eq_none]

/-- Entries under other keys do not matter. -/
lemma get?_foldl_insert {entries : List (String × α)} {key : String}
    (absent : key ∉ entries.map (·.1)) (m : Keyed α) :
    (entries.foldl (fun m entry => m.insert entry.1 entry.2) m).get? key = m.get? key := by
  induction entries generalizing m with
  | nil => rfl
  | cons entry rest ih =>
    rw [List.map_cons, List.mem_cons, not_or] at absent
    rw [List.foldl_cons, ih absent.2, get?_insert, if_neg (Ne.symm absent.1)]

/-- The collection of a list has keys from the list only. -/
lemma mem_of_mem_keys_ofList {entries : List (String × α)} {key : String}
    (mem : key ∈ (ofList entries).keys) : key ∈ entries.map (·.1) := by
  obtain ⟨value, found⟩ := mem_keys_iff.1 mem
  by_contra absent
  rw [ofList, get?_foldl_insert absent] at found
  cases found

/-- Of entries under different keys each is found when all of them are put in. -/
lemma get?_foldl_insert_of_mem {entries : List (String × α)}
    (distinct : (entries.map (·.1)).Nodup) {entry : String × α} (mem : entry ∈ entries)
    (m : Keyed α) :
    (entries.foldl (fun m entry => m.insert entry.1 entry.2) m).get? entry.1 = some entry.2 := by
  induction entries generalizing m with
  | nil => cases mem
  | cons head rest ih =>
    obtain ⟨fresh, distinct⟩ := List.nodup_cons.1 distinct
    rw [List.foldl_cons]
    rcases List.mem_cons.1 mem with rfl | mem
    · rw [get?_foldl_insert fresh, get?_insert, if_pos rfl]
    · exact ih distinct mem _

/-- A value that is found after putting in entries is that of an entry or was there before. -/
lemma mem_of_get?_foldl_insert {entries : List (String × α)} {key : String} {value : α} {m : Keyed α}
    (found : (entries.foldl (fun m entry => m.insert entry.1 entry.2) m).get? key = some value) :
    (key, value) ∈ entries ∨ m.get? key = some value := by
  induction entries generalizing m with
  | nil => exact .inr found
  | cons entry rest ih =>
    rcases ih found with mem | before
    · exact .inl (List.mem_cons_of_mem _ mem)
    · rw [get?_insert] at before
      split_ifs at before with same
      · obtain rfl := Option.some_inj.1 before
        exact .inl (same ▸ List.mem_cons_self)
      · exact .inr before

/-- The collection of a list under different keys has all its entries. -/
lemma get?_ofList {entries : List (String × α)} (distinct : (entries.map (·.1)).Nodup)
    {entry : String × α} (mem : entry ∈ entries) : (ofList entries).get? entry.1 = some entry.2 :=
  get?_foldl_insert_of_mem distinct mem empty

/-- Two collections with the same values under all keys are equal. -/
lemma ext_get? {m m' : Keyed α} (same : ∀ key, m.get? key = m'.get? key) : m = m' := by
  have perm : m.entries.Perm m'.entries := by
    apply (List.perm_ext_iff_of_nodup (m.nodup_keys.of_map _) (m'.nodup_keys.of_map _)).2
    rintro ⟨key, value⟩
    rw [← get?_eq_some_iff, ← get?_eq_some_iff, same key]
  -- A list in ascending order is determined by its elements.
  have entries : m.entries = m'.entries :=
    List.Perm.eq_of_pairwise (fun _ _ _ _ lt gt => absurd gt (String.lt_asymm lt))
      m.ascending m'.ascending perm
  cases m
  cases m'
  cases entries
  rfl

/-- The collection of the entries of a collection is that collection. -/
lemma ofList_entries (m : Keyed α) : ofList m.entries = m := by
  apply ext_get?
  intro key
  cases found : m.get? key with
  | none => exact (get?_foldl_insert (get?_eq_none_iff.1 found) empty).trans (get?_empty key)
  | some value => exact get?_ofList m.nodup_keys (get?_eq_some_iff.1 found)

/-! ## Merging -/

/-- Merged collections have the values of the later one, and under its missing keys those of the
earlier one. -/
lemma get?_merge (m other : Keyed α) (key : String) :
    (m.merge other).get? key = (other.get? key).or (m.get? key) := by
  unfold merge
  cases found : other.get? key with
  | none => rw [get?_foldl_insert (get?_eq_none_iff.1 found), Option.none_or]
  | some value =>
    exact get?_foldl_insert_of_mem other.nodup_keys (get?_eq_some_iff.1 found) m

lemma merge_assoc (a b c : Keyed α) : (a.merge b).merge c = a.merge (b.merge c) := by
  apply ext_get?
  intro key
  rw [get?_merge, get?_merge, get?_merge, get?_merge, Option.or_assoc]

lemma merge_self (m : Keyed α) : m.merge m = m := by
  apply ext_get?
  intro key
  rw [get?_merge, Option.or_self]

lemma merge_empty (m : Keyed α) : m.merge empty = m := rfl

lemma empty_merge (m : Keyed α) : empty.merge m = m := by
  apply ext_get?
  intro key
  rw [get?_merge, get?_empty, Option.or_none]

end LedEffect.Keyed
