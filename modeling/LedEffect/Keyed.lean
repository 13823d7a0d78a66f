/-!
# Keyed collections

Values under text keys, kept in ascending order of the keys. Keys are compared by code points,
which is also the byte order of their UTF-8 form. The order is part of the type, so two collections
with the same entries are equal.
-/

namespace LedEffect

/-- Values under distinct text keys in ascending order. -/
structure Keyed (α : Type) where
  entries : List (String × α)
  ascending : entries.Pairwise fun a b => a.1 < b.1

namespace Keyed

variable {α β : Type}

instance [DecidableEq α] : DecidableEq (Keyed α) := fun a b =>
  decidable_of_iff (a.entries = b.entries)
    ⟨fun h => by cases a; cases b; cases h; rfl, fun h => by rw [h]⟩

def empty : Keyed α := ⟨[], .nil⟩

instance : Inhabited (Keyed α) := ⟨empty⟩

/-- Puts an entry at its place, in the place of an entry with the same key. -/
def insertEntry (key : String) (value : α) : List (String × α) → List (String × α)
  | [] => [(key, value)]
  | (k, v) :: rest =>
    if key < k then (key, value) :: (k, v) :: rest
    else if key = k then (key, value) :: rest
    else (k, v) :: insertEntry key value rest

theorem mem_insertEntry {key : String} {value : α} {entries : List (String × α)}
    {entry : String × α} (h : entry ∈ insertEntry key value entries) :
    entry.1 = key ∨ entry ∈ entries := by
  induction entries with
  | nil =>
    simp only [insertEntry, List.mem_singleton] at h
    exact .inl (by rw [h])
  | cons head rest ih =>
    obtain ⟨k, v⟩ := head
    unfold insertEntry at h
    split at h
    · rcases List.mem_cons.1 h with rfl | h
      · exact .inl rfl
      · exact .inr h
    · split at h
      · rcases List.mem_cons.1 h with rfl | h
        · exact .inl rfl
        · exact .inr (List.mem_cons_of_mem _ h)
      · rcases List.mem_cons.1 h with rfl | h
        · exact .inr List.mem_cons_self
        · exact (ih h).imp id (List.mem_cons_of_mem _)

theorem insertEntry_ascending {key : String} {value : α} {entries : List (String × α)}
    (h : entries.Pairwise fun a b => a.1 < b.1) :
    (insertEntry key value entries).Pairwise fun a b => a.1 < b.1 := by
  induction entries with
  | nil => simp [insertEntry]
  | cons head rest ih =>
    obtain ⟨k, v⟩ := head
    obtain ⟨above, tail⟩ := List.pairwise_cons.1 h
    unfold insertEntry
    split
    next before =>
      refine List.pairwise_cons.2 ⟨fun entry mem => ?_, h⟩
      rcases List.mem_cons.1 mem with rfl | mem
      · exact before
      · exact String.lt_trans before (above _ mem)
    next notBefore =>
      split
      next same =>
        subst same
        exact List.pairwise_cons.2 ⟨above, tail⟩
      next differ =>
        have after : k < key := by
          rcases Decidable.em (k < key) with h | h
          · exact h
          · exact absurd (String.le_antisymm (String.not_lt.1 h) (String.not_lt.1 notBefore)) differ
        refine List.pairwise_cons.2 ⟨fun entry mem => ?_, ih tail⟩
        rcases mem_insertEntry mem with eq | mem
        · rw [eq]; exact after
        · exact above _ mem

/-- The collection with a value under a key, in the place of an earlier one. -/
def insert (key : String) (value : α) (m : Keyed α) : Keyed α :=
  ⟨insertEntry key value m.entries, insertEntry_ascending m.ascending⟩

/-- The value under a key. -/
def get? (m : Keyed α) (key : String) : Option α :=
  (m.entries.find? fun entry => entry.1 == key).map (·.2)

/-- The collection of a list of entries; of two with one key the later counts. -/
def ofList (entries : List (String × α)) : Keyed α :=
  entries.foldl (fun m entry => m.insert entry.1 entry.2) empty

/-- The entries of both, those of `other` before those of `m`. -/
def merge (m other : Keyed α) : Keyed α :=
  other.entries.foldl (fun m entry => m.insert entry.1 entry.2) m

/-- Changes the value under a key, starting from `initial` where there is none. -/
def update (key : String) (initial : α) (change : α → α) (m : Keyed α) : Keyed α :=
  m.insert key (change ((m.get? key).getD initial))

def size (m : Keyed α) : Nat := m.entries.length

def isEmpty (m : Keyed α) : Bool := m.entries.isEmpty

def keys (m : Keyed α) : List String := m.entries.map (·.1)

end Keyed

end LedEffect
