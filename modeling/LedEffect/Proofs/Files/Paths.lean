import LedEffect.Files.Path
import Mathlib.Logic.Function.Iterate
import Mathlib.Tactic.SplitIfs

/-!
# Paths as lists of names

The parts of a path that are not idle are its names. Two texts are the same path when their names
are and they start alike (`Path.Same`). Joining a relative path to a directory puts the names of the
directory in front, so a path that is seen from a directory again and again stays the same only if it
is absolute or the directory has no names (`Path.same_iterate_join_iff`).
-/

namespace LedEffect.Path

variable {path above : String} {n : Nat}

/-- The directory in which the relative paths of a file are looked up, empty if it has none. -/
def directory (path : String) : String := (parent? path).getD ""

/-- The parts of a path that are not idle. -/
def names (path : String) : List (List Char) := (parts path).filter fun part => part ∉ [[], ['.']]

/-- Two texts are the same path. -/
structure Same (a b : String) : Prop where
  absolute : isAbsolute a = isAbsolute b
  here : startsHere a.toList = startsHere b.toList
  names : names a = names b

lemma Same.refl (path : String) : Same path path := ⟨rfl, rfl, rfl⟩

/-! ## Joining -/

lemma join_empty (path : String) : join "" path = path := if_pos (.inr rfl)

lemma join_of_isAbsolute (absolute : isAbsolute path = true) : join above path = path :=
  if_pos (.inl absolute)

/-- A relative path follows its directory and a slash, which is not written twice. -/
lemma toList_join (relative : isAbsolute path = false) (inside : above ≠ "") :
    (join above path).toList = above.toList ++ path.toList ∧
        (∃ before, above.toList = before ++ ['/']) ∨
      (join above path).toList = above.toList ++ '/' :: path.toList := by
  rw [join, if_neg (by simp [relative, inside])]
  split_ifs with slashed
  · exact .inl ⟨String.toList_append, List.getLast?_eq_some_iff.1 slashed⟩
  · exact .inr (by simp [String.toList_append])

lemma isAbsolute_join (above path : String) :
    isAbsolute (join above path) = (isAbsolute path || isAbsolute above) := by
  cases absolute : isAbsolute path with
  | true => rw [join_of_isAbsolute absolute, absolute, Bool.true_or]
  | false =>
    rw [Bool.false_or]
    by_cases inside : above = ""
    · subst inside
      rw [join_empty, absolute]
      rfl
    · obtain ⟨c, cs, eq⟩ := List.exists_cons_of_ne_nil (mt String.toList_eq_nil_iff.1 inside)
      unfold isAbsolute
      obtain ⟨joined, -⟩ | joined := toList_join absolute inside <;> rw [joined, eq] <;> rfl

lemma parts_append (cs ds : List Char) :
    (cs ++ '/' :: ds).splitOn '/' = cs.splitOn '/' ++ ds.splitOn '/' :=
  List.splitOnP_append_cons _ _ (by simp)

/-- The names of the directory come first. -/
lemma names_join (relative : isAbsolute path = false) (inside : above ≠ "") :
    names (join above path) = names above ++ names path := by
  unfold names parts
  obtain ⟨joined, before, slashed⟩ | joined := toList_join relative inside
  · rw [joined, slashed, List.append_assoc, List.singleton_append, parts_append, parts_append,
      List.filter_append, List.filter_append]
    simp
  · rw [joined, parts_append, List.filter_append]

/-! ## Starting at a point -/

lemma startsHere_join (relative : isAbsolute path = false) (here : startsHere above.toList = true) :
    startsHere (join above path).toList = true := by
  have inside : above ≠ "" := by
    rintro rfl
    cases here
  unfold startsHere at here
  split at here
  next point =>
    obtain ⟨-, before, slashed⟩ | joined := toList_join relative inside
    · rw [point] at slashed
      cases before <;> simp at slashed
    · rw [joined, point]
      rfl
  next point =>
    obtain ⟨joined, -⟩ | joined := toList_join relative inside <;> rw [joined, point] <;> rfl
  next => cases here

/-- A relative path without names starts with a point. -/
lemma startsHere_of_names_eq_nil (relative : isAbsolute path = false) (inside : path ≠ "")
    (idle : names path = []) : startsHere path.toList = true := by
  obtain ⟨c, cs, eq⟩ := List.exists_cons_of_ne_nil (mt String.toList_eq_nil_iff.1 inside)
  have first : c ≠ '/' := by
    rintro rfl
    simp [isAbsolute, eq] at relative
  obtain ⟨part, rest, split⟩ := List.exists_cons_of_ne_nil (List.splitOnP_ne_nil (· == '/') cs)
  have point : c = '.' ∧ part = [] := by
    unfold names parts at idle
    rw [eq, List.splitOn, List.splitOnP_cons_eq_if_modifyHead, if_neg (by simpa using first), split] at idle
    simpa using (List.filter_eq_nil_iff.1 idle) (c :: part) List.mem_cons_self
  obtain ⟨rfl, rfl⟩ := point
  rw [eq]
  cases cs with
  | nil => rfl
  | cons c cs =>
    -- The first part ends behind the point, so a slash follows.
    rw [List.splitOnP_cons_eq_if_modifyHead] at split
    split_ifs at split with slash
    · rw [beq_iff_eq] at slash
      rw [slash]
      rfl
    · obtain ⟨part, rest, more⟩ := List.exists_cons_of_ne_nil (List.splitOnP_ne_nil (· == '/') cs)
      rw [more] at split
      cases split

/-! ## Seen from a directory again and again -/

section Iterate

variable (relative : isAbsolute above = false) (inside : above ≠ "")

include relative inside

/-- Each time, the names of the directory come once more in front. -/
lemma length_names_iterate_join (outside : isAbsolute path = false) (n : Nat) :
    isAbsolute ((join above)^[n] path) = false ∧
      (names ((join above)^[n] path)).length = n * (names above).length + (names path).length := by
  induction n with
  | zero => exact ⟨outside, by rw [Nat.zero_mul, Nat.zero_add]; rfl⟩
  | succ n ih =>
    obtain ⟨still, length⟩ := ih
    rw [Function.iterate_succ_apply']
    refine ⟨by rw [isAbsolute_join, still, relative]; rfl, ?_⟩
    rw [names_join still inside, List.length_append, length, Nat.succ_mul]
    omega

lemma same_iterate_join (idle : names above = []) (outside : isAbsolute path = false) (n : Nat) :
    Same ((join above)^[n] (join above path)) (join above path) := by
  have here := startsHere_of_names_eq_nil relative inside idle
  induction n with
  | zero => exact .refl _
  | succ n ih =>
    have still : isAbsolute ((join above)^[n] (join above path)) = false := by
      rw [ih.absolute, isAbsolute_join, outside, relative]
      rfl
    rw [Function.iterate_succ_apply']
    refine ⟨?_, ?_, ?_⟩
    · rw [isAbsolute_join, relative, Bool.or_false, ih.absolute]
    · rw [startsHere_join still here, startsHere_join outside here]
    · rw [names_join still inside, idle, List.nil_append, ih.names]

end Iterate

lemma iterate_join_of_isAbsolute (absolute : isAbsolute path = true) (n : Nat) :
    (join above)^[n] path = path :=
  Function.iterate_fixed (join_of_isAbsolute absolute) n

lemma iterate_join_empty (path : String) (n : Nat) : (join "")^[n] path = path :=
  Function.iterate_fixed (join_empty path) n

/-- What was seen from a directory stays the same path there if it is absolute or the directory has
no names. -/
theorem same_iterate_join_iff : Same ((join above)^[n] (join above path)) (join above path) ↔
    n = 0 ∨ isAbsolute (join above path) = true ∨ names above = [] := by
  cases absolute : isAbsolute (join above path) with
  | true => simp [iterate_join_of_isAbsolute absolute, Same.refl]
  | false =>
    have outside := absolute
    rw [isAbsolute_join, Bool.or_eq_false_iff] at outside
    obtain ⟨outside, relative⟩ := outside
    by_cases inside : above = ""
    · subst inside
      rw [iterate_join_empty]
      exact iff_of_true (.refl _) (.inr (.inr rfl))
    · constructor
      · intro same
        have length := (length_names_iterate_join relative inside absolute n).2
        rw [same.names, Nat.right_eq_add, Nat.mul_eq_zero, List.length_eq_zero_iff] at length
        exact length.imp_right .inr
      · rintro (rfl | absurd | idle)
        · exact .refl _
        · cases absurd
        · exact same_iterate_join relative inside idle outside n

/-! ## Directories -/

/-- The directory of an absolute path is absolute. -/
lemma isAbsolute_directory (absolute : isAbsolute path = true) (inside : directory path ≠ "") :
    isAbsolute (directory path) = true := by
  obtain ⟨cs, eq⟩ : ∃ cs, path.toList = '/' :: cs := by
    rwa [isAbsolute, beq_iff_eq, List.head?_eq_some_iff] at absolute
  unfold directory parent? at *
  simp only [absolute, Bool.true_or, if_true, eq, List.drop_one, List.tail_cons] at inside ⊢
  split
  next idle =>
    rw [idle] at inside
    exact absurd rfl inside
  next => simp [isAbsolute]

/-- A path seen from the directory of an absolute path is absolute, unless there is none. -/
lemma iterate_join_directory (absolute : isAbsolute path = true) (model : String) (n : Nat) :
    (join (directory path))^[n] (join (directory path) model) = join (directory path) model := by
  by_cases inside : directory path = ""
  · rw [inside, iterate_join_empty]
  · exact iterate_join_of_isAbsolute (by rw [isAbsolute_join, isAbsolute_directory absolute inside,
      Bool.or_true]) n

end LedEffect.Path
