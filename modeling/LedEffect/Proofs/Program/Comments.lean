import LedEffect.Program.Printer
import LedEffect.Proofs.Traversal

/-!
# Comments

The text of a comment stays on its line. Programs that differ in the texts of their comments only
(`bareAll`) therefore print to lines that differ in comments only (`render_congr`).
-/

namespace LedEffect.Program

/-! ## Comments without their texts -/

mutual

/-- A statement with the texts of its comments left out. -/
def Statement.bare : Statement → Statement
  | .comment _ => .comment ""
  | .constant n value => .constant n value
  | .declare type n value => .declare type n value
  | .table n rows => .table n rows
  | .assign place how value => .assign place how value
  | .loop n start bound limit body => .loop n start bound limit (bareAll body)
  | .branch condition body => .branch condition (bareAll body)
  | .block body => .block (bareAll body)

/-- Statements with the texts of their comments left out. -/
def bareAll : List Statement → List Statement
  | [] => []
  | s :: rest => s.bare :: bareAll rest

end

lemma bareAll_eq_map (stmts : List Statement) : bareAll stmts = stmts.map Statement.bare := by
  induction stmts with
  | nil => rfl
  | cons s stmts ih => rw [bareAll, ih, List.map_cons]

lemma bareAll_append (first rest : List Statement) :
    bareAll (first ++ rest) = bareAll first ++ bareAll rest := by
  simp only [bareAll_eq_map, List.map_append]

lemma bareAll_flatMap {α : Type} (f : α → List Statement) (xs : List α) :
    bareAll (xs.flatMap f) = xs.flatMap fun x => bareAll (f x) := by
  simp only [bareAll_eq_map, List.map_flatMap]

/-! ## Lines -/

/-- Whether a line is a comment behind its leading blanks. -/
def IsComment (line : List Char) : Prop := ['/', '/'] <+: line.dropWhile (· == ' ')

instance (line : List Char) : Decidable (IsComment line) := by
  unfold IsComment
  infer_instance

/-- Whether two lines are equal or both comments. -/
def SameCode (line line' : List Char) : Prop :=
  (IsComment line ↔ IsComment line') ∧ (¬ IsComment line → line' = line)

lemma SameCode.refl (line : List Char) : SameCode line line := ⟨Iff.rfl, fun _ => rfl⟩

/-- Whether two printed lines are equal or both comments, each on one line. -/
def SameLine (line line' : String) : Prop :=
  line = line' ∨ (IsComment line.toList ∧ '\n' ∉ line.toList) ∧
    IsComment line'.toList ∧ '\n' ∉ line'.toList

lemma SameLine.symm {line line' : String} (same : SameLine line line') : SameLine line' line :=
  same.imp Eq.symm And.symm

lemma SameLine.trans {first second third : String} (same : SameLine first second)
    (same' : SameLine second third) : SameLine first third := by
  rcases same with rfl | ⟨comment, other⟩
  · exact same'
  · rcases same' with rfl | ⟨-, comment'⟩
    · exact .inr ⟨comment, other⟩
    · exact .inr ⟨comment, comment'⟩

/-- A printed comment is a comment on one line, whatever its text. -/
lemma comment_line (level : Nat) (text : String) :
    IsComment (indented level ("// " ++ commentText text)).toList ∧
      '\n' ∉ (indented level ("// " ++ commentText text)).toList := by
  have printed : (indented level ("// " ++ commentText text)).toList =
      List.replicate (4 * level) ' ' ++ ('/' :: '/' :: ' ' :: (commentText text).toList) := by
    simp [indented]
  have kept : '\n' ∉ (commentText text).toList := by
    rw [commentText, String.toList_map, List.mem_map]
    rintro ⟨c, -, eq⟩
    split at eq
    · cases eq
    next plain =>
      subst eq
      exact plain (by decide)
  rw [printed, IsComment]
  refine ⟨?_, by simp [kept, List.mem_replicate]⟩
  rw [List.dropWhile_append_of_pos (by simp [List.mem_replicate])]
  simp

variable (target : TargetProfile)

lemma forall₂_sameLine (lines : List String) : List.Forall₂ SameLine lines lines :=
  List.forall₂_same.2 fun _ _ => .inl rfl

mutual

/-- Without the texts of its comments a statement prints to the same lines but for comments. -/
lemma Statement.lines_bare (s : Statement) (level : Nat) :
    List.Forall₂ SameLine (s.lines target level) (s.bare.lines target level) := by
  match s with
  | .comment text =>
    exact .cons (.inr ⟨comment_line level text, comment_line level ""⟩) .nil
  | .constant n value => exact forall₂_sameLine _
  | .declare type n value => exact forall₂_sameLine _
  | .table n rows => exact forall₂_sameLine _
  | .assign place how value => exact forall₂_sameLine _
  | .loop n start bound limit body =>
    exact .cons (.inl rfl) (List.rel_append (linesOf_bare body (level + 1)) (forall₂_sameLine _))
  | .branch condition body =>
    exact .cons (.inl rfl) (List.rel_append (linesOf_bare body (level + 1)) (forall₂_sameLine _))
  | .block body =>
    exact .cons (.inl rfl) (List.rel_append (linesOf_bare body (level + 1)) (forall₂_sameLine _))

lemma linesOf_bare (stmts : List Statement) (level : Nat) :
    List.Forall₂ SameLine (linesOf target level stmts) (linesOf target level (bareAll stmts)) := by
  match stmts with
  | [] => exact .nil
  | s :: rest => exact List.rel_append (s.lines_bare level) (linesOf_bare rest level)

end

/-- Statements that differ in the texts of comments only print to lines that differ in comments
only. -/
lemma linesOf_congr {stmts stmts' : List Statement} (same : bareAll stmts = bareAll stmts')
    (level : Nat) :
    List.Forall₂ SameLine (linesOf target level stmts) (linesOf target level stmts') := by
  have first := linesOf_bare target stmts level
  have second := linesOf_bare target stmts' level
  rw [← same] at second
  refine forall₂_iff_getElem?.2
    ⟨first.length_eq.trans second.length_eq.symm, fun i line line' here there => ?_⟩
  obtain ⟨bare, place, to_bare⟩ := Forall₂.exists_right first here
  obtain ⟨bare', place', of_bare⟩ := Forall₂.exists_right second there
  obtain rfl := Option.some_inj.1 (place.symm.trans place')
  exact to_bare.trans of_bare.symm

/-! ## Texts -/

/-- The lines of a text, between its line feeds. -/
def textLines (text : String) : List (List Char) := text.toList.splitOn '\n'

/-- The lines of printed lines are their own, and an empty one behind the last line feed. -/
lemma textLines_unlines (lines : List String) :
    textLines (unlines lines) = lines.flatMap textLines ++ [[]] := by
  induction lines with
  | nil => rfl
  | cons line lines ih =>
    have printed : (unlines (line :: lines)).toList =
        line.toList ++ '\n' :: (unlines lines).toList := by
      simp [unlines]
    rw [textLines, printed, List.splitOn, List.splitOnP_append_cons _ _ (by simp), List.flatMap_cons,
      List.append_assoc, ← ih]
    rfl

lemma textLines_congr {line line' : String} (same : SameLine line line') :
    List.Forall₂ SameCode (textLines line) (textLines line') := by
  rcases same with rfl | ⟨⟨comment, single⟩, comment', single'⟩
  · exact List.forall₂_same.2 fun l _ => .refl l
  · rw [textLines, textLines, List.splitOn_eq_singleton single, List.splitOn_eq_singleton single']
    exact .cons ⟨by simp [comment, comment'], fun code => absurd comment code⟩ .nil

/-- Programs that differ in the texts of comments only print to texts that differ in comments only,
line by line. -/
theorem render_congr {p p' : Program} (same : bareAll p.statements = bareAll p'.statements) :
    List.Forall₂ SameCode (textLines (p.render target)) (textLines (p'.render target)) := by
  have lines := linesOf_congr target same 0
  rw [render, render, textLines_unlines, textLines_unlines]
  refine List.rel_append ?_ (.cons (.refl []) .nil)
  exact List.rel_flatMap lines fun _ _ same => textLines_congr same

end LedEffect.Program
