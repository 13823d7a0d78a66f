import LedEffect.Proofs.Program.Comments
import LedEffect.Proofs.Program.Spelling

/-!
# Braces of statements

The lines of statements are read one after the other. Each brace and parenthesis that they open they close,
as far as their expressions do (`takes_linesOf`), and comments are not read at all.
-/

namespace LedEffect

namespace Token

variable {c : Char} {cs ds ws : List Char} {due due' due'' : List Token}

/-- Whether a text takes the closing delimiters that are due before it to those that are due behind it, and
is read by itself whatever follows. -/
def Takes (due : List Token) (cs : List Char) (due' : List Token) : Prop :=
  ∃ ts, ts.foldlM due? due = some due' ∧ ∀ rest, tokens (cs ++ rest) = ts ++ tokens rest

/-- Whether a text is balanced, and is read by itself in front of a character that stands in no number. -/
def Fills (ws : List Char) : Prop :=
  ∃ ts, Balanced ts ∧ ∀ rest, (∀ c ∈ rest.head?, isNumberPart c = false) →
    tokens (ws ++ rest) = ts ++ tokens rest

lemma Takes.of_run (ends : (run .blank cs).2 = .blank)
    (delimiters : (run .blank cs).1.foldlM due? due = some due') : Takes due cs due' :=
  ⟨(run .blank cs).1, delimiters, tokens_append (Prod.ext rfl ends)⟩

lemma Takes.nil (due : List Token) : Takes due [] due := ⟨[], rfl, fun _ => rfl⟩

lemma Takes.append (first : Takes due cs due') (second : Takes due' ds due'') :
    Takes due (cs ++ ds) due'' := by
  obtain ⟨ts, delimiters, read⟩ := first
  obtain ⟨us, delimiters', read'⟩ := second
  refine ⟨ts ++ us, by simp [List.foldlM_append, delimiters, delimiters'], fun rest => ?_⟩
  rw [List.append_assoc, read, read', List.append_assoc]

/-- What is due before a text and closed behind it is left alone by it. -/
lemma Takes.under (takes : Takes due cs due') (more : List Token) :
    Takes (due ++ more) cs (due' ++ more) := by
  obtain ⟨ts, delimiters, read⟩ := takes
  exact ⟨ts, foldlM_due?_append more delimiters, read⟩

/-- A balanced text between two others. -/
lemma Takes.fill (before : Takes due cs due') (inner : Fills ws) (behind : Takes due' ds due'')
    (ends : ds.head?.map isNumberPart = some false) : Takes due (cs ++ ws ++ ds) due'' := by
  obtain ⟨ts, delimiters, read⟩ := before
  obtain ⟨us, balanced, read'⟩ := inner
  obtain ⟨vs, delimiters', read''⟩ := behind
  refine ⟨ts ++ (us ++ vs), by simp [List.foldlM_append, delimiters, balanced.run, delimiters'],
    fun rest => ?_⟩
  have stops : ∀ c ∈ (ds ++ rest).head?, isNumberPart c = false := by
    cases ds with
    | nil => cases ends
    | cons d ds =>
      rintro c ⟨⟩
      exact Option.some_inj.1 ends
  simp [read, read' (ds ++ rest) stops, read'']

/-- A word fills a gap. -/
lemma Fills.word {s : String} (identifier : isIdentifier s = true) : Fills s.toList :=
  ⟨[.word s], .single rfl rfl, fun _ ends => tokens_word identifier fun c mem =>
    (Bool.or_eq_false_iff.1 (ends c mem)).1⟩

end Token

namespace Program

open Token

variable {target : TargetProfile} {due due' : List Token}

/-- A number behind its sign fills a gap. -/
lemma fills_signed {negative : Bool} {s : String} (number : IsNumber s) :
    Fills (withSign negative s.toList).toList :=
  ⟨_, (Tree.Derives.signed (n := 1) s fun _ => Nat.le_refl 1).balanced, fun _ ends =>
    tokens_signed number ends⟩

lemma fills_int (k : Int) : Fills (toString k).toList := by
  rw [toString_eq_withSign]
  exact fills_signed (isNumber_toString _)

lemma Expr.Binds.fills (identifiers : ∀ s, isIdentifier (target.name s) = true) {e : Expr} {n : Nat}
    (binds : e.Binds n) : Fills (e.text target).toList :=
  ⟨_, binds.derives.balanced, fun _ ends => binds.tokens_text identifiers fun c mem =>
    e.absorbs_eq_false (ends c mem)⟩

/-! ## Lines -/

lemma toList_unlines_cons (line : String) (lines : List String) :
    (unlines (line :: lines)).toList = line.toList ++ '\n' :: (unlines lines).toList := by
  simp [unlines]

lemma toList_unlines_append (first rest : List String) :
    (unlines (first ++ rest)).toList = (unlines first).toList ++ (unlines rest).toList := by
  induction first with
  | nil => rfl
  | cons line first ih => simp [toList_unlines_cons, ih]

lemma takes_blanks (due : List Token) (k : Nat) : Takes due (List.replicate k ' ') due :=
  .of_run (by rw [run_blanks]) (by rw [run_blanks]; rfl)

/-- A line takes what its text takes. -/
lemma takes_line {text : String} (takes : Takes due text.toList due') (level : Nat) :
    Takes due (unlines [indented level text]).toList due' := by
  have feed : Takes due' ['\n'] due' := .of_run (by decide) (by rfl)
  have line : (unlines [indented level text]).toList =
      List.replicate (4 * level) ' ' ++ text.toList ++ ['\n'] := by
    simp [unlines, indented]
  rw [line]
  exact ((takes_blanks due _).append takes).append feed

/-- Nothing is read of a comment. -/
lemma takes_comment (level : Nat) (text : String) :
    Takes [] (unlines [indented level ("// " ++ commentText text)]).toList [] := by
  have line : (unlines [indented level ("// " ++ commentText text)]).toList =
      List.replicate (4 * level) ' ' ++ '/' :: '/' :: (' ' :: (commentText text).toList ++ ['\n']) := by
    simp [unlines, indented]
  have single : '\n' ∉ ' ' :: (commentText text).toList := by
    simpa [indented, List.mem_replicate] using (comment_line level text).2
  have comment := run_comment single
  rw [line]
  exact (takes_blanks [] _).append (.of_run (by rw [comment]) (by rw [comment]; rfl))

/-! ## Statements -/

mutual

/-- The expressions in a statement. -/
def Statement.expressions : Statement → List Expr
  | .comment _ | .declare _ _ none | .table _ _ => []
  | .constant _ e | .declare _ _ (some e) => [e]
  | .assign place _ e => [place, e]
  | .loop _ _ _ limit body => limit :: expressionsIn body
  | .branch condition body => condition :: expressionsIn body
  | .block body => expressionsIn body

/-- The expressions in consecutive statements. -/
def expressionsIn : List Statement → List Expr
  | [] => []
  | s :: rest => s.expressions ++ expressionsIn rest

end

attribute [simp] Statement.expressions expressionsIn

lemma expressionsIn_append (first rest : List Statement) :
    expressionsIn (first ++ rest) = expressionsIn first ++ expressionsIn rest := by
  induction first with
  | nil => rfl
  | cons s first ih => rw [List.cons_append, expressionsIn, expressionsIn, ih, List.append_assoc]

lemma expressionsIn_flatMap {α : Type} (f : α → List Statement) (xs : List α) :
    expressionsIn (xs.flatMap f) = xs.flatMap fun x => expressionsIn (f x) := by
  induction xs with
  | nil => rfl
  | cons x xs ih => rw [List.flatMap_cons, expressionsIn_append, ih, List.flatMap_cons]

/-- Balanced lines between one that opens a brace and one that closes it. -/
lemma takes_enclosed {header footer : String} {lines : List String}
    (opens : Takes [] header.toList [.mark '}']) (inside : Takes [] (unlines lines).toList [])
    (closes : Takes [.mark '}'] footer.toList []) (level : Nat) :
    Takes [] (unlines (indented level header :: lines ++ [indented level footer])).toList [] := by
  rw [List.cons_append, ← List.singleton_append, toList_unlines_append, toList_unlines_append]
  exact (takes_line opens level).append ((inside.under _).append (takes_line closes level))

/-- The rows of a colour table are balanced. -/
lemma takes_rows (level : Nat) (rows : List (UInt8 × UInt8 × UInt8)) :
    Takes [] (unlines (rows.map fun (r, g, b) =>
      indented level ("\x7b" ++ s!"{r}, {g}, {b}" ++ "\x7d,"))).toList [] := by
  induction rows with
  | nil => exact .nil []
  | cons row rows ih =>
    obtain ⟨r, g, b⟩ := row
    have byte (b : UInt8) : Fills (toString b).toList := fills_int b.toNat
    have opening : Takes [] ['{'] [.mark '}'] := .of_run (by decide) (by decide)
    have comma : Takes [.mark '}'] [',', ' '] [.mark '}'] := .of_run (by decide) (by decide)
    have closing : Takes [.mark '}'] ['}', ','] [] := .of_run (by decide) (by decide)
    have cells := ((opening.fill (byte r) comma rfl).fill (byte g) comma rfl).fill (byte b) closing rfl
    have line : Takes [] ("\x7b" ++ s!"{r}, {g}, {b}" ++ "\x7d,").toList [] := by
      simpa [toString] using cells
    rw [List.map_cons, ← List.singleton_append, toList_unlines_append]
    exact (takes_line line level).append ih

mutual

/-- The lines of a statement are balanced if its expressions bind. -/
lemma Statement.takes_lines (identifiers : ∀ s, isIdentifier (target.name s) = true) (s : Statement)
    (level : Nat) (binds : ∀ e ∈ s.expressions, e.Binds 5) :
    Takes [] (unlines (s.lines target level)).toList [] := by
  have name (n : Name) : Fills (n.text target).toList := .word (n.isIdentifier_text identifiers)
  have scalar (type : Scalar) : Fills type.text.toList := .word (by cases type <;> decide)
  have filled {e : Expr} (mem : e ∈ s.expressions) : Fills (e.text target).toList :=
    (binds e mem).fills identifiers
  have blank : Takes [] " ".toList [] := .of_run (by decide) (by decide)
  have equals : Takes [] " = ".toList [] := .of_run (by decide) (by decide)
  have semicolon : Takes [] ";".toList [] := .of_run (by decide) (by decide)
  have brace : Takes [] "\x7b".toList [.mark '}'] := .of_run (by decide) (by decide)
  have brace' : Takes [.mark '}'] "\x7d".toList [] := .of_run (by decide) (by decide)
  match s with
  | .comment text => exact takes_comment level text
  | .constant n value =>
    have type : Takes [] "const float ".toList [] := .of_run (by decide) (by decide)
    have line := (type.fill (name n) equals rfl).fill (filled (.head _)) semicolon rfl
    exact takes_line (by simpa using line) level
  | .declare type n none =>
    have line := ((Takes.nil []).fill (scalar type) blank rfl).fill (name n) semicolon rfl
    exact takes_line (by simpa using line) level
  | .declare type n (some value) =>
    have line := (((Takes.nil []).fill (scalar type) blank rfl).fill (name n) equals rfl).fill
      (filled (.head _)) semicolon rfl
    exact takes_line (by simpa using line) level
  | .table n rows =>
    have type : Takes [] "static const uint8_t ".toList [] := .of_run (by decide) (by decide)
    have bracket : Takes [] "[".toList [.mark ']'] := .of_run (by decide) (by decide)
    have columns : Takes [.mark ']'] "][3] = \x7b".toList [.mark '}'] := .of_run (by decide) (by decide)
    have closing : Takes [.mark '}'] "\x7d;".toList [] := .of_run (by decide) (by decide)
    have count : Fills (toString rows.length).toList := fills_int rows.length
    have line := (type.fill (name n) bracket rfl).fill count columns rfl
    exact takes_enclosed (by simpa [toString] using line) (takes_rows _ rows) closing level
  | .assign place how value =>
    have sign : Takes [] (" " ++ how.text ++ " ").toList [] := by
      cases how <;> exact .of_run (by decide) (by decide)
    have line := ((Takes.nil []).fill (filled (.head _)) sign (by cases how <;> rfl)).fill
      (filled (.tail _ (.head _))) semicolon rfl
    exact takes_line (by simpa using line) level
  | .loop n start bound limit body =>
    have opening : Takes [] "for (int ".toList [.mark ')'] := .of_run (by decide) (by decide)
    have equals : Takes [.mark ')'] " = ".toList [.mark ')'] := .of_run (by decide) (by decide)
    have semicolon : Takes [.mark ')'] "; ".toList [.mark ')'] := .of_run (by decide) (by decide)
    have sign : Takes [.mark ')'] (" " ++ bound.text ++ " ").toList [.mark ')'] := by
      cases bound <;> exact .of_run (by decide) (by decide)
    have closing : Takes [.mark ')'] "++) \x7b".toList [.mark '}'] := .of_run (by decide) (by decide)
    have line := ((((opening.fill (name n) equals rfl).fill (fills_int start) semicolon rfl).fill (name n) sign
      (by cases bound <;> rfl)).fill (filled (.head _)) semicolon rfl).fill (name n) closing rfl
    have inside := takes_linesOf identifiers body (level + 1) fun e mem => binds e (.tail _ mem)
    exact takes_enclosed (by simpa [toString] using line) inside brace' level
  | .branch condition body =>
    have opening : Takes [] "if (".toList [.mark ')'] := .of_run (by decide) (by decide)
    have closing : Takes [.mark ')'] ") \x7b".toList [.mark '}'] := .of_run (by decide) (by decide)
    have line := opening.fill (filled (.head _)) closing rfl
    have inside := takes_linesOf identifiers body (level + 1) fun e mem => binds e (.tail _ mem)
    exact takes_enclosed (by simpa using line) inside brace' level
  | .block body =>
    exact takes_enclosed brace (takes_linesOf identifiers body (level + 1) binds) brace' level

lemma takes_linesOf (identifiers : ∀ s, isIdentifier (target.name s) = true) (stmts : List Statement)
    (level : Nat) (binds : ∀ e ∈ expressionsIn stmts, e.Binds 5) :
    Takes [] (unlines (linesOf target level stmts)).toList [] := by
  match stmts with
  | [] => exact .nil []
  | s :: rest =>
    rw [linesOf, toList_unlines_append]
    exact (s.takes_lines identifiers level fun e mem => binds e (List.mem_append_left _ mem)).append
      (takes_linesOf identifiers rest level fun e mem => binds e (List.mem_append_right _ mem))

end

/-- Printed statements are balanced, comments apart, if their expressions bind. -/
theorem balanced_linesOf (identifiers : ∀ s, isIdentifier (target.name s) = true) {stmts : List Statement}
    (binds : ∀ e ∈ expressionsIn stmts, e.Binds 5) :
    Balanced (tokens (unlines (linesOf target 0 stmts)).toList) := by
  obtain ⟨ts, balanced, read⟩ := takes_linesOf identifiers stmts 0 binds
  have all := read []
  rw [List.append_nil, tokens_nil, List.append_nil] at all
  rw [all]
  exact balanced

end Program

end LedEffect
