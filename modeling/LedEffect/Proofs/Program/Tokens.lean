import LedEffect.Text
import Mathlib.Tactic.Common

/-!
# Tokens

A text of C is read as words, numbers and marks, each as long as it can be; blanks and line comments stand
for nothing. What is read of a text in front of another one is what is read of it alone when the token at
its end does not go on in the other one, so a text can be read piece by piece (`tokens_append`,
`tokens_word`, `tokens_number`).
-/

namespace LedEffect

/-- A word, a number, a mark of one character, or one of two. -/
inductive Token
  | word (text : String)
  | number (text : String)
  | mark (c : Char)
  | pair (c d : Char)
deriving DecidableEq

namespace Token

/-- Whether a character may stand in a number behind its first digit. -/
def isNumberPart (c : Char) : Bool := isIdentifierPart c || c == '.'

/-- Whether two characters in a row are one mark. -/
def joins (c d : Char) : Bool :=
  (d == '=' && c ∈ ['+', '-', '*', '/', '%', '<', '>', '=', '!', '&', '|', '^']) ||
    (d == c && c ∈ ['+', '-', '<', '>', '&', '|', '#']) || (c == '-' && d == '>') ||
    (c == '/' && d == '*')

/-- Whether a mark may be the first character of a longer one. -/
def opens (c : Char) : Bool :=
  c ∈ ['+', '-', '*', '/', '%', '<', '>', '=', '!', '&', '|', '^', '#']

/-- What the last characters of a text are the beginning of. -/
inductive Mode
  | blank
  | word (text : List Char)
  | number (text : List Char)
  | mark (c : Char)
  | comment
deriving DecidableEq

/-- The token that ends with a text. -/
def Mode.flush : Mode → List Token
  | .blank | .comment => []
  | .word text => [.word (String.ofList text)]
  | .number text => [.number (String.ofList text)]
  | .mark c => [.mark c]

/-- A character behind a token: the tokens that end with it, and what it begins. -/
def start (c : Char) : List Token × Mode :=
  if c.isWhitespace then ([], .blank)
  else if isIdentifierStart c then ([], .word [c])
  else if c.isDigit then ([], .number [c])
  else if opens c then ([], .mark c)
  else ([.mark c], .blank)

/-- The next character: the tokens that end before it or with it, and what it belongs to. -/
def step : Mode → Char → List Token × Mode
  | .blank, c => start c
  | .word text, c =>
    if isIdentifierPart c then ([], .word (text ++ [c]))
    else (.word (String.ofList text) :: (start c).1, (start c).2)
  | .number text, c =>
    if isNumberPart c then ([], .number (text ++ [c]))
    else (.number (String.ofList text) :: (start c).1, (start c).2)
  | .mark a, c =>
    if a = '/' ∧ c = '/' then ([], .comment)
    else if joins a c then ([.pair a c], .blank)
    else (.mark a :: (start c).1, (start c).2)
  | .comment, c => ([], if c = '\n' then .blank else .comment)

/-- The tokens that end in a text behind other characters, and what the end of it belongs to. -/
def run (m : Mode) : List Char → List Token × Mode
  | [] => ([], m)
  | c :: cs => ((step m c).1 ++ (run (step m c).2 cs).1, (run (step m c).2 cs).2)

/-- The tokens of the rest of a text. -/
def tokensFrom (m : Mode) (cs : List Char) : List Token := (run m cs).1 ++ (run m cs).2.flush

/-- The tokens of a text. -/
def tokens (cs : List Char) : List Token := tokensFrom .blank cs

/-! ## Pieces of a text -/

variable {m : Mode} {c : Char} {cs ds text rest : List Char} {ts : List Token}

lemma run_append (m : Mode) (cs ds : List Char) :
    run m (cs ++ ds) = ((run m cs).1 ++ (run (run m cs).2 ds).1, (run (run m cs).2 ds).2) := by
  induction cs generalizing m with
  | nil => rfl
  | cons c cs ih => simp [run, ih]

/-- What is read of a text in front of another one. -/
lemma tokensFrom_append (m : Mode) (cs ds : List Char) :
    tokensFrom m (cs ++ ds) = (run m cs).1 ++ tokensFrom (run m cs).2 ds := by
  simp [tokensFrom, run_append]

@[simp] lemma tokens_nil : tokens [] = [] := rfl

/-- A text that ends between tokens is read by itself. -/
lemma tokens_append (ends : run .blank cs = (ts, .blank)) (ds : List Char) :
    tokens (cs ++ ds) = ts ++ tokens ds := by
  rw [tokens, tokensFrom_append, ends]
  rfl

/-- A token in the making ends before a character that does not belong to it. -/
lemma tokensFrom_flush (ends : ∀ c ∈ cs.head?, step m c = (m.flush ++ (start c).1, (start c).2)) :
    tokensFrom m cs = m.flush ++ tokens cs := by
  cases cs with
  | nil => simp [tokensFrom, tokens, run, Mode.flush]
  | cons c cs =>
    have blank : step .blank c = start c := rfl
    simp [tokensFrom, tokens, run, ends c rfl, blank]

lemma run_word (all : cs.all isIdentifierPart = true) :
    run (.word text) cs = ([], .word (text ++ cs)) := by
  induction cs generalizing text with
  | nil => simp [run]
  | cons c cs ih =>
    obtain ⟨here, all⟩ := Bool.and_eq_true_iff.1 (List.all_cons ▸ all)
    simp [run, step, here, ih all]

lemma run_number (all : cs.all isNumberPart = true) :
    run (.number text) cs = ([], .number (text ++ cs)) := by
  induction cs generalizing text with
  | nil => simp [run]
  | cons c cs ih =>
    obtain ⟨here, all⟩ := Bool.and_eq_true_iff.1 (List.all_cons ▸ all)
    simp [run, step, here, ih all]

/-- The first character of an identifier is no blank, and neither is a digit. -/
lemma isWhitespace_eq_false (visible : isIdentifierStart c = true ∨ c.isDigit = true) :
    c.isWhitespace = false := by
  by_contra blank
  rw [Bool.not_eq_false, Char.isWhitespace] at blank
  simp only [Bool.or_eq_true, decide_eq_true_eq] at blank
  rcases blank with ((rfl | rfl) | rfl) | rfl <;> revert visible <;> decide

lemma isIdentifierStart_eq_false (digit : c.isDigit = true) : isIdentifierStart c = false := by
  have range : 48 ≤ c.toNat ∧ c.toNat ≤ 57 := by
    simpa [Char.isDigit, UInt32.le_iff_toNat_le] using digit
  have other : c ≠ '_' := by
    rintro rfl
    cases digit
  rw [isIdentifierStart]
  delta Char.isAlpha Char.isUpper Char.isLower
  simp [UInt32.le_iff_toNat_le, other]
  omega

/-- An identifier is read as a word in front of a character that does not belong to it. -/
lemma tokens_word {s : String} (identifier : isIdentifier s = true)
    (ends : ∀ c ∈ rest.head?, isIdentifierPart c = false) :
    tokens (s.toList ++ rest) = .word s :: tokens rest := by
  unfold isIdentifier at identifier
  split at identifier
  · cases identifier
  next c cs text =>
    obtain ⟨first, all⟩ := Bool.and_eq_true_iff.1 identifier
    have read : run .blank s.toList = ([], .word s.toList) := by
      simp [text, run, step, start, first, isWhitespace_eq_false (.inl first), run_word all]
    rw [tokens, tokensFrom_append, read, tokensFrom_flush]
    · simp [Mode.flush]
    · intro c mem
      simp [step, ends c mem, Mode.flush]

/-- Whether a text is a digit and characters that may stand in a number behind it. -/
def IsNumber (s : String) : Prop :=
  ∃ c cs, s.toList = c :: cs ∧ c.isDigit = true ∧ cs.all isNumberPart = true

/-- A number is read as one in front of a character that does not belong to it. -/
lemma tokens_number {s : String} (number : IsNumber s)
    (ends : ∀ c ∈ rest.head?, isNumberPart c = false) :
    tokens (s.toList ++ rest) = .number s :: tokens rest := by
  obtain ⟨c, cs, text, digit, all⟩ := number
  have read : run .blank s.toList = ([], .number s.toList) := by
    simp [text, run, step, start, digit, isIdentifierStart_eq_false digit,
      isWhitespace_eq_false (.inr digit), run_number all]
  rw [tokens, tokensFrom_append, read, tokensFrom_flush]
  · simp [Mode.flush]
  · intro c mem
    simp [step, ends c mem, Mode.flush]

/-- A character that is a mark whatever follows it. -/
lemma tokens_mark (alone : start c = ([.mark c], .blank)) (cs : List Char) :
    tokens (c :: cs) = .mark c :: tokens cs := by
  have read : run .blank [c] = ([.mark c], .blank) := by simp [run, step, alone]
  exact tokens_append read cs

/-- A minus in front of a digit is a mark by itself. -/
lemma tokens_minus {rest : List Char} (digit : ∃ c ∈ rest.head?, c.isDigit = true) :
    tokens ('-' :: rest) = .mark '-' :: tokens rest := by
  have read : tokens ('-' :: rest) = tokensFrom (.mark '-') rest := rfl
  rw [read, tokensFrom_flush]
  · rfl
  · obtain ⟨c, mem, digit⟩ := digit
    intro d mem'
    obtain rfl := Option.some_inj.1 (mem.symm.trans mem')
    have other : c ≠ '=' ∧ c ≠ '-' ∧ c ≠ '>' := by
      refine ⟨?_, ?_, ?_⟩ <;> rintro rfl <;> cases digit
    simp [step, joins, other, Mode.flush]

/-- Marks are as long as they can be, so a blank keeps a minus from the one behind it. -/
example : tokens "i++ - -x[0].r--1.0f".toList =
    [.word "i", .pair '+' '+', .mark '-', .mark '-', .word "x", .mark '[', .number "0", .mark ']', .mark '.',
      .word "r", .pair '-' '-', .number "1.0f"] := by
  decide

/-! ## Blanks and comments -/

lemma run_blanks (k : Nat) : run .blank (List.replicate k ' ') = ([], .blank) := by
  induction k with
  | zero => rfl
  | succ k ih => simp [List.replicate_succ, run, step, start, Char.isWhitespace, ih]

/-- A comment reaches to the end of its line. -/
lemma run_comment (single : '\n' ∉ cs) : run .blank ('/' :: '/' :: (cs ++ ['\n'])) = ([], .blank) := by
  have inside : ∀ {cs : List Char}, '\n' ∉ cs → run .comment cs = ([], .comment) := by
    intro cs single
    induction cs with
    | nil => rfl
    | cons c cs ih =>
      obtain ⟨here, rest⟩ := not_or.1 (mt List.mem_cons.2 single)
      simp [run, step, Ne.symm here, ih rest]
  have slashes : run .blank ('/' :: '/' :: (cs ++ ['\n'])) = run .comment (cs ++ ['\n']) := rfl
  rw [slashes, run_append, inside single]
  rfl

end Token

end LedEffect
