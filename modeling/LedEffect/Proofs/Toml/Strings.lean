import LedEffect.Toml.Printer
import LedEffect.Toml.Scalar
import Mathlib.Data.List.TakeDrop
import Mathlib.Tactic.Common

/-!
# TOML strings

Every text is written as a literal of one of four forms, and that literal at the end of a line is
read as the text (`readString?_stringText`). The long forms may hold quotes, of which two in a row
but not three are bare: what they hold is a text with pieces for its characters (`Long`).
-/

namespace LedEffect.Toml

variable {fuel run : Nat} {done cs text rest : List Char} {quote : Char} {escapes long : Bool}

/-! ## Escapes -/

/-- Whether characters behind a backslash stand for a character. -/
structure Escape (e : List Char) (c : Char) : Prop where
  reads : ∀ rest, readEscape? (e ++ rest) = some (c, rest)
  solid : ∀ rest, skipContinuation? (e ++ rest) = none

lemma hexNumber?_code : ∀ n < 128, hexNumber? ['0', '0', (Json.hexChar (n / 16)).toUpper,
    (Json.hexChar (n % 16)).toUpper] = some n := by
  decide

/-- A control character is the escape of its code. -/
lemma escape_code {c : Char} (small : c.toNat < 128) :
    Escape ['u', '0', '0', (Json.hexChar (c.toNat / 16)).toUpper,
      (Json.hexChar (c.toNat % 16)).toUpper] c := by
  refine ⟨fun rest => ?_, fun _ => rfl⟩
  have number := hexNumber?_code c.toNat small
  have valid : c.toNat.isValidChar := c.valid
  simp [readEscape?, readCode?, number, valid]

/-- A character other than the quote is escaped or stands for itself. -/
lemma escapeChar_cases (long : Bool) {c : Char} (bare : c ≠ '\x22') :
    (∃ e, escapeChar long c = '\\' :: e ∧ Escape e c) ∨
      escapeChar long c = [c] ∧ c ≠ '\\' ∧ (isPrintable c = true ∨ long = true ∧ c = '\n') := by
  by_cases short : c ∈ ['\x08', '\t', '\n', '\x0C', '\r', '\\']
  · simp only [List.mem_cons, List.not_mem_nil, or_false] at short
    rcases short with rfl | rfl | rfl | rfl | rfl | rfl
    · exact .inl ⟨['b'], rfl, fun _ => rfl, fun _ => rfl⟩
    · exact .inl ⟨['t'], rfl, fun _ => rfl, fun _ => rfl⟩
    · cases long with
      | true => exact .inr ⟨rfl, by decide, .inr ⟨rfl, rfl⟩⟩
      | false => exact .inl ⟨['n'], rfl, fun _ => rfl, fun _ => rfl⟩
    · exact .inl ⟨['f'], rfl, fun _ => rfl, fun _ => rfl⟩
    · exact .inl ⟨['r'], rfl, fun _ => rfl, fun _ => rfl⟩
    · exact .inl ⟨['\\'], rfl, fun _ => rfl, fun _ => rfl⟩
  · simp only [List.mem_cons, List.not_mem_nil, or_false, not_or] at short
    obtain ⟨backspace, tab, line, feed, carriage, backslash⟩ := short
    simp only [escapeChar, backspace, tab, line, feed, carriage, backslash, if_false]
    split
    next control => exact .inl ⟨_, rfl, escape_code (by omega)⟩
    next visible =>
      have visible : 0x20 ≤ c.toNat ∧ c.toNat ≠ 0x7F := by omega
      exact .inr ⟨rfl, backslash, .inl (by simp [isPrintable, visible])⟩

lemma escape_quote : Escape ['\x22'] '\x22' := ⟨fun _ => rfl, fun _ => rfl⟩

/-! ## Strings on one line -/

section OneLine

attribute [local simp] readBasic? readLiteral?

lemma readBasic?_escape {e : List Char} {c : Char} (escape : Escape e c) :
    readBasic? (fuel + 1) done ('\\' :: (e ++ rest)) = readBasic? fuel (c :: done) rest := by
  rw [readBasic?, if_neg (by decide), if_pos rfl, escape.reads]

/-- Between double quotes every character is read from its escape. -/
lemma readBasic?_escapeFrom (enough : cs.length < fuel) :
    readBasic? fuel done (escapeFrom false run cs ++ '\x22' :: rest) =
      some (String.ofList (done.reverse ++ cs), rest) := by
  induction cs generalizing fuel done run with
  | nil =>
    obtain ⟨fuel, rfl⟩ := Nat.exists_eq_succ_of_ne_zero (Nat.ne_zero_of_lt enough)
    rw [escapeFrom, List.nil_append, readBasic?, if_pos rfl, List.append_nil]
  | cons c cs ih =>
    obtain ⟨fuel, rfl⟩ := Nat.exists_eq_succ_of_ne_zero (Nat.ne_zero_of_lt enough)
    have left : cs.length < fuel := Nat.lt_of_succ_lt_succ enough
    have step : some (String.ofList ((c :: done).reverse ++ cs), rest) =
        some (String.ofList (done.reverse ++ c :: cs), rest) := by simp
    rw [escapeFrom, ← step]
    by_cases mark : c = '\x22'
    · subst mark
      rw [if_pos rfl, if_neg (by simp)]
      exact (readBasic?_escape escape_quote).trans (ih left)
    · rw [if_neg mark, List.append_assoc]
      rcases escapeChar_cases false mark with ⟨e, eq, escape⟩ | ⟨eq, backslash, printable⟩
      · rw [eq]
        exact (readBasic?_escape escape).trans (ih left)
      · have printable : isPrintable c = true := by simpa using printable
        rw [eq, List.singleton_append, readBasic?, if_neg mark, if_neg backslash, if_pos printable,
          ih left]

/-- Between apostrophes there are no escapes. -/
lemma readLiteral?_plain (all : ∀ c ∈ cs, isPrintable c = true ∧ c ≠ '\'') :
    readLiteral? (cs ++ '\'' :: rest) = some (String.ofList cs, rest) := by
  have inside : ∀ c ∈ cs, (isPrintable c && c != '\'') = true := fun c mem => by simp [all c mem]
  rw [readLiteral?, List.span_eq_takeWhile_dropWhile, List.takeWhile_append_of_pos inside,
    List.dropWhile_append_of_pos inside]
  simp

end OneLine

/-! ## Strings on several lines -/

/-- Whether characters stand for one character in a long string. -/
structure Piece (quote : Char) (escapes : Bool) (p : List Char) (c : Char) : Prop where
  reads : ∀ fuel done rest, readLong? quote escapes (fuel + 1) done (p ++ rest) =
    readLong? quote escapes fuel (c :: done) rest
  opens : ∃ first more, p = first :: more ∧ first ≠ quote ∧ first ≠ '\r' ∧
    (first = '\n' → c = '\n')

/-- What a long string holds after `run` bare quotes in a row, and the characters it stands for. -/
inductive Long (quote : Char) (escapes : Bool) : Nat → List Char → List Char → Prop
  | nil (run : Nat) : Long quote escapes run [] []
  | bare {run : Nat} {cs text : List Char} : run < 2 → Long quote escapes (run + 1) cs text →
      Long quote escapes run (quote :: cs) (quote :: text)
  | piece {run : Nat} {c : Char} {cs p text : List Char} : Piece quote escapes p c →
      Long quote escapes 0 cs text → Long quote escapes run (c :: cs) (p ++ text)

section Characters

attribute [local simp] readLong?

lemma Piece.escape {e : List Char} {c : Char} (escape : Escape e c) :
    Piece '\x22' true ('\\' :: e) c := by
  refine ⟨fun fuel done rest => ?_, _, _, rfl, by decide, by decide, nofun⟩
  rw [List.cons_append, readLong?, if_neg (by decide), if_pos (by simp), escape.solid, escape.reads]

lemma skipNewline?_cons {c : Char} (line : c ≠ '\n') (carriage : c ≠ '\r') :
    skipNewline? (c :: rest) = none := by
  rw [skipNewline?]
  · rintro _ ⟨⟩
    exact line rfl
  · rintro _ ⟨⟩
    exact carriage rfl

/-- A character that needs no escape stands for itself. -/
lemma Piece.self {c : Char} (mark : c ≠ quote) (plain : escapes = true → c ≠ '\\')
    (allowed : isPrintable c = true ∨ c = '\n') : Piece quote escapes [c] c := by
  have unbroken : c ≠ '\r' := by
    rintro rfl
    rcases allowed with allowed | allowed <;> cases allowed
  refine ⟨fun fuel done rest => ?_, c, [], rfl, mark, unbroken, id⟩
  have solid : ¬(c = '\\' ∧ escapes = true) := fun ⟨backslash, escapes⟩ => plain escapes backslash
  rw [List.singleton_append, readLong?, if_neg mark, if_neg solid]
  by_cases line : c = '\n'
  · subst line
    rfl
  · rw [skipNewline?_cons line unbroken]
    exact if_pos (allowed.resolve_right line)

end Characters

/-- A long string with escapes is made of pieces. -/
lemma long_escapeFrom (few : run ≤ 2) (cs : List Char) :
    Long '\x22' true run cs (escapeFrom true run cs) := by
  induction cs generalizing run with
  | nil => exact .nil run
  | cons c cs ih =>
    rw [escapeFrom]
    by_cases mark : c = '\x22'
    · subst mark
      rw [if_pos rfl, if_pos rfl]
      split
      next more => exact .bare more (ih more)
      next => exact .piece (.escape escape_quote) (ih (Nat.zero_le 2))
    · rw [if_neg mark]
      refine .piece ?_ (ih (Nat.zero_le 2))
      rcases escapeChar_cases true mark with ⟨e, eq, escape⟩ | ⟨eq, backslash, printable⟩
      · exact eq ▸ .escape escape
      · exact eq ▸ .self mark (fun _ => backslash) (printable.imp id And.right)

/-! ### Runs of quotes -/

/-- The longest and the last run of a character after one more character. -/
def extendRun (c : Char) (runs : Nat × Nat) (d : Char) : Nat × Nat :=
  let run := if d = c then runs.2 + 1 else 0
  (max runs.1 run, run)

lemma longestRun_eq (c : Char) (cs : List Char) :
    longestRun c cs = (cs.foldl (extendRun c) (0, 0)).1 := rfl

lemma le_longest (c : Char) (cs : List Char) (runs : Nat × Nat) :
    runs.1 ≤ (cs.foldl (extendRun c) runs).1 := by
  induction cs generalizing runs with
  | nil => exact Nat.le_refl _
  | cons d cs ih => exact Nat.le_trans (Nat.le_max_left _ _) (ih (extendRun c runs d))

/-- A text without long runs of apostrophes stands for itself between three of them. -/
lemma long_literal (longest : Nat) (plain : ∀ c ∈ cs, c = '\n' ∨ isPrintable c = true)
    (short : (cs.foldl (extendRun '\'') (longest, run)).1 ≤ 2) : Long '\'' false run cs cs := by
  induction cs generalizing longest run with
  | nil => exact .nil run
  | cons c cs ih =>
    obtain ⟨here, others⟩ := List.forall_mem_cons.1 plain
    rw [List.foldl_cons] at short
    by_cases mark : c = '\''
    · subst mark
      have bound := Nat.le_trans (le_longest _ _ _) short
      rw [extendRun, if_pos rfl] at bound short
      exact .bare (by omega) (ih _ others short)
    · rw [extendRun, if_neg mark] at short
      exact .piece (.self mark (fun escapes => absurd escapes (by decide)) here.symm) (ih _ others short)

/-- A character that occurs has a run. -/
lemma longestRun_pos {c : Char} (mem : c ∈ cs) : longestRun c cs ≠ 0 := by
  obtain ⟨before, after, rfl⟩ := List.append_of_mem mem
  have run := le_longest c after (extendRun c (before.foldl (extendRun c) (0, 0)) c)
  rw [longestRun_eq, List.foldl_append, List.foldl_cons]
  refine Nat.pos_iff_ne_zero.1 (Nat.lt_of_lt_of_le ?_ run)
  rw [extendRun, if_pos rfl]
  exact Nat.lt_of_lt_of_le (Nat.succ_pos _) (Nat.le_max_right _ _)

/-! ### Reading -/

lemma span_quotes (k : Nat) (after : ∀ c ∈ rest.head?, c ≠ quote) :
    (List.replicate k quote ++ rest).span (· == quote) = (List.replicate k quote, rest) := by
  have all : ∀ c ∈ List.replicate k quote, (c == quote) = true := fun c mem => by
    simp [List.eq_of_mem_replicate mem]
  have none : rest.takeWhile (· == quote) = [] ∧ rest.dropWhile (· == quote) = rest := by
    cases rest with
    | nil => exact ⟨rfl, rfl⟩
    | cons c rest => simp [after c rfl]
  rw [List.span_eq_takeWhile_dropWhile, List.takeWhile_append_of_pos all,
    List.dropWhile_append_of_pos all, none.1, none.2, List.append_nil]

/-- A run of quotes is read as a whole: a short one belongs to the string, and the last three of a longer
one end it. -/
lemma readLong?_run (k : Nat) (after : ∀ c ∈ rest.head?, c ≠ quote) :
    readLong? quote escapes (fuel + 1) done (List.replicate (k + 1) quote ++ rest) =
      if k + 1 < 3 then readLong? quote escapes fuel (List.replicate (k + 1) quote ++ done) rest
      else if k + 1 ≤ 5 then
        some (String.ofList (List.replicate (k + 1 - 3) quote ++ done).reverse, rest)
      else none := by
  rw [List.replicate_succ, List.cons_append, readLong?, if_pos rfl, span_quotes k after]
  simp only [List.length_replicate, List.replicate_succ]

lemma readLong?_quotes {k : Nat} (few : k < 2) (after : ∀ c ∈ rest.head?, c ≠ quote) :
    readLong? quote escapes (fuel + 1) done (List.replicate (k + 1) quote ++ rest) =
      readLong? quote escapes fuel (List.replicate (k + 1) quote ++ done) rest := by
  rw [readLong?_run k after, if_pos (by omega)]

lemma readLong?_closing (few : run ≤ 2) (after : ∀ c ∈ rest.head?, c ≠ quote) :
    readLong? quote escapes (fuel + 1) done (List.replicate (run + 3) quote ++ rest) =
      some (String.ofList (done.reverse ++ List.replicate run quote), rest) := by
  rw [readLong?_run (run + 2) after, if_neg (by omega), if_pos (by omega)]
  simp

/-- What a long string holds is read up to the delimiter that closes it. -/
lemma Long.readLong? (content : Long quote escapes run cs text) (few : run ≤ 2)
    (enough : cs.length + run < fuel) (after : ∀ c ∈ rest.head?, c ≠ quote) :
    readLong? quote escapes fuel done
        (List.replicate run quote ++ (text ++ (List.replicate 3 quote ++ rest))) =
      some (String.ofList (done.reverse ++ (List.replicate run quote ++ cs)), rest) := by
  obtain ⟨fuel, rfl⟩ := Nat.exists_eq_succ_of_ne_zero (Nat.ne_zero_of_lt enough)
  induction content generalizing fuel done with
  | nil run =>
    rw [List.nil_append, ← List.append_assoc, List.replicate_append_replicate,
      readLong?_closing few after, List.append_nil]
  | @bare run cs text more content ih =>
    have shift : ∀ tail, List.replicate run quote ++ quote :: tail =
        List.replicate (run + 1) quote ++ tail := fun tail => by
      rw [List.replicate_succ', List.append_assoc, List.singleton_append]
    rw [List.cons_append, shift, shift]
    exact ih more fuel (by simp at enough ⊢; omega)
  | @piece run c cs p text piece content ih =>
    rw [List.length_cons] at enough
    have content (fuel done) (enough : cs.length < fuel + 1) := by
      have := @ih done (Nat.zero_le 2) fuel (by omega)
      rwa [List.replicate_zero, List.nil_append, List.nil_append] at this
    cases run with
    | zero =>
      obtain ⟨fuel, rfl⟩ := Nat.exists_eq_succ_of_ne_zero (n := fuel) (by omega)
      rw [List.replicate_zero, List.nil_append, List.append_assoc, piece.reads,
        content _ _ (by omega)]
      simp
    | succ run =>
      obtain ⟨first, more, rfl, mark, -⟩ := piece.opens
      obtain ⟨fuel, rfl⟩ : ∃ k, fuel = k + 2 := ⟨fuel - 2, by omega⟩
      rw [readLong?_quotes (by omega) (by rintro _ ⟨⟩; exact mark), List.append_assoc, piece.reads,
        content _ _ (by omega)]
      simp

lemma Long.length_le (content : Long quote escapes run cs text) : cs.length ≤ text.length := by
  induction content with
  | nil => exact Nat.le_refl 0
  | bare _ _ ih => exact Nat.succ_le_succ ih
  | piece piece _ ih =>
    obtain ⟨first, more, rfl, -⟩ := piece.opens
    simp only [List.length_cons, List.length_append]
    omega

/-- A long string without line feeds does not begin with a line end. -/
lemma Long.skipNewline? (content : Long quote escapes run cs text) (unbroken : '\n' ∉ cs)
    (mark : quote ∈ ['\x22', '\'']) : skipNewline? (text ++ (List.replicate 3 quote ++ rest)) = none := by
  have apart : quote ≠ '\n' ∧ quote ≠ '\r' := by
    simp only [List.mem_cons, List.not_mem_nil, or_false] at mark
    rcases mark with rfl | rfl <;> decide
  cases content with
  | nil => exact skipNewline?_cons apart.1 apart.2
  | bare => exact skipNewline?_cons apart.1 apart.2
  | piece piece content =>
    obtain ⟨first, more, rfl, -, carriage, line⟩ := piece.opens
    refine skipNewline?_cons (fun same => unbroken ?_) carriage
    rw [line same]
    exact List.mem_cons_self

/-- The line feed behind the opening delimiter of a string with line feeds is not part of it. -/
lemma Long.readLongBody? (content : Long quote escapes 0 cs text) (mark : quote ∈ ['\x22', '\''])
    (after : ∀ c ∈ rest.head?, c ≠ quote) :
    readLongBody? quote escapes ((if cs.contains '\n' then ['\n'] else []) ++
        (text ++ (List.replicate 3 quote ++ rest))) = some (String.ofList cs, rest) := by
  have length := content.length_le
  have read (fuel) (enough : cs.length < fuel) : Toml.readLong? quote escapes fuel []
      (text ++ (List.replicate 3 quote ++ rest)) = some (String.ofList cs, rest) :=
    content.readLong? (Nat.zero_le 2) (by omega) after
  rw [Toml.readLongBody?]
  by_cases broken : '\n' ∈ cs
  · rw [if_pos (List.contains_iff_mem.2 broken)]
    exact read _ (by simp; omega)
  · rw [if_neg (mt List.contains_iff_mem.1 broken), List.nil_append,
      content.skipNewline? broken mark]
    exact read _ (by simp; omega)

/-! ## Styles -/

/-- A string that is written without escapes needs none. -/
lemma plain_of_styleOf (literal : (styleOf cs).escapes = false) :
    (∀ c ∈ cs, c = '\n' ∨ isPrintable c = true) ∧ longestRun '\'' cs ≤ 2 ∧
      ((styleOf cs).long = false → longestRun '\'' cs = 0 ∧ '\n' ∉ cs) := by
  unfold styleOf at literal ⊢
  dsimp only at literal ⊢
  split_ifs at literal ⊢ with basic short longBasic longLiteral
  · simp only [Bool.and_eq_true, List.all_eq_true, Bool.or_eq_true, beq_iff_eq, decide_eq_true_eq,
      Bool.not_eq_true', List.contains_eq_mem, decide_eq_false_iff_not] at short
    exact ⟨short.1.1, by omega, fun _ => ⟨short.1.2, short.2⟩⟩
  · simp only [Bool.and_eq_true, List.all_eq_true, Bool.or_eq_true, beq_iff_eq,
      decide_eq_true_eq] at longLiteral
    exact ⟨longLiteral.1, longLiteral.2, nofun⟩

/-- What stands for characters between double quotes is at least as long and does not begin with a
bare quote. -/
lemma escapeFrom_spec (run : Nat) (cs : List Char) : cs.length ≤ (escapeFrom false run cs).length ∧
    ∀ c ∈ (escapeFrom false run cs).head?, c ≠ '\x22' := by
  induction cs generalizing run with
  | nil => exact ⟨Nat.le_refl 0, nofun⟩
  | cons c cs ih =>
    have length := (ih 0).1
    rw [escapeFrom]
    by_cases mark : c = '\x22'
    · rw [if_pos mark, if_neg (by simp)]
      refine ⟨by simp only [List.length_cons]; omega, ?_⟩
      rintro _ ⟨⟩
      decide
    · rw [if_neg mark]
      rcases escapeChar_cases false mark with ⟨e, eq, -⟩ | ⟨eq, -⟩
      · rw [eq]
        refine ⟨by simp only [List.length_cons, List.length_append]; omega, ?_⟩
        rintro _ ⟨⟩
        decide
      · rw [eq]
        refine ⟨by simpa using length, ?_⟩
        rintro _ ⟨⟩
        exact mark

/-- Two quotes, of which the second ends a line, are not the beginning of a long string. -/
lemma not_long {before : List Char} (bare : ∀ c ∈ before.head?, c ≠ quote) (mark : quote ≠ '\n')
    (more : List Char) : before ++ quote :: '\n' :: rest ≠ quote :: quote :: more := by
  intro eq
  cases before with
  | nil =>
    rw [List.nil_append, List.cons.injEq, List.cons.injEq] at eq
    exact mark eq.2.1.symm
  | cons c before =>
    rw [List.cons_append, List.cons.injEq] at eq
    exact bare c rfl eq.1

section Kinds

attribute [local simp] readString?

lemma readString?_longBasic (cs : List Char) :
    readString? ('\x22' :: '\x22' :: '\x22' :: cs) = readLongBody? '\x22' true cs := rfl

lemma readString?_longLiteral (cs : List Char) :
    readString? ('\'' :: '\'' :: '\'' :: cs) = readLongBody? '\'' false cs := rfl

lemma readString?_basic (cs rest : List Char) :
    readString? ('\x22' :: (escapeFrom false 0 cs ++ '\x22' :: '\n' :: rest)) =
      some (String.ofList cs, '\n' :: rest) := by
  obtain ⟨length, bare⟩ := escapeFrom_spec 0 cs
  rw [readString?]
  · exact readBasic?_escapeFrom (by simp only [List.length_append]; omega)
  · exact fun more => not_long bare (by decide) more

lemma readString?_literal (rest : List Char) (all : ∀ c ∈ cs, isPrintable c = true ∧ c ≠ '\'') :
    readString? ('\'' :: (cs ++ '\'' :: '\n' :: rest)) = some (String.ofList cs, '\n' :: rest) := by
  rw [readString?]
  · exact readLiteral?_plain all
  · exact fun more => not_long (fun c first => (all c (List.mem_of_head? first)).2) (by decide) more

end Kinds

/-- A text is read back from its literal at the end of a line. -/
theorem readString?_stringText (s : String) (rest : List Char) :
    readString? ((stringText s).toList ++ '\n' :: rest) = some (s, '\n' :: rest) := by
  have after : ∀ quote ∈ ['\x22', '\''], ∀ c ∈ ('\n' :: rest).head?, c ≠ quote := by
    rintro quote mark _ ⟨⟩ rfl
    simp at mark
  have text : some (String.ofList s.toList, '\n' :: rest) = some (s, '\n' :: rest) := by simp
  rw [stringText, String.toList_ofList, ← text]
  generalize s.toList = cs
  have plain := @plain_of_styleOf cs
  generalize styleOf cs = style at plain ⊢
  obtain ⟨escapes, long⟩ := style
  cases escapes with
  | true =>
    cases long with
    | true =>
      have read := (long_escapeFrom (Nat.zero_le 2) cs).readLongBody? (by simp) (after _ (by simp))
      simpa [List.replicate, readString?_longBasic] using read
    | false => simpa [List.replicate] using readString?_basic cs rest
  | false =>
    obtain ⟨allowed, runs, short⟩ := plain rfl
    cases long with
    | true =>
      have content : Long '\'' false 0 cs cs := long_literal 0 allowed (longestRun_eq _ _ ▸ runs)
      have read := content.readLongBody? (by simp) (after _ (by simp))
      simpa [List.replicate, readString?_longLiteral] using read
    | false =>
      obtain ⟨none, unbroken⟩ := short rfl
      have all : ∀ c ∈ cs, isPrintable c = true ∧ c ≠ '\'' := fun c mem =>
        ⟨(allowed c mem).resolve_left fun line => unbroken (line ▸ mem),
          fun mark => longestRun_pos (mark ▸ mem) none⟩
      simpa [List.replicate] using readString?_literal rest all

end LedEffect.Toml
