import LedEffect.Proofs.Program.Grammar

/-!
# Expressions are read in one way

An expression is read from left to right: an operand first, then the operators of its level with their
operands, as long as the next token goes on with it (`Reads`). Every step is settled by that token and by
whether parentheses hold a type (`Reads.unique`). What the grammar derives is read so (`Derives.reads`), and
therefore no tokens are two expressions of one level (`Derives.unique`).
-/

namespace LedEffect.Tree

/-- The level whose expressions go on with a token. -/
def rank? : Token → Option Nat
  | .mark '(' | .mark '[' | .mark '.' => some 0
  | .mark '*' | .mark '/' => some 2
  | .mark '+' | .mark '-' => some 3
  | .mark '<' | .mark '>' => some 4
  | .mark '?' => some 5
  | .mark ',' => some 6
  | _ => none

/-- Whether no expression below a level goes on with tokens. -/
def Free (n : Nat) (ts : List Token) : Prop := ∀ t ∈ ts.head?, ∀ k, rank? t = some k → n ≤ k

/-- What is about to be read: an expression of a level, or what follows one. -/
inductive Stage
  | first (n : Nat)
  | next (n : Nat) (a : Tree)

/-- What is read of tokens, and what is left of them. -/
inductive Reads : Stage → List Token → Tree → List Token → Prop
  | word {s : String} {ts us : List Token} {t : Tree} (rest : Reads (.next 0 (.word s)) ts t us) :
    Reads (.first 0) (.word s :: ts) t us
  | number {s : String} {ts us : List Token} {t : Tree} (rest : Reads (.next 0 (.number s)) ts t us) :
    Reads (.first 0) (.number s :: ts) t us
  | paren {ts us vs : List Token} {a t : Tree} (inner : Reads (.first 5) ts a (.mark ')' :: us))
    (value : ¬ a.IsType) (rest : Reads (.next 0 (.paren a)) us t vs) :
    Reads (.first 0) (.mark '(' :: ts) t vs
  | call {ts us vs : List Token} {f x t : Tree} (arguments : Reads (.first 6) ts x (.mark ')' :: us))
    (rest : Reads (.next 0 (.call f x)) us t vs) : Reads (.next 0 f) (.mark '(' :: ts) t vs
  | index {ts us vs : List Token} {a i t : Tree} (place : Reads (.first 5) ts i (.mark ']' :: us))
    (rest : Reads (.next 0 (.index a i)) us t vs) : Reads (.next 0 a) (.mark '[' :: ts) t vs
  | member {m : String} {ts us : List Token} {a t : Tree} (rest : Reads (.next 0 (.member a m)) ts t us) :
    Reads (.next 0 a) (.mark '.' :: .word m :: ts) t us
  | negate {ts us : List Token} {a : Tree} (operand : Reads (.first 1) ts a us) :
    Reads (.first 1) (.mark '-' :: ts) (.negate a) us
  | cast {s : String} {ts us vs : List Token} {a : Tree}
    (inner : Reads (.first 5) ts (.word s) (.mark ')' :: us)) (type : isType s = true)
    (operand : Reads (.first 1) us a vs) : Reads (.first 1) (.mark '(' :: ts) (.cast s a) vs
  | chain {n : Nat} {ts us vs : List Token} {a t : Tree} (tighter : Reads (.first n) ts a us)
    (rest : Reads (.next (n + 1) a) us t vs) : Reads (.first (n + 1)) ts t vs
  | join {n : Nat} {c : Char} {f : Tree → Tree → Tree} {ts us vs : List Token} {a b t : Tree}
    (operator : join? (n + 1) c = some f) (right : Reads (.first n) ts b us)
    (rest : Reads (.next (n + 1) (f a b)) us t vs) : Reads (.next (n + 1) a) (.mark c :: ts) t vs
  | choose {ts us vs : List Token} {a b c : Tree} (yes : Reads (.first 5) ts b (.mark ':' :: us))
    (no : Reads (.first 5) us c vs) : Reads (.next 5 a) (.mark '?' :: ts) (.choose a b c) vs
  | stop {n : Nat} {ts : List Token} {a : Tree} (free : Free (n + 1) ts) : Reads (.next n a) ts a ts

variable {n k : Nat} {c : Char} {ts us rest : List Token} {a b t t' : Tree} {stage : Stage}

lemma rank?_of_join? {f : Tree → Tree → Tree} (operator : join? n c = some f) :
    rank? (.mark c) = some n := by
  unfold join? at operator
  split at operator
  case h_8 => cases operator
  all_goals rfl

lemma Free.mono (free : Free n ts) (le : k ≤ n) : Free k ts := fun t mem j rank =>
  Nat.le_trans le (free t mem j rank)

/-- A token with which an expression goes on does not stand behind the end of one. -/
lemma Free.le {tok : Token} (free : Free n (tok :: ts)) (rank : rank? tok = some k) : n ≤ k :=
  free tok rfl k rank

/-- What is read of tokens is settled, and a type in parentheses is not read as a value. -/
lemma Reads.unique (reads : Reads stage ts t rest) :
    (∀ t' rest', Reads stage ts t' rest' → t' = t ∧ rest' = rest) ∧
      (stage = .first 0 → ∀ inner s us, ts = .mark '(' :: inner → isType s = true →
        ¬ Reads (.first 5) inner (.word s) (.mark ')' :: us)) := by
  induction reads with
  | word _ ih =>
    refine ⟨fun t' rest' other => ?_, by simp⟩
    cases other with
    | word other => exact ih.1 _ _ other
  | number _ ih =>
    refine ⟨fun t' rest' other => ?_, by simp⟩
    cases other with
    | number other => exact ih.1 _ _ other
  | paren _ value _ inner ih =>
    refine ⟨fun t' rest' other => ?_, ?_⟩
    · cases other with
      | paren inner' value' other =>
        obtain ⟨rfl, same⟩ := inner.1 _ _ inner'
        obtain rfl := (List.cons.inj same).2
        exact ih.1 _ _ other
    · rintro - _ s us ⟨⟩ type other
      obtain ⟨rfl, -⟩ := inner.1 _ _ other
      exact value type
  | call _ _ arguments ih =>
    refine ⟨fun t' rest' other => ?_, nofun⟩
    cases other with
    | call arguments' other =>
      obtain ⟨rfl, same⟩ := arguments.1 _ _ arguments'
      obtain rfl := (List.cons.inj same).2
      exact ih.1 _ _ other
    | stop free => cases free.le (k := 0) rfl
  | index _ _ place ih =>
    refine ⟨fun t' rest' other => ?_, nofun⟩
    cases other with
    | index place' other =>
      obtain ⟨rfl, same⟩ := place.1 _ _ place'
      obtain rfl := (List.cons.inj same).2
      exact ih.1 _ _ other
    | stop free => cases free.le (k := 0) rfl
  | member _ ih =>
    refine ⟨fun t' rest' other => ?_, nofun⟩
    cases other with
    | member other => exact ih.1 _ _ other
    | stop free => cases free.le (k := 0) rfl
  | negate _ ih =>
    refine ⟨fun t' rest' other => ?_, nofun⟩
    cases other with
    | negate other =>
      obtain ⟨rfl, rfl⟩ := ih.1 _ _ other
      exact ⟨rfl, rfl⟩
    | chain tighter _ => cases tighter
  | cast _ type _ inner ih =>
    refine ⟨fun t' rest' other => ?_, nofun⟩
    cases other with
    | cast inner' type' other =>
      obtain ⟨same, same'⟩ := inner.1 _ _ inner'
      cases same
      obtain rfl := (List.cons.inj same').2
      obtain ⟨rfl, rfl⟩ := ih.1 _ _ other
      exact ⟨rfl, rfl⟩
    | chain tighter _ =>
      cases tighter with
      | paren inner' value _ =>
        obtain ⟨rfl, -⟩ := inner.1 _ _ inner'
        exact absurd type value
  | chain reads _ tighter ih =>
    refine ⟨fun t' rest' other => ?_, nofun⟩
    cases other with
    | negate => cases reads
    | cast inner type other => exact absurd inner (tighter.2 rfl _ _ _ rfl type)
    | chain tighter' other =>
      obtain ⟨rfl, rfl⟩ := tighter.1 _ _ tighter'
      exact ih.1 _ _ other
  | join operator _ _ right ih =>
    refine ⟨fun t' rest' other => ?_, nofun⟩
    cases other with
    | join operator' right' other =>
      obtain rfl := Option.some_inj.1 (operator.symm.trans operator')
      obtain ⟨rfl, rfl⟩ := right.1 _ _ right'
      exact ih.1 _ _ other
    | choose => cases operator
    | stop free =>
      have le := free.le (rank?_of_join? operator)
      omega
  | choose _ _ yes no =>
    refine ⟨fun t' rest' other => ?_, nofun⟩
    cases other with
    | join operator => cases operator
    | choose yes' no' =>
      obtain ⟨rfl, same⟩ := yes.1 _ _ yes'
      obtain rfl := (List.cons.inj same).2
      obtain ⟨rfl, rfl⟩ := no.1 _ _ no'
      exact ⟨rfl, rfl⟩
    | stop free => exact absurd (free.le (k := 5) rfl) (by decide)
  | stop free =>
    refine ⟨fun t' rest' other => ?_, nofun⟩
    cases other with
    | call => cases free.le (k := 0) rfl
    | index => cases free.le (k := 0) rfl
    | member => cases free.le (k := 0) rfl
    | join operator =>
      have le := free.le (rank?_of_join? operator)
      omega
    | choose => exact absurd (free.le (k := 5) rfl) (by decide)
    | stop => exact ⟨rfl, rfl⟩

/-! ## What the grammar derives -/

/-- Nothing follows an expression with which its level does not go on. -/
lemma Reads.of_next (reads : Reads (.next n a) ts t rest) (free : Free (n + 1) ts) :
    t = a ∧ rest = ts := (Reads.stop free).unique.1 _ _ reads

/-- A word alone in parentheses is read as an expression of any level that they may hold. -/
lemma reads_word {s : String} (ends : Free 6 (.mark ')' :: ts)) (n : Nat) (le : n ≤ 5) :
    Reads (.first n) (.word s :: .mark ')' :: ts) (.word s) (.mark ')' :: ts) := by
  have stop (k : Nat) (le : k ≤ 5) : Reads (.next k (.word s)) (.mark ')' :: ts) (.word s)
      (.mark ')' :: ts) := .stop (ends.mono (Nat.succ_le_succ le))
  induction n with
  | zero => exact .word (stop 0 le)
  | succ n ih => exact .chain (ih (Nat.le_of_succ_le le)) (stop (n + 1) le)

/-- What the grammar derives is read in front of tokens with which no tighter expression goes on, and
reading continues behind it. A conditional expression goes on itself, so nothing of it may follow. -/
lemma Derives.reads (derives : Derives n ts a) : ∀ rest t us, Free n rest → (n = 5 → Free 6 rest) →
    Reads (.next n a) rest t us → Reads (.first n) (ts ++ rest) t us := by
  -- The tokens that stand behind an expression inside of another one end it.
  have close {tok : Token} {rest : List Token} (other : rank? tok = none) : Free 6 (tok :: rest) := by
    rintro t ⟨⟩ k rank
    cases other.symm.trans rank
  induction derives with
  | word s => exact fun rest t us _ _ next => .word next
  | number s => exact fun rest t us _ _ next => .number next
  | paren inner value ih =>
    intro rest t us _ _ next
    have ends : Free 6 (.mark ')' :: rest) := close rfl
    have read := ih (.mark ')' :: rest) _ _ (ends.mono (by decide)) (fun _ => ends) (.stop ends)
    simpa using Reads.paren read value next
  | call _ _ function arguments =>
    intro rest t us _ _ next
    have ends {k : Nat} : Free k (.mark ')' :: rest) := by simp [Free, rank?]
    have read := arguments (.mark ')' :: rest) _ _ ends (fun _ => ends) (.stop ends)
    have before := function (.mark '(' :: _) _ _ (fun _ _ _ _ => Nat.zero_le _) nofun (.call read next)
    simpa using before
  | index _ _ array place =>
    intro rest t us _ _ next
    have ends : Free 6 (.mark ']' :: rest) := close rfl
    have read := place (.mark ']' :: rest) _ _ (ends.mono (by decide)) (fun _ => ends) (.stop ends)
    have before := array (.mark '[' :: _) _ _ (fun _ _ _ _ => Nat.zero_le _) nofun (.index read next)
    simpa using before
  | member m _ record =>
    intro rest t us _ _ next
    have before := record (.mark '.' :: .word m :: rest) _ _ (fun _ _ _ _ => Nat.zero_le _) nofun
      (.member next)
    simpa using before
  | negate _ operand =>
    intro rest t us free _ next
    cases next with
    | join operator => cases operator
    | stop ends => exact .negate (operand rest _ _ free nofun (.stop ends))
  | cast s type _ operand =>
    intro rest t us free _ next
    cases next with
    | join operator => cases operator
    | stop ends =>
      exact .cast (reads_word (close rfl) 5 (Nat.le_refl 5)) type (operand rest _ _ free nofun (.stop ends))
  | @join n c f ts us a b operator _ _ left right =>
    intro rest t vs free _ next
    have rank := rank?_of_join? operator
    have alone (same : n = 5) : Free 6 rest := free.mono (by omega)
    have read := right rest _ _ (free.mono (Nat.le_succ n)) alone (.stop free)
    have goes : Free (n + 1) (.mark c :: (us ++ rest)) := by
      rintro t ⟨⟩ k rank'
      exact Nat.le_of_eq (Option.some_inj.1 (rank.symm.trans rank'))
    have other : n + 1 ≠ 5 := by
      rintro same
      rw [same] at operator
      cases operator
    have before := left (.mark c :: (us ++ rest)) _ _ goes (absurd · other) (.join operator read next)
    simpa using before
  | @choose ts us vs a b c _ _ _ condition yes no =>
    intro rest t ws free exact next
    obtain ⟨rfl, rfl⟩ := next.of_next (exact rfl)
    have ends : Free 6 (.mark ':' :: (vs ++ ws)) := close rfl
    have goes : Free 5 (.mark '?' :: (us ++ .mark ':' :: (vs ++ ws))) := by
      rintro t ⟨⟩ k rank
      exact Nat.le_of_eq (Option.some_inj.1 rank)
    have last := no ws _ _ free exact (.stop (exact rfl))
    have middle := yes (.mark ':' :: (vs ++ ws)) _ _ (ends.mono (by decide)) (fun _ => ends) (.stop ends)
    have before := condition _ _ _ (goes.mono (by decide)) nofun (.stop goes)
    simpa using Reads.chain before (.choose middle last)
  | @lift n _ _ _ tighter =>
    intro rest t us free _ next
    have alone (same : n = 5) : Free 6 rest := free.mono (by omega)
    have read := tighter rest _ _ (free.mono (Nat.le_succ n)) alone (.stop free)
    exact .chain read next

/-- Tokens are no two expressions of one level. -/
theorem Derives.unique (derives : Derives n ts a) (other : Derives n ts b) : a = b := by
  have stop : ∀ n, Free n [] := fun n t mem => by simp at mem
  have read := derives.reads [] _ _ (stop n) (fun _ => stop 6) (.stop (stop (n + 1)))
  have read' := other.reads [] _ _ (stop n) (fun _ => stop 6) (.stop (stop (n + 1)))
  exact (read'.unique.1 _ _ read).1

end LedEffect.Tree
