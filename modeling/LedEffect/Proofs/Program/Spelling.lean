import LedEffect.Proofs.Program.Literals
import LedEffect.Proofs.Program.Unambiguous

/-!
# The spelling of expressions

What a printed expression means to be is its tree (`Expr.tree`). It is read as that tree at a level when
all its operands bind tightly enough for the operators around them (`Expr.Binds`), as what is printed of
it is then read token by token (`Expr.tokens_text`) and derived (`Expr.Binds.derives`). Its float literals
are then written as such (`Expr.Binds.isFloat`).
-/

namespace LedEffect

open Token Program

/-! ## Trees -/

/-- The character of an operator. -/
def Program.Operator.mark : Operator → Char
  | add => '+'
  | sub => '-'
  | mul => '*'
  | div => '/'
  | lt => '<'
  | gt => '>'

/-- The level of the expressions that an operator makes. -/
def Program.Operator.level : Operator → Nat
  | mul | div => 2
  | add | sub => 3
  | lt | gt => 4

namespace Tree

/-- The tokens of a tree. -/
def tokens : Tree → List Token
  | word s => [.word s]
  | number s => [.number s]
  | paren a => .mark '(' :: a.tokens ++ [.mark ')']
  | call f x => f.tokens ++ .mark '(' :: x.tokens ++ [.mark ')']
  | index a i => a.tokens ++ .mark '[' :: i.tokens ++ [.mark ']']
  | member a m => a.tokens ++ [.mark '.', .word m]
  | negate a => .mark '-' :: a.tokens
  | cast type a => .mark '(' :: .word type :: .mark ')' :: a.tokens
  | binary op a b => a.tokens ++ .mark op.mark :: b.tokens
  | choose condition yes no => condition.tokens ++ .mark '?' :: yes.tokens ++ .mark ':' :: no.tokens
  | list a b => a.tokens ++ .mark ',' :: b.tokens

/-- A number behind its sign. -/
def signed (negative : Bool) (s : String) : Tree := if negative then negate (number s) else number s

lemma Derives.mono {n k : Nat} {ts : List Token} {a : Tree} (derives : Derives n ts a) (le : n ≤ k) :
    Derives k ts a := by
  induction le with
  | refl => exact derives
  | step _ ih => exact .lift ih

lemma Derives.signed {n : Nat} {negative : Bool} (s : String) (sign : negative = true → 1 ≤ n) :
    Derives n (Tree.signed negative s).tokens (Tree.signed negative s) := by
  cases negative with
  | false => exact (Derives.number s).mono (Nat.zero_le n)
  | true => exact (Derives.negate (.lift (.number s))).mono (sign rfl)

/-- An operator joins operands of its level and of the one below. -/
lemma Derives.operator {op : Operator} {ts us : List Token} {a b : Tree}
    (left : Derives op.level ts a) (right : Derives (op.level - 1) us b) :
    Derives op.level (ts ++ .mark op.mark :: us) (.binary op a b) := by
  cases op <;> exact .join rfl left right

end Tree

namespace Program

/-! ## Expressions -/

/-- What an expression is to be read as. -/
def Expr.tree (target : TargetProfile) : Expr → Tree
  | name n => .word (n.text target)
  | int n => .signed (n < 0) (toString n.natAbs)
  | whole n => .signed (n < 0) s!"{n.natAbs}.0f"
  | real x => .signed x.isNegative (realText x.abs)
  | paren e => .paren (e.tree target)
  | cast type e => .cast type.text (e.tree target)
  | binary op a b => .binary op (a.tree target) (b.tree target)
  | call1 f a => .call (.word f.text) (a.tree target)
  | call2 f a b => .call (.word f.text) (.list (a.tree target) (b.tree target))
  | index a i => .index (a.tree target) (i.tree target)
  | member a m => .member (a.tree target) m.text
  | choose condition yes no => .choose (condition.tree target) (yes.tree target) (no.tree target)

/-- The texts of the float literals in an expression. -/
def Expr.floats : Expr → List String
  | name _ | int _ => []
  | whole n => [s!"{n}.0f"]
  | real x => [realText x]
  | paren e | cast _ e | call1 _ e | member e _ => e.floats
  | binary _ a b | call2 _ a b | index a b => a.floats ++ b.floats
  | choose condition yes no => condition.floats ++ (yes.floats ++ no.floats)

/-- Whether the last token of an expression goes on with a character. -/
def Expr.absorbs (c : Char) : Expr → Bool
  | name _ | member _ _ => isIdentifierPart c
  | int _ | whole _ | real _ => isNumberPart c
  | cast _ e | binary _ _ e | choose _ _ e => e.absorbs c
  | paren _ | call1 _ _ | call2 _ _ _ | index _ _ => false

/-- Whether a printed expression is one of a level: its operators are of that level or bind tighter, and so
do operands beside their operators. -/
def Expr.Binds : Expr → Nat → Prop
  | name _, _ => True
  | int k, n | whole k, n => k < 0 → 1 ≤ n
  | real x, n => x.Pointed ∧ (x.isNegative = true → 1 ≤ n)
  | paren e, _ => (∀ m, e ≠ .name m) ∧ e.Binds 5
  | cast _ e, n => 1 ≤ n ∧ e.Binds 1
  | binary op a b, n => op.level ≤ n ∧ a.Binds op.level ∧ b.Binds (op.level - 1)
  | call1 _ a, _ => a.Binds 5
  | call2 _ a b, _ => a.Binds 5 ∧ b.Binds 5
  | index a i, _ => a.Binds 0 ∧ i.Binds 5
  | member a _, _ => a.absorbs '.' = false ∧ a.Binds 0
  | choose condition yes no, n => 5 ≤ n ∧ condition.Binds 4 ∧ yes.Binds 5 ∧ no.Binds 5

attribute [simp] Expr.absorbs Expr.Binds

namespace Expr

variable {target : TargetProfile} {e : Expr} {n k : Nat} {rest : List Char}

lemma Binds.mono (binds : e.Binds n) (le : n ≤ k) : e.Binds k := by
  cases e with
  | int | whole => exact fun negative => (binds negative).trans le
  | real => exact ⟨binds.1, fun negative => (binds.2 negative).trans le⟩
  | cast | binary | choose => exact ⟨binds.1.trans le, binds.2⟩
  | _ => exact binds

/-- Only a name is read as a word. -/
lemma not_isType (e : Expr) (other : ∀ m, e ≠ .name m) : ¬ (e.tree target).IsType := by
  have number (negative : Bool) (s : String) : ¬ (Tree.signed negative s).IsType := by
    cases negative <;> exact id
  cases e with
  | name m => exact absurd rfl (other m)
  | int | whole | real => exact number _ _
  | _ => exact id

/-- An expression whose operands bind tightly enough is derived as its tree. -/
theorem Binds.derives (binds : e.Binds n) :
    Tree.Derives n (e.tree target).tokens (e.tree target) := by
  induction e generalizing n with
  | name m => exact (Tree.Derives.word _).mono (Nat.zero_le n)
  | int | whole => exact .signed _ fun negative => binds (of_decide_eq_true negative)
  | real => exact .signed _ binds.2
  | paren e ih => exact (Tree.Derives.paren (ih binds.2) (e.not_isType binds.1)).mono (Nat.zero_le n)
  | cast type e ih =>
    exact (Tree.Derives.cast type.text (by cases type <;> decide) (ih binds.2)).mono binds.1
  | binary op a b left right => exact (Tree.Derives.operator (left binds.2.1) (right binds.2.2)).mono binds.1
  | call1 f a ih =>
    exact (Tree.Derives.call (.word f.text) (.lift (ih binds))).mono (Nat.zero_le n)
  | call2 f a b first second =>
    have arguments := Tree.Derives.join (n := 5) (c := ',') (f := Tree.list) rfl (.lift (first binds.1))
      (second binds.2)
    exact (Tree.Derives.call (.word f.text) arguments).mono (Nat.zero_le n)
  | index a i array place =>
    exact (Tree.Derives.index (array binds.1) (place binds.2)).mono (Nat.zero_le n)
  | member a m record => exact (Tree.Derives.member m.text (record binds.2)).mono (Nat.zero_le n)
  | choose condition yes no first second third =>
    exact (Tree.Derives.choose (first binds.2.1) (second binds.2.2.1) (third binds.2.2.2)).mono binds.1

end Expr

/-! ## Numbers -/

variable {target : TargetProfile} {rest : List Char}

lemma isNumberPart_of_isDigit {c : Char} (digit : c.isDigit = true) : isNumberPart c = true := by
  simp [isNumberPart, isIdentifierPart, Char.isAlphanum, digit]

lemma isNumber_toString (k : Nat) : IsNumber (toString k) := by
  have digit := isDigit_toString k
  cases digits : (toString k).toList with
  | nil => simp at digits
  | cons c cs =>
    rw [digits] at digit
    exact ⟨c, cs, digits, digit c List.mem_cons_self, List.all_eq_true.2 fun d mem =>
      isNumberPart_of_isDigit (digit d (List.mem_cons_of_mem _ mem))⟩

/-- A float literal without a sign is a number. -/
lemma IsFloat.isNumber {s : String} (float : IsFloat false s) : IsNumber s := by
  obtain ⟨cs, ⟨whole, fraction, some, -, digit, rfl⟩, rfl⟩ := float
  obtain ⟨c, whole, rfl⟩ := List.exists_cons_of_ne_nil some
  refine ⟨c, whole ++ '.' :: (fraction ++ ['f']), by simp [withSign], digit c (by simp), ?_⟩
  rw [List.all_eq_true]
  intro d mem
  simp only [List.mem_append, List.mem_cons, List.not_mem_nil, or_false] at mem
  rcases mem with mem | rfl | mem | rfl
  · exact isNumberPart_of_isDigit (digit d (by simp [mem]))
  · rfl
  · exact isNumberPart_of_isDigit (digit d (by simp [mem]))
  · rfl

/-- A number behind its sign is read as one in front of a character that does not belong to it. -/
lemma tokens_signed {negative : Bool} {s : String} (number : IsNumber s)
    (ends : ∀ c ∈ rest.head?, isNumberPart c = false) :
    Token.tokens ((withSign negative s.toList).toList ++ rest) =
      (Tree.signed negative s).tokens ++ Token.tokens rest := by
  have read := tokens_number number ends
  cases negative with
  | false => simpa [withSign, Tree.signed, Tree.tokens] using read
  | true =>
    obtain ⟨c, cs, text, digit, -⟩ := number
    have minus : Token.tokens ('-' :: (s.toList ++ rest)) = .mark '-' :: Token.tokens (s.toList ++ rest) :=
      tokens_minus ⟨c, by simp [text], digit⟩
    simpa [withSign, Tree.signed, Tree.tokens, read] using minus

/-! ## Names -/

/-- A text with a node's number between letters is an identifier. -/
lemma isIdentifier_numbered {c : Char} (before after : List Char) (k : Nat)
    (letters : isIdentifierStart c = true ∧ (before ++ after).all isIdentifierPart = true) {s : String}
    (text : s.toList = c :: (before ++ ((toString k).toList ++ after))) : isIdentifier s = true := by
  have digits : (toString k).toList.all isIdentifierPart = true := by
    rw [List.all_eq_true]
    intro d mem
    simp [isIdentifierPart, Char.isAlphanum, isDigit_toString k d mem]
  obtain ⟨first, others⟩ := letters
  rw [List.all_append, Bool.and_eq_true] at others
  rw [isIdentifier, text]
  simp only [List.all_append, first, others.1, others.2, digits, Bool.and_self]

/-- Names are identifiers when the symbols of the firmware are. -/
lemma Name.isIdentifier_text (identifiers : ∀ s, isIdentifier (target.name s) = true) (n : Name) :
    isIdentifier (n.text target) = true := by
  cases n with
  | symbol s => exact identifiers s
  | temporary node =>
    exact isIdentifier_numbered (c := 'v') [] [] node (by decide) (by simp [Name.text, toString])
  | best node =>
    exact isIdentifier_numbered (c := 'v') [] "_best".toList node (by decide)
      (by simp [Name.text, toString])
  | table node =>
    exact isIdentifier_numbered (c := 'p') "alette_v".toList [] node (by decide)
      (by simp [Name.text, toString])
  | _ =>
    simp only [Name.text]
    decide

/-! ## Texts -/

namespace Expr

variable {e : Expr} {n : Nat}

/-- No expression goes on with a character that stands in no number. -/
lemma absorbs_eq_false {c : Char} (other : isNumberPart c = false) (e : Expr) : e.absorbs c = false := by
  have letter : isIdentifierPart c = false := (Bool.or_eq_false_iff.1 other).1
  induction e with
  | name | member => exact letter
  | int | whole | real => exact other
  | cast _ _ ih | binary _ _ _ _ ih | choose _ _ _ _ _ ih => exact ih
  | _ => rfl

/-- Behind an expression stands no character that it goes on with. -/
lemma ends_of_not_part {c : Char} (other : isNumberPart c = false) (cs : List Char) (e : Expr) :
    ∀ d ∈ (c :: cs).head?, e.absorbs d = false := by
  rintro d ⟨⟩
  exact e.absorbs_eq_false other

/-- What is read of a printed expression, in front of what does not go on with it, is its tree. -/
theorem Binds.tokens_text (identifiers : ∀ s, isIdentifier (target.name s) = true) (binds : e.Binds n)
    (ends : ∀ c ∈ rest.head?, e.absorbs c = false) :
    Token.tokens ((e.text target).toList ++ rest) = (e.tree target).tokens ++ Token.tokens rest := by
  have opening := tokens_mark (c := '(') (by decide)
  have closing := tokens_mark (c := ')') (by decide)
  -- Inside of an expression no operand goes on with the character behind it.
  induction e generalizing n rest with
  | name m => exact tokens_word (m.isIdentifier_text identifiers) ends
  | int k =>
    rw [text, toString_eq_withSign]
    exact tokens_signed (isNumber_toString _) ends
  | whole k =>
    rw [text, whole_eq_withSign]
    exact tokens_signed (isFloat_natural _).isNumber ends
  | real x =>
    obtain ⟨pointed, -⟩ := binds
    rw [text, realText_eq_withSign pointed.1]
    exact tokens_signed (isFloat_abs pointed).isNumber ends
  | paren e ih =>
    have inner := ih binds.2 (ends_of_not_part (c := ')') (by decide) rest e)
    simp [text, tree, Tree.tokens, opening, closing, inner]
  | cast type e ih =>
    have type : run .blank ("(" ++ type.text ++ ")").toList =
        ([.mark '(', .word type.text, .mark ')'], .blank) := by
      cases type <;> decide
    have operand := ih binds.2 ends
    have before := tokens_append type ((e.text target).toList ++ rest)
    simpa [text, tree, Tree.tokens, operand] using before
  | binary op a b first second =>
    have operator : run .blank (' ' :: (op.text.toList ++ [' '])) = ([.mark op.mark], .blank) := by
      cases op <;> decide
    have right := second binds.2.2 ends
    have middle := tokens_append operator ((b.text target).toList ++ rest)
    have left := first binds.2.1
      (ends_of_not_part (c := ' ') (by decide) (op.text.toList ++ ' ' :: ((b.text target).toList ++ rest)) a)
    simp only [List.cons_append, List.append_assoc, List.nil_append] at middle
    simp [text, tree, Tree.tokens, left, middle, right]
  | call1 f a ih =>
    have name : isIdentifier f.text = true := by cases f <;> decide
    have argument := ih binds (ends_of_not_part (c := ')') (by decide) rest a)
    have function (cs : List Char) : Token.tokens (f.text.toList ++ '(' :: cs) = _ :=
      tokens_word name (by rintro c ⟨⟩; rfl)
    simp [text, tree, Tree.tokens, function, opening, closing, argument]
  | call2 f a b first second =>
    have name : isIdentifier f.text = true := by cases f <;> decide
    have comma : run .blank [',', ' '] = ([.mark ','], .blank) := by decide
    have right := second binds.2 (ends_of_not_part (c := ')') (by decide) rest b)
    have middle := tokens_append comma ((b.text target).toList ++ ')' :: rest)
    have left := first binds.1
      (ends_of_not_part (c := ',') (by decide) (' ' :: ((b.text target).toList ++ ')' :: rest)) a)
    have function (cs : List Char) : Token.tokens (f.text.toList ++ '(' :: cs) = _ :=
      tokens_word name (by rintro c ⟨⟩; rfl)
    simp only [List.cons_append, List.nil_append] at middle
    simp [text, tree, Tree.tokens, function, opening, closing, left, middle, right]
  | index a i array place =>
    have bracket := tokens_mark (c := '[') (by decide)
    have bracket' := tokens_mark (c := ']') (by decide)
    have right := place binds.2 (ends_of_not_part (c := ']') (by decide) rest i)
    have left := array binds.1
      (ends_of_not_part (c := '[') (by decide) ((i.text target).toList ++ ']' :: rest) a)
    simp [text, tree, Tree.tokens, bracket, bracket', left, right]
  | member a m record =>
    have name : isIdentifier m.text = true := by cases m <;> decide
    have point := tokens_mark (c := '.') (by decide)
    have word := tokens_word name ends
    have left : Token.tokens ((a.text target).toList ++ '.' :: (m.text.toList ++ rest)) = _ :=
      record binds.2 (by rintro c ⟨⟩; exact binds.1)
    simp [text, tree, Tree.tokens, left, point, word]
  | choose condition yes no first second third =>
    have question : run .blank [' ', '?', ' '] = ([.mark '?'], .blank) := by decide
    have colon : run .blank [' ', ':', ' '] = ([.mark ':'], .blank) := by decide
    have last := third binds.2.2.2 ends
    have behind := tokens_append colon ((no.text target).toList ++ rest)
    have middle := second binds.2.2.1
      (ends_of_not_part (c := ' ') (by decide) (':' :: ' ' :: ((no.text target).toList ++ rest)) yes)
    have before := tokens_append question
      ((yes.text target).toList ++ ' ' :: ':' :: ' ' :: ((no.text target).toList ++ rest))
    have test := first binds.2.1 (ends_of_not_part (c := ' ') (by decide)
      ('?' :: ' ' :: ((yes.text target).toList ++ ' ' :: ':' :: ' ' :: ((no.text target).toList ++ rest)))
      condition)
    simp only [List.cons_append, List.nil_append] at behind before
    simp [text, tree, Tree.tokens, test, before, middle, behind, last]

/-- The float literals of an expression are written as such. -/
lemma Binds.isFloat (binds : e.Binds n) : ∀ s ∈ e.floats, ∃ negative, IsFloat negative s := by
  induction e generalizing n with
  | name | int => exact nofun
  | whole k =>
    intro s mem
    obtain rfl := List.mem_singleton.1 mem
    exact ⟨_, isFloat_whole k⟩
  | real x =>
    intro s mem
    obtain rfl := List.mem_singleton.1 mem
    exact ⟨_, isFloat_realText binds.1⟩
  | paren e ih | cast _ e ih | member e _ ih => exact ih binds.2
  | call1 f a ih => exact ih binds
  | call2 f a b first second | index a b first second =>
    intro s mem
    exact (List.mem_append.1 mem).elim (first binds.1 s) (second binds.2 s)
  | binary op a b first second =>
    intro s mem
    exact (List.mem_append.1 mem).elim (first binds.2.1 s) (second binds.2.2 s)
  | choose condition yes no first second third =>
    intro s mem
    rcases List.mem_append.1 mem with mem | mem
    · exact first binds.2.1 s mem
    · exact (List.mem_append.1 mem).elim (second binds.2.2.1 s) (third binds.2.2.2 s)

/-- Whether the text of an expression is read as a tree at a level, and as no other one. -/
def ReadAs (target : TargetProfile) (n : Nat) (e : Expr) (a : Tree) : Prop :=
  ∀ t, Tree.Derives n (Token.tokens (e.text target).toList) t ↔ t = a

lemma Binds.tokens_eq (identifiers : ∀ s, isIdentifier (target.name s) = true) (binds : e.Binds n) :
    Token.tokens (e.text target).toList = (e.tree target).tokens := by
  have read : Token.tokens ((e.text target).toList ++ []) = _ := binds.tokens_text identifiers (by simp)
  simpa using read

/-- An expression whose operands bind tightly enough is read as its tree and as nothing else. -/
theorem Binds.readAs (identifiers : ∀ s, isIdentifier (target.name s) = true) (binds : e.Binds n) :
    e.ReadAs target n (e.tree target) := by
  have derives : Tree.Derives n (e.tree target).tokens (e.tree target) := binds.derives
  intro t
  rw [binds.tokens_eq identifiers]
  exact ⟨fun other => other.unique derives, fun same => same ▸ derives⟩

end Expr

end Program

end LedEffect
