import LedEffect.Program.Printer
import LedEffect.Proofs.Program.Delimiters

/-!
# The grammar of expressions

The expressions of C that emitted code is made of, by the levels of the standard: an operand of an operator
binds at least as tightly as the operator (`Derives`). Whatever is derived has balanced delimiters
(`Derives.balanced`), and a postfix expression has no operator outside of them (`Derives.sealed`).
-/

namespace LedEffect

/-- What an expression is read as, parentheses included. -/
inductive Tree
  | word (s : String)
  | number (s : String)
  | paren (a : Tree)
  | call (f arguments : Tree)
  | index (a i : Tree)
  | member (a : Tree) (m : String)
  | negate (a : Tree)
  | cast (type : String) (a : Tree)
  | binary (op : Program.Operator) (a b : Tree)
  | choose (condition yes no : Tree)
  | list (a b : Tree)
deriving DecidableEq

namespace Tree

/-- The words that name types. -/
def isType (s : String) : Bool := s ∈ ["float", "int", "uint8_t"]

/-- Whether a tree is a word that names a type. -/
def IsType : Tree → Prop
  | .word s => isType s = true
  | _ => False

open Program in
/-- The operator that a mark stands for at a level: multiplicative, additive, relational, or the comma
between arguments. -/
def join? : Nat → Char → Option (Tree → Tree → Tree)
  | 2, '*' => some (.binary .mul)
  | 2, '/' => some (.binary .div)
  | 3, '+' => some (.binary .add)
  | 3, '-' => some (.binary .sub)
  | 4, '<' => some (.binary .lt)
  | 4, '>' => some (.binary .gt)
  | 6, ',' => some .list
  | _, _ => none

/-- Whether tokens are an expression of a level, and which: 0 is a postfix expression, 1 a cast or unary
one, 2 a multiplicative, 3 an additive, 4 a relational, 5 a conditional one, and 6 a list of arguments. -/
inductive Derives : Nat → List Token → Tree → Prop
  | word (s : String) : Derives 0 [.word s] (.word s)
  | number (s : String) : Derives 0 [.number s] (.number s)
  | paren {ts : List Token} {a : Tree} (inner : Derives 5 ts a) (value : ¬ a.IsType) :
    Derives 0 (.mark '(' :: ts ++ [.mark ')']) (.paren a)
  | call {fs xs : List Token} {f x : Tree} (function : Derives 0 fs f) (arguments : Derives 6 xs x) :
    Derives 0 (fs ++ .mark '(' :: xs ++ [.mark ')']) (.call f x)
  | index {ts us : List Token} {a i : Tree} (array : Derives 0 ts a) (place : Derives 5 us i) :
    Derives 0 (ts ++ .mark '[' :: us ++ [.mark ']']) (.index a i)
  | member {ts : List Token} {a : Tree} (m : String) (record : Derives 0 ts a) :
    Derives 0 (ts ++ [.mark '.', .word m]) (.member a m)
  | negate {ts : List Token} {a : Tree} (operand : Derives 1 ts a) :
    Derives 1 (.mark '-' :: ts) (.negate a)
  | cast {ts : List Token} {a : Tree} (s : String) (type : isType s = true) (operand : Derives 1 ts a) :
    Derives 1 (.mark '(' :: .word s :: .mark ')' :: ts) (.cast s a)
  | join {n : Nat} {c : Char} {f : Tree → Tree → Tree} {ts us : List Token} {a b : Tree}
    (operator : join? (n + 1) c = some f) (left : Derives (n + 1) ts a) (right : Derives n us b) :
    Derives (n + 1) (ts ++ .mark c :: us) (f a b)
  | choose {ts us vs : List Token} {a b c : Tree} (condition : Derives 4 ts a) (yes : Derives 5 us b)
    (no : Derives 5 vs c) :
    Derives 5 (ts ++ .mark '?' :: us ++ .mark ':' :: vs) (.choose a b c)
  | lift {n : Nat} {ts : List Token} {a : Tree} (tighter : Derives n ts a) : Derives (n + 1) ts a

open Token

variable {n : Nat} {c : Char} {ts : List Token} {a : Tree}

/-- Operators are no delimiters. -/
lemma not_delimiter_of_join? {f : Tree → Tree → Tree} (operator : join? n c = some f) :
    closing? (.mark c) = none ∧ isClosing (.mark c) = false := by
  unfold join? at operator
  split at operator
  case h_8 => cases operator
  all_goals decide

/-- The delimiters of an expression are balanced. -/
lemma Derives.balanced (derives : Derives n ts a) : Balanced ts := by
  have mark {c : Char} (plain : closing? (.mark c) = none ∧ isClosing (.mark c) = false) :
      Balanced [.mark c] := .single plain.1 plain.2
  induction derives with
  | word s => exact .single rfl rfl
  | number s => exact .single rfl rfl
  | paren _ _ inner => exact inner.enclosed rfl
  | call _ _ function arguments =>
    rw [List.append_assoc]
    exact function.append (arguments.enclosed rfl)
  | index _ _ array place =>
    rw [List.append_assoc]
    exact array.append (place.enclosed rfl)
  | member m _ record =>
    exact record.append ((mark (c := '.') (by decide)).append (.single (t := .word m) rfl rfl))
  | negate _ operand => exact (mark (c := '-') (by decide)).append operand
  | cast s _ _ operand =>
    exact (Balanced.enclosed (.single (t := .word s) rfl rfl) (by rfl)).append operand
  | join operator _ _ left right =>
    exact left.append ((mark (not_delimiter_of_join? operator)).append right)
  | choose _ _ _ condition yes no =>
    rw [List.append_assoc]
    exact condition.append (((mark (c := '?') (by decide)).append yes).append
      ((mark (c := ':') (by decide)).append no))
  | lift _ tighter => exact tighter

/-- No operator of a postfix expression stands outside of its delimiters. -/
lemma Derives.sealed (derives : Derives 0 ts a) : Sealed ts := by
  generalize zero : 0 = n at derives
  induction derives with
  | word s => exact .single id (.single rfl rfl)
  | number s => exact .single id (.single rfl rfl)
  | paren inner => exact inner.balanced.sealed rfl
  | call _ arguments function =>
    rw [List.append_assoc]
    exact (function zero).append (arguments.balanced.sealed rfl)
  | index _ place array =>
    rw [List.append_assoc]
    exact (array zero).append (place.balanced.sealed rfl)
  | member m _ record =>
    exact (record zero).append ((Sealed.single (t := .mark '.') (by simp [IsOperator]) rfl).append
      (Sealed.single (t := .word m) id rfl))
  | _ => cases zero

end Tree

end LedEffect
