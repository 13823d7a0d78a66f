import LedEffect.Program.Lowering
import Mathlib.Tactic.Common

/-!
# Renumbered programs

The names that are made for nodes carry the numbers of the nodes. What becomes of a program when the
numbers change (`Program.renumber`), and that lowering a single node goes along with it: renumbered
operands give the renumbered form (`form?_renumber`).
-/

namespace LedEffect

open Program

/-- A name with the number of its node, if it has one, changed. -/
def Program.Name.renumber (φ : Nat → Nat) : Name → Name
  | .temporary node => .temporary (φ node)
  | .best node => .best (φ node)
  | .table node => .table (φ node)
  | n => n

/-- An expression with the numbers in its names changed. -/
def Program.Expr.renumber (φ : Nat → Nat) : Expr → Expr
  | .name n => .name (n.renumber φ)
  | .int n => .int n
  | .whole n => .whole n
  | .real x => .real x
  | .paren e => .paren (e.renumber φ)
  | .cast type e => .cast type (e.renumber φ)
  | .binary op a b => .binary op (a.renumber φ) (b.renumber φ)
  | .call1 f a => .call1 f (a.renumber φ)
  | .call2 f a b => .call2 f (a.renumber φ) (b.renumber φ)
  | .index a i => .index (a.renumber φ) (i.renumber φ)
  | .member a m => .member (a.renumber φ) m
  | .choose condition yes no =>
    .choose (condition.renumber φ) (yes.renumber φ) (no.renumber φ)

namespace Program

mutual

/-- A statement with the numbers in its names changed. Comments are left alone. -/
def Statement.renumber (φ : Nat → Nat) : Statement → Statement
  | .comment text => .comment text
  | .constant n value => .constant (n.renumber φ) (value.renumber φ)
  | .declare type n value => .declare type (n.renumber φ) (value.map (Expr.renumber φ))
  | .table n rows => .table (n.renumber φ) rows
  | .assign place how value => .assign (place.renumber φ) how (value.renumber φ)
  | .loop n start bound limit body =>
    .loop (n.renumber φ) start bound (limit.renumber φ) (renumberAll φ body)
  | .branch condition body => .branch (condition.renumber φ) (renumberAll φ body)
  | .block body => .block (renumberAll φ body)

/-- Statements with the numbers in their names changed. -/
def renumberAll (φ : Nat → Nat) : List Statement → List Statement
  | [] => []
  | s :: rest => s.renumber φ :: renumberAll φ rest

end

attribute [simp] Expr.renumber Statement.renumber

end Program

/-- The code of a sink with the numbers of nodes changed. -/
def SinkCode.renumber (φ : Nat → Nat) (code : SinkCode) : SinkCode :=
  { code with node := φ code.node, body := renumberAll φ code.body }

/-- A program with the numbers of nodes changed. -/
def Program.renumber (φ : Nat → Nat) (p : Program) : Program :=
  { p with frame := renumberAll φ p.frame, sinks := p.sinks.map (SinkCode.renumber φ) }

namespace Program

/-- A lowered node with the numbers in its code changed. -/
def Lowered.renumber (φ : Nat → Nat) (l : Lowered) : Lowered :=
  { l with expr := l.expr.renumber φ, block := renumberAll φ l.block }

/-- A form with the numbers in its code changed. -/
def Form.renumber (φ : Nat → Nat) : Form → Form
  | .expr e => .expr (e.renumber φ)
  | .statements body => .statements (renumberAll φ body)

variable (φ : Nat → Nat)

/-! ## Statements one by one -/

lemma renumberAll_eq_map (stmts : List Statement) :
    renumberAll φ stmts = stmts.map (Statement.renumber φ) := by
  induction stmts with
  | nil => rfl
  | cons s stmts ih => rw [renumberAll, ih, List.map_cons]

lemma renumberAll_append (first rest : List Statement) :
    renumberAll φ (first ++ rest) = renumberAll φ first ++ renumberAll φ rest := by
  simp only [renumberAll_eq_map, List.map_append]

lemma renumberAll_flatMap {α : Type} (f : α → List Statement) (xs : List α) :
    renumberAll φ (xs.flatMap f) = xs.flatMap fun x => renumberAll φ (f x) := by
  simp only [renumberAll_eq_map, List.map_flatMap]

@[simp] lemma isEmpty_renumberAll (stmts : List Statement) :
    (renumberAll φ stmts).isEmpty = stmts.isEmpty := by
  cases stmts <;> rfl

/-! ## Unchanged numbers -/

@[simp] lemma Name.renumber_id (n : Name) : n.renumber id = n := by
  cases n <;> rfl

@[simp] lemma Expr.renumber_id (e : Expr) : e.renumber id = e := by
  induction e <;> simp_all [Expr.renumber]

mutual

lemma Statement.renumber_id (s : Statement) : s.renumber id = s := by
  match s with
  | .comment text => rfl
  | .constant n value => simp
  | .declare type n none => simp
  | .declare type n (some value) => simp
  | .table n rows => simp
  | .assign place how value => simp
  | .loop n start bound limit body => simp [renumberAll_id body]
  | .branch condition body => simp [renumberAll_id body]
  | .block body => simp [renumberAll_id body]

lemma renumberAll_id (stmts : List Statement) : renumberAll id stmts = stmts := by
  match stmts with
  | [] => rfl
  | s :: rest => rw [renumberAll, s.renumber_id, renumberAll_id rest]

end

/-- A program whose nodes keep their numbers stays as it is. -/
lemma renumber_id (p : Program) : p.renumber id = p := by
  have sinks : SinkCode.renumber id = id := by
    funext code
    simp [SinkCode.renumber, renumberAll_id]
  simp [Program.renumber, renumberAll_id, sinks]

/-! ## Code that lowering composes -/

@[simp] lemma renumber_literal (x : Binary64) : (literal x).renumber φ = literal x := by
  unfold literal
  split <;> rfl

lemma renumber_writeChannel (table : Name) (brightness : Binary64) (channel : Int) (m : Member) :
    (writeChannel table brightness channel m).renumber φ =
      writeChannel (table.renumber φ) brightness channel m := by
  unfold writeChannel
  dsimp only
  split
  · simp only [Statement.renumber, Expr.renumber, renumber_literal]
    rfl
  · rfl

lemma renumber_paletteWrite (table : Name) (colours : Nat) (brightness : Binary64) :
    renumberAll φ (paletteWrite table colours brightness) =
      paletteWrite (table.renumber φ) colours brightness := by
  simp only [paletteWrite, renumberAll, renumber_writeChannel]
  rfl

/-- Renumbered operands give the renumbered form. -/
lemma form?_renumber {index : Nat} {n : ResolvedNode} {inputs : List Nat}
    {operand? operand'? : Nat → Option Expr}
    (operands : ∀ slot, operand'? slot = (operand? slot).map (Expr.renumber φ)) :
    form? (φ index) { n with inputs := inputs } operand'? =
      (form? index n operand?).map (Form.renumber φ) := by
  have param : ∀ name, ResolvedNode.param? { n with inputs := inputs } name = n.param? name :=
    fun _ => rfl
  have whole : ∀ name, wholeParam? { n with inputs := inputs } name = wholeParam? n name :=
    fun _ => rfl
  have bounds : binBounds? { n with inputs := inputs } = binBounds? n := rfl
  unfold form?
  simp only [param, whole, bounds, operands]
  cases n.kind with
  | gradient => rfl
  | positionGradient => rfl
  | audioLevel => rfl
  | tempoConfidence => rfl
  | paletteInterpolate => rfl
  | output => rfl
  | constant => cases n.param? "value" <;> simp [Form.renumber]
  | time =>
    cases n.param? "speed" with
    | none => rfl
    | some speed =>
      simp only [Option.bind_eq_bind, Option.bind_some]
      split
      · rfl
      · simp [Form.renumber, symbol, Name.renumber]
  | add => cases operand? 0 <;> cases operand? 1 <;> rfl
  | multiply => cases operand? 0 <;> cases operand? 1 <;> rfl
  | clamp =>
    cases n.param? "min" <;> cases n.param? "max" <;> cases operand? 0 <;>
      simp [Form.renumber]
  | modulo =>
    cases operand? 0 <;> cases n.param? "divisor" <;> simp [Form.renumber]
  | scale =>
    cases operand? 0 <;> cases n.param? "factor" <;> simp [Form.renumber]
  | sin =>
    cases operand? 0 <;> cases n.param? "frequency" <;> simp [Form.renumber]
  | spectrumBin => cases wholeParam? n "bin" <;> rfl
  | spectrumRange => cases binBounds? n <;> rfl
  | spectrumInterpolate => cases binBounds? n <;> rfl
  | beat =>
    cases n.param? "tempoBin" with
    | none => rfl
    | some bin =>
      simp only [Option.bind_eq_bind, Option.bind_some]
      split
      · rfl
      · cases wholeParam? n "tempoBin" <;> rfl
  | chromagram => cases wholeParam? n "pitch" <;> rfl

end Program

end LedEffect
