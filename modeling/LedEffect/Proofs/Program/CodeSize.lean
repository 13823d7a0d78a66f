import LedEffect.Proofs.Program.Operations

/-!
# The size of code

Code is as large as it has syntax nodes. What a node asks for is a bounded number of them and what stands
for its operands, so the size of a piece of code is linear in the number of operations that it performs
(`PerformsAll.codeSize_le`).
-/

namespace LedEffect.Program

open ResolvedEffect

/-- The number of expressions in an expression, itself included. -/
def Expr.size : Expr → Nat
  | .name _ | .int _ | .whole _ | .real _ => 1
  | .paren e | .cast _ e | .call1 _ e | .member e _ => e.size + 1
  | .binary _ a b | .call2 _ a b | .index a b => a.size + b.size + 1
  | .choose condition yes no => condition.size + yes.size + no.size + 1

mutual

/-- The number of statements and expressions in a statement, itself included. -/
def Statement.size : Statement → Nat
  | .comment _ | .declare _ _ none => 1
  | .constant _ e | .declare _ _ (some e) => e.size + 1
  | .table _ rows => rows.length + 1
  | .assign place _ e => place.size + e.size + 1
  | .loop _ _ _ limit body => limit.size + codeSize body + 1
  | .branch condition body => condition.size + codeSize body + 1
  | .block body => codeSize body + 1

/-- The number of statements and expressions in some statements. -/
def codeSize : List Statement → Nat
  | [] => 0
  | s :: rest => s.size + codeSize rest

end

attribute [simp] Expr.size Statement.size codeSize

variable {r : ResolvedEffect} {v : Nat} {n : ResolvedNode} {e : Expr} {ops : List Nat}
  {first rest stmts : List Statement}

lemma codeSize_append : codeSize (first ++ rest) = codeSize first + codeSize rest := by
  induction first with
  | nil => simp
  | cons s first ih => rw [List.cons_append, codeSize, codeSize, ih, Nat.add_assoc]

lemma size_literal (x : Binary64) : (literal x).size ≤ 2 := by
  unfold literal
  split <;> simp

/-! ## Forms -/

section Forms

variable {reading : Nat → Expr}

/-- What a node asks for is little beside its operands. -/
lemma size_formed
    (formed : Formed v n (fun slot => (n.inputs[slot]?).map fun _ => reading slot) (.expr e)) :
    e.size ≤ 11 + ((List.range n.inputs.length).map fun slot => (reading slot).size).sum := by
  have one : ∀ {a : Expr}, (n.inputs[0]?).map (fun _ => reading 0) = some a →
      a.size ≤ ((List.range n.inputs.length).map fun slot => (reading slot).size).sum := by
    intro a first
    cases inputs : n.inputs with
    | nil => simp [inputs] at first
    | cons u inputs =>
      obtain rfl : reading 0 = a := by simpa [inputs] using first
      rw [List.length_cons, List.range_succ_eq_map, List.map_cons, List.sum_cons]
      exact Nat.le_add_right _ _
  have two : ∀ {a b : Expr}, (n.inputs[0]?).map (fun _ => reading 0) = some a →
      (n.inputs[1]?).map (fun _ => reading 1) = some b → a.size + b.size ≤
        ((List.range n.inputs.length).map fun slot => (reading slot).size).sum := by
    intro a b first second
    match inputs : n.inputs with
    | [] => simp [inputs] at first
    | [u] => simp [inputs] at second
    | u :: w :: inputs' =>
      obtain rfl : reading 0 = a := by simpa [inputs] using first
      obtain rfl : reading 1 = b := by simpa [inputs] using second
      simp [List.range_succ_eq_map]
  cases formed with
  | constant kind value => exact (size_literal _).trans (by omega)
  | @scaledSeconds x kind speed other =>
    have factor := size_literal x
    simp only [Expr.size, symbol]
    omega
  | add kind first second =>
    have operands := two first second
    simp only [Expr.size]
    omega
  | multiply kind first second =>
    have operands := two first second
    simp only [Expr.size]
    omega
  | @clamp x y a kind min max first =>
    have operand := one first
    have low := size_literal x
    have high := size_literal y
    simp only [Expr.size]
    omega
  | @modulo x a kind first divisor =>
    have operand := one first
    have constant := size_literal x
    simp only [Expr.size]
    omega
  | @scale x a kind first factor =>
    have operand := one first
    have constant := size_literal x
    simp only [Expr.size]
    omega
  | @sin x a kind first frequency =>
    have operand := one first
    have constant := size_literal x
    simp only [Expr.size]
    omega
  | _ =>
    simp only [Expr.size, symbol, centreDistance, stripPosition, pixel, beatPhase]
    omega

/-- The operands of a node are as large as the operations that are written out in them. -/
lemma size_operands {inputs : List Nat} {parts : Nat → List Nat}
    (each : ∀ slot u, inputs[slot]? = some u → (reading slot).size ≤ 12 * (parts slot).length + 1) :
    ((List.range inputs.length).map fun slot => (reading slot).size).sum ≤
      12 * ((List.range inputs.length).flatMap parts).length + inputs.length := by
  induction inputs generalizing reading parts with
  | nil => simp
  | cons u inputs ih =>
    have first := each 0 u rfl
    have later := @ih (fun slot => reading (slot + 1)) (fun slot => parts (slot + 1))
      fun slot w input => each (slot + 1) w input
    rw [List.length_cons, List.range_succ_eq_map, List.map_cons, List.sum_cons, List.map_map,
      List.flatMap_cons, List.flatMap_map, List.length_append]
    simp only [Function.comp_def, Nat.succ_eq_add_one]
    omega

lemma size_asked {parts : Nat → List Nat} (wf : r.WellFormed) (place : r.nodes[v]? = some n)
    (each : ∀ slot u, n.inputs[slot]? = some u →
      (reading slot).size ≤ 12 * (parts slot).length + 1)
    (formed : form? v n (fun slot => (n.inputs[slot]?).map fun _ => reading slot) =
      some (.expr e)) :
    e.size ≤ 12 * ((List.range n.inputs.length).flatMap parts).length + 13 := by
  have own := size_formed (.of_form? formed)
  have operands := size_operands each
  have arity : n.inputs.length ≤ 2 := (wf.arity v n place).2.trans (by cases n.kind <;> decide)
  omega

end Forms

lemma Writes.size_le (wf : r.WellFormed) (written : Writes r v e ops) :
    e.size ≤ 12 * ops.length + 1 := by
  induction written with
  | stored materialized => simp
  | formula place bare reading parts operands formed ih =>
    have size := size_asked wf place ih formed
    rw [List.length_cons]
    omega

lemma Asks.size_le (wf : r.WellFormed) (place : r.nodes[v]? = some n)
    (asked : Asks r v n (.expr e) ops) : e.size ≤ 12 * ops.length + 13 := by
  obtain ⟨reading, parts, operands, formed, rfl⟩ := asked
  exact size_asked wf place (fun slot u input => (operands slot u input).size_le wf) formed

/-! ## Pieces of code -/

lemma size_writeChannel (table : Name) (brightness : Binary64) (channel : Int) (m : Member) :
    (writeChannel table brightness channel m).size ≤ 33 := by
  have dimmed := size_literal brightness
  unfold writeChannel
  simp only [Statement.size, Expr.size, symbol]
  split
  · simp only [Expr.size, mixedChannel]
    omega
  · simp only [Expr.size, mixedChannel]
    omega

lemma codeSize_paletteWrite (table : Name) (colours : Nat) (brightness : Binary64) :
    codeSize (paletteWrite table colours brightness) ≤ 118 := by
  have red := size_writeChannel table brightness 0 .red
  have green := size_writeChannel table brightness 1 .green
  have blue := size_writeChannel table brightness 2 .blue
  unfold paletteWrite
  simp only [codeSize, Statement.size, Expr.size]
  omega

/-- The statements of a piece are a bounded number for each operation that it performs. -/
lemma Performs.codeSize_le (wf : r.WellFormed) (performs : Performs r stmts ops) :
    codeSize stmts ≤ 129 * ops.length := by
  cases performs with
  | @computed v n body ops place asked =>
    obtain ⟨reading, parts, -, formed, -⟩ := asked
    have small : codeSize body ≤ 47 := by
      cases Formed.of_form? formed <;>
        simp [spectrumMean, spectrumStretch, strongestBeat, stripPosition, pixel, beatPhase, symbol]
    rw [codeSize, Statement.size, List.length_cons]
    omega
  | shared place materialized asked =>
    have size := asked.size_le wf place
    simp only [codeSize, Statement.size, List.length_cons]
    omega
  | @centred s colours n brightness place kind inputs =>
    have write := codeSize_paletteWrite (.table s) colours brightness
    simp only [codeSize, Statement.size, Expr.size, centreDistance, pixel, List.length_singleton]
    omega
  | @wrapped s u colours n brightness x ops place kind inputs written =>
    have write := codeSize_paletteWrite (.table s) colours brightness
    have size := written.size_le wf
    simp only [codeSize, Statement.size, Expr.size, List.length_cons]
    omega

/-- The size of code is linear in the number of operations that it performs. -/
lemma PerformsAll.codeSize_le (wf : r.WellFormed) (performs : PerformsAll r stmts ops) :
    codeSize stmts ≤ 129 * ops.length := by
  induction performs with
  | nil => simp
  | cons here _ ih =>
    have first := here.codeSize_le wf
    rw [codeSize_append, List.length_append]
    omega

end LedEffect.Program
