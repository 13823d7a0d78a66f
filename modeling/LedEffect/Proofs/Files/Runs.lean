import LedEffect.Command.Outcome
import LedEffect.Files.Disk
import LedEffect.Proofs.Traversal

/-!
# Runs on a disk

A computation that may fail succeeds on a disk with an answer and leaves a disk (`Succeeds`). A
sequence succeeds when its steps do, each on the disk that the one before it left.
-/

namespace LedEffect

variable {ε δ α β : Type} {d d' : Disk}

/-- A computation succeeds on a disk with an answer and leaves a disk. -/
def Succeeds (run : ExceptT ε (StateM Disk) α) (d : Disk) (answer : α) (left : Disk) : Prop :=
  Id.run (run.run.run d) = (.ok answer, left)

namespace Succeeds

/-- A run that is seen to succeed with a property does so. -/
lemma exists_of_any {run : ExceptT ε (StateM Disk) α} {p : α → Bool}
    (seen : (Id.run (run.run.run d)).1.toOption.any p = true) :
    ∃ a d', Succeeds run d a d' ∧ p a = true := by
  obtain ⟨a, eq, holds⟩ := LedEffect.exists_of_any seen
  exact ⟨a, _, Prod.ext eq rfl, holds⟩

lemma bind_iff {x : ExceptT ε (StateM Disk) α} {f : α → ExceptT ε (StateM Disk) β} {b : β} :
    Succeeds (x >>= f) d b d' ↔ ∃ a d₁, Succeeds x d a d₁ ∧ Succeeds (f a) d₁ b d' := by
  have steps : Id.run ((x >>= f).run.run d) = match Id.run (x.run.run d) with
      | (.ok a, d₁) => Id.run ((f a).run.run d₁)
      | (.error e, d₁) => (.error e, d₁) := by
    rw [ExceptT.run_bind, StateT.run_bind]
    rcases x.run.run d with ⟨_ | _, _⟩ <;> rfl
  unfold Succeeds
  rw [steps]
  rcases Id.run (x.run.run d) with ⟨e | a, d₁⟩ <;> simp

/-- An answer that is there already leaves the disk as it is. -/
lemma mk_pure_iff {x : Except ε α} {a : α} :
    Succeeds (ExceptT.mk (pure x : StateM Disk (Except ε α))) d a d' ↔ x = .ok a ∧ d = d' := by
  show (x, d) = (.ok a, d') ↔ _
  rw [Prod.mk.injEq]

lemma pure_iff {a b : α} :
    Succeeds (pure a : ExceptT ε (StateM Disk) α) d b d' ↔ a = b ∧ d = d' := by
  show (Except.ok a, d) = (.ok b, d') ↔ _
  rw [Prod.mk.injEq, Except.ok.injEq]

lemma not_throw {e : ε} {a : α} : ¬ Succeeds (throw e : ExceptT ε (StateM Disk) α) d a d' := by
  intro failed
  cases (Prod.mk.inj failed).1

lemma lift_iff {x : StateM Disk α} {a : α} :
    Succeeds (liftM x : ExceptT ε (StateM Disk) α) d a d' ↔ Id.run (x.run d) = (a, d') := by
  show (Except.ok (Id.run (x.run d)).1, (Id.run (x.run d)).2) = (.ok a, d') ↔ _
  rw [Prod.mk.injEq, Except.ok.injEq, Prod.ext_iff]

/-- Telling an error in another way changes nothing about success. -/
lemma adapt_iff {x : ExceptT ε (StateM Disk) α} {f : ε → δ} {a : α} :
    Succeeds (x.adapt f) d a d' ↔ Succeeds x d a d' := by
  have steps : Id.run ((x.adapt f).run.run d) =
      ((Id.run (x.run.run d)).1.mapError f, (Id.run (x.run.run d)).2) := rfl
  unfold Succeeds
  rw [steps]
  rcases Id.run (x.run.run d) with ⟨_ | _, _⟩ <;> simp [Except.mapError]

/-- Reading leaves the disk as it is. -/
lemma readText_iff {path : String} {answer : Except FileError String} :
    Succeeds (liftM (FileAccess.readText (m := StateM Disk) path) : ExceptT ε (StateM Disk) _) d
      answer d' ↔ d.readText path = answer ∧ d = d' := by
  rw [lift_iff]
  show (d.readText path, d) = (answer, d') ↔ _
  rw [Prod.mk.injEq]

lemma writeText_iff {path text : String} :
    Succeeds (liftM (FileAccess.writeText (m := StateM Disk) path text) : ExceptT ε (StateM Disk) _) d
      (.ok ()) d' ↔ d.writeText path text = .ok d' := by
  rw [lift_iff]
  cases written : d.writeText path text <;> simp [FileAccess.writeText, written]

lemma ofExcept_iff {failure : ε → Failure} {x : Except ε α} {a : α} :
    Succeeds (Attempt.ofExcept (m := StateM Disk) failure x) d a d' ↔ x = .ok a ∧ d = d' := by
  rw [Attempt.ofExcept, mk_pure_iff, mapError_eq_ok]

end Succeeds

end LedEffect
