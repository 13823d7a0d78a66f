import LedEffect.Proofs.Program.Coded
import LedEffect.Proofs.Program.Names

/-!
# Scopes of emitted code

Which names statements declare, and which names they mention in which scope. A declaration is in
scope from the next statement on to the end of the list of statements that it stands in; the counter
of a loop is in scope in the loop.
-/

namespace LedEffect.Program

/-- The names in an expression. -/
def Expr.names : Expr → List Name
  | .name n => [n]
  | .int _ | .whole _ | .real _ => []
  | .paren e | .cast _ e | .call1 _ e | .member e _ => e.names
  | .binary _ a b | .call2 _ a b | .index a b => a.names ++ b.names
  | .choose condition yes no => condition.names ++ (yes.names ++ no.names)

/-- The names that a statement declares for the statements after it. -/
def Statement.declared : Statement → List Name
  | .constant n _ | .declare _ n _ | .table n _ => [n]
  | _ => []

/-- The names in scope after some statements, of which `Γ` are in scope before. -/
def scopeAfter (Γ : List Name) (stmts : List Statement) : List Name :=
  stmts.foldl (fun Γ s => s.declared ++ Γ) Γ

/-- A name that is mentioned, with the names in scope there. -/
structure Occurrence where
  scope : List Name
  name : Name
deriving DecidableEq

mutual

/-- The names that a statement declares, here or further inside. -/
def Statement.declarations : Statement → List Name
  | .constant n _ | .declare _ n _ | .table n _ => [n]
  | .loop n _ _ _ body => n :: declarationsIn body
  | .branch _ body | .block body => declarationsIn body
  | .comment _ | .assign _ _ _ => []

/-- The names that consecutive statements declare, here or further inside. -/
def declarationsIn : List Statement → List Name
  | [] => []
  | s :: rest => s.declarations ++ declarationsIn rest

end

mutual

/-- What a statement mentions beside its own declarations, where `Γ` are in scope before it. -/
def Statement.occurrences (Γ : List Name) : Statement → List Occurrence
  | .constant _ e | .declare _ _ (some e) => e.names.map (⟨Γ, ·⟩)
  | .assign place _ e => (place.names ++ e.names).map (⟨Γ, ·⟩)
  | .loop n _ _ limit body =>
    (n :: limit.names).map (⟨n :: Γ, ·⟩) ++ occurrencesIn (n :: Γ) body
  | .branch condition body => condition.names.map (⟨Γ, ·⟩) ++ occurrencesIn Γ body
  | .block body => occurrencesIn Γ body
  | .comment _ | .declare _ _ none | .table _ _ => []

/-- What consecutive statements mention. -/
def occurrencesIn (Γ : List Name) : List Statement → List Occurrence
  | [] => []
  | s :: rest => s.occurrences Γ ++ occurrencesIn (s.declared ++ Γ) rest

end

attribute [simp] Expr.names Statement.declared Statement.declarations declarationsIn
  Statement.occurrences occurrencesIn

variable {Γ : List Name} {n : Name} {first rest stmts : List Statement}

/-! ## Consecutive statements -/

lemma mem_scopeAfter : n ∈ scopeAfter Γ stmts ↔ n ∈ Γ ∨ ∃ s ∈ stmts, n ∈ s.declared := by
  induction stmts generalizing Γ with
  | nil => simp [scopeAfter]
  | cons s stmts ih =>
    rw [scopeAfter, List.foldl_cons, ← scopeAfter, ih, List.mem_append, List.exists_mem_cons_iff,
      ← or_assoc, or_comm (a := n ∈ s.declared)]

lemma scopeAfter_append : scopeAfter Γ (first ++ rest) = scopeAfter (scopeAfter Γ first) rest :=
  List.foldl_append

lemma declarationsIn_append :
    declarationsIn (first ++ rest) = declarationsIn first ++ declarationsIn rest := by
  induction first with
  | nil => rfl
  | cons s first ih => rw [List.cons_append, declarationsIn, declarationsIn, ih, List.append_assoc]

lemma declarationsIn_flatMap {α : Type} {f : α → List Statement} {xs : List α} :
    declarationsIn (xs.flatMap f) = xs.flatMap fun x => declarationsIn (f x) := by
  induction xs with
  | nil => rfl
  | cons x xs ih => rw [List.flatMap_cons, declarationsIn_append, ih, List.flatMap_cons]

lemma occurrencesIn_append :
    occurrencesIn Γ (first ++ rest) =
      occurrencesIn Γ first ++ occurrencesIn (scopeAfter Γ first) rest := by
  induction first generalizing Γ with
  | nil => rfl
  | cons s first ih =>
    rw [List.cons_append, occurrencesIn, occurrencesIn, ih, List.append_assoc]
    rfl

mutual

/-- Which names are mentioned does not depend on the scope. -/
lemma Statement.names_occurrences (s : Statement) (Γ Γ' : List Name) :
    (s.occurrences Γ).map (·.name) = (s.occurrences Γ').map (·.name) := by
  match s with
  | .comment _ => rfl
  | .constant _ _ => simp
  | .declare _ _ none => rfl
  | .declare _ _ (some _) => simp
  | .table _ _ => rfl
  | .assign _ _ _ => simp [Function.comp_def]
  | .loop n _ _ _ body => simp [names_occurrencesIn body (n :: Γ) (n :: Γ')]
  | .branch _ body => simp [names_occurrencesIn body Γ Γ']
  | .block body => simp [names_occurrencesIn body Γ Γ']

lemma names_occurrencesIn (stmts : List Statement) (Γ Γ' : List Name) :
    (occurrencesIn Γ stmts).map (·.name) = (occurrencesIn Γ' stmts).map (·.name) := by
  match stmts with
  | [] => rfl
  | s :: rest =>
    rw [occurrencesIn, occurrencesIn, List.map_append, List.map_append, s.names_occurrences Γ Γ',
      names_occurrencesIn rest (s.declared ++ Γ) (s.declared ++ Γ')]

end

/-- The names that consecutive statements mention. -/
def mentions (stmts : List Statement) : List Name := (occurrencesIn [] stmts).map (·.name)

lemma mem_mentions : n ∈ mentions stmts ↔ ∃ o ∈ occurrencesIn Γ stmts, o.name = n := by
  rw [mentions, names_occurrencesIn stmts [] Γ, List.mem_map]

lemma mentions_append : mentions (first ++ rest) = mentions first ++ mentions rest := by
  rw [mentions, occurrencesIn_append, List.map_append, names_occurrencesIn rest _ []]
  rfl

lemma mentions_flatMap {α : Type} {f : α → List Statement} {xs : List α} :
    mentions (xs.flatMap f) = xs.flatMap fun x => mentions (f x) := by
  induction xs with
  | nil => rfl
  | cons x xs ih => rw [List.flatMap_cons, mentions_append, ih, List.flatMap_cons]

/-! ## Texts -/

variable {target : TargetProfile} {nodes : Nat}

/-- A generated name is found under its text as often as by itself. -/
lemma count_text (separate : target.Separate nodes) (generated : n.Generated nodes)
    {names : List Name} : (names.map (Name.text target)).count (n.text target) = names.count n := by
  rw [List.count, List.countP_map, List.count]
  refine List.countP_congr fun m _ => ?_
  simp only [Function.comp_apply, beq_iff_eq]
  exact ⟨separate.eq_of_text generated, fun eq => eq ▸ rfl⟩

lemma mem_text (separate : target.Separate nodes) (generated : n.Generated nodes)
    {names : List Name} : n.text target ∈ names.map (Name.text target) ↔ n ∈ names := by
  rw [List.mem_map]
  constructor
  · rintro ⟨m, mem, eq⟩
    exact separate.eq_of_text generated eq ▸ mem
  · exact fun mem => ⟨n, mem, rfl⟩

end LedEffect.Program
