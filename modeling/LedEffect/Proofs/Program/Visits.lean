import LedEffect.Proofs.Program.Blocks

/-!
# What a run evaluates

The expressions that statements evaluate while they run, each with the state in which it is evaluated
(`visitsAll`). Between the rounds of a loop an invariant holds that one round carries on, so it holds
wherever the loop evaluates anything (`run_loop_of_invariant`).
-/

namespace LedEffect.Program

variable {F : Type}

/-! ## Visits -/

/-- An expression and all expressions in it. -/
def Expr.parts : Expr → List Expr
  | .name n => [.name n]
  | .int n => [.int n]
  | .whole n => [.whole n]
  | .real x => [.real x]
  | .paren e => .paren e :: e.parts
  | .cast type e => .cast type e :: e.parts
  | .binary op a b => .binary op a b :: (a.parts ++ b.parts)
  | .call1 f a => .call1 f a :: a.parts
  | .call2 f a b => .call2 f a b :: (a.parts ++ b.parts)
  | .index a i => .index a i :: (a.parts ++ i.parts)
  | .member a m => .member a m :: a.parts
  | .choose condition yes no =>
    .choose condition yes no :: (condition.parts ++ yes.parts ++ no.parts)

attribute [simp] Expr.parts

/-- What an assignment evaluates: its place and its value, or their sum or quotient. -/
def Assignment.exprs (how : Assignment) (place value : Expr) : List Expr :=
  match how with
  | .set => [place, value]
  | .add => [.binary .add place value]
  | .div => [.binary .div place value]

/-- The expressions that a statement itself evaluates, those of its body aside. -/
def Statement.exprs : Statement → List Expr
  | .constant _ e | .declare _ _ (some e) => [e]
  | .assign place how e => how.exprs place e
  | .loop _ _ _ limit _ => [limit]
  | .branch condition _ => [condition]
  | .comment _ | .declare _ _ none | .table _ _ | .block _ => []

/-- A statement and a state in which it evaluates its expressions. -/
structure Visit (F : Type) where
  statement : Statement
  state : State F

/-- The states in which a loop of at most that many rounds asks its test. -/
def roundHeads (test : State F → Option Bool) (round : State F → Option (State F)) :
    Nat → State F → List (State F)
  | 0, st => [st]
  | fuel + 1, st =>
    st :: if test st = some true then (round st).elim [] (roundHeads test round fuel) else []

/-- One round of a counting loop. -/
def loopRound (target : TargetProfile) (d : Device F) (n : Name) (body : List Statement)
    (st : State F) : Option (State F) := do
  let after ← runAll target d body st
  let k ← ((st.leave after).read target d n).bind Value.int?
  store target d (st.leave after) (.int (k + 1)) (.name n)

/-- The most rounds that a counting loop may take. -/
def roundsAtMost (start : Int) : Option (Value F) → Nat
  | some (.int last) => (last - start + 1).toNat
  | _ => 0

mutual

/-- Where a statement evaluates expressions while it runs. -/
def Statement.visits (target : TargetProfile) (d : Device F) :
    Statement → State F → List (Visit F)
  | .constant n e, st => [⟨.constant n e, st.push target n none none⟩]
  | .declare type n (some e), st =>
    [⟨.declare type n (some e), st.push target n (some type) none⟩]
  | .assign place how e, st => [⟨.assign place how e, st⟩]
  | .loop n start bound limit body, st =>
    let first := st.push target n (some .int) (some (.int start))
    let test := loopTest target d n bound limit
    let fuel := roundsAtMost start (limit.eval target d first)
    (roundHeads test (loopRound target d n body) fuel first).flatMap fun head =>
      ⟨.loop n start bound limit body, head⟩ ::
        if test head = some true then visitsAll target d body head else []
  | .branch condition body, st =>
    ⟨.branch condition body, st⟩ ::
      if (condition.eval target d st).bind Value.int? = some 0 then []
      else visitsAll target d body st
  | .block body, st => visitsAll target d body st
  | .comment _, _ | .declare _ _ none, _ | .table _ _, _ => []

/-- Where consecutive statements evaluate expressions while they run. -/
def visitsAll (target : TargetProfile) (d : Device F) : List Statement → State F → List (Visit F)
  | [], _ => []
  | s :: rest, st =>
    s.visits target d st ++ (s.run target d st).elim [] (visitsAll target d rest)

end

/-! ## Consecutive statements -/

variable {target : TargetProfile} {d : Device F} {nodes : Nat} {st : State F} {x : Visit F}
  {s : Statement} {first rest body : List Statement}

lemma visitsAll_cons : visitsAll target d (s :: rest) st =
    s.visits target d st ++ (s.run target d st).elim [] (visitsAll target d rest) := rfl

lemma forall_visits_cons {P : Visit F → Prop} : (∀ x ∈ visitsAll target d (s :: rest) st, P x) ↔
    (∀ x ∈ s.visits target d st, P x) ∧
      ∀ st', s.run target d st = some st' → ∀ x ∈ visitsAll target d rest st', P x := by
  rw [visitsAll_cons, List.forall_mem_append]
  cases s.run target d st <;> simp

lemma forall_visits_one {P : Visit F → Prop} :
    (∀ x ∈ visitsAll target d [s] st, P x) ↔ ∀ x ∈ s.visits target d st, P x :=
  forall_visits_cons.trans (and_iff_left fun _ _ _ mem => absurd mem List.not_mem_nil)

lemma forall_visits_append {P : Visit F → Prop} :
    (∀ x ∈ visitsAll target d (first ++ rest) st, P x) ↔
      (∀ x ∈ visitsAll target d first st, P x) ∧
        ∀ st', runAll target d first st = some st' → ∀ x ∈ visitsAll target d rest st', P x := by
  induction first generalizing st with
  | nil =>
    refine ⟨fun all => ⟨fun _ mem => absurd mem List.not_mem_nil, fun st' ran => ?_⟩,
      fun all => all.2 st rfl⟩
    obtain rfl := Option.some_inj.1 ran
    exact all
  | cons s first ih =>
    rw [List.cons_append, forall_visits_cons, forall_visits_cons, and_assoc, runAll_cons]
    refine and_congr_right fun _ => ?_
    cases s.run target d st with
    | none => simp
    | some st' => simp [ih]

/-- A branch evaluates its condition, and its body at most. -/
lemma forall_visits_branch {P : Visit F → Prop} {condition : Expr}
    (here : P ⟨.branch condition body, st⟩) (inside : ∀ x ∈ visitsAll target d body st, P x) :
    ∀ x ∈ (Statement.branch condition body).visits target d st, P x := by
  rw [Statement.visits, List.forall_mem_cons]
  refine ⟨here, ?_⟩
  split
  · exact nofun
  · exact inside

/-! ## Loops -/

/-- Rounds that count up to a limit come to an end, and an invariant that one round carries on holds
at the end and whenever the test is asked. -/
lemma rounds_of_invariant {test : State F → Option Bool} {round : State F → Option (State F)}
    {I : Int → State F → Prop} {start last : Int} {bound : Bound}
    (asks : ∀ k st, I k st → test st = some (bound.holds k last))
    (goes : ∀ k st, start ≤ k → I k st → bound.holds k last = true →
      ∃ st', round st = some st' ∧ I (k + 1) st')
    {fuel : Nat} {k : Int} (past : start ≤ k) (inv : I k st)
    (enough : (last - k + 1).toNat ≤ fuel) :
    (∃ k' st', I k' st' ∧ rounds test round fuel st = some st') ∧
      ∀ head ∈ roundHeads test round fuel st, ∃ k', start ≤ k' ∧ I k' head := by
  induction fuel generalizing k st with
  | zero =>
    have stop : bound.holds k last = false := by
      cases bound with
      | below =>
        simp only [Bound.holds, decide_eq_false_iff_not]
        omega
      | upTo =>
        simp only [Bound.holds, decide_eq_false_iff_not]
        omega
    refine ⟨⟨k, st, inv, by simp [rounds, asks k st inv, stop]⟩, fun head mem => ?_⟩
    obtain rfl := List.mem_singleton.1 mem
    exact ⟨k, past, inv⟩
  | succ fuel ih =>
    cases holds : bound.holds k last with
    | false =>
      refine ⟨⟨k, st, inv, by simp [rounds, asks k st inv, holds]⟩, fun head mem => ?_⟩
      rw [roundHeads, asks k st inv, holds, if_neg (by simp)] at mem
      obtain rfl := List.mem_singleton.1 mem
      exact ⟨k, past, inv⟩
    | true =>
      obtain ⟨st', round, inv'⟩ := goes k st past inv holds
      obtain ⟨⟨k', final, ended, ran⟩, heads⟩ := ih (by omega) inv' (by omega)
      refine ⟨⟨k', final, ended, ?_⟩, fun head mem => ?_⟩
      · simp only [rounds, asks k st inv, holds, round, Option.bind_eq_bind, Option.bind_some, if_true,
          ran]
      · rw [roundHeads, asks k st inv, holds, if_pos rfl, round, Option.elim, List.mem_cons] at mem
        rcases mem with rfl | mem
        · exact ⟨k, past, inv⟩
        · exact heads head mem

variable {n : Name} {start last : Int} {bound : Bound} {limit : Expr}

lemma run_loop_eq (limited : limit.eval target d
      (st.push target n (some .int) (some (.int start))) = some (.int last)) :
    Statement.run target d (.loop n start bound limit body) st =
      (rounds (loopTest target d n bound limit) (loopRound target d n body)
        (last - start + 1).toNat (st.push target n (some .int) (some (.int start)))).map st.leave := by
  rw [Statement.run, Option.map_eq_bind]
  simp only [limited, Option.bind_eq_bind, Option.bind_some, Value.int?]
  rfl

/-- What carries a counting loop to its end: an invariant `J` of what is below the counter, which a
round carries on, and under which all that the test and the body evaluate has the property `P`. -/
structure LoopInvariant (target : TargetProfile) (d : Device F) (n : Name) (start last : Int)
    (bound : Bound) (limit : Expr) (body : List Statement) (st : State F)
    (J : Int → State F → Prop) (P : Visit F → Prop) : Prop where
  initial : J start st
  flat : ∀ k o, J k o → o.locals.length = st.locals.length
  limits : ∀ k o, J k o →
    limit.eval target d (o.push target n (some .int) (some (.int k))) = some (.int last)
  goes : ∀ k o, start ≤ k → J k o → bound.holds k last = true → ∃ after o',
    runAll target d body (o.push target n (some .int) (some (.int k))) = some after ∧
    (o.push target n (some .int) (some (.int k))).leave after =
      o'.push target n (some .int) (some (.int k)) ∧ J (k + 1) o'
  tested : ∀ k o, start ≤ k → J k o →
    P ⟨.loop n start bound limit body, o.push target n (some .int) (some (.int k))⟩
  inside : ∀ k o, start ≤ k → J k o → bound.holds k last = true →
    ∀ x ∈ visitsAll target d body (o.push target n (some .int) (some (.int k))), P x

variable {J : Int → State F → Prop} {P : Visit F → Prop}

/-- A counting loop with an invariant runs to its end, and all that it evaluates has the property. -/
lemma run_loop_of_invariant (separate : target.Separate nodes) (counter : n.Generated nodes)
    (carried : LoopInvariant target d n start last bound limit body st J P) :
    (∃ k o, J k o ∧ Statement.run target d (.loop n start bound limit body) st = some o) ∧
      ∀ x ∈ Statement.visits target d (.loop n start bound limit body) st, P x := by
  let I (k : Int) (st : State F) : Prop :=
    ∃ o, J k o ∧ st = o.push target n (some .int) (some (.int k))
  have counts : ∀ k o, (State.push target o n (some .int) (some (.int k))).read target d n =
      some (.int k) := by
    intro k o
    rw [read_push separate counter, if_pos rfl]
  have asks : ∀ k st, I k st →
      loopTest target d n bound limit st = some (bound.holds k last) := by
    rintro k _ ⟨o, inv, rfl⟩
    simp [loopTest, counts, carried.limits k o inv, Value.int?]
  have round : ∀ k st, start ≤ k → I k st → bound.holds k last = true →
      ∃ st', loopRound target d n body st = some st' ∧ I (k + 1) st' := by
    rintro k _ past ⟨o, inv, rfl⟩ holds
    obtain ⟨after, o', ran, left, inv'⟩ := carried.goes k o past inv holds
    refine ⟨_, ?_, o', inv', rfl⟩
    simp only [loopRound, ran, left, counts, Option.bind_eq_bind, Option.bind_some, Value.int?]
    rw [store_push_self]
    rfl
  have limited := carried.limits start st carried.initial
  obtain ⟨⟨k', _, ⟨o', inv', rfl⟩, final⟩, heads⟩ :=
    rounds_of_invariant asks round (Int.le_refl _) ⟨st, carried.initial, rfl⟩ (Nat.le_refl _)
  refine ⟨⟨k', o', inv', ?_⟩, ?_⟩
  · rw [run_loop_eq limited, final, Option.map_some,
      leave_push (Nat.le_of_eq (carried.flat _ _ inv').symm), leave_of_length (carried.flat _ _ inv')]
  · rw [Statement.visits]
    simp only [limited, roundsAtMost, List.forall_mem_flatMap, List.forall_mem_cons]
    intro head listed
    obtain ⟨k, past, inv⟩ := heads head listed
    rw [asks k head inv]
    obtain ⟨o, inv, rfl⟩ := inv
    refine ⟨carried.tested k o past inv, ?_⟩
    split
    next holds => exact carried.inside k o past inv (Option.some_inj.1 holds)
    next => exact List.forall_mem_nil _

/-- What a counting loop and the statements after it evaluate. -/
lemma forall_visits_loop (separate : target.Separate nodes) (counter : n.Generated nodes)
    (carried : LoopInvariant target d n start last bound limit body st J P)
    (after : ∀ k o, J k o → ∀ x ∈ visitsAll target d rest o, P x) :
    ∀ x ∈ visitsAll target d (.loop n start bound limit body :: rest) st, P x := by
  obtain ⟨⟨k, o, inv, ran⟩, loop⟩ := run_loop_of_invariant separate counter carried
  refine forall_visits_cons.2 ⟨loop, fun st' ran' => ?_⟩
  obtain rfl := Option.some_inj.1 (ran.symm.trans ran')
  exact after k o inv

/-- The mean of three bins asks its test four times and reads a bin in each of three rounds. -/
example (d : Device F) :
    ((visitsAll default d (spectrumMean (.temporary 0) 2 4) ⟨[], fun _ _ => none⟩).map
      fun x => (x.state.read default d .k).bind Value.int?) =
      [none, some 2, some 2, some 3, some 3, some 4, some 4, some 5, none] := by
  rfl

end LedEffect.Program
