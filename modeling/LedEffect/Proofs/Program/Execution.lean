import LedEffect.Proofs.Program.Names

/-!
# Execution

What a device does with emitted code. Floats are left open: a `Device` reads literals, operations,
comparisons, conversions and library functions as it likes, and its firmware holds what it likes.
Whole numbers are exact. An expression has a value only if C groups its text the way the expression
does. Names are looked up by their texts, the innermost declaration first and the firmware last, so a
local that has the text of a symbol hides it. Code that C would reject or leave undefined, such as
reading a variable before it is set, has no result.
-/

namespace LedEffect.Program

/-! ## Devices -/

/-- How floats are read. -/
structure Arithmetic (F : Type) where
  real : Binary64 → F
  whole : Int → F
  ofInt : Int → F
  toInt : F → Int
  toByte : F → UInt8
  add : F → F → F
  sub : F → F → F
  mul : F → F → F
  div : F → F → F
  lt : F → F → Bool
  gt : F → F → Bool
  fabsf : F → F
  sinf : F → F
  fminf : F → F → F
  fmaxf : F → F → F
  fmodf : F → F → F

/-- What the buffers and scalars of the firmware hold. -/
structure Firmware (F : Type) where
  spectrogram : Int → F
  chromagram : Int → F
  tempi : Int → Member → F
  numLeds : Int
  numTempi : Int
  vuLevel : F
  tempoConfidence : F
  timeSeconds : F

structure Device (F : Type) extends Arithmetic F, Firmware F

/-- What an expression may stand for. The pixels are a place to write to. -/
inductive Value (F : Type)
  | float (x : F)
  | int (n : Int)
  | floats (cells : Int → F)
  | records (cells : Int → Member → F)
  | record (fields : Member → F)
  | colours (rows : List (UInt8 × UInt8 × UInt8))
  | colour (row : UInt8 × UInt8 × UInt8)
  | pixels

variable {F : Type}

namespace Device

def value (d : Device F) : Symbol → Value F
  | .leds => .pixels
  | .numLeds => .int d.numLeds
  | .spectrogram => .floats d.spectrogram
  | .chromagram => .floats d.chromagram
  | .tempi => .records d.tempi
  | .numTempi => .int d.numTempi
  | .vuLevel => .float d.vuLevel
  | .tempoConfidence => .float d.tempoConfidence
  | .timeSeconds => .float d.timeSeconds

/-- A number as one of another type. -/
def convert (d : Device F) : Scalar → Value F → Option (Value F)
  | .float, .float x => some (.float x)
  | .float, .int n => some (.float (d.ofInt n))
  | .int, .float x => some (.int (d.toInt x))
  | .int, .int n => some (.int n)
  | .byte, .float x => some (.int (d.toByte x).toNat)
  | .byte, .int n => some (.int (n % 256))
  | _, _ => none

def onFloats (d : Device F) (op : Operator) (x y : F) : Value F :=
  match op with
  | .add => .float (d.add x y)
  | .sub => .float (d.sub x y)
  | .mul => .float (d.mul x y)
  | .div => .float (d.div x y)
  | .lt => .int (d.lt x y).toNat
  | .gt => .int (d.gt x y).toNat

def onInts (op : Operator) (a b : Int) : Option (Value F) :=
  match op with
  | .add => some (.int (a + b))
  | .sub => some (.int (a - b))
  | .mul => some (.int (a * b))
  | .div => if b = 0 then none else some (.int (a.tdiv b))
  | .lt => some (.int (decide (a < b)).toNat)
  | .gt => some (.int (decide (a > b)).toNat)

/-- An operation: exact on two whole numbers, else on floats. -/
def operate (d : Device F) (op : Operator) : Value F → Value F → Option (Value F)
  | .int a, .int b => onInts op a b
  | .float x, .float y => some (d.onFloats op x y)
  | .float x, .int b => some (d.onFloats op x (d.ofInt b))
  | .int a, .float y => some (d.onFloats op (d.ofInt a) y)
  | _, _ => none

def apply1 (d : Device F) : Function → F → Option F
  | .fabsf, x => some (d.fabsf x)
  | .sinf, x => some (d.sinf x)
  | _, _ => none

def apply2 (d : Device F) : Function → F → F → Option F
  | .fminf, x, y => some (d.fminf x y)
  | .fmaxf, x, y => some (d.fmaxf x y)
  | .fmodf, x, y => some (d.fmodf x y)
  | _, _, _ => none

end Device

namespace Value

def cell : Value F → Value F → Option (Value F)
  | .floats cells, .int n => some (.float (cells n))
  | .records cells, .int n => some (.record (cells n))
  | .colours rows, .int n => if n < 0 then none else rows[n.toNat]?.map .colour
  | .colour (red, green, blue), .int n =>
    if n = 0 then some (.int red.toNat) else if n = 1 then some (.int green.toNat)
    else if n = 2 then some (.int blue.toNat) else none
  | _, _ => none

def field (m : Member) : Value F → Option (Value F)
  | .record fields => some (.float (fields m))
  | _ => none

def float? : Value F → Option F
  | .float x => some x
  | _ => none

def int? : Value F → Option Int
  | .int n => some n
  | _ => none

end Value

/-! ## States -/

/-- A local: a variable of a type, which may not be set yet, or a constant table. -/
structure Local (F : Type) where
  name : String
  type : Option Scalar
  value : Option (Value F)

/-- The locals in scope, innermost first, and the pixels written so far. -/
structure State (F : Type) where
  locals : List (Local F)
  pixels : Int → Member → Option Int

namespace State

/-- The state with one more local. -/
def push (target : TargetProfile) (st : State F) (n : Name) (type : Option Scalar)
    (value : Option (Value F)) : State F :=
  { st with locals := ⟨n.text target, type, value⟩ :: st.locals }

/-- The value under a name. -/
def read (target : TargetProfile) (d : Device F) (st : State F) (n : Name) : Option (Value F) :=
  match st.locals.find? fun l => l.name == n.text target with
  | some l => l.value
  | none =>
    match n with
    | .symbol s => some (d.value s)
    | _ => none

/-- The state at the end of a block: the locals of its outside stay. -/
def leave (outside inside : State F) : State F :=
  { inside with locals := inside.locals.drop (inside.locals.length - outside.locals.length) }

end State

/-- Sets the innermost variable of a name to a value of its type. -/
def setLocal (d : Device F) (text : String) (v : Value F) : List (Local F) → Option (List (Local F))
  | [] => none
  | l :: rest =>
    if l.name = text then do
      let type ← l.type
      let converted ← d.convert type v
      some ({ l with value := some converted } :: rest)
    else (setLocal d text v rest).map (l :: ·)

/-! ## Expressions -/

@[simp] def Operator.rank : Operator → Nat
  | lt | gt => 1
  | add | sub => 2
  | mul | div => 3

/-- How tightly C holds an expression together that stands without parentheses, from a choice over
the operators and a cast to names and calls. A number may begin with a sign. -/
def Expr.rank : Expr → Nat
  | choose _ _ _ => 0
  | binary op _ _ => op.rank
  | int _ | whole _ | real _ | cast _ _ => 4
  | name _ | paren _ | call1 _ _ | call2 _ _ _ | index _ _ | member _ _ => 5

section Rank

variable {n : Name} {k : Int} {x : Binary64} {type : Scalar} {op : Operator} {f : Function}
  {m : Member} {e a b : Expr}

@[simp] lemma Expr.rank_name : (name n).rank = 5 := rfl
@[simp] lemma Expr.rank_int : (int k).rank = 4 := rfl
@[simp] lemma Expr.rank_whole : (whole k).rank = 4 := rfl
@[simp] lemma Expr.rank_real : (real x).rank = 4 := rfl
@[simp] lemma Expr.rank_paren : (paren e).rank = 5 := rfl
@[simp] lemma Expr.rank_cast : (cast type e).rank = 4 := rfl
@[simp] lemma Expr.rank_binary : (binary op a b).rank = op.rank := rfl
@[simp] lemma Expr.rank_call1 : (call1 f a).rank = 5 := rfl
@[simp] lemma Expr.rank_call2 : (call2 f a b).rank = 5 := rfl
@[simp] lemma Expr.rank_index : (index a b).rank = 5 := rfl
@[simp] lemma Expr.rank_member : (member a m).rank = 5 := rfl

end Rank

/-- The value of an expression, if its text groups the way the expression does. -/
def Expr.eval (target : TargetProfile) (d : Device F) (st : State F) : Expr → Option (Value F)
  | .name n => st.read target d n
  | .int n => some (.int n)
  | .whole n => some (.float (d.whole n))
  | .real x => some (.float (d.real x))
  | .paren e => e.eval target d st
  | .cast type e =>
    if 4 ≤ e.rank then do d.convert type (← e.eval target d st)
    else none
  | .binary op a b =>
    if op.rank ≤ a.rank ∧ op.rank < b.rank then do
      d.operate op (← a.eval target d st) (← b.eval target d st)
    else none
  | .call1 f a => do
    let x ← (← d.convert .float (← a.eval target d st)).float?
    (d.apply1 f x).map .float
  | .call2 f a b => do
    let x ← (← d.convert .float (← a.eval target d st)).float?
    let y ← (← d.convert .float (← b.eval target d st)).float?
    (d.apply2 f x y).map .float
  | .index a i =>
    if 5 ≤ a.rank then do (← a.eval target d st).cell (← i.eval target d st)
    else none
  | .member a m =>
    if 5 ≤ a.rank then do (← a.eval target d st).field m
    else none
  | .choose condition yes no =>
    if 1 ≤ condition.rank then do
      if (← (← condition.eval target d st).int?) ≠ 0 then yes.eval target d st
      else no.eval target d st
    else none

attribute [simp] Expr.eval

/-! ## Statements -/

/-- The value that an assignment stores. -/
def Assignment.result (d : Device F) (how : Assignment) (old : Option (Value F)) (v : Value F) :
    Option (Value F) :=
  match how with
  | .set => some v
  | .add => do d.operate .add (← old) v
  | .div => do d.operate .div (← old) v

/-- Stores a value in a variable or a channel of a pixel. -/
def store (target : TargetProfile) (d : Device F) (st : State F) (v : Value F) :
    Expr → Option (State F)
  | .name n => do
    let locals ← setLocal d (n.text target) v st.locals
    some { st with locals := locals }
  | .member (.index a i) m => do
    match ← a.eval target d st, ← i.eval target d st, ← d.convert .byte v with
    | .pixels, .int n, .int channel =>
      some { st with pixels := fun k l => if k = n ∧ l = m then some channel else st.pixels k l }
    | _, _, _ => none
  | _ => none

/-- Whether a loop goes on. -/
def Bound.holds (bound : Bound) (n limit : Int) : Bool :=
  match bound with
  | .below => n < limit
  | .upTo => n ≤ limit

/-- A loop of at most that many rounds: before each one the test is asked anew. -/
def rounds (test : State F → Option Bool) (round : State F → Option (State F)) :
    Nat → State F → Option (State F)
  | 0, st => do if ← test st then none else some st
  | fuel + 1, st => do if ← test st then rounds test round fuel (← round st) else some st

/-- The test of a counting loop. -/
def loopTest (target : TargetProfile) (d : Device F) (n : Name) (bound : Bound) (limit : Expr)
    (st : State F) : Option Bool := do
  let k ← (← st.read target d n).int?
  let l ← (← limit.eval target d st).int?
  some (bound.holds k l)

mutual

/-- What a statement does. -/
def Statement.run (target : TargetProfile) (d : Device F) : Statement → State F → Option (State F)
  | .comment _, st => some st
  | .constant n value, st => do
    let v ← value.eval target d (st.push target n none none)
    some (st.push target n none (some (← d.convert .float v)))
  | .declare type n none, st => some (st.push target n (some type) none)
  | .declare type n (some value), st => do
    let v ← value.eval target d (st.push target n (some type) none)
    some (st.push target n (some type) (some (← d.convert type v)))
  | .table n rows, st => some (st.push target n none (some (.colours rows)))
  | .assign place how value, st => do
    let v ← value.eval target d st
    store target d st (← how.result d (place.eval target d st) v) place
  | .loop n start bound limit body, st => do
    let first := st.push target n (some .int) (some (.int start))
    let last ← (← limit.eval target d first).int?
    let round (st : State F) : Option (State F) := do
      let after ← runAll target d body st
      let k ← ((st.leave after).read target d n).bind Value.int?
      store target d (st.leave after) (.int (k + 1)) (.name n)
    let final ← rounds (loopTest target d n bound limit) round (last - start + 1).toNat first
    some (st.leave final)
  | .branch condition body, st => do
    if (← (← condition.eval target d st).int?) ≠ 0 then
      (runAll target d body st).map st.leave
    else some st
  | .block body, st => (runAll target d body st).map st.leave

/-- What consecutive statements do. -/
def runAll (target : TargetProfile) (d : Device F) : List Statement → State F → Option (State F)
  | [], st => some st
  | s :: rest, st => do runAll target d rest (← Statement.run target d s st)

end

attribute [simp] Statement.run

/-! ## Stepping -/

variable {target : TargetProfile} {d : Device F} {nodes : Nat} {st : State F} {n m : Name}

lemma runAll_cons {s : Statement} {rest : List Statement} :
    runAll target d (s :: rest) st = (s.run target d st).bind (runAll target d rest) := rfl

lemma runAll_comment {text : String} {rest : List Statement} :
    runAll target d (.comment text :: rest) st = runAll target d rest st := rfl

lemma runAll_append {first second : List Statement} :
    runAll target d (first ++ second) st =
      (runAll target d first st).bind (runAll target d second) := by
  induction first generalizing st with
  | nil => rfl
  | cons s first ih =>
    rw [List.cons_append, runAll_cons, runAll_cons]
    cases s.run target d st with
    | none => rfl
    | some st' => exact ih

section Floats

variable {a b : Expr} {x y z : F}

lemma eval_binary (op : Operator) (left : op.rank ≤ a.rank) (right : op.rank < b.rank)
    (first : a.eval target d st = some (.float x)) (second : b.eval target d st = some (.float y)) :
    (Expr.binary op a b).eval target d st = some (d.onFloats op x y) := by
  rw [Expr.eval, if_pos ⟨left, right⟩, first, second]
  rfl

lemma eval_call1 (f : Function) (first : a.eval target d st = some (.float x))
    (applied : d.apply1 f x = some z) :
    (Expr.call1 f a).eval target d st = some (.float z) := by
  rw [Expr.eval, first]
  exact congrArg (Option.map Value.float) applied

lemma eval_call2 (f : Function) (first : a.eval target d st = some (.float x))
    (second : b.eval target d st = some (.float y)) (applied : d.apply2 f x y = some z) :
    (Expr.call2 f a b).eval target d st = some (.float z) := by
  rw [Expr.eval, first, second]
  exact congrArg (Option.map Value.float) applied

end Floats

/-- A local that is pushed hides no other name. -/
lemma read_push (separate : target.Separate nodes) (generated : n.Generated nodes)
    {type : Option Scalar} {value : Option (Value F)} :
    (st.push target n type value).read target d m =
      if m = n then value else st.read target d m := by
  unfold State.read State.push
  rw [List.find?_cons]
  by_cases same : m = n
  · subst same
    simp
  · have differ : (n.text target == m.text target) = false := by
      rw [beq_eq_false_iff_ne]
      exact fun eq => same (separate.eq_of_text generated eq.symm)
    simp only [differ, if_neg same]

lemma setLocal_cons {text : String} {v : Value F} {l : Local F} {rest : List (Local F)} :
    setLocal d text v (l :: rest) =
      if l.name = text then do
        let type ← l.type
        let converted ← d.convert type v
        some ({ l with value := some converted } :: rest)
      else (setLocal d text v rest).map (l :: ·) := rfl

lemma store_name {v : Value F} : store target d st v (.name n) =
    (setLocal d (n.text target) v st.locals).bind fun locals => some { st with locals := locals } :=
  rfl

lemma store_push_self {type : Scalar} {old : Option (Value F)} {v : Value F} :
    store target d (st.push target n (some type) old) v (.name n) =
      (d.convert type v).map fun w => st.push target n (some type) (some w) := by
  simp only [store_name, State.push, setLocal_cons, if_true, Option.bind_eq_bind, Option.bind_some]
  cases d.convert type v <;> rfl

/-- A variable below the top takes its value past the top. -/
lemma store_push (separate : target.Separate nodes) (generated : n.Generated nodes) (differ : m ≠ n)
    {type : Option Scalar} {value : Option (Value F)} {v : Value F} :
    store target d (st.push target n type value) v (.name m) =
      (store target d st v (.name m)).map fun st => st.push target n type value := by
  have texts : n.text target ≠ m.text target := fun eq =>
    differ (separate.eq_of_text generated eq.symm)
  simp only [store_name, State.push, setLocal_cons, if_neg texts]
  cases setLocal d (m.text target) v st.locals <;> rfl

/-- Leaving a block drops what was pushed in it. -/
lemma leave_push {outside : State F} (inner : outside.locals.length ≤ st.locals.length)
    {type : Option Scalar} {value : Option (Value F)} :
    outside.leave (st.push target n type value) = outside.leave st := by
  have more : st.locals.length + 1 - outside.locals.length =
      (st.locals.length - outside.locals.length) + 1 := by omega
  simp only [State.leave, State.push, List.length_cons, more, List.drop_succ_cons]

lemma leave_of_length {outside : State F} (same : st.locals.length = outside.locals.length) :
    outside.leave st = st := by
  simp [State.leave, same]

lemma leave_of_suffix {outside : State F} (above : outside.locals <:+ st.locals) :
    outside.leave st = { st with locals := outside.locals } := by
  obtain ⟨more, eq⟩ := above
  simp [State.leave, ← eq]

/-- Names are looked up among the locals. -/
lemma read_congr {st' : State F} (same : st.locals = st'.locals) :
    st.read target d m = st'.read target d m := by
  unfold State.read
  rw [same]

/-- The whole numbers from `lo` on, that many of them. -/
def upward (lo : Int) (count : Nat) : List Int := (List.range count).map fun (j : Nat) => lo + j

lemma upward_succ (lo : Int) (count : Nat) :
    upward lo (count + 1) = lo :: upward (lo + 1) count := by
  rw [upward, List.range_succ_eq_map, List.map_cons, List.map_map, upward]
  refine congrArg₂ List.cons (by simp) (List.map_congr_left fun j _ => ?_)
  simp only [Function.comp_apply]
  omega

/-- A counting loop whose rounds keep a shape folds over the numbers that it counts. -/
lemma rounds_upward {α : Type} {test : State F → Option Bool} {round : State F → Option (State F)}
    {shape : α → Int → State F} {f : α → Int → α} {more : Int → Bool}
    (asks : ∀ acc k, test (shape acc k) = some (more k))
    (goes : ∀ acc k, more k = true → round (shape acc k) = some (shape (f acc k) (k + 1)))
    {count fuel : Nat} (enough : count ≤ fuel) {lo : Int} {acc : α}
    (within : ∀ j < count, more (lo + j) = true) (stop : more (lo + count) = false) :
    rounds test round fuel (shape acc lo) =
      some (shape ((upward lo count).foldl f acc) (lo + count)) := by
  induction count generalizing fuel lo acc with
  | zero =>
    rw [Int.natCast_zero, Int.add_zero] at stop
    have asked := asks acc lo
    rw [stop] at asked
    cases fuel with
    | zero => simp [rounds, asked, upward]
    | succ fuel => simp [rounds, asked, upward]
  | succ count ih =>
    cases fuel with
    | zero => omega
    | succ fuel =>
      have first := within 0 (Nat.succ_pos _)
      rw [Int.natCast_zero, Int.add_zero] at first
      have place : lo + 1 + (count : Int) = lo + ((count + 1 : Nat) : Int) := by
        push_cast
        omega
      have rest := @ih fuel (by omega) (lo + 1) (f acc lo)
        (fun j small => by
          have := within (j + 1) (by omega)
          rwa [show lo + ((j + 1 : Nat) : Int) = lo + 1 + j by push_cast; omega] at this)
        (place ▸ stop)
      rw [rounds, asks, first, upward_succ, List.foldl_cons]
      simp only [Option.bind_eq_bind, Option.bind_some, if_true, goes acc lo first]
      rw [rest, place]

end LedEffect.Program
