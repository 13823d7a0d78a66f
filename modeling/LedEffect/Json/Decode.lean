import LedEffect.Json.Reader

/-!
# What a JSON document denotes

Texts, numbers and records taken out of a document. A text must pair its surrogates. A number is an
exact integer when it is written as one and fits 64 bits; otherwise it is the word made of its
leading digits, scaled by one power of ten, with a rounding at each of the two steps. A record may
be written as an object or as the array of its fields in order.
-/

namespace LedEffect.Json

-- Powers are those of the core library, whatever else is in scope.
attribute [local instance (2000)] instPowNat

/-! ## Texts -/

def isHighSurrogate (code : Nat) : Bool := 0xD800 ≤ code && code ≤ 0xDBFF

def isLowSurrogate (code : Nat) : Bool := 0xDC00 ≤ code && code ≤ 0xDFFF

/-- The characters of a string literal; `done` holds those already decoded, the last one first.
A surrogate counts only in a pair. -/
def decodeItems? : List Char → List StringItem → Option (List Char)
  | done, [] => some done.reverse
  | done, .char c :: rest => decodeItems? (c :: done) rest
  | done, .unit high :: .unit low :: rest =>
    if isHighSurrogate high then
      if isLowSurrogate low then
        decodeItems? (Char.ofNat (0x10000 + (high - 0xD800) * 0x400 + (low - 0xDC00)) :: done) rest
      else none
    else if isLowSurrogate high then none
    else decodeItems? (Char.ofNat high :: done) (.unit low :: rest)
  | done, .unit code :: rest =>
    if isHighSurrogate code || isLowSurrogate code then none
    else decodeItems? (Char.ofNat code :: done) rest

/-- The text of a string literal. -/
def decodeText? (items : List StringItem) : Option String :=
  (decodeItems? [] items).map String.ofList

/-! ## Numbers -/

/-- The greatest 64-bit word. -/
def wordLimit : Nat := 2 ^ (64 : Nat) - 1

/-- The leading digits appended to a word as long as it fits, and the digits left over. -/
def takeWord : Nat → List Char → Nat × List Char
  | word, [] => (word, [])
  | word, c :: cs =>
    let next := word * 10 + (c.toNat - 48)
    if next ≤ wordLimit then takeWord next cs else (word, c :: cs)

/-- A double scaled by a power of ten: one product or quotient with a power up to `10 ^ 308`, after
quotients by `10 ^ 308` for smaller powers. There is no answer when the product overflows. -/
def scale? (x : Binary64) (exponent : Int) : Option Binary64 :=
  if exponent.natAbs ≤ 308 then
    if 0 ≤ exponent then
      let y := x * Binary64.ofNat (10 ^ exponent.natAbs)
      if y.isInfinite then none else some y
    else some (x / Binary64.ofNat (10 ^ exponent.natAbs))
  else if x.eq .zero then some x
  else if 0 ≤ exponent then none
  else scale? (x / Binary64.ofNat (10 ^ (308 : Nat))) (exponent + 308)
termination_by exponent.natAbs
decreasing_by omega

/-- The greatest exponent that is counted; one beyond it makes the number zero or too large. -/
def exponentLimit : Int := 2 ^ (31 : Nat) - 1

/-- The double written by a literal that is no 64-bit integer. -/
def NumberLiteral.toDouble? (n : NumberLiteral) : Option Binary64 := do
  let (word, left) := takeWord 0 n.whole
  let (word, fractionLeft) := takeWord word n.fraction
  let start : Int := (left.length : Int) - (n.fraction.length - fractionLeft.length : Nat)
  let signed (x : Binary64) : Binary64 := if n.negative then -x else x
  match n.exponent with
  | none => (scale? (Binary64.ofNat word) start).map signed
  | some (negative, digits) =>
    let e : Int := numberOf digits
    if exponentLimit < e then
      if word ≠ 0 ∧ !negative then none else some (signed .zero)
    else
      let final := if negative then start - e else start + e
      let final := max (-(2 ^ (31 : Nat))) (min exponentLimit final)
      (scale? (Binary64.ofNat word) final).map signed

/-- A number that was read: an exact 64-bit integer or a double. -/
inductive Number
  | integer (n : Int)
  | double (x : Binary64)

/-- What a number literal denotes. Zero with a sign is the negative zero. -/
def NumberLiteral.value? (n : NumberLiteral) : Option Number :=
  let (word, left) := takeWord 0 n.whole
  if left.isEmpty ∧ n.fraction.isEmpty ∧ n.exponent.isNone then
    if !n.negative then some (.integer word)
    else if word = 0 ∨ 2 ^ (63 : Nat) < word then some (.double (-Binary64.ofNat word))
    else some (.integer (-(word : Int)))
  else n.toDouble?.map .double

/-! ## Parts of a document -/

namespace Document

def text? : Document → Option String
  | string items => decodeText? items
  | _ => none

def bool? : Document → Option Bool
  | bool b => some b
  | _ => none

/-- A number as a double; integers are rounded. -/
def double? : Document → Option Binary64
  | number n =>
    match n.value? with
    | some (.integer i) => some (.ofInt i)
    | some (.double x) => some x
    | none => none
  | _ => none

/-- A natural number up to a limit, written as an integer. -/
def natural? (limit : Nat) : Document → Option Nat
  | number n =>
    match n.value? with
    | some (.integer i) => if 0 ≤ i ∧ i ≤ limit then some i.toNat else none
    | _ => none
  | _ => none

/-- The elements of an array, each taken by `take`. -/
def list? {α : Type} (take : Document → Option α) : Document → Option (List α)
  | array items => items.mapM take
  | _ => none

/-- The members of an object, each value taken by `take`, in written order. -/
def entries? {α : Type} (take : Document → Option α) : Document → Option (List (String × α))
  | object members => members.mapM fun (key, value) => do
      let key ← decodeText? key
      let value ← take value
      some (key, value)
  | _ => none

/-- The value stored under a field of a record. -/
def field? (fields : List (String × Document)) (name : String) : Option Document :=
  (fields.find? fun field => field.1 == name).map (·.2)

/-- The fields of a record that are present. An object may hold other members, which are ignored,
but none of the names twice; an array holds the leading fields in order and nothing else. -/
def record? (names : List String) : Document → Option (List (String × Document))
  | object members => do
    let members ← members.mapM fun (key, value) => (decodeText? key).map fun key => (key, value)
    let known := members.filter fun (key, _) => names.contains key
    if (known.map (·.1)).Nodup then some known else none
  | array items => if items.length ≤ names.length then some (names.zip items) else none
  | _ => none

/-- A required field. -/
def required? {α : Type} (fields : List (String × Document)) (name : String)
    (take : Document → Option α) : Option α :=
  (field? fields name).bind take

/-- A field with a default. -/
def optional? {α : Type} (fields : List (String × Document)) (name : String) (default : α)
    (take : Document → Option α) : Option α :=
  match field? fields name with
  | none => some default
  | some d => take d

/-- A field that may be absent or null. -/
def nullable? {α : Type} (fields : List (String × Document)) (name : String)
    (take : Document → Option α) : Option (Option α) :=
  match field? fields name with
  | none | some null => some none
  | some d => (take d).map some

mutual

/-- The value of a document whose containers nest at most `depth` deep. Members of an object are
sorted by their keys, and of two with one key the later counts. -/
def value? (depth : Nat) : Document → Option Json
  | null => some .null
  | bool b => some (.bool b)
  | number n => n.value?.map fun
    | .integer i => .integer i
    | .double x => .double x
  | string items => (decodeText? items).map .string
  | array items =>
    match depth with
    | 0 => none
    | depth + 1 => (values? depth [] items).map .array
  | object members =>
    match depth with
    | 0 => none
    | depth + 1 =>
      (members? depth [] members).map fun entries => .object (Keyed.ofList entries).entries

/-- The values of a list of documents after those already taken, the last one first. -/
def values? (depth : Nat) (done : List Json) : List Document → Option (List Json)
  | [] => some done.reverse
  | item :: items =>
    match value? depth item with
    | none => none
    | some item => values? depth (item :: done) items

/-- The values of a list of members after those already taken, the last one first. -/
def members? (depth : Nat) (done : List (String × Json)) :
    List (List StringItem × Document) → Option (List (String × Json))
  | [] => some done.reverse
  | (key, value) :: members =>
    match decodeText? key, value? depth value with
    | some key, some value => members? depth ((key, value) :: done) members
    | _, _ => none

end

end Document

/-- How deep the containers of a value may nest. -/
def nestingLimit : Nat := 127

/-- Reads a text as a value. -/
def read? (text : String) : Option Json :=
  (Document.read? text).bind (Document.value? nestingLimit)

end LedEffect.Json
