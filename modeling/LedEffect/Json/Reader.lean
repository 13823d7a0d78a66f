import LedEffect.Json.Basic

/-!
# Reading JSON

The grammar is the strict one: four blanks, no leading zeros, no bare control characters in
strings, nothing after the value. Nesting is not limited here. Every function returns the rest of
the text, and fuel bounded by the length of the text carries the recursion.
-/

namespace LedEffect.Json

def isSpace (c : Char) : Bool := c == ' ' || c == '\n' || c == '\t' || c == '\r'

def skipSpace (cs : List Char) : List Char := cs.dropWhile isSpace

/-- The value of a hexadecimal digit. -/
def hexDigit? (c : Char) : Option Nat :=
  let n := c.toNat
  if 48 ≤ n ∧ n ≤ 57 then some (n - 48)
  else if 97 ≤ n ∧ n ≤ 102 then some (n - 87)
  else if 65 ≤ n ∧ n ≤ 70 then some (n - 55)
  else none

/-- Four hexadecimal digits. -/
def readUnit? : List Char → Option (Nat × List Char)
  | a :: b :: c :: d :: rest => do
    let a ← hexDigit? a
    let b ← hexDigit? b
    let c ← hexDigit? c
    let d ← hexDigit? d
    some (((a * 16 + b) * 16 + c) * 16 + d, rest)
  | _ => none

/-- What follows a backslash. -/
def readEscape? : List Char → Option (StringItem × List Char)
  | '\x22' :: rest => some (.char '\x22', rest)
  | '\\' :: rest => some (.char '\\', rest)
  | '/' :: rest => some (.char '/', rest)
  | 'b' :: rest => some (.char '\x08', rest)
  | 'f' :: rest => some (.char '\x0C', rest)
  | 'n' :: rest => some (.char '\n', rest)
  | 'r' :: rest => some (.char '\r', rest)
  | 't' :: rest => some (.char '\t', rest)
  | 'u' :: rest => (readUnit? rest).map fun (code, rest) => (.unit code, rest)
  | _ => none

/-- The items of a string literal up to its closing quote; `done` holds those already read, the
last one first. -/
def readItems? : Nat → List StringItem → List Char → Option (List StringItem × List Char)
  | 0, _, _ => none
  | _, _, [] => none
  | fuel + 1, done, c :: rest =>
    if c = '\x22' then some (done.reverse, rest)
    else if c = '\\' then
      match readEscape? rest with
      | some (item, rest) => readItems? fuel (item :: done) rest
      | none => none
    else if c.toNat < 0x20 then none
    else readItems? fuel (.char c :: done) rest

/-- The fraction of a number: a point with at least one digit, or nothing. -/
def readFraction? : List Char → Option (List Char × List Char)
  | '.' :: cs =>
    match spanDigits cs with
    | ([], _) => none
    | (digits, rest) => some (digits, rest)
  | cs => some ([], cs)

/-- The exponent of a number: its mark, a sign if any and at least one digit, or nothing. -/
def readNumberExponent? (cs : List Char) : Option (Option (Bool × List Char) × List Char) :=
  match cs with
  | c :: rest =>
    if c = 'e' ∨ c = 'E' then
      let (negative, rest) := takeSign rest
      match spanDigits rest with
      | ([], _) => none
      | (digits, rest) => some (some (negative, digits), rest)
    else some (none, cs)
  | [] => some (none, [])

/-- A number: digits without a leading zero, then fraction and exponent. -/
def readNumber? (cs : List Char) : Option (NumberLiteral × List Char) := do
  let (negative, cs) := match cs with
    | '-' :: rest => (true, rest)
    | _ => (false, cs)
  let (whole, cs) := spanDigits cs
  match whole with
  | [] => none
  | '0' :: _ :: _ => none
  | _ =>
    let (fraction, cs) ← readFraction? cs
    let (exponent, cs) ← readNumberExponent? cs
    some (⟨negative, whole, fraction, exponent⟩, cs)

/-- The rest of a text after a given beginning. -/
def dropText? : List Char → List Char → Option (List Char)
  | [], cs => some cs
  | w :: ws, c :: cs => if w = c then dropText? ws cs else none
  | _ :: _, [] => none

mutual

/-- A value, blanks before it skipped. -/
def readValue? : Nat → List Char → Option (Document × List Char)
  | 0, _ => none
  | fuel + 1, cs =>
    match skipSpace cs with
    | [] => none
    | c :: rest =>
      if c = '\x22' then
        (readItems? fuel [] rest).map fun (items, rest) => (.string items, rest)
      else if c = '[' then
        match skipSpace rest with
        | ']' :: rest => some (.array [], rest)
        | rest => (readElements? fuel [] rest).map fun (items, rest) => (.array items, rest)
      else if c = '\x7b' then
        match skipSpace rest with
        | '\x7d' :: rest => some (.object [], rest)
        | rest => (readMembers? fuel [] rest).map fun (members, rest) => (.object members, rest)
      else if c = 'n' then (dropText? "ull".toList rest).map fun rest => (.null, rest)
      else if c = 't' then (dropText? "rue".toList rest).map fun rest => (.bool true, rest)
      else if c = 'f' then (dropText? "alse".toList rest).map fun rest => (.bool false, rest)
      else (readNumber? (c :: rest)).map fun (n, rest) => (.number n, rest)

/-- The elements of a non-empty array up to its closing bracket; `done` holds those already read,
the last one first. -/
def readElements? : Nat → List Document → List Char → Option (List Document × List Char)
  | 0, _, _ => none
  | fuel + 1, done, cs =>
    match readValue? fuel cs with
    | none => none
    | some (item, rest) =>
      match skipSpace rest with
      | ']' :: rest => some ((item :: done).reverse, rest)
      | ',' :: rest => readElements? fuel (item :: done) rest
      | _ => none

/-- The members of a non-empty object up to its closing brace; `done` holds those already read, the
last one first. -/
def readMembers? : Nat → List (List StringItem × Document) → List Char →
    Option (List (List StringItem × Document) × List Char)
  | 0, _, _ => none
  | fuel + 1, done, cs =>
    match skipSpace cs with
    | '\x22' :: rest =>
      match readItems? fuel [] rest with
      | none => none
      | some (key, rest) =>
        match skipSpace rest with
        | ':' :: rest =>
          match readValue? fuel rest with
          | none => none
          | some (value, rest) =>
            match skipSpace rest with
            | '\x7d' :: rest => some (((key, value) :: done).reverse, rest)
            | ',' :: rest => readMembers? fuel ((key, value) :: done) rest
            | _ => none
        | _ => none
    | _ => none

end

/-- Reads a whole text. Three steps of fuel per character are more than any value takes. -/
def Document.read? (text : String) : Option Document :=
  let cs := text.toList
  match readValue? (3 * cs.length + 3) cs with
  | some (document, rest) => if (skipSpace rest).isEmpty then some document else none
  | none => none

end LedEffect.Json
