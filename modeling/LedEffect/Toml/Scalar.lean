import LedEffect.Json.Reader
import LedEffect.Toml.Basic

/-!
# TOML strings and numbers

The four kinds of string and the two kinds of number. A string ends at its first closing delimiter;
in the long forms up to two quotes may stand directly before it. Every function returns the rest of
the text.
-/

namespace LedEffect.Toml

-- Powers are those of the core library, whatever else is in scope.
attribute [local instance (2000)] instPowNat

/-! ## Characters -/

def isSpace (c : Char) : Bool := c == ' ' || c == '\t'

def skipSpace (cs : List Char) : List Char := cs.dropWhile isSpace

/-- The rest of a text after a line end. -/
def skipNewline? : List Char → Option (List Char)
  | '\n' :: cs => some cs
  | '\r' :: '\n' :: cs => some cs
  | _ => none

/-- The value of a run of hexadecimal digits. -/
def hexNumber? (digits : List Char) : Option Nat :=
  digits.foldlM (fun n c => (Json.hexDigit? c).map fun d => n * 16 + d) 0

/-- The character with the code of `count` hexadecimal digits; a surrogate is none. -/
def readCode? (count : Nat) (cs : List Char) : Option (Char × List Char) := do
  if cs.length < count then none
  else
    let code ← hexNumber? (cs.take count)
    if code.isValidChar then some (Char.ofNat code, cs.drop count) else none

/-- What follows a backslash. -/
def readEscape? : List Char → Option (Char × List Char)
  | 'b' :: rest => some ('\x08', rest)
  | 't' :: rest => some ('\t', rest)
  | 'n' :: rest => some ('\n', rest)
  | 'f' :: rest => some ('\x0C', rest)
  | 'r' :: rest => some ('\r', rest)
  | '\x22' :: rest => some ('\x22', rest)
  | '\\' :: rest => some ('\\', rest)
  | 'u' :: rest => readCode? 4 rest
  | 'U' :: rest => readCode? 8 rest
  | _ => none

/-! ## Strings on one line -/

/-- The characters up to the closing quote; `done` holds those already read, the last one first. -/
def readBasic? : Nat → List Char → List Char → Option (String × List Char)
  | 0, _, _ => none
  | _, _, [] => none
  | fuel + 1, done, c :: rest =>
    if c = '\x22' then some (String.ofList done.reverse, rest)
    else if c = '\\' then
      match readEscape? rest with
      | some (c, rest) => readBasic? fuel (c :: done) rest
      | none => none
    else if isPrintable c then readBasic? fuel (c :: done) rest
    else none

/-- The characters up to the closing apostrophe, without escapes. -/
def readLiteral? (cs : List Char) : Option (String × List Char) :=
  let (content, rest) := cs.span fun c => isPrintable c && c != '\''
  match rest with
  | '\'' :: rest => some (String.ofList content, rest)
  | _ => none

/-! ## Strings on several lines -/

/-- The blanks and line ends in front of a text dropped. -/
def skipLines : List Char → List Char
  | '\r' :: '\n' :: cs => skipLines cs
  | c :: cs => if isSpace c || c == '\n' then skipLines cs else c :: cs
  | [] => []

/-- A backslash at the end of a line takes the line end with all blank lines after it. -/
def skipContinuation? (cs : List Char) : Option (List Char) :=
  (skipNewline? (skipSpace cs)).map skipLines

/-- The characters of a long string delimited by three of `quote`, with escapes or without. Line
ends become line feeds. A run of quotes ends the string when it has at least three of them; the
last three are the delimiter. -/
def readLong? (quote : Char) (escapes : Bool) : Nat → List Char → List Char →
    Option (String × List Char)
  | 0, _, _ => none
  | _, _, [] => none
  | fuel + 1, done, c :: rest =>
    if c = quote then
      let (more, after) := rest.span (· == quote)
      let count := more.length + 1
      if count < 3 then readLong? quote escapes fuel (List.replicate count quote ++ done) after
      else if count ≤ 5 then
        some (String.ofList (List.replicate (count - 3) quote ++ done).reverse, after)
      else none
    else if c = '\\' ∧ escapes then
      match skipContinuation? rest with
      | some rest => readLong? quote escapes fuel done rest
      | none =>
        match readEscape? rest with
        | some (c, rest) => readLong? quote escapes fuel (c :: done) rest
        | none => none
    else
      match skipNewline? (c :: rest) with
      | some rest => readLong? quote escapes fuel ('\n' :: done) rest
      | none => if isPrintable c then readLong? quote escapes fuel (c :: done) rest else none

/-- A long string after its opening delimiter; a line end directly behind it is dropped. -/
def readLongBody? (quote : Char) (escapes : Bool) (cs : List Char) : Option (String × List Char) :=
  readLong? quote escapes (cs.length + 1) [] ((skipNewline? cs).getD cs)

/-- A string of any kind. -/
def readString? : List Char → Option (String × List Char)
  | '\x22' :: '\x22' :: '\x22' :: cs => readLongBody? '\x22' true cs
  | '\x22' :: cs => readBasic? (cs.length + 1) [] cs
  | '\'' :: '\'' :: '\'' :: cs => readLongBody? '\'' false cs
  | '\'' :: cs => readLiteral? cs
  | _ => none

/-! ## Numbers -/

/-- The digits in front of a text, of which each but the first may follow an underscore. -/
def spanGrouped (isDigit : Char → Bool) : List Char → List Char × List Char
  | '_' :: c :: cs =>
    if isDigit c then
      let (digits, rest) := spanGrouped isDigit cs
      (c :: digits, rest)
    else ([], '_' :: c :: cs)
  | c :: cs =>
    if isDigit c then
      let (digits, rest) := spanGrouped isDigit cs
      (c :: digits, rest)
    else ([], c :: cs)
  | [] => ([], [])

/-- At least one digit, with underscores between digits only. -/
def readDigits? (isDigit : Char → Bool) : List Char → Option (List Char × List Char)
  | '_' :: _ => none
  | cs =>
    match spanGrouped isDigit cs with
    | ([], _) => none
    | found => some found

/-- Decimal digits without a leading zero. -/
def readWhole? : List Char → Option (List Char × List Char)
  | '0' :: cs => some (['0'], cs)
  | cs => readDigits? Char.isDigit cs

/-- The digits of a fraction, if there is one. -/
def readFraction? : List Char → Option (List Char × List Char)
  | '.' :: cs => readDigits? Char.isDigit cs
  | cs => some ([], cs)

/-- An exponent, if there is one. -/
def readExponent? : List Char → Option (Option Int × List Char)
  | [] => some (none, [])
  | c :: cs =>
    if c = 'e' ∨ c = 'E' then
      let (negative, cs) := takeSign cs
      match readDigits? Char.isDigit cs with
      | some (digits, rest) =>
        some (some (if negative then -(numberOf digits : Int) else numberOf digits), rest)
      | none => none
    else some (none, c :: cs)

/-- The least and the greatest integer. -/
def integerLimits : Int × Int := (-(2 ^ (63 : Nat)), 2 ^ (63 : Nat) - 1)

/-- An integer, if it is within the limits. -/
def integer? (n : Int) : Option Value :=
  if integerLimits.1 ≤ n ∧ n ≤ integerLimits.2 then some (.integer n) else none

/-- A number in decimal: a float if it has a fraction or an exponent, an integer otherwise. A
positive float past the largest double is refused. -/
def readDecimal? (cs : List Char) : Option (Value × List Char) := do
  let (negative, cs) := takeSign cs
  let (whole, cs) ← readWhole? cs
  let (fraction, cs) ← readFraction? cs
  let (exponent, cs) ← readExponent? cs
  if fraction.isEmpty ∧ exponent.isNone then
    let n : Int := numberOf whole
    return (← integer? (if negative then -n else n), cs)
  else
    let d : Decimal := ⟨numberOf (whole ++ fraction), exponent.getD 0 - fraction.length⟩
    match d.toBinary64 negative with
    | .infinite false => none
    | x => return (.float x, cs)

/-- The digits and the base that the letter after a zero announces. -/
def base? (c : Char) : Option ((Char → Bool) × Nat) :=
  if c = 'x' then some (fun c => (Json.hexDigit? c).isSome, 16)
  else if c = 'o' then some (fun c => '0' ≤ c && c ≤ '7', 8)
  else if c = 'b' then some (fun c => c == '0' || c == '1', 2)
  else none

/-- An unsigned integer in another base. -/
def readBased? (isDigit : Char → Bool) (base : Nat) (cs : List Char) :
    Option (Value × List Char) := do
  let (digits, rest) ← readDigits? isDigit cs
  let n := digits.foldl (fun n c => n * base + (Json.hexDigit? c).getD 0) 0
  return (← integer? n, rest)

/-- An infinity or not-a-number, without its sign. -/
def readSpecial? (negative : Bool) : List Char → Option (Value × List Char)
  | 'i' :: 'n' :: 'f' :: cs => some (.float (.infinite negative), cs)
  | 'n' :: 'a' :: 'n' :: cs => some (.float (.nan negative), cs)
  | _ => none

/-- A number of any kind. -/
def readNumber? (cs : List Char) : Option (Value × List Char) :=
  let (negative, unsigned) := takeSign cs
  match readSpecial? negative unsigned with
  | some found => some found
  | none =>
    match cs with
    | '0' :: c :: rest =>
      match base? c with
      | some (isDigit, base) => readBased? isDigit base rest
      | none => readDecimal? cs
    | _ => readDecimal? cs

end LedEffect.Toml
