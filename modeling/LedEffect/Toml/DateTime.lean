import LedEffect.Number.Text

/-!
# Dates and times

The four forms of TOML: a date with a time and an offset, a date with a time, a date, and a time.
Only whether a text is one of them matters here, so the readers return what follows it.
-/

namespace LedEffect.Toml

/-- The rest of a text after one given character. -/
def skipChar? (c : Char) : List Char → Option (List Char)
  | d :: cs => if d = c then some cs else none
  | [] => none

/-- A number of exactly `count` digits within bounds. -/
def readField? (count low high : Nat) (cs : List Char) : Option (Nat × List Char) :=
  let digits := cs.take count
  let n := numberOf digits
  if digits.length = count ∧ digits.all Char.isDigit ∧ low ≤ n ∧ n ≤ high then
    some (n, cs.drop count)
  else none

def isLeapYear (year : Nat) : Bool := year % 4 == 0 && (year % 100 != 0 || year % 400 == 0)

/-- The number of days of a month. -/
def daysInMonth (year month : Nat) : Nat :=
  if month = 2 then (if isLeapYear year then 29 else 28)
  else if month = 4 ∨ month = 6 ∨ month = 9 ∨ month = 11 then 30
  else 31

/-- What follows a calendar date. -/
def skipDate? (cs : List Char) : Option (List Char) := do
  let (year, cs) ← readField? 4 0 9999 cs
  let (month, cs) ← readField? 2 1 12 (← skipChar? '-' cs)
  let (_, cs) ← readField? 2 1 (daysInMonth year month) (← skipChar? '-' cs)
  some cs

/-- What follows a fraction of a second, if there is one. -/
def skipFraction? : List Char → Option (List Char)
  | '.' :: cs =>
    match spanDigits cs with
    | ([], _) => none
    | (_, rest) => some rest
  | cs => some cs

/-- What follows a time of day. The sixtieth second is a leap second. -/
def skipTime? (cs : List Char) : Option (List Char) := do
  let (_, cs) ← readField? 2 0 23 cs
  let (_, cs) ← readField? 2 0 59 (← skipChar? ':' cs)
  let (_, cs) ← readField? 2 0 60 (← skipChar? ':' cs)
  skipFraction? cs

/-- What follows an offset from universal time. -/
def skipOffset? : List Char → Option (List Char)
  | c :: cs =>
    if c = 'Z' ∨ c = 'z' then some cs
    else if c = '+' ∨ c = '-' then do
      let (_, cs) ← readField? 2 0 23 cs
      let (_, cs) ← readField? 2 0 59 (← skipChar? ':' cs)
      some cs
    else none
  | [] => none

/-- What follows the time that may follow a date. -/
def skipTimeOfDate? : List Char → Option (List Char)
  | c :: cs =>
    if c = 'T' ∨ c = 't' ∨ c = ' ' then do
      let cs ← skipTime? cs
      some ((skipOffset? cs).getD cs)
    else none
  | [] => none

/-- A date, a time or both, and what follows. -/
def readDateTime? (cs : List Char) : Option (String × List Char) := do
  let rest ← match skipDate? cs with
    | some rest => some ((skipTimeOfDate? rest).getD rest)
    | none => skipTime? cs
  some (String.ofList (cs.take (cs.length - rest.length)), rest)

end LedEffect.Toml
