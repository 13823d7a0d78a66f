import LedEffect.Json.Printer
import LedEffect.Toml.Basic

/-!
# Printing TOML

A document of sections, each a header with plain keys under it, one blank line between sections.
Floats always have a decimal point. A string is written in the first form that needs no escapes:
between double quotes, between apostrophes, and then in the long form of either.
-/

namespace LedEffect.Toml

/-- A value that sections hold. -/
inductive Scalar
  | float (x : Binary64)
  | string (s : String)

/-- A header with its keys and values. -/
structure Section where
  name : String
  entries : List (String × Scalar)

/-! ## Floats -/

/-- A double: the fewest digits that read back, with `.0` behind a whole number. -/
def floatText (x : Binary64) : String :=
  match x with
  | .nan s => if s then "-nan" else "nan"
  | _ => if x.isIntegral then x.plain ++ ".0" else x.plain

/-! ## Strings -/

/-- The delimiters of a string. Between double quotes there are escapes, between apostrophes there
are none; the long forms may hold line feeds and up to two quotes in a row. -/
structure Style where
  escapes : Bool
  long : Bool
deriving DecidableEq

/-- The length of the longest run of a character. -/
def longestRun (c : Char) (cs : List Char) : Nat :=
  (cs.foldl (fun (longest, run) d =>
    let run := if d = c then run + 1 else 0
    (max longest run, run)) (0, 0)).1

/-- The style of a string: the first of the four that needs no escape, or else double quotes with
escapes. -/
def styleOf (cs : List Char) : Style :=
  let plain := cs.all fun c => c == '\n' || isPrintable c
  let long := cs.contains '\n'
  let backslash := cs.contains '\\'
  let quotes := longestRun '\x22' cs
  let apostrophes := longestRun '\'' cs
  if plain && !backslash && quotes = 0 && !long then ⟨true, false⟩
  else if plain && apostrophes = 0 && !long then ⟨false, false⟩
  else if plain && !backslash && quotes ≤ 2 then ⟨true, true⟩
  else if plain && apostrophes ≤ 2 then ⟨false, true⟩
  else ⟨true, long⟩

/-- A character between double quotes, quotes aside; a line feed is kept in the long form. -/
def escapeChar (long : Bool) (c : Char) : List Char :=
  if c = '\x08' then ['\\', 'b']
  else if c = '\t' then ['\\', 't']
  else if c = '\n' then if long then ['\n'] else ['\\', 'n']
  else if c = '\x0C' then ['\\', 'f']
  else if c = '\r' then ['\\', 'r']
  else if c = '\\' then ['\\', '\\']
  else if c.toNat ≤ 0x1F ∨ c.toNat = 0x7F then
    ['\\', 'u', '0', '0', (Json.hexChar (c.toNat / 16)).toUpper,
      (Json.hexChar (c.toNat % 16)).toUpper]
  else [c]

/-- The characters between double quotes after `run` bare quotes in a row. A quote is escaped when
it would be one too many: the first in the short form and the third in the long one. -/
def escapeFrom (long : Bool) (run : Nat) : List Char → List Char
  | [] => []
  | c :: cs =>
    if c = '\x22' then
      if run < (if long then 2 else 0) then c :: escapeFrom long (run + 1) cs
      else '\\' :: c :: escapeFrom long 0 cs
    else escapeChar long c ++ escapeFrom long 0 cs

/-- A string literal. A line feed stands behind the opening delimiter of a long one that has line
feeds of its own. -/
def stringText (s : String) : String :=
  let cs := s.toList
  let style := styleOf cs
  let quote := if style.escapes then '\x22' else '\''
  let delimiter := List.replicate (if style.long then 3 else 1) quote
  let start := if style.long && cs.contains '\n' then ['\n'] else []
  let content := if style.escapes then escapeFrom style.long 0 cs else cs
  String.ofList (delimiter ++ start ++ content ++ delimiter)

def Scalar.text : Scalar → String
  | float x => floatText x
  | string s => stringText s

/-! ## Documents -/

/-- A section with a line for its header and one for each key. -/
def Section.text (s : Section) : String :=
  String.join (s!"[{s.name}]\n" :: s.entries.map fun (key, value) => s!"{key} = {value.text}\n")

/-- Sections with a blank line between them. -/
def printSections (sections : List Section) : String :=
  "\n".intercalate (sections.map Section.text)

end LedEffect.Toml
