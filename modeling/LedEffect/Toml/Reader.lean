import LedEffect.Toml.DateTime
import LedEffect.Toml.Scalar

/-!
# Reading TOML

A document is a list of lines: headers and keys with their values. The lines before the first
header fill the root table, those after a header the table it opens. Nesting of arrays and inline
tables and the length of dotted keys are limited.
-/

namespace LedEffect.Toml

/-! ## Blanks and keys -/

/-- A comment dropped, if there is one. -/
def skipComment : List Char → List Char
  | '#' :: cs => cs.dropWhile isPrintable
  | cs => cs

/-- The rest of a text after the end of a line: blanks, a comment and a line end or the end of the
text. -/
def endLine? (cs : List Char) : Option (List Char) :=
  match skipComment (skipSpace cs) with
  | [] => some []
  | cs => skipNewline? cs

/-- Blanks, line ends and comments dropped, as between the elements of an array. -/
def skipFiller (inComment : Bool) : List Char → List Char
  | '\n' :: cs => skipFiller false cs
  | '\r' :: '\n' :: cs => skipFiller false cs
  | c :: cs =>
    if inComment then if isPrintable c then skipFiller true cs else c :: cs
    else if isSpace c then skipFiller false cs
    else if c = '#' then skipFiller true cs
    else c :: cs
  | [] => []

/-- A character of a key without quotes. -/
def isBare (c : Char) : Bool := c.isAlphanum || c == '_' || c == '-'

/-- One part of a dotted key. -/
def readPart? : List Char → Option (String × List Char)
  | '\x22' :: cs => readBasic? (cs.length + 1) [] cs
  | '\'' :: cs => readLiteral? cs
  | cs =>
    match cs.span isBare with
    | ([], _) => none
    | (part, rest) => some (String.ofList part, rest)

/-- The parts of a key, blanks around each; `done` holds those already read, the last one first. -/
def readParts? : Nat → List String → List Char → Option (List String × List Char)
  | 0, _, _ => none
  | fuel + 1, done, cs =>
    match readPart? (skipSpace cs) with
    | none => none
    | some (part, rest) =>
      match skipSpace rest with
      | '.' :: rest => readParts? fuel (part :: done) rest
      | rest => some ((part :: done).reverse, rest)

/-- How many parts a key may have. -/
def keyLimit : Nat := 79

/-- A key with at most `keyLimit` parts. -/
def readKey? (cs : List Char) : Option (List String × List Char) := readParts? keyLimit [] cs

/-! ## Values -/

/-- How deep arrays and inline tables may nest. An empty array of no blanks may lie deeper. -/
def nestingLimit : Nat := 79

mutual

/-- A value without blanks around it, in which arrays and inline tables nest at most `depth`
deep. -/
def readValue? : Nat → Nat → List Char → Option (Value × List Char)
  | 0, _, _ => none
  | _, _, [] => none
  | fuel + 1, depth, c :: rest =>
    if c = '\x22' ∨ c = '\'' then
      (readString? (c :: rest)).map fun (s, rest) => (.string s, rest)
    else if c = '[' then
      match rest with
      | ']' :: rest => some (.array [], rest)
      | _ =>
        match depth, skipFiller false rest with
        | 0, _ => none
        | _ + 1, ']' :: rest => some (.array [], rest)
        | depth + 1, rest => readElements? fuel depth [] rest
    else if c = '\x7b' then
      match depth, skipSpace rest with
      | 0, _ => none
      | _ + 1, '\x7d' :: rest => some (.table .inline [], rest)
      | depth + 1, rest => readInline? fuel depth [] rest
    else if c = 't' then
      (Json.dropText? "rue".toList rest).map fun rest => (.boolean true, rest)
    else if c = 'f' then
      (Json.dropText? "alse".toList rest).map fun rest => (.boolean false, rest)
    else
      match readDateTime? (c :: rest) with
      | some (text, rest) => some (.dateTime text, rest)
      | none => readNumber? (c :: rest)

/-- The elements of an array up to its closing bracket; `done` holds those already read, the last
one first. -/
def readElements? : Nat → Nat → List Value → List Char → Option (Value × List Char)
  | 0, _, _, _ => none
  | fuel + 1, depth, done, cs =>
    match readValue? fuel depth cs with
    | none => none
    | some (value, rest) =>
      match skipFiller false rest with
      | ']' :: rest => some (.array (value :: done).reverse, rest)
      | ',' :: rest =>
        match skipFiller false rest with
        | ']' :: rest => some (.array (value :: done).reverse, rest)
        | rest => readElements? fuel depth (value :: done) rest
      | _ => none

/-- The keys and values of an inline table up to its closing brace, added to those already read. -/
def readInline? : Nat → Nat → Table → List Char → Option (Value × List Char)
  | 0, _, _, _ => none
  | fuel + 1, depth, done, cs =>
    match readKey? cs with
    | some (path, '=' :: rest) =>
      match readValue? fuel depth (skipSpace rest) with
      | none => none
      | some (value, rest) =>
        match Table.assign? value path done, skipSpace rest with
        | some done, '\x7d' :: rest => some (.table .inline done, rest)
        | some done, ',' :: rest => readInline? fuel depth done rest
        | _, _ => none
    | _ => none

end

/-! ## Documents -/

/-- A line that is not blank. -/
inductive Line
  | header (kind : Table.Header) (path : List String)
  | assignment (path : List String) (value : Value)

/-- A header or a key with its value, from its first character to the end of its line. -/
def readLine? (cs : List Char) : Option (Line × List Char) := do
  match cs with
  | '[' :: '[' :: rest =>
    let (path, rest) ← readKey? rest
    let rest ← Json.dropText? [']', ']'] rest
    return (.header .element path, ← endLine? rest)
  | '[' :: rest =>
    let (path, rest) ← readKey? rest
    let rest ← skipChar? ']' rest
    return (.header .table path, ← endLine? rest)
  | _ =>
    let (path, rest) ← readKey? cs
    let rest ← skipChar? '=' rest
    let (value, rest) ← readValue? (3 * rest.length + 3) nestingLimit (skipSpace rest)
    return (.assignment path value, ← endLine? rest)

/-- The lines of a text; `done` holds those already read, the last one first. -/
def readLines? : Nat → List Line → List Char → Option (List Line)
  | 0, _, _ => none
  | fuel + 1, done, cs =>
    match skipSpace cs with
    | [] => some done.reverse
    | c :: rest =>
      if c = '#' ∨ c = '\n' ∨ c = '\r' then
        match endLine? (c :: rest) with
        | some rest => readLines? fuel done rest
        | none => none
      else
        match readLine? (c :: rest) with
        | some (line, rest) => readLines? fuel (line :: done) rest
        | none => none

namespace Table

/-- Puts the assignments in front of a list of lines into a table. -/
def fill? (t : Table) : List Line → Option Table
  | .assignment path value :: lines =>
    match assign? value path t with
    | some t => fill? t lines
    | none => none
  | _ => some t

/-- Lets every header open and fill its table. -/
def enterAll? (root : Table) : List Line → Option Table
  | [] => some root
  | .header kind path :: lines =>
    match enter? kind (fill? · lines) path root with
    | some root => enterAll? root lines
    | none => none
  | .assignment _ _ :: lines => enterAll? root lines

/-- The root table of a list of lines. -/
def ofLines? (lines : List Line) : Option Table := do enterAll? (← fill? [] lines) lines

/-- Reads a document, which may begin with a byte order mark. -/
def read? (text : String) : Option Table :=
  let cs := match text.toList with
    | '\uFEFF' :: cs => cs
    | cs => cs
  (readLines? (cs.length + 1) [] cs).bind ofLines?

end Table

end LedEffect.Toml
