import LedEffect.Number.Text

/-!
# TOML

The tree of a TOML document. A table remembers how it came about, because that decides which later
lines may extend it: one opened by a header of its own or written inline is closed, one that only
occurs on the way to another header may still be opened, and one made by dotted keys may be
extended by further dotted keys. Main operations: `Table.assign?` for a dotted key with its value
and `Table.enter?` for a header.
-/

namespace LedEffect.Toml

/-- Whether a character may stand unescaped in comments and strings. -/
def isPrintable (c : Char) : Bool := c == '\t' || (0x20 ≤ c.toNat && c.toNat != 0x7F)

/-- How a table came about. -/
inductive Form
  | header
  | onTheWay
  | dotted
  | inline
deriving DecidableEq

/-- A TOML value. A date or time is kept as written. The elements of an array of tables stand in
their written order. -/
inductive Value
  | string (s : String)
  | integer (n : Int)
  | float (x : Binary64)
  | boolean (b : Bool)
  | dateTime (text : String)
  | array (items : List Value)
  | table (form : Form) (entries : List (String × Value))
  | tables (elements : List (List (String × Value)))

/-- The keys and values of a table in the order in which they were first set. -/
abbrev Table := List (String × Value)

namespace Table

def get? (t : Table) (key : String) : Option Value :=
  (t.find? fun entry => entry.1 == key).map (·.2)

/-- The table with a value under a key, at the place of the old value if there is one. -/
def set (key : String) (value : Value) : Table → Table
  | [] => [(key, value)]
  | (k, v) :: rest => if k = key then (k, value) :: rest else (k, v) :: set key value rest

/-- Whether dotted keys may pass through a table. -/
def admitsDotted : Form → Bool
  | .onTheWay | .dotted => true
  | .header | .inline => false

/-- Puts a value under a dotted key, which must not exist yet. The table that receives the value
must be the one at hand or one made by dotted keys. -/
def assign? (value : Value) : List String → Table → Option Table
  | [], _ => none
  | [key], t => if (t.get? key).isSome then none else some (t ++ [(key, value)])
  | key :: path, t =>
    let receives := path.length = 1
    match t.get? key with
    | none => (assign? value path []).map fun inner => t.set key (.table .dotted inner)
    | some (.table form inner) =>
      if !admitsDotted form || (receives && form ≠ .dotted) then none
      else (assign? value path inner).map fun inner => t.set key (.table form inner)
    | some (.tables elements) =>
      match elements.getLast? with
      | some last =>
        if receives then none
        else (assign? value path last).map fun last =>
          t.set key (.tables (elements.dropLast ++ [last]))
      | none => none
    | some _ => none

/-- What a header opens: a table, or one more element of an array of tables. -/
inductive Header
  | table
  | element
deriving DecidableEq

/-- What stands under the last key of a header once its table is filled. A table may be opened
once, and an array of tables only be extended by headers of its kind. -/
def opened? (header : Header) (fill : Table → Option Table) (old : Option Value) : Option Value :=
  match header, old with
  | .table, none => (fill []).map (.table .header)
  | .table, some (.table .onTheWay inner) => (fill inner).map (.table .header)
  | .element, none => (fill []).map fun element => .tables [element]
  | .element, some (.tables elements) =>
    (fill []).map fun element => .tables (elements ++ [element])
  | _, _ => none

/-- Opens the table at the path of a header and fills it. -/
def enter? (header : Header) (fill : Table → Option Table) : List String → Table → Option Table
  | [], _ => none
  | [key], t => (opened? header fill (t.get? key)).map fun value => t.set key value
  | key :: path, t =>
    match t.get? key with
    | none => (enter? header fill path []).map fun inner => t.set key (.table .onTheWay inner)
    | some (.table .inline _) => none
    | some (.table form inner) =>
      (enter? header fill path inner).map fun inner => t.set key (.table form inner)
    | some (.tables elements) =>
      match elements.getLast? with
      | some last =>
        (enter? header fill path last).map fun last =>
          t.set key (.tables (elements.dropLast ++ [last]))
      | none => none
    | some _ => none

end Table

end LedEffect.Toml
