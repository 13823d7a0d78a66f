import LedEffect.Keyed
import LedEffect.Number.Text

/-!
# JSON

Two views of JSON. A `Json` is a value: texts, exact integers and doubles. A `Json.Document` is the
syntax of a text that was read, with its string items and number digits as written; what they
denote is only asked when a part is kept, so that ignored parts may hold numbers past every range
and surrogates that stand alone.
-/

namespace LedEffect

/-- A JSON value. Members of an object stand in their written order. -/
inductive Json
  | null
  | bool (b : Bool)
  | integer (n : Int)
  | double (x : Binary64)
  | string (s : String)
  | array (items : List Json)
  | object (members : List (String × Json))

namespace Json

instance : Inhabited Json := ⟨null⟩

def natural (n : Nat) : Json := integer n

/-- An array of texts. -/
def strings (texts : List String) : Json := array (texts.map string)

/-- One item of a string literal: a character, or a 16-bit unit given by a hexadecimal escape. -/
inductive StringItem
  | char (c : Char)
  | unit (code : Nat)
deriving DecidableEq

/-- A number literal as written. -/
structure NumberLiteral where
  negative : Bool
  whole : List Char
  fraction : List Char
  exponent : Option (Bool × List Char)

/-- The syntax of a JSON text. -/
inductive Document
  | null
  | bool (b : Bool)
  | number (n : NumberLiteral)
  | string (items : List StringItem)
  | array (items : List Document)
  | object (members : List (List StringItem × Document))

instance : Inhabited Document := ⟨.null⟩

end Json

end LedEffect
