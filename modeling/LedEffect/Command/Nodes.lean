import LedEffect.Command.Inspect
import LedEffect.Catalog.Kind

/-!
# Listing node kinds

The catalog by categories, and the parameters of one kind.
-/

namespace LedEffect.Command

/-- The kinds of all categories. -/
def catalogText : String :=
  unlines (["Node Kinds", "=========="] ++
    Category.all.flatMap (fun c =>
      ["", s!"{c.name} - {c.description}"] ++
        c.kinds.map fun k => s!"  {padRight 22 k.id} {k.description}") ++
    ["", "Use 'glint nodes <kind>' for parameter details."])

/-- A row of the table of parameters. -/
def paramRow (name type range default policy : String) : String :=
  s!"  {padRight 12 name}  {padRight 8 type}  {padRight 18 range}  {padRight 10 default}  " ++ policy

/-- The row of a parameter. -/
def paramText (p : ParamSpec) : String :=
  paramRow p.name (if p.integer then "int" else "float") s!"[{p.min.plain}, {p.max.plain}]"
    ((p.default.map Binary64.plain).getD "required") p.outOfRange.id

/-- How many inputs a kind takes. -/
def inputsText (k : Kind) : String :=
  if k.minInputs = k.maxInputs then toString k.minInputs else s!"{k.minInputs}..{k.maxInputs}"

/-- The lines on the parameters of a kind. -/
def paramLines : List ParamSpec → List String
  | [] => ["Parameters: none"]
  | params =>
    ["", "Parameters:", "", paramRow "Name" "Type" "Range" "Default" "Out of range",
      paramRow "----" "----" "-----" "-------" "------------"] ++ params.map paramText

/-- Everything about one kind. -/
def kindText (k : Kind) : String :=
  let title := s!"{k.id} ({k.name})"
  unlines ([title, String.ofList (List.replicate title.utf8ByteSize '='), "", k.description, "",
    s!"Category: {k.category.name}", s!"Inputs:   {inputsText k}"] ++ paramLines k.params)

/-- Shows all kinds, or one. -/
def nodes (name : Option String) (json : Bool) : Outcome :=
  match name with
  | none =>
    if json then printedJson (.array (Kind.all.map Kind.toValue)) else .printed catalogText
  | some name =>
    match Kind.ofId? name with
    | none => .failed (.unknownKind name)
    | some k => if json then printedJson k.toValue else .printed (kindText k)

end LedEffect.Command
