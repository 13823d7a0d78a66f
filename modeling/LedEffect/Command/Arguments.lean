import LedEffect.Number.Text

/-!
# Command-line arguments

A command line names a command, with options before or after it. `--config` and `--verbose` may
stand at both places, and the later place wins. An option is refused when it is unknown, repeated,
or has a value that it cannot take; `--verbose` alone may be repeated. After `--` everything is an
operand. Asking for help or for the version ends the reading at once.
-/

namespace LedEffect

-- Powers are those of the core library, whatever else is in scope.
attribute [local instance (2000)] instPowNat

/-- An option of some command. -/
inductive Switch
  | config
  | verbose
  | help
  | version
  | output
  | json
  | strict
  | stats
  | source
  | base
  | costModel
deriving DecidableEq

namespace Switch

def long : Switch → String
  | config => "config"
  | verbose => "verbose"
  | help => "help"
  | version => "version"
  | output => "output"
  | json => "json"
  | strict => "strict"
  | stats => "stats"
  | source => "source"
  | base => "base"
  | costModel => "cost-model"

def short? : Switch → Option Char
  | verbose => some 'v'
  | help => some 'h'
  | version => some 'V'
  | output => some 'o'
  | _ => none

def takesValue : Switch → Bool
  | config | output | source | base | costModel => true
  | _ => false

end Switch

/-- The commands. -/
inductive Verb
  | check
  | analyze
  | estimate
  | compile
  | calibrate
  | nodes
  | report
deriving DecidableEq

namespace Verb

def all : List Verb := [check, analyze, estimate, compile, calibrate, nodes, report]

def name : Verb → String
  | check => "check"
  | analyze => "analyze"
  | estimate => "estimate"
  | compile => "compile"
  | calibrate => "calibrate"
  | nodes => "nodes"
  | report => "report"

def summary : Verb → String
  | check => "Validate a CSR graph and print its health summary"
  | analyze => "Run traversals and ordering on a CSR graph"
  | estimate => "Estimate the per-frame cost of an effect"
  | compile => "Compile an effect to firmware code"
  | calibrate => "Build a cost model from timing samples"
  | nodes => "List node kinds and their parameters"
  | report => "Combined health, estimate and compile summary as JSON"

def ofName? (name : String) : Option Verb := all.find? fun v => v.name == name

/-- The options of a command besides those that every command has. -/
def switches : Verb → List Switch
  | check => [.json]
  | analyze => [.source, .json]
  | estimate => [.costModel, .json, .strict]
  | compile => [.output, .stats]
  | calibrate => [.base, .output]
  | nodes => [.json]
  | report => [.costModel]

/-- What stands for the operand in a usage line. -/
def operandName : Verb → String
  | check | analyze => "<GRAPH>"
  | estimate | compile | report => "<EFFECT>"
  | calibrate => "<SAMPLES>"
  | nodes => "[KIND]"

end Verb

/-- A request with everything that its options say. -/
inductive Request
  | check (graph : String) (json : Bool)
  | analyze (graph : String) (source : Nat) (json : Bool)
  | estimate (effect : String) (costModel : Option String) (json strict : Bool)
  | compile (effect : String) (output : Option String) (stats : Bool)
  | calibrate (samples : String) (base output : Option String)
  | nodes (kind : Option String) (json : Bool)
  | report (effect : String) (costModel : Option String)

/-- A command line that was understood. -/
structure Invocation where
  config : Option String
  verbose : Bool
  request : Request

/-- Why a command line is not carried out. -/
inductive Refusal
  | usage
  | help (verb : Option Verb)
  | version

namespace Arguments

/-- The options that count after the name of a command, or before any. -/
def switches : Option Verb → List Switch
  | none => [.config, .verbose, .help, .version]
  | some verb => verb.switches ++ [.config, .verbose, .help]

/-- Whether a text can be an operand. Only the name of a node kind may be empty. -/
def acceptsOperand (verb : Option Verb) (text : String) : Bool :=
  match verb with
  | none => false
  | some verb => verb = .nodes || text != ""

/-- What was read on one side of the name of a command: the options in their order with their
values, and the operand. -/
structure Found where
  given : List (Switch × String)
  operand : Option String

namespace Found

def empty : Found := ⟨[], none⟩

def has (f : Found) (s : Switch) : Bool := f.given.any fun entry => entry.1 == s

def value? (f : Found) (s : Switch) : Option String :=
  (f.given.find? fun entry => entry.1 == s).map (·.2)

end Found

/-- A node number: an integer with an optional sign, from zero up to the greatest 32-bit word. -/
def readNode? (text : String) : Option Nat :=
  let (negative, digits) := takeSign text.toList
  if digits.isEmpty || !digits.all Char.isDigit then none
  else
    let n := numberOf digits
    if n < 2 ^ (32 : Nat) ∧ (negative → n = 0) then some n else none

/-- Whether a text can be the value of an option; paths are not empty. -/
def acceptsValue (s : Switch) (text : String) : Bool :=
  if s = .source then (readNode? text).isSome else text != ""

/-- Adds an option with its value, which is empty for one that takes none. -/
def Found.add (verb : Option Verb) (f : Found) (s : Switch) (value : String) :
    Except Refusal Found :=
  match s with
  | .help => .error (.help verb)
  | .version => .error .version
  | .verbose => .ok { f with given := f.given ++ [(s, value)] }
  | _ =>
    if f.has s || (s.takesValue && !acceptsValue s value) then .error .usage
    else .ok { f with given := f.given ++ [(s, value)] }

/-- Adds an operand; there is at most one. -/
def Found.addOperand (verb : Option Verb) (f : Found) (text : String) : Except Refusal Found :=
  if f.operand.isSome || !acceptsOperand verb text then .error .usage
  else .ok { f with operand := some text }

/-- Reads the letters of an argument that starts with one hyphen. The answer is the option that
still lacks its value, if there is one. -/
def readLetters (verb : Option Verb) (f : Found) :
    List Char → Except Refusal (Found × Option Switch)
  | [] => .ok (f, none)
  | c :: cs =>
    match (switches verb).find? fun s => s.short? == some c with
    | none => .error .usage
    | some s =>
      if s.takesValue then
        match cs with
        | [] => .ok (f, some s)
        | '=' :: value => return (← f.add verb s (String.ofList value), none)
        | value => return (← f.add verb s (String.ofList value), none)
      else
        match f.add verb s "" with
        | .error refusal => .error refusal
        | .ok f => readLetters verb f cs

/-- Reads an argument that starts with two hyphens, without them. -/
def readLong (verb : Option Verb) (f : Found) (cs : List Char) :
    Except Refusal (Found × Option Switch) :=
  let (name, rest) := cs.span (· != '=')
  match (switches verb).find? fun s => s.long == String.ofList name with
  | none => .error .usage
  | some s =>
    match rest with
    | [] => if s.takesValue then .ok (f, some s) else return (← f.add verb s "", none)
    | _ :: value =>
      if s.takesValue then return (← f.add verb s (String.ofList value), none) else .error .usage

/-- Reads an argument that starts with a hyphen. -/
def readSwitch (verb : Option Verb) (f : Found) (arg : String) :
    Except Refusal (Found × Option Switch) :=
  match arg.toList with
  | '-' :: '-' :: cs => readLong verb f cs
  | cs => readLetters verb f (cs.drop 1)

/-- Whether an argument is read as an option; a single hyphen is not. -/
def looksLikeSwitch (arg : String) : Bool :=
  match arg.toList with
  | '-' :: _ :: _ => true
  | _ => false

/-- Reads arguments up to the name of a command; the answer then holds what follows that name.
After the name of a command all that is no option is an operand. -/
def scan (verb : Option Verb) (f : Found) :
    List String → Except Refusal (Found × Option (String × List String))
  | [] => .ok (f, none)
  | arg :: rest =>
    if arg = "--" then return (← rest.foldlM (Found.addOperand verb) f, none)
    else if looksLikeSwitch arg then
      match readSwitch verb f arg, rest with
      | .error refusal, _ => .error refusal
      | .ok (f, none), rest => scan verb f rest
      | .ok (_, some _), [] => .error .usage
      | .ok (f, some s), value :: rest =>
        if looksLikeSwitch value then .error .usage
        else
          match f.add verb s value with
          | .error refusal => .error refusal
          | .ok f => scan verb f rest
    else if verb.isNone then .ok (f, some (arg, rest))
    else
      match f.addOperand verb arg with
      | .error refusal => .error refusal
      | .ok f => scan verb f rest

/-- The request of a command with its options. -/
def request? (verb : Verb) (f : Found) : Option Request :=
  match verb, f.operand with
  | .nodes, kind => some (.nodes kind (f.has .json))
  | _, none => none
  | .check, some graph => some (.check graph (f.has .json))
  | .analyze, some graph =>
    some (.analyze graph (((f.value? .source).bind readNode?).getD 0) (f.has .json))
  | .estimate, some effect =>
    some (.estimate effect (f.value? .costModel) (f.has .json) (f.has .strict))
  | .compile, some effect => some (.compile effect (f.value? .output) (f.has .stats))
  | .calibrate, some samples => some (.calibrate samples (f.value? .base) (f.value? .output))
  | .report, some effect => some (.report effect (f.value? .costModel))

/-- The name of the command that explains the others. -/
def helpName : String := "help"

/-- Reads the topic after `help`. -/
def readTopic : List String → Refusal
  | [] => .help none
  | [topic] =>
    match Verb.ofName? topic with
    | some verb => .help (some verb)
    | none => if topic = helpName then .help none else .usage
  | _ => .usage

end Arguments

open Arguments in
/-- Reads a command line. -/
def Invocation.ofArguments (args : List String) : Except Refusal Invocation := do
  match ← scan none .empty args with
  | (_, none) => .error .usage
  | (outer, some (name, rest)) =>
    if name = helpName then .error (readTopic rest)
    else
      match Verb.ofName? name with
      | none => .error .usage
      | some verb =>
        let (inner, _) ← scan (some verb) .empty rest
        match request? verb inner with
        | none => .error .usage
        | some request =>
          return ⟨(inner.value? .config).or (outer.value? .config),
            inner.has .verbose || outer.has .verbose, request⟩

end LedEffect
