import LedEffect.Proofs.Settings.RoundTrip
import LedEffect.Proofs.Traversal

/-!
# Settings as overrides of the defaults

A document sets some of the settings, and what is read from it are the defaults, overridden at those
(`ofTable?_eq_some`). The text of settings sets all of them, so that it is read as the settings
(`settings_reread`).
-/

namespace LedEffect.Settings

open Toml

/-- What may be set. -/
structure Overrides where
  frameBudgetMs : Option Binary64
  opsPerMs : Option Binary64
  target : Symbol → Option String
  costModel : Option String

/-- The defaults, overridden at what is set. -/
def Overrides.settings (o : Overrides) : Settings where
  frameBudgetMs := o.frameBudgetMs.getD default.frameBudgetMs
  opsPerMs := o.opsPerMs.getD default.opsPerMs
  target := ⟨fun symbol => (o.target symbol).getD (default.target.name symbol)⟩
  costModel := o.costModel.or default.costModel

/-! ## Values -/

/-- Whether a value is a text. -/
inductive Textual : Value → String → Prop
  | string (s : String) : Textual (.string s) s

/-- Whether a value is a number, as a float or as an integer. -/
inductive Numeric : Value → Binary64 → Prop
  | float (x : Binary64) : Numeric (.float x) x
  | integer (n : Int) : Numeric (.integer n) (.ofInt n)

/-- Whether a section that is there or missing has fields: those of a table, those that the elements of an
array stand for, or none. -/
inductive Lists (names : List String) : Option Value → Table → Prop
  | missing : Lists names none []
  | table (form : Form) (entries : Table) : Lists names (some (.table form entries)) entries
  | array (items : List Value) : Lists names (some (.array items)) (names.zip items)
  | dateTime (text : String) : Lists names (some (.dateTime text)) []

variable {fields root : Table} {name : String} {names : List String} {s : Settings} {v : Value}

lemma text?_eq_some {text : String} : v.text? = some text ↔ Textual v text := by
  constructor
  · intro taken
    cases v with
    | string s =>
      obtain rfl := Option.some_inj.1 taken
      exact .string s
    | _ => cases taken
  · rintro ⟨s⟩
    rfl

lemma double?_eq_some {x : Binary64} : v.double? = some x ↔ Numeric v x := by
  constructor
  · intro taken
    cases v with
    | float y =>
      obtain rfl := Option.some_inj.1 taken
      exact .float y
    | integer n =>
      obtain rfl := Option.some_inj.1 taken
      exact .integer n
    | _ => cases taken
  · rintro (x | n)
    · rfl
    · rfl

lemma section?_eq_some : section? root name names = some fields ↔ Lists names (root.get? name) fields := by
  rw [section?, field?]
  cases root.get? name with
  | none =>
    rw [Option.some_inj]
    constructor
    · rintro rfl
      exact .missing
    · rintro ⟨⟩
      rfl
  | some v =>
    constructor
    · intro taken
      cases v with
      | table form entries =>
        obtain rfl := Option.some_inj.1 taken
        exact .table form entries
      | array items =>
        obtain rfl := Option.some_inj.1 taken
        exact .array items
      | dateTime text =>
        obtain rfl := Option.some_inj.1 taken
        exact .dateTime text
      | _ => cases taken
    · rintro (_ | _ | _ | _) <;> rfl

/-- A field with a default has what it is set to, or else the default. -/
lemma field?_eq_some {α : Type} {take : Value → Option α} {R : Value → α → Prop} {default a : α}
    (each : ∀ v a, take v = some a ↔ R v a) : field? fields name default take = some a ↔
      ∃ said, Option.Rel R (fields.get? name) said ∧ a = said.getD default := by
  rw [field?]
  cases fields.get? name with
  | none =>
    rw [Option.some_inj]
    constructor
    · rintro rfl
      exact ⟨none, .none, rfl⟩
    · rintro ⟨_, ⟨⟩, rfl⟩
      rfl
  | some v =>
    constructor
    · intro taken
      exact ⟨some a, .some ((each v a).1 taken), rfl⟩
    · rintro ⟨_, ⟨related⟩, rfl⟩
      exact (each _ _).2 related

/-- A field that may be missing has just what it is set to. -/
lemma optional_eq_some {α : Type} {take : Value → Option α} {R : Value → α → Prop} {said : Option α}
    (each : ∀ v a, take v = some a ↔ R v a) :
    field? fields name none (fun v => (take v).map some) = some said ↔
      Option.Rel R (fields.get? name) said := by
  rw [field?]
  cases fields.get? name with
  | none =>
    rw [Option.some_inj]
    constructor
    · rintro rfl
      exact .none
    · rintro ⟨⟩
      rfl
  | some v =>
    dsimp only
    rw [Option.map_eq_some_iff]
    constructor
    · rintro ⟨a, taken, rfl⟩
      exact .some ((each v a).1 taken)
    · rintro ⟨related⟩
      exact ⟨_, (each _ _).2 related, rfl⟩

/-! ## Documents -/

/-- Whether the table of a document sets just these: what is missing from it is not set, and what is there has a
value of its kind. -/
structure Sets (root : Table) (o : Overrides) : Prop where
  budget : ∃ fields, Lists ["frame_budget_ms", "ops_per_ms"] (root.get? "budget") fields ∧
    Option.Rel Numeric (fields.get? "frame_budget_ms") o.frameBudgetMs ∧
    Option.Rel Numeric (fields.get? "ops_per_ms") o.opsPerMs
  target : ∃ fields, Lists (Symbol.all.map Symbol.field) (root.get? "target") fields ∧
    ∀ symbol, Option.Rel Textual (fields.get? symbol.field) (o.target symbol)
  cost : ∃ fields, Lists ["model"] (root.get? "cost") fields ∧
    Option.Rel Textual (fields.get? "model") o.costModel

/-- The settings of a document are the defaults, overridden at what it sets. -/
lemma ofTable?_eq_some : ofTable? root = some s ↔ ∃ o, Sets root o ∧ s = o.settings := by
  have no_model : default.costModel = none := rfl
  unfold ofTable?
  simp only [Option.bind_eq_bind, Option.bind_eq_some_iff, Option.pure_def, Option.some_inj, section?_eq_some,
    field?_eq_some fun _ _ => double?_eq_some, profile?_eq_some,
    field?_eq_some fun _ _ => text?_eq_some, optional_eq_some fun _ _ => text?_eq_some]
  constructor
  · rintro ⟨budget, hb, target, ht, cost, hc, _, ⟨frame, hf, rfl⟩, _, ⟨ops, ho, rfl⟩, profile, hp, model, hm,
      rfl⟩
    choose names said eq using hp
    refine ⟨⟨frame, ops, names, model⟩, ⟨⟨budget, hb, hf, ho⟩, ⟨target, ht, said⟩, cost, hc, hm⟩, ?_⟩
    obtain rfl : profile = ⟨fun symbol => (names symbol).getD symbol.defaultName⟩ :=
      congrArg TargetProfile.mk (funext eq)
    rw [Overrides.settings, no_model, Option.or_none]
    rfl
  · rintro ⟨o, sets, rfl⟩
    obtain ⟨budget, hb, hf, ho⟩ := sets.budget
    obtain ⟨target, ht, hp⟩ := sets.target
    obtain ⟨cost, hc, hm⟩ := sets.cost
    refine ⟨budget, hb, target, ht, cost, hc, _, ⟨_, hf, rfl⟩, _, ⟨_, ho, rfl⟩, o.settings.target,
      fun symbol => ⟨_, hp symbol, rfl⟩, _, hm, ?_⟩
    rw [Overrides.settings, no_model, Option.or_none]

/-! ## Texts -/

/-- What sections write under a key of a section, if anything. -/
def written (sections : List Section) (name key : String) : Option Scalar :=
  (sections.find? fun t => t.name == name).bind fun t =>
    (t.entries.find? fun entry => entry.1 == key).map (·.2)

/-- Whether sections set just these settings. They may stand in any order, and so may their keys,
and there may be others. -/
structure Writes (sections : List Section) (o : Overrides) : Prop where
  frameBudgetMs : written sections "budget" "frame_budget_ms" = o.frameBudgetMs.map .float
  opsPerMs : written sections "budget" "ops_per_ms" = o.opsPerMs.map .float
  target : ∀ symbol, written sections "target" symbol.field = (o.target symbol).map .string
  costModel : written sections "cost" "model" = o.costModel.map .string

/-- The fields of a section that is read for printed sections are what they write under its name. -/
lemma exists_written (sections : List Section) (name : String) (names : List String) :
    ∃ fields, Lists names
      (Table.get? (sections.map fun t => (t.name, .table .header t.table)) name) fields ∧
        ∀ key, fields.get? key = (written sections name key).map Scalar.value := by
  have found : Table.get? (sections.map fun t => (t.name, .table .header t.table)) name =
      (sections.find? fun t => t.name == name).map fun t => .table .header t.table := by
    rw [Table.get?, List.find?_map, Option.map_map]
    rfl
  simp only [found, written]
  cases sections.find? fun t => t.name == name with
  | none => exact ⟨[], .missing, fun _ => rfl⟩
  | some t =>
    refine ⟨t.table, .table .header t.table, fun key => ?_⟩
    rw [Table.get?, Section.table, List.find?_map, Option.map_map, Option.bind_some, Option.map_map]
    rfl

lemma Writes.sets {sections : List Section} {o : Overrides} (writes : Writes sections o) :
    Sets (sections.map fun t => (t.name, .table .header t.table)) o := by
  have number (said : Option Binary64) :
      Option.Rel Numeric ((said.map .float).map Scalar.value) said := by
    cases said with
    | none => exact .none
    | some x => exact .some (.float x)
  have text (said : Option String) : Option.Rel Textual ((said.map .string).map Scalar.value) said := by
    cases said with
    | none => exact .none
    | some s => exact .some (.string s)
  obtain ⟨budget, hb, budget_get?⟩ := exists_written sections "budget" ["frame_budget_ms", "ops_per_ms"]
  obtain ⟨target, ht, target_get?⟩ := exists_written sections "target" (Symbol.all.map Symbol.field)
  obtain ⟨cost, hc, cost_get?⟩ := exists_written sections "cost" ["model"]
  refine ⟨⟨budget, hb, ?_, ?_⟩, ⟨target, ht, fun symbol => ?_⟩, cost, hc, ?_⟩
  · rw [budget_get?, writes.frameBudgetMs]
    exact number _
  · rw [budget_get?, writes.opsPerMs]
    exact number _
  · rw [target_get?, writes.target]
    exact text _
  · rw [cost_get?, writes.costModel]
    exact text _

/-- Settings are read from a text just when it is a document that sets some of them, and are the defaults
otherwise. -/
lemma ofToml_eq_ok {text : String} : ofToml text = .ok s ↔
    ∃ root o, Table.read? text = some root ∧ Sets root o ∧ s = o.settings := by
  unfold ofToml
  cases Table.read? text with
  | none => exact iff_of_false nofun nofun
  | some root =>
    rw [Option.bind_some]
    constructor
    · intro taken
      split at taken
      next s' found =>
        obtain rfl := Except.ok.inj taken
        obtain ⟨o, sets, eq⟩ := ofTable?_eq_some.1 found
        exact ⟨root, o, rfl, sets, eq⟩
      next => cases taken
    · rintro ⟨_, o, ⟨⟩, sets, eq⟩
      rw [ofTable?_eq_some.2 ⟨o, sets, eq⟩]

/-- Settings that are valid are read from their text as they were, so that they are still valid and give the
same estimator and profile. Settings are read from a text just when it is a document whose sections and keys,
as far as they are there, have values of their kind, and then they are the defaults, overridden at those keys.
So it is for every text that consists of sections with any of the keys. -/
theorem settings_reread :
    (∀ s : Settings, s.validate = .ok () → ∃ read, ofToml s.toToml = .ok read ∧ read = s ∧
      read.validate = .ok () ∧ read.estimator = s.estimator ∧ read.target = s.target) ∧
    (∀ text s, ofToml text = .ok s ↔
      ∃ root o, Table.read? text = some root ∧ Sets root o ∧ s = o.settings) ∧
    ∀ sections o, (∀ t ∈ sections, t.Plain) → (sections.map (·.name)).Nodup → Writes sections o →
      ofToml (printSections sections) = .ok o.settings := by
  refine ⟨fun s valid => ⟨s, ofToml_toToml s, rfl, valid, rfl, rfl⟩, fun text s => ofToml_eq_ok, ?_⟩
  intro sections o plain distinct writes
  exact ofToml_eq_ok.2 ⟨_, o, read?_printSections plain distinct, writes.sets, rfl⟩

/-- Settings with a path that needs quotes and escapes. -/
def renamed : Settings :=
  ⟨0.1, 1e300, TargetProfile.default.rename .leds "strip", some "C:\\models\\\"old\".json\n"⟩

/-- Sections in another order, with a key that is not known and an empty section that is not. -/
def partialSections : List Section :=
  [⟨"cost", [("model", .string "m.json"), ("extra", .float 1)]⟩, ⟨"display", []⟩,
    ⟨"budget", [("ops_per_ms", .float 0.5)]⟩]

/-- Settings are read from their own text, from sections that set two of them, and from a document with an
inline table and an integer. -/
theorem renamed_reread :
    (∃ read, ofToml renamed.toToml = .ok read ∧ read = renamed ∧ read.validate = .ok () ∧
      read.estimator = renamed.estimator ∧ read.target = renamed.target) ∧
    (∃ s root o, ofToml "budget = \x7b frame_budget_ms = 8 \x7d # short\n[target]\nleds = 'strip'\n" = .ok s ∧
      s.frameBudgetMs = 8 ∧ s.target.name .leds = "strip" ∧ Sets root o ∧ s = o.settings) ∧
    ofToml (printSections partialSections) =
      .ok { default with opsPerMs := 0.5, costModel := some "m.json" } := by
  obtain ⟨printed, parsed, overridden⟩ := settings_reread
  obtain ⟨⟨⟩, valid⟩ := exists_of_isOk (show renamed.validate.isOk = true by decide +kernel)
  refine ⟨printed renamed valid, ?_, ?_⟩
  · obtain ⟨s, read, seen⟩ := exists_of_any
      (x := ofToml "budget = \x7b frame_budget_ms = 8 \x7d # short\n[target]\nleds = 'strip'\n")
      (p := fun s => s.frameBudgetMs = 8 ∧ s.target.name .leds = "strip") (by decide +kernel)
    obtain ⟨budget, leds⟩ := of_decide_eq_true seen
    obtain ⟨root, o, -, sets, eq⟩ := (parsed _ s).1 read
    exact ⟨s, root, o, read, budget, leds, sets, eq⟩
  · exact overridden partialSections ⟨none, some 0.5, fun _ => none, some "m.json"⟩ (by decide) (by decide)
      ⟨rfl, rfl, fun symbol => by cases symbol <;> rfl, rfl⟩

end LedEffect.Settings
