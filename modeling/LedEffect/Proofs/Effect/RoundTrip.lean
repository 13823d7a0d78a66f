import LedEffect.Program.Compile
import LedEffect.Proofs.Json.Records
import LedEffect.Proofs.Json.Short

/-!
# Effects printed and read back

The text of an effect is read as the effect, but for its numbers: each becomes the double that its digits
are read as, and nothing is read when one of them has no digits or is read past the largest double
(`ofJson_eq_ok_iff`, `ofJson_eq_malformed_iff`). So an effect comes back unchanged just when its numbers do
(`effect_reread`), as they do when they have few digits (`ofJson_of_short`).
-/

namespace LedEffect

open Json Json.Document

/-! ## Parameters -/

namespace ParamValue

variable {v v' : ParamValue}

/-- What a printed value is read as: a text as the text that it is, even if it writes a number, and a number
as what its digits are read as. -/
inductive Rereads : ParamValue → ParamValue → Prop
  | number {x y : Binary64} (read : x.reread? = some y) : Rereads (.number x) (.number y)
  | text (s : String) : Rereads (.text s) (.text s)

/-- The number that a value is, if it is one. -/
def numbers : ParamValue → List Binary64
  | number x => [x]
  | text _ => []

/-- A number is taken as one whatever its digits are read as. -/
lemma ofDocument?_double (x : Binary64) :
    ofDocument? (document (.double x)) = x.reread?.map number := by
  cases x <;> rfl

lemma ofDocument?_toValue : ofDocument? (document v.toValue) = some v' ↔ v.Rereads v' := by
  cases v with
  | number x =>
    rw [toValue, ofDocument?_double, Option.map_eq_some_iff]
    constructor
    · rintro ⟨y, read, rfl⟩
      exact .number read
    · rintro (read | _)
      exact ⟨_, read, rfl⟩
  | text s =>
    have read : ofDocument? (document (.string s)) = some (.text s) :=
      congrArg (Option.map text) (text?_string s)
    rw [toValue, read, Option.some_inj]
    constructor
    · rintro rfl
      exact .text s
    · rintro (_ | _)
      rfl

lemma rereads_self : v.Rereads v ↔ ∀ x ∈ v.numbers, x.reread? = some x := by
  cases v with
  | number x =>
    rw [numbers, List.forall_mem_singleton]
    exact ⟨fun (.number read) => read, .number⟩
  | text s => exact iff_of_true (.text s) nofun

lemma exists_rereads : (∃ v', v.Rereads v') ↔ ∀ x ∈ v.numbers, ∃ y, x.reread? = some y := by
  cases v with
  | number x =>
    rw [numbers, List.forall_mem_singleton]
    exact ⟨fun ⟨_, .number read⟩ => ⟨_, read⟩, fun ⟨_, read⟩ => ⟨_, .number read⟩⟩
  | text s => exact iff_of_true ⟨_, .text s⟩ nofun

end ParamValue

/-! ## Nodes -/

namespace NodeSpec

variable {n n' : NodeSpec}

/-- What printed parameters are read as, under the same names. -/
def ReadsUnder : List (String × ParamValue) → List (String × ParamValue) → Prop :=
  List.Forall₂ fun p p' => p'.1 = p.1 ∧ p.2.Rereads p'.2

/-- What a printed node is read as: a node that differs in its numbers only. -/
structure Rereads (n n' : NodeSpec) : Prop where
  id : n'.id = n.id
  kind : n'.kind = n.kind
  parameters : ReadsUnder n.parameters.entries n'.parameters.entries
  inputs : n'.inputs = n.inputs
  description : n'.description = n.description

/-- The numbers among the parameters of a node. -/
def numbers (n : NodeSpec) : List Binary64 :=
  n.parameters.entries.flatMap fun p => p.2.numbers

/-- The fields of a printed node, with those that are left out. -/
def named (n : NodeSpec) : List (String × Option Json) :=
  [("id", some (.string n.id)), ("type", some (.string n.kind)),
    ("parameters", if n.parameters.isEmpty then none
      else some (.object (n.parameters.entries.map fun (k, v) => (k, v.toValue)))),
    ("inputs", if n.inputs.isEmpty then none else some (.strings n.inputs)),
    ("description", n.description.map .string)]

lemma toValue_eq (n : NodeSpec) : n.toValue = .object (present n.named) := by
  unfold toValue named optionMember present
  congr 1
  cases n.description <;> split_ifs <;> rfl

/-- What is read under the keys of a collection is a collection. -/
lemma ascending_of_rereads {ps : List (String × ParamValue)} (each : ReadsUnder n.parameters.entries ps) :
    ps.Pairwise fun a b => a.1 < b.1 := by
  have keys : ps.map (·.1) = n.parameters.entries.map (·.1) :=
    Forall₂.map_eq (each.imp fun _ _ related => related.1)
  have ascending := List.pairwise_map.2 n.parameters.ascending
  rw [← keys] at ascending
  exact List.pairwise_map.1 ascending

lemma ofDocument?_toValue : ofDocument? (document n.toValue) = some n' ↔ n.Rereads n' := by
  have distinct : (n.named.map (·.1)).Nodup := by simp [named]
  have taken : (document n.toValue).record? ["id", "type", "parameters", "inputs", "description"] =
      some (fields (present n.named)) := by
    rw [toValue_eq]
    exact record?_present distinct
  have id : required? _ "id" text? = _ :=
    required?_present distinct (.head _) text?
  have kind : required? _ "type" text? = _ :=
    required?_present distinct (.tail _ (.head _)) text?
  have inputs : optional? (fields (present n.named)) "inputs" [] (list? text?) = some n.inputs := by
    rw [optional?_present distinct (.tail _ (.tail _ (.tail _ (.head _))))]
    cases n.inputs with
    | nil => rfl
    | cons input inputs => exact list?_strings _
  have description : nullable? _ "description" text? = _ :=
    nullable?_text distinct (.tail _ (.tail _ (.tail _ (.tail _ (.head _)))))
  have parameters {ps : List (String × ParamValue)} :
      optional? (fields (present n.named)) "parameters" [] (entries? ParamValue.ofDocument?) = some ps ↔
        ReadsUnder n.parameters.entries ps := by
    rw [optional?_present distinct (.tail _ (.tail _ (.head _)))]
    split_ifs with empty
    · have none : n.parameters.entries = [] := List.isEmpty_iff.1 empty
      rw [Option.elim_none, Option.some_inj, none, ReadsUnder, List.forall₂_nil_left_iff]
      exact eq_comm
    · exact entries?_map fun _ _ => ParamValue.ofDocument?_toValue
  rw [ofDocument?, taken, Option.bind_eq_bind, Option.bind_some, id, kind, text?_string, text?_string,
    inputs, description]
  simp only [Option.bind_eq_bind, Option.bind_some, Option.bind_eq_some_iff, Option.pure_def,
    Option.some_inj]
  constructor
  · rintro ⟨ps, read, rfl⟩
    have each := parameters.1 read
    have same : Keyed.ofList ps = ⟨ps, ascending_of_rereads each⟩ := Keyed.ofList_entries ⟨ps, _⟩
    exact ⟨rfl, rfl, by rwa [same], rfl, rfl⟩
  · intro rereads
    refine ⟨n'.parameters.entries, parameters.2 rereads.parameters, ?_⟩
    rw [Keyed.ofList_entries, ← rereads.id, ← rereads.kind, ← rereads.inputs, ← rereads.description]

lemma rereads_self : n.Rereads n ↔ ∀ x ∈ n.numbers, x.reread? = some x := by
  rw [numbers, List.forall_mem_flatMap]
  constructor
  · intro rereads p mem
    exact ParamValue.rereads_self.1 (List.forall₂_same.1 rereads.parameters p mem).2
  · intro same
    refine ⟨rfl, rfl, List.forall₂_same.2 fun p mem => ⟨rfl, ?_⟩, rfl, rfl⟩
    exact ParamValue.rereads_self.2 (same p mem)

lemma exists_rereads : (∃ n', n.Rereads n') ↔ ∀ x ∈ n.numbers, ∃ y, x.reread? = some y := by
  rw [numbers, List.forall_mem_flatMap]
  constructor
  · rintro ⟨n', rereads⟩ p mem
    obtain ⟨p', -, -, read⟩ := Forall₂.exists_mem_right rereads.parameters mem
    exact ParamValue.exists_rereads.1 ⟨_, read⟩
  · intro readable
    have each : ∀ p ∈ n.parameters.entries, ∃ p' : String × ParamValue,
        p'.1 = p.1 ∧ p.2.Rereads p'.2 := by
      intro p mem
      obtain ⟨v, read⟩ := ParamValue.exists_rereads.2 (readable p mem)
      exact ⟨(p.1, v), rfl, read⟩
    obtain ⟨ps, related⟩ := exists_forall₂ each
    exact ⟨{ n with parameters := ⟨ps, ascending_of_rereads related⟩ }, rfl, rfl, related, rfl, rfl⟩

end NodeSpec

/-! ## Wires and palettes -/

namespace WireSpec

/-- The fields of a printed wire, with those that are left out. -/
def named (w : WireSpec) : List (String × Option Json) :=
  [("from", some (.string w.source)), ("to", some (.string w.target)),
    ("description", w.description.map .string)]

lemma toValue_eq (w : WireSpec) : w.toValue = .object (present w.named) := by
  unfold toValue named optionMember present
  cases w.description <;> rfl

/-- A printed wire is read as it was. -/
lemma ofDocument?_toValue (w : WireSpec) : ofDocument? (document w.toValue) = some w := by
  have distinct : (w.named.map (·.1)).Nodup := by simp [named]
  have taken : (document w.toValue).record? ["from", "to", "description"] =
      some (fields (present w.named)) := by
    rw [toValue_eq]
    exact record?_present distinct
  have source : required? _ "from" text? = _ :=
    required?_present distinct (.head _) text?
  have target : required? _ "to" text? = _ :=
    required?_present distinct (.tail _ (.head _)) text?
  have description : nullable? _ "description" text? = _ :=
    nullable?_text distinct (.tail _ (.tail _ (.head _)))
  rw [ofDocument?, taken, Option.bind_eq_bind, Option.bind_some, source, target, text?_string,
    text?_string, description]
  rfl

end WireSpec

namespace PaletteRow

variable {r r' : PaletteRow}

/-- The four numbers of a row. -/
def numbers (r : PaletteRow) : List Binary64 := [r.position, r.red, r.green, r.blue]

/-- What a printed row is read as: its position and its channels as their digits are read. -/
def Rereads (r r' : PaletteRow) : Prop :=
  List.Forall₂ (fun x y => x.reread? = some y) r.numbers r'.numbers

lemma ofDocument?_toValue : ofDocument? (document r.toValue) = some r' ↔ r.Rereads r' := by
  have taken : (document r.toValue).list? double? = r.numbers.mapM Binary64.reread? :=
    list?_array double? (r.numbers.map .double)
  rw [ofDocument?, taken, Rereads, Option.bind_eq_bind, Option.bind_eq_some_iff]
  constructor
  · rintro ⟨ys, read, eq⟩
    split at eq
    · obtain rfl := Option.some_inj.1 eq
      exact mapM_eq_some.1 read
    · cases eq
  · intro rereads
    exact ⟨_, mapM_eq_some.2 rereads, rfl⟩

lemma rereads_self : r.Rereads r ↔ ∀ x ∈ r.numbers, x.reread? = some x := List.forall₂_same

lemma exists_rereads : (∃ r', r.Rereads r') ↔ ∀ x ∈ r.numbers, ∃ y, x.reread? = some y := by
  constructor
  · rintro ⟨r', rereads⟩ x mem
    obtain ⟨y, -, read⟩ := Forall₂.exists_mem_right rereads mem
    exact ⟨y, read⟩
  · intro readable
    obtain ⟨ys, related⟩ := exists_forall₂ readable
    match ys, related with
    | [position, red, green, blue], related => exact ⟨⟨position, red, green, blue⟩, related⟩

end PaletteRow

/-! ## Effects -/

namespace Effect

variable {e e' : Effect}

/-- What a printed effect is read as: an effect that differs in the numbers of its nodes and of its palette
only. Sections that are there stay there, even if they are empty. -/
structure Rereads (e e' : Effect) : Prop where
  name : e'.name = e.name
  description : e'.description = e.description
  palette : e'.palette = e.palette
  paletteData : Option.Rel (List.Forall₂ PaletteRow.Rereads) e.paletteData e'.paletteData
  nodes : List.Forall₂ NodeSpec.Rereads e.nodes e'.nodes
  wires : e'.wires = e.wires

/-- All numbers of an effect. -/
def numbers (e : Effect) : List Binary64 :=
  (e.paletteData.getD []).flatMap PaletteRow.numbers ++ e.nodes.flatMap NodeSpec.numbers

/-- The fields of a printed effect, with those that are left out. -/
def named (e : Effect) : List (String × Option Json) :=
  [("name", e.name.map .string), ("description", e.description.map .string),
    ("palette", e.palette.map .string),
    ("palette_data", e.paletteData.map fun rows => .array (rows.map PaletteRow.toValue)),
    ("nodes", some (.array (e.nodes.map NodeSpec.toValue))),
    ("wires", some (.array (e.wires.map WireSpec.toValue)))]

lemma toValue_eq (e : Effect) : e.toValue = .object (present e.named) := by
  unfold toValue named optionMember present
  cases e.name <;> cases e.description <;> cases e.palette <;> cases e.paletteData <;> rfl

/-- The text of an effect holds the effect, with what the digits of its numbers are read as. -/
lemma ofDocument?_toValue : ofDocument? (document e.toValue) = some e' ↔ e.Rereads e' := by
  have distinct : (e.named.map (·.1)).Nodup := by simp [named]
  have taken : (document e.toValue).record?
      ["name", "description", "palette", "palette_data", "nodes", "wires"] =
        some (fields (present e.named)) := by
    rw [toValue_eq]
    exact record?_present distinct
  have name : nullable? _ "name" text? = _ := nullable?_text distinct (.head _)
  have description : nullable? _ "description" text? = _ := nullable?_text distinct (.tail _ (.head _))
  have palette : nullable? _ "palette" text? = _ :=
    nullable?_text distinct (.tail _ (.tail _ (.head _)))
  have rows {rows'} : nullable? (fields (present e.named)) "palette_data"
      (list? PaletteRow.ofDocument?) = some rows' ↔
        Option.Rel (List.Forall₂ PaletteRow.Rereads) e.paletteData rows' :=
    nullable?_list distinct (.tail _ (.tail _ (.tail _ (.head _))))
      fun _ _ => PaletteRow.ofDocument?_toValue
  have nodes {nodes'} : optional? (fields (present e.named)) "nodes" []
      (list? NodeSpec.ofDocument?) = some nodes' ↔ List.Forall₂ NodeSpec.Rereads e.nodes nodes' := by
    rw [optional?_present distinct (.tail _ (.tail _ (.tail _ (.tail _ (.head _)))))]
    exact list?_map fun _ _ => NodeSpec.ofDocument?_toValue
  have wires : optional? (fields (present e.named)) "wires" [] (list? WireSpec.ofDocument?) =
      some e.wires := by
    rw [optional?_present distinct (.tail _ (.tail _ (.tail _ (.tail _ (.tail _ (.head _))))))]
    refine (list?_map fun w w' => ?_).2 (List.forall₂_same.2 fun w _ => Eq.refl w)
    rw [WireSpec.ofDocument?_toValue, Option.some_inj]
  rw [ofDocument?, taken, Option.bind_eq_bind, Option.bind_some, name, description, palette, wires]
  simp only [Option.bind_eq_bind, Option.bind_some, Option.bind_eq_some_iff, Option.pure_def,
    Option.some_inj, rows, nodes]
  constructor
  · rintro ⟨rows', rows, nodes', nodes, rfl⟩
    exact ⟨rfl, rfl, rfl, rows, nodes, rfl⟩
  · intro rereads
    refine ⟨_, rereads.paletteData, _, rereads.nodes, ?_⟩
    rw [← rereads.name, ← rereads.description, ← rereads.palette, ← rereads.wires]

lemma rereads_self : e.Rereads e ↔ ∀ x ∈ e.numbers, x.reread? = some x := by
  have rows : Option.Rel (List.Forall₂ PaletteRow.Rereads) e.paletteData e.paletteData ↔
      ∀ r ∈ e.paletteData.getD [], r.Rereads r := by
    cases e.paletteData with
    | none => exact iff_of_true .none fun r mem => absurd mem List.not_mem_nil
    | some rows =>
      have same := @List.forall₂_same _ PaletteRow.Rereads rows
      exact ⟨fun (.some each) => same.1 each, fun each => .some (same.2 each)⟩
  rw [numbers, List.forall_mem_append, List.forall_mem_flatMap, List.forall_mem_flatMap]
  constructor
  · intro rereads
    have nodes := List.forall₂_same.1 rereads.nodes
    exact ⟨fun r mem => PaletteRow.rereads_self.1 (rows.1 rereads.paletteData r mem),
      fun n mem => NodeSpec.rereads_self.1 (nodes n mem)⟩
  · rintro ⟨palette, nodes⟩
    have each : List.Forall₂ NodeSpec.Rereads e.nodes e.nodes :=
      List.forall₂_same.2 fun n mem => NodeSpec.rereads_self.2 (nodes n mem)
    exact ⟨rfl, rfl, rfl, rows.2 fun r mem => PaletteRow.rereads_self.2 (palette r mem), each, rfl⟩

lemma exists_rereads : (∃ e', e.Rereads e') ↔ ∀ x ∈ e.numbers, ∃ y, x.reread? = some y := by
  rw [numbers, List.forall_mem_append, List.forall_mem_flatMap, List.forall_mem_flatMap]
  constructor
  · rintro ⟨e', rereads⟩
    constructor
    · intro r mem
      have palette := rereads.paletteData
      cases written : e.paletteData with
      | none =>
        rw [written] at mem
        cases mem
      | some rows =>
        rw [written] at mem palette
        generalize e'.paletteData = rows' at palette
        obtain ⟨each⟩ := palette
        obtain ⟨r', -, read⟩ := Forall₂.exists_mem_right each mem
        exact PaletteRow.exists_rereads.1 ⟨r', read⟩
    · intro n mem
      obtain ⟨n', -, read⟩ := Forall₂.exists_mem_right rereads.nodes mem
      exact NodeSpec.exists_rereads.1 ⟨n', read⟩
  · rintro ⟨palette, nodes⟩
    obtain ⟨nodes', read⟩ :=
      exists_forall₂ fun n mem => NodeSpec.exists_rereads.2 (nodes n mem)
    have rows : ∃ rows', Option.Rel (List.Forall₂ PaletteRow.Rereads) e.paletteData rows' := by
      cases written : e.paletteData with
      | none => exact ⟨none, .none⟩
      | some rows =>
        rw [written] at palette
        obtain ⟨rows', each⟩ :=
          exists_forall₂ fun r mem => PaletteRow.exists_rereads.2 (palette r mem)
        exact ⟨some rows', .some each⟩
    obtain ⟨rows', each⟩ := rows
    exact ⟨{ e with paletteData := rows', nodes := nodes' }, rfl, rfl, rfl, each, read, rfl⟩

/-! ## Texts -/

lemma ofJson_eq_ok_iff : ofJson e.toJson = .ok e' ↔ e.Rereads e' := by
  rw [ofJson, toJson, read?_pretty, Option.bind_some, ← ofDocument?_toValue]
  cases ofDocument? (document e.toValue) with
  | none => exact iff_of_false nofun nofun
  | some read => rw [Except.ok.injEq, Option.some_inj]

/-- A text is malformed or holds an effect. -/
lemma ofJson_eq_malformed {text : String} :
    ofJson text = .error .malformed ↔ ¬ ∃ e, ofJson text = .ok e := by
  unfold ofJson
  cases (Document.read? text).bind ofDocument? with
  | none => exact iff_of_true rfl nofun
  | some e => exact iff_of_false nofun (not_not_intro ⟨e, rfl⟩)

/-- The text of an effect is malformed when one of its numbers is not read. -/
lemma ofJson_eq_malformed_iff :
    ofJson e.toJson = .error .malformed ↔ ∃ x ∈ e.numbers, x.reread? = none := by
  simp only [ofJson_eq_malformed, ofJson_eq_ok_iff, exists_rereads, not_forall, exists_prop,
    ← Option.isSome_iff_exists, Option.not_isSome_iff_eq_none]

/-- An effect whose numbers have few digits is read from its text as it was. -/
theorem ofJson_of_short (short : ∀ x ∈ e.numbers, ∃ negative m,
    x = .finite negative m ∧ (m.shortest .even).Short) : ofJson e.toJson = .ok e := by
  rw [ofJson_eq_ok_iff, rereads_self]
  intro x mem
  obtain ⟨negative, m, rfl, digits⟩ := short x mem
  exact Binary64.reread?_of_short digits

/-- The text of an effect is read as an effect that differs in what the digits of its numbers are read as
only; it is malformed when one of the numbers is not read. An effect all of whose numbers are finite is read
as it was if the finite ones among them are read as they were, and compiles to what it did. -/
theorem effect_reread (e : Effect) :
    (∀ e', ofJson e.toJson = .ok e' ↔ e.Rereads e') ∧
    (ofJson e.toJson = .error .malformed ↔ ∃ x ∈ e.numbers, x.reread? = none) ∧
    ((∀ x ∈ e.numbers, x.isFinite = true) →
      (∀ x ∈ e.numbers, x.isFinite = true → x.reread? = some x) →
        ofJson e.toJson = .ok e ∧
          ∀ target, (ofJson e.toJson >>= compile target) = compile target e) := by
  refine ⟨fun e' => ofJson_eq_ok_iff, ofJson_eq_malformed_iff, fun finite faithful => ?_⟩
  have read : ofJson e.toJson = .ok e :=
    ofJson_eq_ok_iff.2 (rereads_self.2 fun x mem => faithful x mem (finite x mem))
  refine ⟨read, fun target => ?_⟩
  rw [read]
  rfl

/-- An effect with an empty name and empty palette data, and with texts that write numbers. -/
def patchwork : Effect where
  name := some ""
  description := none
  palette := some "λ\"\n"
  paletteData := some []
  nodes := [
    ⟨"bass", "spectrum-bin", .ofList [("bin", .text "4"), ("", .number (-0)), ("gain", .text " 2.5 ")], [],
      some ""⟩,
    ⟨"glow", "scale", .ofList [("factor", .number 0.1)], ["bass", ""], none⟩,
    ⟨"paint", "palette-interpolate", .empty, [], none⟩]
  wires := [⟨"glow", "paint", some "\x00"⟩]

/-- The patchwork is read as it was, and compiles to what it did. -/
theorem patchwork_reread : ofJson patchwork.toJson = .ok patchwork ∧
    ∀ target, (ofJson patchwork.toJson >>= compile target) = compile target patchwork := by
  obtain ⟨-, -, same⟩ := effect_reread patchwork
  exact same (by decide +kernel) (by decide +kernel)

end Effect

end LedEffect
