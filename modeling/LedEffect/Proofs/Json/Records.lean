import LedEffect.Proofs.Json.Doubles
import LedEffect.Proofs.Keyed

/-!
# Records read back

What the decoders of records make of the syntax of a printed value: a number, text, list or collection is
taken as it was printed (`natural?_natural`, `text?_string`, `list?_array`, `entries?_object`), and a
required field of a record is the printed member of its name (`required?_object`). Records may leave out
fields that have a default or may be absent (`optional?_present`, `nullable?_text`).
-/

namespace LedEffect

namespace Json

open Document

variable {α : Type} {take : Document → Option α} {n limit : Nat} {x : Binary64}
  {members : List (String × Json)} {names : List String}

/-! ## Numbers and texts -/

/-- A natural number up to a limit is taken from a literal that is a whole number and nothing else. -/
lemma natural?_eq_some {d : Document} : d.natural? limit = some n ↔
    ∃ literal, d = .number literal ∧ literal.value? = some (.integer n) ∧ n ≤ limit := by
  constructor
  · intro read
    cases d with
    | number literal =>
      rw [natural?] at read
      split at read
      next i value =>
        split_ifs at read with inside
        obtain rfl := Option.some_inj.1 read
        rw [← Int.toNat_of_nonneg inside.1] at value inside
        exact ⟨literal, rfl, value, by omega⟩
      next => cases read
    | _ => cases read
  · rintro ⟨literal, rfl, value, inside⟩
    have inside : (0 : Int) ≤ n ∧ (n : Int) ≤ limit := by omega
    rw [natural?, value]
    exact if_pos inside

lemma natural?_natural (small : n ≤ wordLimit) (inside : n ≤ limit) :
    (document (.natural n)).natural? limit = some n := by
  rw [natural, document]
  exact natural?_eq_some.2 ⟨_, rfl, value?_integerLiteral small, inside⟩

/-- A natural number is taken up to its limit only. -/
lemma le_of_natural? {d : Document} (read : d.natural? limit = some n) : n ≤ limit := by
  obtain ⟨-, -, -, inside⟩ := natural?_eq_some.1 read
  exact inside

/-- What is not finite is printed as null, which is no number. -/
lemma reread?_eq_none (infinite : x.isFinite = false) : x.reread? = none := by
  cases x with
  | finite s m => cases infinite
  | _ => rfl

lemma text?_string (s : String) : (document (.string s)).text? = some s := decodeText?_items s

/-! ## Lists and collections -/

/-- A list is taken element by element. -/
lemma list?_array (take : Document → Option α) (items : List Json) :
    (document (.array items)).list? take = items.mapM fun item => take (document item) := by
  rw [document, list?, documents_eq, List.mapM_map]
  rfl

/-- A list of printed elements is taken to what its elements are taken to. -/
lemma list?_map {β : Type} {print : β → Json} {R : β → α → Prop} {bs : List β} {as : List α}
    (each : ∀ b a, take (document (print b)) = some a ↔ R b a) :
    (document (.array (bs.map print))).list? take = some as ↔ List.Forall₂ R bs as := by
  rw [list?_array, List.mapM_map, mapM_eq_some]
  exact ⟨fun related => related.imp fun b a => (each b a).1,
    fun related => related.imp fun b a => (each b a).2⟩

lemma list?_strings (texts : List String) : (document (.strings texts)).list? text? = some texts := by
  rw [strings, list?_array, List.mapM_map, mapM_eq_some]
  exact List.forall₂_same.2 fun s _ => text?_string s

/-- A collection is taken value by value, under the printed keys. -/
lemma entries?_object (take : Document → Option α) (members : List (String × Json)) :
    (document (.object members)).entries? take =
      members.mapM fun member => (take (document member.2)).map (member.1, ·) := by
  rw [document, entries?, memberDocuments_eq, List.mapM_map]
  congr 1
  funext member
  change (do let key ← decodeText? (stringItems member.1); _) = _
  rw [decodeText?_items]
  cases take (document member.2) <;> rfl

/-- A collection of printed values is taken to what its values are taken to, under the same keys. -/
lemma entries?_map {β : Type} {print : β → Json} {R : β → α → Prop} {bs : List (String × β)}
    {as : List (String × α)} (each : ∀ b a, take (document (print b)) = some a ↔ R b a) :
    (document (.object (bs.map fun (key, b) => (key, print b)))).entries? take = some as ↔
      List.Forall₂ (fun b a => a.1 = b.1 ∧ R b.2 a.2) bs as := by
  rw [entries?_object, List.mapM_map, mapM_eq_some]
  refine iff_of_eq (congrArg (List.Forall₂ · _ _) ?_)
  funext (key, b) (key', a)
  simp only [Function.comp_apply, Option.map_eq_some_iff, Prod.mk.injEq]
  refine propext ⟨?_, ?_⟩
  · rintro ⟨_, taken, rfl, rfl⟩
    exact ⟨rfl, (each b _).1 taken⟩
  · rintro ⟨rfl, related⟩
    exact ⟨a, (each b a).2 related, rfl, rfl⟩

/-! ## Records -/

/-- The fields of a printed record. -/
def fields (members : List (String × Json)) : List (String × Document) :=
  members.map fun member => (member.1, document member.2)

/-- A record with different known fields is taken with all of them. -/
lemma record?_object (known : ∀ member ∈ members, member.1 ∈ names)
    (distinct : (members.map (·.1)).Nodup) :
    (document (.object members)).record? names = some (fields members) := by
  have unfolded : (Document.object (memberDocuments members)).record? names =
      ((memberDocuments members).mapM fun member => (decodeText? member.1).map (·, member.2)).bind
        fun read => if ((read.filter fun field => names.contains field.1).map (·.1)).Nodup then
          some (read.filter fun field => names.contains field.1) else none := rfl
  have read : ((memberDocuments members).mapM fun member =>
      (decodeText? member.1).map (·, member.2)) = some (fields members) := by
    rw [memberDocuments_eq, List.mapM_map, mapM_eq_some, fields, List.forall₂_map_right_iff]
    refine List.forall₂_same.2 fun member _ => ?_
    simp [decodeText?_items]
  have all : ((fields members).filter fun field => names.contains field.1) = fields members := by
    rw [List.filter_eq_self]
    intro field mem
    obtain ⟨member, listed, rfl⟩ := List.mem_map.1 mem
    exact List.contains_iff_mem.2 (known member listed)
  have keys : (fields members).map (·.1) = members.map (·.1) := by
    rw [fields, List.map_map]
    rfl
  rw [document, unfolded, read, Option.bind_some, all, keys, if_pos distinct]

/-- A field holds the printed value of its member. -/
lemma field?_fields (members : List (String × Json)) (name : String) :
    field? (fields members) name =
      (members.find? fun member => member.1 == name).map fun member => document member.2 := by
  rw [field?, fields, List.find?_map, Option.map_map]
  rfl

/-- Of members with different names each is found under its name. -/
lemma find?_member {name : String} {value : Json} (distinct : (members.map (·.1)).Nodup)
    (mem : (name, value) ∈ members) :
    members.find? (fun member => member.1 == name) = some (name, value) := by
  induction members with
  | nil => cases mem
  | cons member members ih =>
    obtain ⟨fresh, distinct⟩ := List.nodup_cons.1 distinct
    rw [List.find?_cons]
    rcases List.mem_cons.1 mem with rfl | mem
    · rw [beq_self_eq_true]
    · have differ : (member.1 == name) = false := by
        rw [beq_eq_false_iff_ne]
        rintro rfl
        exact fresh (List.mem_map.2 ⟨_, mem, rfl⟩)
      rw [differ]
      exact ih distinct mem

/-- A required field is the printed member of its name. -/
lemma required?_object {name : String} {value : Json} (distinct : (members.map (·.1)).Nodup)
    (mem : (name, value) ∈ members) (take : Document → Option α) :
    required? (fields members) name take = take (document value) := by
  rw [required?, field?_fields, find?_member distinct mem]
  rfl

/-- A required field was taken from a document. -/
lemma exists_of_required? {fields : List (String × Document)} {name : String} {a : α}
    (read : required? fields name take = some a) : ∃ d, take d = some a := by
  obtain ⟨d, -, took⟩ := Option.bind_eq_some_iff.1 read
  exact ⟨d, took⟩

/-! ## Records with fields left out -/

variable {named : List (String × Option Json)} {name : String} {value : Option Json}

/-- The members for those fields of a record that are written. -/
def present (named : List (String × Option Json)) : List (String × Json) :=
  named.filterMap fun field => field.2.map (field.1, ·)

lemma keys_present (named : List (String × Option Json)) :
    ((present named).map (·.1)).Sublist (named.map (·.1)) := by
  induction named with
  | nil => exact .slnil
  | cons field named ih =>
    obtain ⟨name, value⟩ := field
    cases value with
    | none => exact ih.cons name
    | some value => exact ih.cons_cons name

/-- A record is taken with the fields that are written. -/
lemma record?_present (distinct : (named.map (·.1)).Nodup) :
    (document (.object (present named))).record? (named.map (·.1)) =
      some (fields (present named)) := by
  refine record?_object (fun member mem => ?_) ((keys_present named).nodup distinct)
  exact (keys_present named).subset (List.mem_map_of_mem mem)

/-- A field holds its printed value if that is written, and is absent otherwise. -/
lemma field?_present (distinct : (named.map (·.1)).Nodup) (mem : (name, value) ∈ named) :
    field? (fields (present named)) name = value.map document := by
  rw [field?_fields]
  cases value with
  | some value =>
    have listed : (name, value) ∈ present named := List.mem_filterMap.2 ⟨_, mem, rfl⟩
    rw [find?_member ((keys_present named).nodup distinct) listed]
    rfl
  | none =>
    have absent : (present named).find? (fun member => member.1 == name) = none := by
      rw [List.find?_eq_none]
      rintro ⟨name', value'⟩ listed same
      obtain rfl := eq_of_beq same
      obtain ⟨field, mem', eq⟩ := List.mem_filterMap.1 listed
      obtain ⟨written, there, eq⟩ := Option.map_eq_some_iff.1 eq
      -- Two fields of one name are one field.
      have one := List.inj_on_of_nodup_map distinct mem mem' (congrArg Prod.fst eq).symm
      rw [← one] at there
      cases there
    rw [absent]
    rfl

lemma required?_present (distinct : (named.map (·.1)).Nodup) {value : Json}
    (mem : (name, some value) ∈ named) (take : Document → Option α) :
    required? (fields (present named)) name take = take (document value) := by
  rw [required?, field?_present distinct mem]
  rfl

/-- A field with a default may be left out when it holds the default. -/
lemma optional?_present (distinct : (named.map (·.1)).Nodup) (mem : (name, value) ∈ named)
    (default : α) (take : Document → Option α) :
    optional? (fields (present named)) name default take =
      value.elim (some default) fun value => take (document value) := by
  rw [optional?, field?_present distinct mem]
  cases value <;> rfl

/-- A field that may be absent or null is read as absent only if it is, unless it is printed as null. -/
lemma nullable?_present (distinct : (named.map (·.1)).Nodup) (mem : (name, value) ∈ named)
    (visible : ∀ j, value = some j → document j ≠ .null) (take : Document → Option α) :
    nullable? (fields (present named)) name take =
      value.elim (some none) fun value => (take (document value)).map some := by
  rw [nullable?, field?_present distinct mem]
  cases value with
  | none => rfl
  | some value =>
    have shown := visible value rfl
    dsimp only [Option.map_some, Option.elim_some]
    split
    next absent => cases absent
    next null => exact absurd (Option.some_inj.1 null) shown
    next d eq =>
      obtain rfl := Option.some_inj.1 eq
      rfl

/-- A field that is a text or absent is read as it was. -/
lemma nullable?_text {text : Option String} (distinct : (named.map (·.1)).Nodup)
    (mem : (name, text.map .string) ∈ named) :
    nullable? (fields (present named)) name text? = some text := by
  rw [nullable?_present distinct mem]
  · cases text with
    | none => rfl
    | some s => exact congrArg (Option.map some) (text?_string s)
  · rintro j eq
    obtain ⟨s, -, rfl⟩ := Option.map_eq_some_iff.1 eq
    nofun

/-- A field that is a list or absent is taken to what its elements are taken to. -/
lemma nullable?_list {β : Type} {print : β → Json} {R : β → α → Prop} {bs : Option (List β)}
    {as : Option (List α)} (distinct : (named.map (·.1)).Nodup)
    (mem : (name, bs.map fun bs => .array (bs.map print)) ∈ named)
    (each : ∀ b a, take (document (print b)) = some a ↔ R b a) :
    nullable? (fields (present named)) name (list? take) = some as ↔
      Option.Rel (List.Forall₂ R) bs as := by
  rw [nullable?_present distinct mem]
  · cases bs with
    | none =>
      rw [Option.map_none, Option.elim_none, Option.some_inj]
      constructor
      · rintro rfl
        exact .none
      · rintro ⟨⟩
        rfl
    | some bs =>
      rw [Option.map_some, Option.elim_some, Option.map_eq_some_iff]
      constructor
      · rintro ⟨as, read, rfl⟩
        exact .some ((list?_map each).1 read)
      · rintro (related | _)
        exact ⟨_, (list?_map each).2 related, rfl⟩
  · rintro j eq
    obtain ⟨bs, -, rfl⟩ := Option.map_eq_some_iff.1 eq
    nofun

end Json

end LedEffect
