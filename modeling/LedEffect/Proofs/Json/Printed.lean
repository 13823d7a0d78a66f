import LedEffect.Proofs.Json.Literals
import LedEffect.Proofs.Json.Strings
import Mathlib.Data.List.DropRight

/-!
# Printed values

The pretty text of a value has a syntax of its own (`document`), which is what a reader finds in it
(`read?_pretty`): the printer leaves nothing to the reader's choice, whatever texts and numbers the value
holds.
-/

namespace LedEffect.Json

/-! ## Syntax -/

mutual

/-- The syntax of the text that a value is printed as. -/
def document : Json → Document
  | null => .null
  | bool b => .bool b
  | integer n => .number (integerLiteral n)
  | double (.finite s m) => .number (decimalLiteral s (m.shortest .even))
  | double _ => .null
  | string s => .string (stringItems s)
  | array items => .array (documents items)
  | object members => .object (memberDocuments members)

/-- The syntax of the elements of an array. -/
def documents : List Json → List Document
  | [] => []
  | item :: items => document item :: documents items

/-- The syntax of the members of an object. -/
def memberDocuments : List (String × Json) → List (List StringItem × Document)
  | [] => []
  | (key, value) :: members => (stringItems key, document value) :: memberDocuments members

end

attribute [local simp] document documents memberDocuments

/-- The line of an element. -/
def itemLine (level : Nat) (item : Json) : List Char := newLine level ++ prettyChars level item

/-- The line of a member. -/
def memberLine (level : Nat) (member : String × Json) : List Char :=
  newLine level ++ (quoted member.1 ++ ':' :: ' ' :: prettyChars level member.2)

lemma prettyItems_eq (level : Nat) (done : List (List Char)) (items : List Json) :
    prettyItems level done items = done.reverse ++ items.map (itemLine level) := by
  induction items generalizing done with
  | nil => simp [prettyItems]
  | cons item items ih => simp [prettyItems, ih, itemLine]

lemma prettyMembers_eq (level : Nat) (done : List (List Char)) (members : List (String × Json)) :
    prettyMembers level done members = done.reverse ++ members.map (memberLine level) := by
  induction members generalizing done with
  | nil => simp [prettyMembers]
  | cons member members ih => simp [prettyMembers, ih, memberLine]

variable {level fuel : Nat} {cs rest : List Char}

section Texts

variable {item : Json} {items : List Json} {member : String × Json} {members : List (String × Json)}

@[simp] lemma prettyChars_null : prettyChars level .null = "null".toList := rfl
@[simp] lemma prettyChars_true : prettyChars level (.bool true) = "true".toList := rfl
@[simp] lemma prettyChars_false : prettyChars level (.bool false) = "false".toList := rfl
@[simp] lemma prettyChars_integer (n : Int) : prettyChars level (.integer n) = integerText n := rfl
@[simp] lemma prettyChars_double (x : Binary64) : prettyChars level (.double x) = doubleText x := rfl
@[simp] lemma prettyChars_string (s : String) : prettyChars level (.string s) = quoted s := rfl
@[simp] lemma prettyChars_array_nil : prettyChars level (.array []) = ['[', ']'] := rfl
@[simp] lemma prettyChars_object_nil : prettyChars level (.object []) = ['\x7b', '\x7d'] := rfl

lemma prettyChars_array_cons : prettyChars level (.array (item :: items)) =
    '[' :: (List.intercalate [','] ((item :: items).map (itemLine (level + 1))) ++
      (newLine level ++ [']'])) := by
  have lines := prettyItems_eq (level + 1) [] (item :: items)
  rw [List.reverse_nil, List.nil_append] at lines
  rw [← lines]
  rfl

lemma prettyChars_object_cons : prettyChars level (.object (member :: members)) =
    '\x7b' :: (List.intercalate [','] ((member :: members).map (memberLine (level + 1))) ++
      (newLine level ++ ['\x7d'])) := by
  have lines := prettyMembers_eq (level + 1) [] (member :: members)
  rw [List.reverse_nil, List.nil_append] at lines
  rw [← lines]
  rfl

end Texts

/-! ## Blanks -/

section Blanks

attribute [local simp] readValue? readElements? readMembers?

lemma skipSpace_newLine (level : Nat) (cs : List Char) :
    skipSpace (newLine level ++ cs) = skipSpace cs := by
  refine List.dropWhile_append_of_pos fun c mem => ?_
  rcases List.mem_cons.1 mem with rfl | mem
  · rfl
  · rw [List.eq_of_mem_replicate mem]
    rfl

lemma skipSpace_cons {c : Char} (solid : isSpace c = false) (cs : List Char) :
    skipSpace (c :: cs) = c :: cs := by
  simp [skipSpace, solid]

lemma skipSpace_skipSpace (cs : List Char) : skipSpace (skipSpace cs) = skipSpace cs :=
  List.dropWhile_idempotent isSpace cs

lemma readValue?_skipSpace (fuel : Nat) (cs : List Char) :
    readValue? fuel (skipSpace cs) = readValue? fuel cs := by
  cases fuel with
  | zero => rfl
  | succ fuel => rw [readValue?, readValue?, skipSpace_skipSpace]

/-- The blanks before a value are of no account. -/
lemma readValue?_newLine (fuel level : Nat) (cs : List Char) :
    readValue? fuel (newLine level ++ cs) = readValue? fuel cs := by
  rw [← readValue?_skipSpace, skipSpace_newLine, readValue?_skipSpace]

lemma readElements?_skipSpace (fuel : Nat) (done : List Document) (cs : List Char) :
    readElements? fuel done (skipSpace cs) = readElements? fuel done cs := by
  cases fuel with
  | zero => rfl
  | succ fuel => rw [readElements?, readElements?, readValue?_skipSpace]

lemma readMembers?_skipSpace (fuel : Nat) (done : List (List StringItem × Document))
    (cs : List Char) : readMembers? fuel done (skipSpace cs) = readMembers? fuel done cs := by
  cases fuel with
  | zero => rfl
  | succ fuel => rw [readMembers?, readMembers?, skipSpace_skipSpace]

end Blanks

/-! ## Beginnings -/

/-- Whether a text begins with neither a blank nor the end of a container. -/
def Opens (cs : List Char) : Prop :=
  ∃ c more, cs = c :: more ∧ isSpace c = false ∧ c ≠ ']' ∧ c ≠ '\x7d'

/-- Whether a value that begins with a character is a number. -/
structure Numeric (c : Char) : Prop where
  solid : isSpace c = false
  letters : c ≠ '\x22' ∧ c ≠ 'n' ∧ c ≠ 't' ∧ c ≠ 'f'
  containers : c ≠ '[' ∧ c ≠ ']' ∧ c ≠ '\x7b' ∧ c ≠ '\x7d'

lemma numeric_of_isDigit {c : Char} (digit : c.isDigit = true) : Numeric c := by
  have other : ∀ d : Char, d.isDigit = false → c ≠ d := by
    rintro d none rfl
    exact Bool.noConfusion (digit.symm.trans none)
  refine ⟨?_, ⟨other _ rfl, other _ rfl, other _ rfl, other _ rfl⟩,
    ⟨other _ rfl, other _ rfl, other _ rfl, other _ rfl⟩⟩
  simp [isSpace, other ' ' rfl, other '\n' rfl, other '\t' rfl, other '\r' rfl]

lemma numeric_minus : Numeric '-' := ⟨rfl, by decide, by decide⟩

/-- The text of a well-formed literal begins with a digit or a sign. -/
lemma exists_numeric {n : NumberLiteral} (form : n.WellFormed) :
    ∃ c more, n.text = c :: more ∧ Numeric c := by
  obtain ⟨c, cs, whole, digit⟩ := form.exists_digit
  unfold NumberLiteral.text NumberLiteral.body
  split
  · exact ⟨_, _, rfl, numeric_minus⟩
  · exact ⟨c, _, by rw [whole, List.cons_append], numeric_of_isDigit digit⟩

lemma opens_text {n : NumberLiteral} (form : n.WellFormed) : Opens n.text := by
  obtain ⟨c, more, eq, numeric⟩ := exists_numeric form
  exact ⟨c, more, eq, numeric.solid, numeric.containers.2.1, numeric.containers.2.2.2⟩

lemma opens_cons {c : Char} {more : List Char} (solid : isSpace c = false) (bracket : c ≠ ']')
    (brace : c ≠ '\x7d') : Opens (c :: more) :=
  ⟨c, more, rfl, solid, bracket, brace⟩

/-- The text of a value begins with the value. -/
lemma opens_prettyChars (level : Nat) (j : Json) : Opens (prettyChars level j) := by
  cases j with
  | null => exact opens_cons rfl (by decide) (by decide)
  | bool b => cases b <;> exact opens_cons rfl (by decide) (by decide)
  | integer n =>
    rw [prettyChars_integer, ← text_integerLiteral]
    exact opens_text (wellFormed_integerLiteral n)
  | double x =>
    cases x with
    | finite s m =>
      rw [prettyChars_double, ← text_decimalLiteral]
      exact opens_text (wellFormed_decimalLiteral s _)
    | _ => exact opens_cons rfl (by decide) (by decide)
  | string s => exact opens_cons rfl (by decide) (by decide)
  | array items => cases items <;> exact opens_cons rfl (by decide) (by decide)
  | object members => cases members <;> exact opens_cons rfl (by decide) (by decide)

lemma skipSpace_opens (opens : Opens cs) : skipSpace (cs ++ rest) = cs ++ rest := by
  obtain ⟨c, more, rfl, solid, -⟩ := opens
  exact skipSpace_cons solid _

/-! ## Values -/

/-- A well-formed literal is read as a number. -/
lemma readValue?_text {n : NumberLiteral} (form : n.WellFormed) (ends : Ends rest) :
    readValue? (fuel + 1) (n.text ++ rest) = some (.number n, rest) := by
  have number := readNumber?_text form ends
  rw [readValue?, skipSpace_opens (opens_text form)]
  obtain ⟨c, more, eq, numeric⟩ := exists_numeric form
  obtain ⟨quote, n, t, f⟩ := numeric.letters
  obtain ⟨bracket, -, brace, -⟩ := numeric.containers
  rw [eq, List.cons_append] at number ⊢
  simp [quote, n, t, f, bracket, brace, number]

/-- Whether a value is read out of its text in whatever stands behind it. -/
def Readable (level : Nat) (j : Json) : Prop :=
  ∀ {fuel rest}, (prettyChars level j).length < fuel → Ends rest →
    readValue? fuel (prettyChars level j ++ rest) = some (document j, rest)

lemma documents_eq (items : List Json) : documents items = items.map document := by
  induction items with
  | nil => rfl
  | cons item items ih => rw [documents, ih, List.map_cons]

lemma memberDocuments_eq (members : List (String × Json)) : memberDocuments members =
    members.map fun member => (stringItems member.1, document member.2) := by
  induction members with
  | nil => rfl
  | cons member members ih => rw [memberDocuments, ih, List.map_cons]

lemma ends_newLine (level : Nat) (cs : List Char) : Ends (newLine level ++ cs) :=
  ends_cons (by decide)

/-- The line of an element is read as the element. -/
lemma readElements?_line {inner : Nat} {item : Json} (readable : Readable inner item)
    {done : List Document} (enough : (itemLine inner item).length ≤ fuel) (ends : Ends rest) :
    readElements? (fuel + 1) done (itemLine inner item ++ rest) =
      match skipSpace rest with
      | ']' :: rest => some ((document item :: done).reverse, rest)
      | ',' :: rest => readElements? fuel (document item :: done) rest
      | _ => none := by
  rw [itemLine, List.length_append, newLine, List.length_cons] at enough
  rewrite [itemLine, List.append_assoc, readElements?, readValue?_newLine, readable (by omega) ends]
  rfl

lemma length_le_escaped (cs : List Char) : cs.length ≤ (cs.flatMap escapeChar).length := by
  induction cs with
  | nil => exact Nat.le_refl _
  | cons c cs ih =>
    have some : 0 < (escapeChar c).length := by grind [escapeChar]
    rw [List.flatMap_cons, List.length_append, List.length_cons]
    omega

/-- The line of a member is read as the member. -/
lemma readMembers?_line {inner : Nat} {member : String × Json} (readable : Readable inner member.2)
    {done : List (List StringItem × Document)} (enough : (memberLine inner member).length ≤ fuel)
    (ends : Ends rest) :
    readMembers? (fuel + 1) done (memberLine inner member ++ rest) =
      match skipSpace rest with
      | '\x7d' :: rest => some (((stringItems member.1, document member.2) :: done).reverse, rest)
      | ',' :: rest => readMembers? fuel ((stringItems member.1, document member.2) :: done) rest
      | _ => none := by
  obtain ⟨key, value⟩ := member
  have escaped := length_le_escaped key.toList
  simp only [memberLine, quoted, newLine, List.length_append, List.length_cons] at enough
  have items := @readItems?_quoted fuel [] (':' :: ' ' :: (prettyChars inner value ++ rest))
    key.toList (by omega)
  have blank : ∀ cs, readValue? fuel (' ' :: cs) = readValue? fuel cs := by
    intro cs
    rw [← readValue?_skipSpace, ← readValue?_skipSpace fuel cs]
    rfl
  have line : skipSpace (memberLine inner (key, value) ++ rest) = '\x22' ::
      (key.toList.flatMap escapeChar ++ '\x22' :: ':' :: ' ' :: (prettyChars inner value ++ rest)) := by
    rw [memberLine, List.append_assoc, skipSpace_newLine]
    simp [quoted, skipSpace_cons (c := '\x22') rfl]
  have read : readValue? fuel (prettyChars inner value ++ rest) = some (document value, rest) :=
    readable (by dsimp only; omega) ends
  rw [readMembers?, line]
  simp only [items, skipSpace_cons (c := ':') rfl, blank, read]
  rfl

/-- The lines of elements are read one after the other. -/
lemma readElements?_lines {inner : Nat} {items : List Json} (some : items ≠ [])
    (readable : ∀ item ∈ items, Readable inner item) {done : List Document}
    (enough : (List.intercalate [','] (items.map (itemLine inner))).length < fuel) :
    readElements? fuel done (List.intercalate [','] (items.map (itemLine inner)) ++
      (newLine level ++ ']' :: rest)) = .some (done.reverse ++ documents items, rest) := by
  induction items generalizing fuel done with
  | nil => exact absurd rfl some
  | cons item items ih =>
    obtain ⟨here, readable⟩ := List.forall_mem_cons.1 readable
    obtain ⟨fuel, rfl⟩ := Nat.exists_eq_succ_of_ne_zero (Nat.ne_of_gt (Nat.zero_lt_of_lt enough))
    cases items with
    | nil =>
      rw [List.map_singleton, List.intercalate_singleton] at enough ⊢
      rw [readElements?_line here (by omega) (ends_newLine _ _)]
      simp [skipSpace_newLine, skipSpace_cons (c := ']') rfl, documents]
    | cons next items =>
      rw [List.map_cons, List.map_cons, List.intercalate_cons_cons, ← List.map_cons] at enough ⊢
      rw [List.length_append, List.length_append, List.length_singleton] at enough
      rw [List.append_assoc, List.append_assoc, List.singleton_append,
        readElements?_line here (by omega) (ends_cons (by decide))]
      simp only [skipSpace_cons (c := ',') rfl]
      rw [ih (List.cons_ne_nil _ _) readable (by omega)]
      simp [documents_eq]

/-- The lines of members are read one after the other. -/
lemma readMembers?_lines {inner : Nat} {members : List (String × Json)} (some : members ≠ [])
    (readable : ∀ member ∈ members, Readable inner member.2)
    {done : List (List StringItem × Document)}
    (enough : (List.intercalate [','] (members.map (memberLine inner))).length < fuel) :
    readMembers? fuel done (List.intercalate [','] (members.map (memberLine inner)) ++
      (newLine level ++ '\x7d' :: rest)) = .some (done.reverse ++ memberDocuments members, rest) := by
  induction members generalizing fuel done with
  | nil => exact absurd rfl some
  | cons member members ih =>
    obtain ⟨here, readable⟩ := List.forall_mem_cons.1 readable
    obtain ⟨fuel, rfl⟩ := Nat.exists_eq_succ_of_ne_zero (Nat.ne_of_gt (Nat.zero_lt_of_lt enough))
    cases members with
    | nil =>
      rw [List.map_singleton, List.intercalate_singleton] at enough ⊢
      rw [readMembers?_line here (by omega) (ends_newLine _ _)]
      simp [skipSpace_newLine, skipSpace_cons (c := '\x7d') rfl]
    | cons next members =>
      rw [List.map_cons, List.map_cons, List.intercalate_cons_cons, ← List.map_cons] at enough ⊢
      rw [List.length_append, List.length_append, List.length_singleton] at enough
      rw [List.append_assoc, List.append_assoc, List.singleton_append,
        readMembers?_line here (by omega) (ends_cons (by decide))]
      simp only [skipSpace_cons (c := ',') rfl]
      rw [ih (List.cons_ne_nil _ _) readable (by omega)]
      simp [memberDocuments_eq]

lemma exists_intercalate (first : List Char) (lines : List (List Char)) :
    ∃ more, List.intercalate [','] (first :: lines) = first ++ more := by
  cases lines with
  | nil => exact ⟨[], by rw [List.intercalate_singleton, List.append_nil]⟩
  | cons next lines => exact ⟨_, by rw [List.intercalate_cons_cons, List.append_assoc]⟩

/-- A container that is not empty begins with an element or a member. -/
lemma opens_lines (opens : Opens cs) (level : Nat) (lines : List (List Char)) (rest : List Char) :
    Opens (skipSpace (List.intercalate [','] ((newLine level ++ cs) :: lines) ++ rest)) := by
  obtain ⟨more, eq⟩ := exists_intercalate (newLine level ++ cs) lines
  rw [eq, List.append_assoc, List.append_assoc, skipSpace_newLine, skipSpace_opens opens]
  obtain ⟨c, tail, rfl, first⟩ := opens
  exact ⟨c, _, rfl, first⟩

variable {inner : Nat} {items : List Json} {members : List (String × Json)}

lemma readable_array (inside : ∀ item ∈ items, Readable (level + 1) item) :
    Readable level (.array items) := by
  intro fuel rest enough ends
  obtain ⟨fuel, rfl⟩ := Nat.exists_eq_succ_of_ne_zero (Nat.ne_of_gt (Nat.zero_lt_of_lt enough))
  cases items with
  | nil =>
    simp [readValue?, skipSpace_cons (c := '[') rfl, skipSpace_cons (c := ']') rfl]
  | cons item items =>
    rw [prettyChars_array_cons] at enough ⊢
    rw [List.length_cons, List.length_append] at enough
    have read := @readElements?_lines level fuel rest (level + 1) (item :: items)
      (List.cons_ne_nil _ _) inside [] (by omega)
    obtain ⟨c, more, eq, -, bracket, -⟩ := opens_lines (opens_prettyChars (level + 1) item)
      (level + 1) (items.map (itemLine (level + 1))) (newLine level ++ ']' :: rest)
    rw [← readElements?_skipSpace] at read
    rw [List.map_cons, itemLine] at read
    simp only [List.map_cons, itemLine]
    rw [eq] at read
    simp [readValue?, skipSpace_cons (c := '[') rfl, eq, bracket, read]

lemma readable_object (inside : ∀ member ∈ members, Readable (level + 1) member.2) :
    Readable level (.object members) := by
  intro fuel rest enough ends
  obtain ⟨fuel, rfl⟩ := Nat.exists_eq_succ_of_ne_zero (Nat.ne_of_gt (Nat.zero_lt_of_lt enough))
  cases members with
  | nil =>
    simp [readValue?, skipSpace_cons (c := '\x7b') rfl, skipSpace_cons (c := '\x7d') rfl]
  | cons member members =>
    rw [prettyChars_object_cons] at enough ⊢
    rw [List.length_cons, List.length_append] at enough
    have read := @readMembers?_lines level fuel rest (level + 1) (member :: members)
      (List.cons_ne_nil _ _) inside [] (by omega)
    have key : Opens (quoted member.1 ++ ':' :: ' ' :: prettyChars (level + 1) member.2) :=
      opens_cons rfl (by decide) (by decide)
    obtain ⟨c, more, eq, -, -, brace⟩ := opens_lines key (level + 1)
      (members.map (memberLine (level + 1))) (newLine level ++ '\x7d' :: rest)
    rw [← readMembers?_skipSpace] at read
    rw [List.map_cons, memberLine] at read
    simp only [List.map_cons, memberLine]
    rw [eq] at read
    simp [readValue?, skipSpace_cons (c := '\x7b') rfl, eq, brace, read]

/-- The pretty text of a value is read as its syntax. -/
theorem readable : ∀ (j : Json) (level : Nat), Readable level j
  | .null, level, fuel + 1, rest, _, _ => by
    simp [readValue?, skipSpace_cons (c := 'n') rfl, dropText?]
  | .bool b, level, fuel + 1, rest, _, _ => by
    cases b
    · simp [readValue?, skipSpace_cons (c := 'f') rfl, dropText?]
    · simp [readValue?, skipSpace_cons (c := 't') rfl, dropText?]
  | .integer n, level, fuel + 1, rest, _, ends => by
    rw [prettyChars_integer, ← text_integerLiteral, document]
    exact readValue?_text (wellFormed_integerLiteral n) ends
  | .double x, level, fuel + 1, rest, _, ends => by
    cases x with
    | finite s m =>
      rw [prettyChars_double, ← text_decimalLiteral, document]
      exact readValue?_text (wellFormed_decimalLiteral s _) ends
    | _ => simp [doubleText, readValue?, skipSpace_cons (c := 'n') rfl, dropText?]
  | .string s, level, fuel + 1, rest, enough, _ => by
    have escaped := length_le_escaped s.toList
    simp only [prettyChars_string, quoted, List.length_cons, List.length_append] at enough
    have items := @readItems?_quoted fuel [] rest s.toList (by omega)
    simp [quoted, readValue?, skipSpace_cons (c := '\x22') rfl, items, stringItems]
  | .array items, level, _, _, enough, ends =>
    readable_array (fun item mem => readable item (level + 1)) enough ends
  | .object members, level, _, _, enough, ends =>
    readable_object (fun member mem => readable member.2 (level + 1)) enough ends
termination_by j => sizeOf j
decreasing_by
  · have := List.sizeOf_lt_of_mem mem
    simp only [Json.array.sizeOf_spec]
    omega
  · have := List.sizeOf_lt_of_mem mem
    obtain ⟨key, value⟩ := member
    simp only [Json.object.sizeOf_spec, Prod.mk.sizeOf_spec] at *
    omega

/-- A number ends before a blank. -/
lemma ends_blanks {blanks : List Char} (blank : ∀ c ∈ blanks, isSpace c = true) : Ends blanks := by
  intro c first
  have space := blank c (List.mem_of_mem_head? first)
  simp only [isSpace, Bool.or_eq_true, beq_iff_eq] at space
  rcases space with ((rfl | rfl) | rfl) | rfl <;> decide

/-- Blanks behind the pretty text of a value are of no account. -/
theorem read?_pretty_append (j : Json) {blanks : String}
    (blank : ∀ c ∈ blanks.toList, isSpace c = true) :
    Document.read? (j.pretty ++ blanks) = some (document j) := by
  have enough : (prettyChars 0 j).length < 3 * (prettyChars 0 j ++ blanks.toList).length + 3 := by
    rw [List.length_append]
    omega
  have read := readable j 0 enough (ends_blanks blank)
  have rest : skipSpace blanks.toList = [] := List.dropWhile_eq_nil_iff.2 blank
  rw [Document.read?, pretty, String.toList_append, String.toList_ofList]
  simp only [read, rest]
  rfl

/-- A reader finds the syntax of a value in its pretty text. -/
theorem read?_pretty (j : Json) : Document.read? j.pretty = some (document j) := by
  have read : Document.read? (j.pretty ++ "") = some (document j) := read?_pretty_append j nofun
  rwa [String.append_empty] at read

end LedEffect.Json
