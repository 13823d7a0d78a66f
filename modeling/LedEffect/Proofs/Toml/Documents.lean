import LedEffect.Proofs.Toml.Floats
import LedEffect.Proofs.Toml.Strings

/-!
# TOML documents

Sections with plain names and keys, no two alike, are read back as tables under their names
(`read?_printSections`). Each line is read on its own, and each header then takes the assignments up
to the next one.
-/

namespace LedEffect.Toml

variable {key : String} {rest : List Char}

/-! ## Keys -/

/-- Whether a text may be a key without quotes. -/
structure IsPlainKey (key : String) : Prop where
  nonempty : key.toList ≠ []
  bare : ∀ c ∈ key.toList, isBare c = true

instance : Decidable (IsPlainKey key) :=
  decidable_of_iff (key.toList ≠ [] ∧ key.toList.all isBare = true)
    ⟨fun ⟨nonempty, bare⟩ => ⟨nonempty, List.all_eq_true.1 bare⟩,
      fun plain => ⟨plain.nonempty, List.all_eq_true.2 plain.bare⟩⟩

lemma not_mark_of_isBare {c : Char} (bare : isBare c = true) :
    c ∉ ['\x22', '\'', '[', ' ', '\t', '#', '\n', '\r'] := by
  intro mark
  simp only [List.mem_cons, List.not_mem_nil, or_false] at mark
  rcases mark with rfl | rfl | rfl | rfl | rfl | rfl | rfl | rfl <;> cases bare

/-- A plain key begins with none of the characters that mark something else. -/
lemma IsPlainKey.exists_cons (plain : IsPlainKey key) : ∃ c cs, key.toList = c :: cs ∧
    c ∉ ['\x22', '\'', '[', ' ', '\t', '#', '\n', '\r'] := by
  obtain ⟨c, cs, eq⟩ := List.exists_cons_of_ne_nil plain.nonempty
  exact ⟨c, cs, eq, not_mark_of_isBare (plain.bare c (eq ▸ List.mem_cons_self))⟩

lemma skipSpace_cons {c : Char} (solid : isSpace c = false) (cs : List Char) :
    skipSpace (c :: cs) = c :: cs := List.dropWhile_cons_of_neg (by simp [solid])

lemma isSpace_eq_false {c : Char} (mark : c ∉ ['\x22', '\'', '[', ' ', '\t', '#', '\n', '\r']) :
    isSpace c = false := by
  simp only [List.mem_cons, List.not_mem_nil, or_false, not_or] at mark
  simp [isSpace, mark]

lemma IsPlainKey.readPart? (plain : IsPlainKey key) (ends : ∀ c ∈ rest.head?, isBare c = false) :
    readPart? (key.toList ++ rest) = some (key, rest) := by
  have span : (key.toList ++ rest).span isBare = (key.toList, rest) := by
    have none : rest.takeWhile isBare = [] ∧ rest.dropWhile isBare = rest := by
      cases rest with
      | nil => exact ⟨rfl, rfl⟩
      | cons c rest => simp [ends c rfl]
    rw [List.span_eq_takeWhile_dropWhile, List.takeWhile_append_of_pos plain.bare,
      List.dropWhile_append_of_pos plain.bare, none.1, none.2, List.append_nil]
  obtain ⟨c, cs, eq, mark⟩ := plain.exists_cons
  simp only [List.mem_cons, not_or] at mark
  rw [Toml.readPart?, span]
  · split
    next empty => exact absurd (Prod.mk.inj empty).1 plain.nonempty
    next found =>
      obtain ⟨rfl, rfl⟩ := Prod.mk.inj found
      rw [String.ofList_toList]
  · rw [eq]
    rintro _ ⟨⟩
    exact mark.1 rfl
  · rw [eq]
    rintro _ ⟨⟩
    exact mark.2.1 rfl

/-- A plain key before blanks and a character that does not continue it. -/
lemma IsPlainKey.readKey? {c : Char} {more : List Char} (plain : IsPlainKey key)
    (ends : ∀ c ∈ rest.head?, isBare c = false) (behind : skipSpace rest = c :: more)
    (last : c ≠ '.') : readKey? (key.toList ++ rest) = some ([key], c :: more) := by
  obtain ⟨first, cs, eq, mark⟩ := plain.exists_cons
  have solid : skipSpace (key.toList ++ rest) = key.toList ++ rest := by
    rw [eq, List.cons_append, skipSpace_cons (isSpace_eq_false mark)]
  rw [Toml.readKey?, keyLimit, readParts?, solid, plain.readPart? ends]
  simp only [behind]
  split
  next dotted => exact absurd (List.cons.inj dotted).1 last
  next => rfl

/-! ## Values -/

/-- The value that is read for a printed one. -/
def Scalar.value : Scalar → Value
  | float x => .float x
  | string s => .string s

lemma exists_stringText (s : String) :
    ∃ quote more, (quote = '\x22' ∨ quote = '\'') ∧ (stringText s).toList = quote :: more := by
  rw [stringText, String.toList_ofList]
  cases (styleOf s.toList).escapes <;> cases (styleOf s.toList).long <;>
    simp [List.replicate]

/-- The text of a double does not begin with a blank. -/
lemma exists_floatText (x : Binary64) :
    ∃ c more, isSpace c = false ∧ (floatText x).toList = c :: more := by
  cases x with
  | nan negative => cases negative <;> exact ⟨_, _, rfl, rfl⟩
  | infinite negative => cases negative <;> exact ⟨_, _, rfl, rfl⟩
  | finite negative m =>
    obtain ⟨n, d, form, -, -, -, text⟩ := exists_literal negative m
    obtain ⟨c, cs, whole, digit⟩ := form.exists_digit
    rw [text, form.text_eq, whole]
    cases n.negative with
    | true => exact ⟨'-', _, rfl, rfl⟩
    | false =>
      refine ⟨c, _, ?_, rfl⟩
      by_contra blank
      simp only [isSpace, Bool.or_eq_false_iff, beq_eq_false_iff_ne, not_and_or, not_not] at blank
      rcases blank with rfl | rfl <;> cases digit

lemma exists_text (v : Scalar) : ∃ c more, isSpace c = false ∧ v.text.toList = c :: more := by
  cases v with
  | float x => exact exists_floatText x
  | string s =>
    obtain ⟨quote, more, mark, eq⟩ := exists_stringText s
    exact ⟨quote, more, by rcases mark with rfl | rfl <;> rfl, eq⟩

/-- A printed value is read up to the end of its line. -/
lemma readValue?_text (v : Scalar) (fuel depth : Nat) (rest : List Char) :
    readValue? (fuel + 1) depth (v.text.toList ++ '\n' :: rest) = some (v.value, '\n' :: rest) := by
  cases v with
  | float x => exact readValue?_float fuel depth x rest
  | string s =>
    have read := readString?_stringText s rest
    obtain ⟨quote, more, mark, eq⟩ := exists_stringText s
    rw [Scalar.text, Scalar.value, eq, List.cons_append]
    rw [eq, List.cons_append] at read
    simp [readValue?, mark, read]

/-! ## Lines -/

namespace Section

/-- The table that is read for a printed section. -/
def table (s : Section) : Table := s.entries.map fun (key, v) => (key, v.value)

/-- The line of a key and its value. -/
def entryChars (entry : String × Scalar) : List Char :=
  entry.1.toList ++ ' ' :: '=' :: ' ' :: (entry.2.text.toList ++ ['\n'])

def entryLine (entry : String × Scalar) : Line := .assignment [entry.1] entry.2.value

/-- The lines that are read for a printed section. -/
def lines (s : Section) : List Line := .header .table [s.name] :: s.entries.map entryLine

/-- Whether the name and the keys of a section are plain and no two keys are alike. -/
structure Plain (s : Section) : Prop where
  name : IsPlainKey s.name
  keys : ∀ entry ∈ s.entries, IsPlainKey entry.1
  distinct : (s.entries.map (·.1)).Nodup

instance (s : Section) : Decidable s.Plain :=
  decidable_of_iff
    (IsPlainKey s.name ∧ (∀ entry ∈ s.entries, IsPlainKey entry.1) ∧ (s.entries.map (·.1)).Nodup)
    ⟨fun ⟨name, keys, distinct⟩ => ⟨name, keys, distinct⟩,
      fun plain => ⟨plain.name, plain.keys, plain.distinct⟩⟩

lemma toList_text (s : Section) : s.text.toList =
    '[' :: (s.name.toList ++ ']' :: '\n' :: s.entries.flatMap entryChars) := by
  have entries : (s.entries.map fun (key, v) => s!"{key} = {v.text}\n").flatMap String.toList =
      s.entries.flatMap entryChars := by
    rw [List.flatMap_map]
    exact List.flatMap_congr fun entry _ => by simp [toString, entryChars]
  rw [text, String.toList_join, List.flatMap_cons, entries]
  simp [toString]

end Section

lemma endLine?_newline (rest : List Char) : endLine? ('\n' :: rest) = some rest := rfl

section Line

attribute [local simp] readLine?

/-- The line of a key and its value is read as an assignment. -/
lemma readLine?_entry {entry : String × Scalar} (plain : IsPlainKey entry.1) (rest : List Char) :
    readLine? (Section.entryChars entry ++ rest) = some (Section.entryLine entry, rest) := by
  obtain ⟨key, v⟩ := entry
  obtain ⟨first, cs, eq, mark⟩ := plain.exists_cons
  simp only [List.mem_cons, not_or] at mark
  obtain ⟨c, more, solid, text⟩ := exists_text v
  have value (fuel) := readValue?_text v fuel nestingLimit rest
  have behind : skipSpace (v.text.toList ++ '\n' :: rest) = v.text.toList ++ '\n' :: rest := by
    rw [text]
    exact skipSpace_cons solid _
  have blank : skipSpace (' ' :: (v.text.toList ++ '\n' :: rest)) = v.text.toList ++ '\n' :: rest :=
    (List.dropWhile_cons_of_pos rfl).trans behind
  have name : readKey? (key.toList ++ ' ' :: '=' :: ' ' :: (v.text.toList ++ '\n' :: rest)) =
      some ([key], '=' :: ' ' :: (v.text.toList ++ '\n' :: rest)) :=
    plain.readKey? (by simp [isBare]) rfl (by decide)
  have chars : Section.entryChars (key, v) ++ rest = first :: (cs ++ ' ' :: '=' :: ' ' ::
      (v.text.toList ++ '\n' :: rest)) := by simp [Section.entryChars, eq]
  rw [eq, List.cons_append] at name
  rw [chars, readLine?]
  · simp [name, skipChar?, blank, value, endLine?_newline, Section.entryLine]
  · exact fun _ same => mark.2.2.1 (List.cons.inj same).1
  · exact fun _ same => mark.2.2.1 (List.cons.inj same).1

/-- The line of a name between brackets is read as a header. -/
lemma readLine?_header (plain : IsPlainKey key) (rest : List Char) :
    readLine? ('[' :: (key.toList ++ ']' :: '\n' :: rest)) =
      some (.header .table [key], rest) := by
  obtain ⟨first, cs, eq, mark⟩ := plain.exists_cons
  simp only [List.mem_cons, not_or] at mark
  have name : readKey? (key.toList ++ ']' :: '\n' :: rest) = some ([key], ']' :: '\n' :: rest) :=
    plain.readKey? (by simp [isBare]) rfl (by decide)
  rw [readLine?]
  · simp [name, skipChar?, endLine?_newline]
  · rw [eq]
    rintro _ ⟨⟩
    exact mark.2.2.1 rfl

end Line

/-! ## Sections -/

section Lines

variable {fuel : Nat} {done : List Line}

/-- One line is read after the other. -/
lemma readLines?_line {c : Char} {cs : List Char} {line : Line}
    (mark : c ∉ [' ', '\t', '#', '\n', '\r']) (read : readLine? (c :: cs) = some (line, rest)) :
    readLines? (fuel + 1) done (c :: cs) = readLines? fuel (line :: done) rest := by
  simp only [List.mem_cons, List.not_mem_nil, or_false, not_or] at mark
  have solid : skipSpace (c :: cs) = c :: cs := skipSpace_cons (by simp [isSpace, mark]) cs
  rw [readLines?, solid]
  simp [mark, read]

lemma readLines?_nil : readLines? (fuel + 1) done [] = some done.reverse := rfl

lemma readLines?_blank : readLines? (fuel + 1) done ('\n' :: rest) = readLines? fuel done rest := rfl

lemma readLines?_entries {entries : List (String × Scalar)}
    (plain : ∀ entry ∈ entries, IsPlainKey entry.1) :
    readLines? (fuel + entries.length) done (entries.flatMap Section.entryChars ++ rest) =
      readLines? fuel ((entries.map Section.entryLine).reverse ++ done) rest := by
  induction entries generalizing done with
  | nil => rfl
  | cons entry entries ih =>
    obtain ⟨here, plain⟩ := List.forall_mem_cons.1 plain
    obtain ⟨first, cs, eq, mark⟩ := here.exists_cons
    have read := readLine?_entry here (entries.flatMap Section.entryChars ++ rest)
    have chars : ∃ tail, Section.entryChars entry ++ (entries.flatMap Section.entryChars ++ rest) =
        first :: tail := ⟨_, by rw [Section.entryChars, eq, List.cons_append, List.cons_append]⟩
    obtain ⟨tail, chars⟩ := chars
    have open_mark : first ∉ [' ', '\t', '#', '\n', '\r'] := fun listed =>
      mark (List.mem_cons_of_mem _ (List.mem_cons_of_mem _ (List.mem_cons_of_mem _ listed)))
    rw [List.flatMap_cons, List.append_assoc, List.length_cons, ← Nat.add_assoc, chars,
      readLines?_line open_mark (chars ▸ read), ih plain]
    simp

lemma Section.Plain.readLines? {s : Section} (plain : s.Plain) :
    readLines? (fuel + s.lines.length) done (s.text.toList ++ rest) =
      readLines? fuel (s.lines.reverse ++ done) rest := by
  have read := readLine?_header plain.name (s.entries.flatMap entryChars ++ rest)
  have chars : s.text.toList ++ rest =
      '[' :: (s.name.toList ++ ']' :: '\n' :: (s.entries.flatMap entryChars ++ rest)) := by
    simp [toList_text]
  rw [chars, Section.lines, List.length_cons, List.length_map, ← Nat.add_assoc,
    readLines?_line (by decide) read, readLines?_entries plain.keys]
  simp

end Lines

/-- Every line has a character. -/
lemma Section.length_lines_le (s : Section) : s.lines.length ≤ s.text.toList.length := by
  have entries : s.entries.length ≤ (s.entries.flatMap entryChars).length := by
    rw [List.length_flatMap]
    refine Nat.le_trans (by simp) (List.card_nsmul_le_sum _ 1 fun length mem => ?_)
    obtain ⟨entry, -, rfl⟩ := List.mem_map.1 mem
    simp only [entryChars, List.length_append, List.length_cons]
    omega
  rw [toList_text, lines]
  simp only [List.length_cons, List.length_map, List.length_append]
  omega

lemma toList_printSections (sections : List Section) : (printSections sections).toList =
    ['\n'].intercalate (sections.map fun s => s.text.toList) := by
  rw [printSections, String.toList_intercalate, List.map_map]
  rfl

/-- A document begins with a header. -/
lemma exists_printSections (s : Section) (sections : List Section) :
    ∃ tail, (printSections (s :: sections)).toList = '[' :: tail := by
  rw [toList_printSections, List.map_cons, s.toList_text]
  cases sections with
  | nil => exact ⟨_, rfl⟩
  | cons next sections => exact ⟨_, List.intercalate_cons_cons ..⟩

/-- Sections are read line by line, the blank lines between them aside. -/
lemma readLines?_sections {sections : List Section} (plain : ∀ s ∈ sections, s.Plain) :
    ∃ steps ≤ (printSections sections).toList.length, ∀ fuel done,
      readLines? (fuel + 1 + steps) done (printSections sections).toList =
        some (done.reverse ++ sections.flatMap Section.lines) := by
  rw [toList_printSections]
  induction sections with
  | nil => exact ⟨0, Nat.le_refl 0, fun fuel done => by simp [readLines?_nil]⟩
  | cons s sections ih =>
    obtain ⟨here, plain⟩ := List.forall_mem_cons.1 plain
    have length := s.length_lines_le
    cases sections with
    | nil =>
      refine ⟨s.lines.length, by simpa using length, fun fuel done => ?_⟩
      have read : Toml.readLines? (fuel + 1 + s.lines.length) done (s.text.toList ++ []) =
          Toml.readLines? (fuel + 1) (s.lines.reverse ++ done) [] := here.readLines?
      simp only [List.append_nil] at read
      simp [read, readLines?_nil]
    | cons next sections =>
      obtain ⟨steps, bound, read⟩ := ih plain
      refine ⟨steps + 1 + s.lines.length, ?_, fun fuel done => ?_⟩
      · simp only [List.map_cons, List.intercalate_cons_cons, List.length_append] at bound ⊢
        simp only [List.length_singleton]
        omega
      · have assoc : fuel + 1 + (steps + 1 + s.lines.length) =
            fuel + 1 + steps + 1 + s.lines.length := by omega
        rw [List.map_cons] at read
        rw [List.map_cons, List.map_cons, List.intercalate_cons_cons, assoc, List.append_assoc,
          here.readLines?, List.singleton_append, readLines?_blank, read]
        simp

/-! ## Tables -/

namespace Table

variable {t : Table} {value : Value} {more : List Line}

lemma get?_eq_none (fresh : key ∉ t.map (·.1)) : t.get? key = none := by
  rw [get?, Option.map_eq_none_iff, List.find?_eq_none]
  intro entry mem same
  exact fresh (List.mem_map.2 ⟨entry, mem, by simpa using same⟩)

/-- A value under a new key comes last. -/
lemma set_eq_append (fresh : key ∉ t.map (·.1)) : set key value t = t ++ [(key, value)] := by
  induction t with
  | nil => rfl
  | cons entry t ih =>
    obtain ⟨k, v⟩ := entry
    rw [List.map_cons, List.mem_cons, not_or] at fresh
    rw [set, if_neg (Ne.symm fresh.1), ih fresh.2, List.cons_append]

/-- Assignments to new keys are put into a table one after the other. -/
lemma fill?_entries {entries : List (String × Scalar)}
    (distinct : (t.map (·.1) ++ entries.map (·.1)).Nodup) :
    fill? t (entries.map Section.entryLine ++ more) =
      fill? (t ++ entries.map fun (key, v) => (key, v.value)) more := by
  induction entries generalizing t with
  | nil => simp
  | cons entry entries ih =>
    obtain ⟨key, v⟩ := entry
    have fresh : key ∉ t.map (·.1) := fun mem =>
      (List.nodup_append.1 distinct).2.2 key mem key (by simp) rfl
    have assigned : assign? v.value [key] t = some (t ++ [(key, v.value)]) := by
      rw [assign?, get?_eq_none fresh]
      rfl
    rw [List.map_cons, List.cons_append, Section.entryLine, fill?, assigned]
    dsimp only
    rw [ih (by simpa using distinct)]
    simp

/-- A header does not belong to the table before it. -/
lemma fill?_lines (sections : List Section) : fill? t (sections.flatMap Section.lines) = some t := by
  cases sections with
  | nil => rfl
  | cons s sections => rfl

lemma enterAll?_entries (entries : List (String × Scalar)) :
    enterAll? t (entries.map Section.entryLine ++ more) = enterAll? t more := by
  induction entries with
  | nil => rfl
  | cons entry entries ih => exact ih

/-- Every header opens a table of its own. -/
lemma enterAll?_sections {sections : List Section} (plain : ∀ s ∈ sections, s.Plain)
    (distinct : (t.map (·.1) ++ sections.map (·.name)).Nodup) :
    enterAll? t (sections.flatMap Section.lines) =
      some (t ++ sections.map fun s => (s.name, .table .header s.table)) := by
  induction sections generalizing t with
  | nil => simp [enterAll?]
  | cons s sections ih =>
    obtain ⟨here, plain⟩ := List.forall_mem_cons.1 plain
    have fresh : s.name ∉ t.map (·.1) := fun mem =>
      (List.nodup_append.1 distinct).2.2 s.name mem s.name (by simp) rfl
    have filled : fill? [] (s.entries.map Section.entryLine ++ sections.flatMap Section.lines) =
        some s.table := by
      rw [fill?_entries (by simpa using here.distinct), fill?_lines]
      rfl
    rw [List.flatMap_cons, Section.lines, List.cons_append, enterAll?, enter?, get?_eq_none fresh,
      opened?, filled]
    simp only [Option.map_some]
    rw [enterAll?_entries, set_eq_append fresh, ih plain (by simpa using distinct)]
    simp

end Table

/-- Sections with plain names and keys, no two alike, are read back as tables under their names. -/
theorem read?_printSections {sections : List Section} (plain : ∀ s ∈ sections, s.Plain)
    (distinct : (sections.map (·.name)).Nodup) : Table.read? (printSections sections) =
      some (sections.map fun s => (s.name, .table .header s.table)) := by
  obtain ⟨steps, bound, read⟩ := readLines?_sections plain
  obtain ⟨fuel, enough⟩ := Nat.exists_eq_add_of_le bound
  have lines : readLines? ((printSections sections).toList.length + 1) []
      (printSections sections).toList = some (sections.flatMap Section.lines) := by
    have eq : (printSections sections).toList.length + 1 = fuel + 1 + steps := by omega
    rw [eq, read fuel []]
    rfl
  have unmarked : ∀ cs, (printSections sections).toList ≠ '\uFEFF' :: cs := by
    cases sections with
    | nil => exact nofun
    | cons s sections =>
      obtain ⟨tail, eq⟩ := exists_printSections s sections
      rw [eq]
      exact nofun
  have entered := Table.enterAll?_sections (t := []) plain (by simpa using distinct)
  rw [Table.read?]
  split
  next cs marked => exact absurd marked (unmarked cs)
  next =>
    rw [lines]
    simp [Table.ofLines?, Table.fill?_lines, entered]

end LedEffect.Toml
