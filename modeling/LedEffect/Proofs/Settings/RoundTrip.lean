import LedEffect.Proofs.Toml.Documents
import LedEffect.Settings.Toml

/-!
# Settings read back

All settings are read back from their TOML form as they are (`ofToml_toToml`), whatever their numbers
and names: infinities and not-a-number as well as texts that need escapes.
-/

namespace LedEffect.Settings

open Toml

/-- The sections that settings are written as. -/
def sections (s : Settings) : List Section :=
  [⟨"budget", [("frame_budget_ms", .float s.frameBudgetMs), ("ops_per_ms", .float s.opsPerMs)]⟩,
    ⟨"target", s.target.symbols.map fun (field, name) => (field, .string name)⟩,
    ⟨"cost", s.costModel.toList.map fun path => ("model", .string path)⟩]

lemma toToml_eq (s : Settings) : s.toToml = printSections s.sections := rfl

/-! ## Fields of the profile -/

lemma nodup_fields : (Symbol.all.map Symbol.field).Nodup := by decide

lemma isPlainKey_field (symbol : Symbol) : IsPlainKey symbol.field := by
  cases symbol <;> decide

/-- The table of the names of all symbols. -/
def profileTable (target : TargetProfile) : Table :=
  Symbol.all.map fun symbol => (symbol.field, .string (target.name symbol))

lemma get?_profileTable (target : TargetProfile) (symbol : Symbol) :
    (profileTable target).get? symbol.field = some (.string (target.name symbol)) := by
  cases symbol <;> rfl

/-- Renaming some symbols one after the other gives each of them its name. -/
lemma foldlM_rename {taken : Symbol → Option String} {symbols : List Symbol} {start profile : TargetProfile}
    (run : symbols.foldlM (fun profile symbol => do return profile.rename symbol (← taken symbol)) start =
      some profile) (symbol : Symbol) :
    (symbol ∈ symbols → taken symbol = some (profile.name symbol)) ∧
      (symbol ∉ symbols → profile.name symbol = start.name symbol) := by
  induction symbols generalizing start with
  | nil =>
    obtain rfl := Option.some_inj.1 run
    exact ⟨nofun, fun _ => rfl⟩
  | cons first symbols ih =>
    rw [List.foldlM_cons] at run
    obtain ⟨next, renamed, rest⟩ := Option.bind_eq_some_iff.1 run
    obtain ⟨name, here, eq⟩ := Option.bind_eq_some_iff.1 renamed
    obtain rfl := Option.some_inj.1 eq
    obtain ⟨later, kept⟩ := ih rest
    constructor
    · intro mem
      by_cases again : symbol ∈ symbols
      · exact later again
      · obtain rfl := (List.mem_cons.1 mem).resolve_right again
        rw [kept again, here, TargetProfile.rename]
        simp
    · intro absent
      rw [List.mem_cons, not_or] at absent
      rw [kept absent.2, TargetProfile.rename]
      simp [absent.1]

/-- Symbols are renamed one after the other if all of them have names. -/
lemma exists_foldlM_rename {taken : Symbol → Option String} {symbols : List Symbol}
    (each : ∀ symbol ∈ symbols, ∃ name, taken symbol = some name) (start : TargetProfile) :
    ∃ profile, symbols.foldlM (fun profile symbol => do
      return profile.rename symbol (← taken symbol)) start = some profile := by
  induction symbols generalizing start with
  | nil => exact ⟨start, rfl⟩
  | cons first symbols ih =>
    obtain ⟨⟨name, here⟩, each⟩ := List.forall_mem_cons.1 each
    obtain ⟨profile, rest⟩ := ih each (start.rename first name)
    refine ⟨profile, ?_⟩
    rw [List.foldlM_cons, here]
    exact rest

lemma mem_all (symbol : Symbol) : symbol ∈ Symbol.all := by cases symbol <;> decide

/-- A profile is read when each of its names is, from the field of its symbol or as its default. -/
lemma profile?_eq_some {fields : Table} {profile : TargetProfile} : profile? fields = some profile ↔
    ∀ symbol, field? fields symbol.field symbol.defaultName Value.text? = some (profile.name symbol) := by
  constructor
  · intro run symbol
    exact (foldlM_rename run symbol).1 (mem_all symbol)
  · intro each
    obtain ⟨other, run⟩ := @exists_foldlM_rename _ Symbol.all (fun symbol _ => ⟨_, each symbol⟩)
      TargetProfile.default
    have names : other.name = profile.name := by
      funext symbol
      have same := (foldlM_rename run symbol).1 (mem_all symbol)
      exact Option.some_inj.1 (same.symm.trans (each symbol))
    cases other
    cases profile
    cases names
    exact run

/-- A profile is read from the names of all symbols. -/
lemma profile?_profileTable (target : TargetProfile) : profile? (profileTable target) = some target := by
  refine profile?_eq_some.2 fun symbol => ?_
  rw [field?, get?_profileTable]
  rfl

/-! ## Sections -/

lemma plain_sections (s : Settings) : ∀ t ∈ s.sections, t.Plain := by
  have key : ∀ name ∈ ["budget", "frame_budget_ms", "ops_per_ms", "target", "cost", "model"],
      IsPlainKey name := by decide
  unfold sections
  refine List.forall_mem_cons.2 ⟨⟨key _ (by simp), ?_, by simp⟩,
    List.forall_mem_cons.2 ⟨⟨key _ (by simp), ?_, ?_⟩,
      List.forall_mem_singleton.2 ⟨key _ (by simp), ?_, ?_⟩⟩⟩
  · exact List.forall_mem_cons.2 ⟨key _ (by simp), List.forall_mem_singleton.2 (key _ (by simp))⟩
  · simp only [TargetProfile.symbols, List.map_map, List.forall_mem_map]
    exact fun symbol _ => isPlainKey_field symbol
  · simp only [TargetProfile.symbols, List.map_map]
    exact nodup_fields
  · cases s.costModel with
    | none => exact List.forall_mem_nil _
    | some path => exact List.forall_mem_singleton.2 (key _ (by simp))
  · cases s.costModel <;> simp

lemma ofTable?_sections (s : Settings) :
    ofTable? (s.sections.map fun t => (t.name, .table .header t.table)) = some s := by
  have profile := profile?_profileTable s.target
  have target : Section.table ⟨"target", s.target.symbols.map fun (field, name) =>
      (field, .string name)⟩ = profileTable s.target := by
    simp only [Section.table, TargetProfile.symbols, List.map_map]
    rfl
  simp only [sections, List.map_cons, List.map_nil, target]
  obtain ⟨frameBudgetMs, opsPerMs, target, costModel⟩ := s
  cases costModel with
  | none =>
    simp [ofTable?, section?, field?, Table.get?, Value.fields?, Section.table, Scalar.value,
      Value.double?, profile]
  | some path =>
    simp [ofTable?, section?, field?, Table.get?, Value.fields?, Section.table, Scalar.value,
      Value.double?, Value.text?, profile]

/-- All settings are read back from their TOML form. -/
theorem ofToml_toToml (s : Settings) : ofToml s.toToml = .ok s := by
  have read := read?_printSections s.plain_sections (by simp [sections])
  rw [ofToml, toToml_eq, read, Option.bind_some, ofTable?_sections]

end LedEffect.Settings
