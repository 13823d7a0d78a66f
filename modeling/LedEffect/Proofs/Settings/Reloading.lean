import LedEffect.Proofs.Files.Disk
import LedEffect.Proofs.Files.Paths
import LedEffect.Proofs.Files.Runs
import LedEffect.Proofs.Settings.RoundTrip
import LedEffect.Settings.Files
import Mathlib.Data.Option.Basic

/-!
# Saving and loading settings

Settings that are saved are loaded again as seen from the directory of their file
(`load_of_save`). A cost model is seen from there each time, so a relative one moves one directory
further with every round unless that directory has no names (`reload_rounds`); everything else stays.
-/

namespace LedEffect.Settings

variable {s c c' : Settings} {path : String} {d d₁ d₂ : Disk} {n : Nat}

/-- Settings as seen from the directory of a file. -/
def seenFrom (path : String) (s : Settings) : Settings := s.relocate (Path.directory path)

lemma relocate_empty (s : Settings) : s.relocate "" = s := by
  obtain ⟨frameBudgetMs, opsPerMs, target, costModel⟩ := s
  cases costModel <;> simp [relocate, Path.join_empty]

/-- The same settings, with the same path to a cost model. -/
structure Alike (a b : Settings) : Prop where
  frameBudgetMs : a.frameBudgetMs = b.frameBudgetMs
  opsPerMs : a.opsPerMs = b.opsPerMs
  target : a.target = b.target
  costModel : Option.Rel Path.Same a.costModel b.costModel

/-! ## One round -/

lemma seenFrom_iff : Succeeds (match Path.parent? path with
      | some above => pure (s.relocate above)
      | none => pure s : ExceptT SettingsError (StateM Disk) Settings) d c d₁ ↔
    c = s.seenFrom path ∧ d = d₁ := by
  unfold seenFrom Path.directory
  cases Path.parent? path with
  | none => rw [Succeeds.pure_iff, Option.getD_none, relocate_empty, eq_comm]
  | some above => rw [Succeeds.pure_iff, Option.getD_some, eq_comm]

/-- The settings that are loaded are those of the text, seen from the directory of the file. -/
lemma load_iff : Succeeds (load path) d c d₁ ↔
    ∃ text s, d.readText path = .ok text ∧ ofToml text = .ok s ∧ c = s.seenFrom path ∧ d = d₁ := by
  rw [load, Succeeds.bind_iff]
  constructor
  · rintro ⟨answer, left, read, rest⟩
    obtain ⟨found, rfl⟩ := Succeeds.readText_iff.1 read
    cases answer with
    | error cause => exact absurd rest Succeeds.not_throw
    | ok text =>
      obtain ⟨s, left, parsed, rest⟩ := Succeeds.bind_iff.1 rest
      obtain ⟨decoded, rfl⟩ := Succeeds.mk_pure_iff.1 parsed
      exact ⟨text, s, found, decoded, seenFrom_iff.1 rest⟩
  · rintro ⟨text, s, found, decoded, rest⟩
    exact ⟨.ok text, d, Succeeds.readText_iff.2 ⟨found, rfl⟩,
      Succeeds.bind_iff.2 ⟨s, d, Succeeds.mk_pure_iff.2 ⟨decoded, rfl⟩, seenFrom_iff.2 rest⟩⟩

/-- The last step of saving writes the file. -/
lemma written_of_last (run : Succeeds (do
      match ← liftM (FileAccess.writeText (m := StateM Disk) path s.toToml) with
      | .ok () => return ()
      | .error cause => throw (.unwritable path cause) : ExceptT SettingsError (StateM Disk) Unit)
      d () d₁) : d.writeText path s.toToml = .ok d₁ := by
  obtain ⟨answer, left, write, rest⟩ := Succeeds.bind_iff.1 run
  cases answer with
  | error cause => exact absurd rest Succeeds.not_throw
  | ok =>
    obtain ⟨-, rfl⟩ := Succeeds.pure_iff.1 rest
    exact Succeeds.writeText_iff.1 write

/-- Saving ends with writing the file. -/
lemma exists_write_of_save (run : Succeeds (s.save path) d () d₂) :
    ∃ d₁ : Disk, d₁.writeText path s.toToml = .ok d₂ := by
  unfold save at run
  dsimp only at run
  split at run
  next above _ =>
    split_ifs at run
    · obtain ⟨present, left, -, run⟩ := Succeeds.bind_iff.1 run
      split_ifs at run
      · exact ⟨_, written_of_last run⟩
      · obtain ⟨answer, left, -, run⟩ := Succeeds.bind_iff.1 run
        cases answer with
        | error cause =>
          obtain ⟨_, _, refused, -⟩ := Succeeds.bind_iff.1 run
          exact absurd refused Succeeds.not_throw
        | ok => exact ⟨_, written_of_last run⟩
    · exact ⟨_, written_of_last run⟩
  next => exact ⟨_, written_of_last run⟩

/-- Settings that were saved are loaded as seen from the directory of their file. -/
theorem load_of_save (run : Succeeds (s.save path) d () d₁) :
    Succeeds (load path) d₁ (s.seenFrom path) d₁ := by
  obtain ⟨left, written⟩ := exists_write_of_save run
  exact load_iff.2 ⟨_, s, Disk.readText_of_writeText written, ofToml_toToml s, rfl, rfl⟩

/-! ## Many rounds -/

/-- Settings are saved to a path and loaded from it, a number of times. -/
inductive Rounds (path : String) : Nat → Settings → Disk → Settings → Disk → Prop
  | zero {start : Settings} {disk : Disk} : Rounds path 0 start disk start disk
  | succ {rounds : Nat} {start now next : Settings} {disk before saved after : Disk}
      (done : Rounds path rounds start disk now before) (saves : Succeeds (now.save path) before () saved)
      (loads : Succeeds (load path) saved next after) : Rounds path (rounds + 1) start disk next after

/-- Settings with their cost model seen from a directory a number of times. -/
lemma Rounds.eq_relocated (rounds : Rounds path n c d c' d₁) :
    c' = { c with costModel := c.costModel.map (Path.join (Path.directory path))^[n] } := by
  induction rounds with
  | zero => simp
  | succ done saves loads ih =>
    -- The settings were saved as they were, and the file is what is loaded.
    obtain ⟨text, decoded, found, parsed, rfl, -⟩ := load_iff.1 loads
    obtain ⟨left, written⟩ := exists_write_of_save saves
    rw [Disk.readText_of_writeText written, Except.ok.injEq] at found
    subst found
    rw [ofToml_toToml, Except.ok.injEq] at parsed
    subst parsed
    rw [ih, seenFrom, relocate, Option.map_map, Function.iterate_succ']

/-- Loaded settings have their cost model seen from the directory of the file. -/
lemma exists_model_of_load (loaded : Succeeds (load path) d c d₁) :
    ∃ model : Option String, c.costModel = model.map (Path.join (Path.directory path)) := by
  obtain ⟨text, s, -, -, rfl, -⟩ := load_iff.1 loaded
  exact ⟨s.costModel, rfl⟩

/-- Loading settings, and saving and loading them again any number of times. The next round succeeds
if the settings can be saved. The budget and the target never change, and the cost model is seen from
the directory of the file once more with each round. It stays the same path if it is absolute or the
directory has no names, and only then: settings with an absolute path keep it to the letter. -/
theorem reload_rounds (loaded : Succeeds (load path) d c d₁) (rounds : Rounds path n c d₁ c' d₂) :
    (∀ saved, Succeeds (c'.save path) d₂ () saved →
      Succeeds (load path) saved (c'.seenFrom path) saved) ∧
    c' = { c with costModel := c.costModel.map (Path.join (Path.directory path))^[n] } ∧
    (c'.Alike c ↔ n = 0 ∨ ∀ model, c.costModel = some model →
      Path.isAbsolute model = true ∨ Path.names (Path.directory path) = []) ∧
    (Path.isAbsolute path = true → c' = c) := by
  have eq := rounds.eq_relocated
  obtain ⟨model, seen⟩ := exists_model_of_load loaded
  refine ⟨fun _ saves => load_of_save saves, eq, ?_, fun absolute => ?_⟩
  · have alike : c'.Alike c ↔ Option.Rel Path.Same c'.costModel c.costModel := by
      refine ⟨Alike.costModel, fun same => ⟨?_, ?_, ?_, same⟩⟩ <;> rw [eq]
    rw [alike, eq, seen]
    cases model with
    | none => simp
    | some model =>
      simp only [Option.map_some, Option.some.injEq, forall_eq', Option.rel_some_some]
      exact Path.same_iterate_join_iff
  · have kept : c.costModel.map (Path.join (Path.directory path))^[n] = c.costModel := by
      rw [seen]
      cases model with
      | none => rfl
      | some model => exact congrArg some (Path.iterate_join_directory absolute model n)
    rw [eq, kept]

/-- A disk with settings in a directory. The cost model that they name stands beside them. -/
def nested : Disk where
  entries := [(["sub"], .directory),
    (["sub", "glint.toml"], .file "[cost]\nmodel = \"m.json\"\n".toUTF8)]
  workingDirectory := "/"
  settingsHome := "/"

lemma directory_nested : Path.directory "sub/glint.toml" = "sub" := rfl

/-- The name of the cost model is none that stays when it is seen from there. -/
lemma moves_nested : ¬(Path.isAbsolute "sub/m.json" = true ∨ Path.names "sub" = []) := by decide

/-- The settings that are loaded there can be saved, and saved again when they are loaded then. -/
lemma exists_saves_nested : ∃ c d₁ d₂, Succeeds (load "sub/glint.toml") nested c nested ∧
    c.costModel = some "sub/m.json" ∧ Succeeds (c.save "sub/glint.toml") nested () d₁ ∧
    Succeeds ((c.seenFrom "sub/glint.toml").save "sub/glint.toml") d₁ () d₂ := by
  have accepted : (Id.run ((do
      let c ← load "sub/glint.toml"
      c.save "sub/glint.toml"
      (c.seenFrom "sub/glint.toml").save "sub/glint.toml"
      return c : ExceptT SettingsError (StateM Disk) Settings).run.run nested)).1.toOption.any
        (·.costModel == some "sub/m.json") = true := by decide +kernel
  obtain ⟨c, d₂, run, named⟩ := Succeeds.exists_of_any accepted
  obtain ⟨c, left, loads, run⟩ := Succeeds.bind_iff.1 run
  obtain ⟨⟨⟩, d₁, saves, run⟩ := Succeeds.bind_iff.1 run
  obtain ⟨⟨⟩, _, again, run⟩ := Succeeds.bind_iff.1 run
  obtain ⟨rfl, rfl⟩ := Succeeds.pure_iff.1 run
  obtain ⟨text, s, found, decoded, seen, rfl⟩ := load_iff.1 loads
  exact ⟨c, d₁, _, loads, beq_iff_eq.1 named, saves, again⟩

/-- Two rounds move the cost model two directories further. -/
theorem reload_nested : ∃ c c' d₂, Succeeds (load "sub/glint.toml") nested c nested ∧
    Rounds "sub/glint.toml" 2 c nested c' d₂ ∧ c.costModel = some "sub/m.json" ∧
    c'.costModel = some "sub/sub/sub/m.json" ∧ ¬ c'.Alike c := by
  obtain ⟨c, d₁, d₂, loads, named, saves, again⟩ := exists_saves_nested
  have rounds := (Rounds.zero.succ saves (load_of_save saves)).succ again (load_of_save again)
  obtain ⟨-, moved, alike, -⟩ := reload_rounds loads rounds
  rw [directory_nested] at moved alike
  refine ⟨c, _, d₂, loads, rounds, named, ?_, fun same => ?_⟩
  · have twice : (Path.join "sub")^[2] "sub/m.json" = "sub/sub/sub/m.json" := by decide
    rw [moved, named, Option.map_some, twice]
  · exact moves_nested ((alike.1 same).resolve_left (by decide) _ named)

/-- Settings that are saved as they were loaded are not loaded again as they were. -/
theorem reloaded_elsewhere : ∃ c c' d₁, Succeeds (load "sub/glint.toml") nested c nested ∧
    Succeeds (c.save "sub/glint.toml") nested () d₁ ∧
    Succeeds (load "sub/glint.toml") d₁ c' d₁ ∧ c.costModel = some "sub/m.json" ∧
    c'.costModel = some "sub/sub/m.json" ∧ ¬ c'.Alike c := by
  obtain ⟨c, d₁, -, loads, named, saves, -⟩ := exists_saves_nested
  have again : Path.join "sub" "sub/m.json" = "sub/sub/m.json" := by decide
  have moved : (c.seenFrom "sub/glint.toml").costModel = some "sub/sub/m.json" := by
    rw [seenFrom, directory_nested, relocate, named, Option.map_some, again]
  refine ⟨c, _, d₁, loads, saves, load_of_save saves, named, moved, fun same => ?_⟩
  have same := same.costModel
  have inside : Path.join "sub" "m.json" = "sub/m.json" := by decide
  rw [moved, named, Option.rel_some_some, ← again, ← inside] at same
  have stays : 1 = 0 ∨ Path.isAbsolute (Path.join "sub" "m.json") = true ∨ Path.names "sub" = [] :=
    Path.same_iterate_join_iff.1 same
  rw [inside] at stays
  exact moves_nested (stays.resolve_left Nat.one_ne_zero)

end LedEffect.Settings
