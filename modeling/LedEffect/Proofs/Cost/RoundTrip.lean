import LedEffect.Proofs.Cost.Calibration
import LedEffect.Proofs.Cost.Layers
import LedEffect.Proofs.Files.Disk
import LedEffect.Proofs.Json.Records

/-!
# Cost models printed and read back

A model whose coefficients fit their words is read from its printed text as it was (`read_toJson`). Models
that were read fit, and so do models calibrated onto such (`fits_of_calibrateOnto`), so what the calibration
command leaves behind is read as the model that it made (`models_reread`).
-/

namespace LedEffect

open Json Json.Document

/-- A counter fits a word. -/
lemma Binary64.roundToCounter_le (x : Binary64) : x.roundToCounter ≤ wordLimit := by
  unfold roundToCounter wordLimit
  cases x with
  | nan => exact Nat.zero_le _
  | infinite negative =>
    dsimp only
    split_ifs
    · exact Nat.zero_le _
    · exact Nat.le_refl _
  | finite negative m =>
    dsimp only
    split_ifs
    · exact Nat.zero_le _
    · exact Nat.min_le_left _ _

/-! ## Coefficients -/

namespace Coefficients

variable {c : Coefficients} {d : Document}

/-- Whether coefficients fit their words: 64 bits for the operations and 32 for each of the others. -/
structure Fits (c : Coefficients) : Prop where
  ops : c.ops < 2 ^ 64
  memReads : c.memReads < 2 ^ 32
  memWrites : c.memWrites < 2 ^ 32
  ioCalls : c.ioCalls < 2 ^ 32

lemma fits_fallback : fallback.Fits := ⟨by decide, by decide, by decide, by decide⟩

/-- The members of printed coefficients. -/
def members (c : Coefficients) : List (String × Json) :=
  [("ops", .natural c.ops), ("memReads", .natural c.memReads), ("memWrites", .natural c.memWrites),
    ("ioCalls", .natural c.ioCalls)]

/-- Printed coefficients are read as they were. -/
lemma ofDocument?_toValue (fits : c.Fits) : ofDocument? (document c.toValue) = some c := by
  have distinct : (c.members.map (·.1)).Nodup := by simp [members]
  have read : (document c.toValue).record? ["ops", "memReads", "memWrites", "ioCalls"] =
      some (fields c.members) := record?_object (by simp) distinct
  have word {name : String} {n limit : Nat} (mem : (name, Json.natural n) ∈ c.members)
      (inside : n ≤ limit) (small : n < 2 ^ 64) :
      required? (fields c.members) name (natural? limit) = some n := by
    rw [required?_object distinct mem, natural?_natural (Nat.le_pred_of_lt small) inside]
  have half {name : String} {n : Nat} (mem : (name, Json.natural n) ∈ c.members) (small : n < 2 ^ 32) :
      required? (fields c.members) name (natural? (2 ^ 32 - 1)) = some n :=
    word mem (Nat.le_pred_of_lt small) (small.trans (by decide))
  have ops : required? _ "ops" (natural? wordLimit) = _ :=
    word (by simp [members]) (Nat.le_pred_of_lt fits.ops) fits.ops
  have memReads : required? _ "memReads" _ = _ := half (by simp [members]) fits.memReads
  have memWrites : required? _ "memWrites" _ = _ := half (by simp [members]) fits.memWrites
  have ioCalls : required? _ "ioCalls" _ = _ := half (by simp [members]) fits.ioCalls
  rw [ofDocument?, read, Option.bind_eq_bind, Option.bind_some]
  dsimp only
  rw [ops, memReads, memWrites, ioCalls]
  rfl

/-- Coefficients that were read fit. -/
lemma fits_of_ofDocument? (read : ofDocument? d = some c) : c.Fits := by
  obtain ⟨fields, -, read⟩ := Option.bind_eq_some_iff.1 read
  obtain ⟨ops, hops, read⟩ := Option.bind_eq_some_iff.1 read
  obtain ⟨memReads, hreads, read⟩ := Option.bind_eq_some_iff.1 read
  obtain ⟨memWrites, hwrites, read⟩ := Option.bind_eq_some_iff.1 read
  obtain ⟨ioCalls, hcalls, read⟩ := Option.bind_eq_some_iff.1 read
  obtain rfl := Option.some_inj.1 read
  have inside {name : String} {n limit : Nat} (taken : required? fields name (natural? limit) = some n) :
      n ≤ limit := by
    obtain ⟨d, took⟩ := exists_of_required? taken
    exact le_of_natural? took
  exact ⟨Nat.lt_of_le_pred (by decide) (inside hops), Nat.lt_of_le_pred (by decide) (inside hreads),
    Nat.lt_of_le_pred (by decide) (inside hwrites), Nat.lt_of_le_pred (by decide) (inside hcalls)⟩

end Coefficients

/-! ## Models -/

namespace CostModel

variable {m base model start : CostModel} {text path : String} {d d' : Disk} {e : Estimator}
  {samples : List CalibrationSample}

/-- Whether all coefficients of a model fit their words. -/
def Fits (m : CostModel) : Prop := ∀ kind c, m.get? kind = some c → c.Fits

/-- The entries of a printed model are read in their order. -/
lemma entries?_toValue (fits : m.Fits) :
    (document m.toValue).entries? Coefficients.ofDocument? = some m.entries := by
  rw [toValue, entries?_object, List.mapM_map, mapM_eq_some]
  refine List.forall₂_same.2 fun (kind, c) listed => ?_
  simp [Coefficients.ofDocument?_toValue (fits kind c (Keyed.get?_eq_some_iff.2 listed))]

/-- A printed model is read as it was, whatever blanks follow it. -/
lemma read_toJson_append (fits : m.Fits) {blanks : String}
    (blank : ∀ c ∈ blanks.toList, isSpace c = true) : ofJson (m.toJson ++ blanks) = .ok m := by
  rw [ofJson, toJson, read?_pretty_append _ blank, Option.bind_some, entries?_toValue fits]
  exact congrArg Except.ok m.ofList_entries

lemma read_toJson (fits : m.Fits) : ofJson m.toJson = .ok m := by
  have read : ofJson (m.toJson ++ "") = .ok m := read_toJson_append fits nofun
  rwa [String.append_empty] at read

lemma fits_ofList {entries : List (String × Coefficients)} (each : ∀ entry ∈ entries, entry.2.Fits) :
    Fits (.ofList entries) := by
  intro kind c found
  rcases Keyed.mem_of_get?_foldl_insert found with mem | before
  · exact each _ mem
  · cases before

/-- A model that was read fits. -/
lemma fits_of_ofJson (read : ofJson text = .ok m) : m.Fits := by
  unfold ofJson at read
  split at read
  next entries found =>
    obtain rfl := Except.ok.inj read
    obtain ⟨d, -, taken⟩ := Option.bind_eq_some_iff.1 found
    cases d with
    | object members =>
      refine fits_ofList fun entry mem => ?_
      obtain ⟨member, -, each⟩ := Forall₂.exists_mem_left (mapM_eq_some.1 taken) mem
      obtain ⟨key, -, each⟩ := Option.bind_eq_some_iff.1 each
      obtain ⟨c, took, eq⟩ := Option.bind_eq_some_iff.1 each
      cases eq
      exact Coefficients.fits_of_ofDocument? took
    | _ => cases taken
  next => cases read

/-- A model that is calibrated onto one that fits does so too. -/
lemma fits_of_calibrateOnto (fits : base.Fits) (run : e.calibrateOnto base samples = .ok model) :
    model.Fits := by
  obtain ⟨model', run', calibrated⟩ :=
    Estimator.calibrateOnto_of_usable e base (Estimator.usable_of_ok run)
  obtain rfl := Except.ok.inj (run.symm.trans run')
  intro kind c found
  by_cases sampled : kind ∈ CalibrationSample.sampledKinds samples
  · rw [calibrated.sampled kind sampled, Option.some_inj] at found
    subst found
    have template : ((base.get? kind).getD .fallback).Fits := by
      cases known : base.get? kind with
      | none => exact Coefficients.fits_fallback
      | some c => exact fits kind c known
    exact ⟨Nat.lt_of_le_pred (by decide) (Binary64.roundToCounter_le _), template.memReads,
      template.memWrites, template.ioCalls⟩
  · rw [calibrated.unsampled kind sampled] at found
    exact fits kind c found

lemma fits_empty : Fits .empty := nofun

/-! ## The command -/

/-- The model that a calibration starts from: the one in a file, or an empty one if none is named. -/
def StartsFrom (d : Disk) : Option String → CostModel → Prop
  | none, start => start = .empty
  | some path, start => Succeeds (load path) d start d

lemma StartsFrom.fits {path? : Option String} (starts : StartsFrom d path? start) : start.Fits := by
  cases path? with
  | none =>
    obtain rfl := starts
    exact fits_empty
  | some path =>
    obtain ⟨text, -, read, -⟩ := load_iff.1 starts
    exact fits_of_ofJson read

/-- The start of a calibration is read from the disk, which stays as it is. -/
lemma startsFrom_iff {path? : Option String} {go : CostModel → Attempt (StateM Disk) Outcome}
    {outcome : Outcome} : Succeeds (match path? with
      | none => pure .empty >>= go
      | some path => (load path).adapt .cost >>= go) d outcome d' ↔
    ∃ start, StartsFrom d path? start ∧ Succeeds (go start) d outcome d' := by
  cases path? with
  | none =>
    rw [Succeeds.bind_iff]
    constructor
    · rintro ⟨start, _, empty, rest⟩
      obtain ⟨rfl, rfl⟩ := Succeeds.pure_iff.1 empty
      exact ⟨_, rfl, rest⟩
    · rintro ⟨start, rfl, rest⟩
      exact ⟨_, d, Succeeds.pure_iff.2 ⟨rfl, rfl⟩, rest⟩
  | some path =>
    rw [Succeeds.bind_iff]
    constructor
    · rintro ⟨start, _, run, rest⟩
      have loads := Succeeds.adapt_iff.1 run
      obtain rfl := unchanged_of_load loads
      exact ⟨start, loads, rest⟩
    · rintro ⟨start, loads, rest⟩
      exact ⟨start, d, Succeeds.adapt_iff.2 loads, rest⟩

/-- What a calibration command makes of the samples in a file: a model over the one it starts from, with
the estimator of its settings. It still has to be delivered from the disk that is left. -/
def Calibrates (named : Option String) (samplesPath : String) (base : Option String) (d : Disk)
    (model : CostModel) (left : Disk) : Prop :=
  ∃ s e samples start d₁, Succeeds (Command.loadSettings named) d s d₁ ∧ s.estimator = .ok e ∧
    Succeeds (CalibrationSample.load samplesPath) d₁ samples left ∧ StartsFrom left base start ∧
    e.calibrateOnto start samples = .ok model

lemma Calibrates.fits {named base : Option String} {samplesPath : String}
    (calibrates : Calibrates named samplesPath base d model d') : model.Fits := by
  obtain ⟨s, e, samples, start, d₁, -, -, -, starts, run⟩ := calibrates
  exact fits_of_calibrateOnto starts.fits run

/-- A calibration command delivers the text of the model that it makes. -/
lemma exists_calibrates {named base target : Option String} {samplesPath : String} {outcome : Outcome}
    (run : Succeeds (Command.calibrate named samplesPath base target) d outcome d') :
    ∃ model left, Calibrates named samplesPath base d model left ∧
      Succeeds (Attempt.deliver target (model.toJson ++ "\n")) left outcome d' := by
  obtain ⟨s, d₁, found, run⟩ := Succeeds.bind_iff.1 run
  obtain ⟨e, _, budget, run⟩ := Succeeds.bind_iff.1 run
  obtain ⟨usable, rfl⟩ := Succeeds.ofExcept_iff.1 budget
  obtain ⟨samples, d₂, timed, run⟩ := Succeeds.bind_iff.1 run
  obtain ⟨start, starts, run⟩ := startsFrom_iff.1 run
  obtain ⟨model, _, averaged, run⟩ := Succeeds.bind_iff.1 run
  obtain ⟨calibrated, rfl⟩ := Succeeds.ofExcept_iff.1 averaged
  exact ⟨model, d₂, ⟨s, e, samples, start, d₁, found, usable, Succeeds.adapt_iff.1 timed, starts,
    calibrated⟩, run⟩

/-- A text is printed, or written to the file that is named. -/
lemma delivered_iff {target : Option String} {outcome : Outcome} :
    Succeeds (Attempt.deliver target text) d outcome d' ↔ match target with
      | none => outcome = .printed text ∧ d = d'
      | some path => outcome = .printed "" ∧ d.writeText path text = .ok d' := by
  cases target with
  | none => exact Succeeds.pure_iff.trans (and_congr_left fun _ => eq_comm)
  | some path =>
    unfold Attempt.deliver
    rw [Succeeds.bind_iff]
    constructor
    · rintro ⟨answer, left, write, run⟩
      obtain ⟨⟨⟩, _, granted, rest⟩ := Succeeds.bind_iff.1 run
      obtain ⟨rfl, rfl⟩ := Succeeds.ofExcept_iff.1 granted
      obtain ⟨rfl, rfl⟩ := Succeeds.pure_iff.1 rest
      exact ⟨rfl, Succeeds.writeText_iff.1 write⟩
    · rintro ⟨rfl, written⟩
      exact ⟨.ok (), d', Succeeds.writeText_iff.2 written, Succeeds.bind_iff.2
        ⟨(), d', Succeeds.ofExcept_iff.2 ⟨rfl, rfl⟩, Succeeds.pure_iff.2 ⟨rfl, rfl⟩⟩⟩

/-- A model that was left behind can be read: from the output, or from the file that was named, where it
serves as the start of a calibration and as the last layer of the models of an estimate. -/
def LeftBehind (model : CostModel) (outcome : Outcome) (d : Disk) : Option String → Prop
  | none => ofJson outcome.output = .ok model
  | some path => StartsFrom d (some path) model ∧ ∀ s stack, Loaded d s.costModel.toList stack →
      Succeeds (Command.costModel s (some path)) d (layered (stack ++ [model])) d

lemma leftBehind_of_deliver {target : Option String} {outcome : Outcome} (fits : model.Fits)
    (run : Succeeds (Attempt.deliver target (model.toJson ++ "\n")) d outcome d') :
    LeftBehind model outcome d' target := by
  have read : ofJson (model.toJson ++ "\n") = .ok model :=
    read_toJson_append fits (List.all_eq_true.1 (by decide))
  cases target with
  | none =>
    obtain ⟨rfl, rfl⟩ := delivered_iff.1 run
    exact read
  | some path =>
    obtain ⟨-, written⟩ := delivered_iff.1 run
    have loads : Succeeds (load path) d' model d' :=
      load_iff.2 ⟨_, Disk.readText_of_writeText written, read, rfl⟩
    exact ⟨loads, fun s stack loaded => costModel_iff.2
      ⟨rfl, stack ++ [model], List.rel_append loaded (.cons loads .nil), rfl⟩⟩

/-- A model whose coefficients fit their words is read from its printed text as it was, whatever its keys
are. So is every model that was read from a text, and every model that a calibration command makes: the
output of the command, or the file that it writes, is read as that model. -/
theorem models_reread :
    (∀ m : CostModel, m.Fits → ofJson m.toJson = .ok m) ∧
    (∀ text m, ofJson text = .ok m → ofJson m.toJson = .ok m) ∧
    ∀ named samplesPath base target d outcome d',
      Succeeds (Command.calibrate named samplesPath base target) d outcome d' →
      ∃ model left, Calibrates named samplesPath base d model left ∧
        LeftBehind model outcome d' target := by
  refine ⟨fun m => read_toJson, fun text m read => read_toJson (fits_of_ofJson read), ?_⟩
  intro named samplesPath base target d outcome d' run
  obtain ⟨model, left, calibrates, delivers⟩ := exists_calibrates run
  exact ⟨model, left, calibrates, leftBehind_of_deliver calibrates.fits delivers⟩

/-- A model with an empty key, one that needs escapes and one outside ASCII, and with the largest words. -/
def awkward : CostModel :=
  .ofList [("", ⟨2 ^ 64 - 1, 2 ^ 32 - 1, 0, 0⟩), ("\"\\\n\x00", ⟨0, 0, 2 ^ 32 - 1, 2 ^ 32 - 1⟩),
    ("λ", ⟨9007199254740993, 1, 2, 3⟩)]

/-- A disk with samples of two kinds, and with a model that has one of them twice. -/
def bench : Disk where
  entries := [
    (["samples.json"], .file
      "[\x7b\"nodeKind\": \"sin\", \"us\": 0.1\x7d, \x7b\"nodeKind\": \"\", \"us\": 2\x7d]".toUTF8),
    (["base.json"], .file ("\x7b\"sin\": [1, 2, 3, 4], \"sin\": " ++
      "\x7b\"ioCalls\": 5, \"ops\": 6, \"memReads\": 7, \"memWrites\": 8\x7d\x7d").toUTF8)]
  workingDirectory := "/"
  settingsHome := "/"

/-- The awkward model is read as it was, and so are models that were calibrated onto the one in a file:
from the output, and from the file that they are written to. -/
theorem awkward_reread : ofJson awkward.toJson = .ok awkward ∧
    (∃ m, ofJson "\x7b\"\": [1, 2, 3, 4]\x7d" = .ok m ∧ ofJson m.toJson = .ok m) ∧
    ∀ target ∈ [none, some "base.json"], ∃ outcome d' model left,
      Succeeds (Command.calibrate none "samples.json" (some "base.json") target) bench outcome d' ∧
      Calibrates none "samples.json" (some "base.json") bench model left ∧
      LeftBehind model outcome d' target := by
  obtain ⟨fitting, readable, calibrated⟩ := models_reread
  refine ⟨fitting awkward (fits_ofList ?_), ?_, fun target listed => ?_⟩
  · intro entry listed
    simp only [List.mem_cons, List.not_mem_nil, or_false] at listed
    rcases listed with rfl | rfl | rfl <;> exact ⟨by decide, by decide, by decide, by decide⟩
  · obtain ⟨m, read⟩ := exists_of_isOk
      (show (ofJson "\x7b\"\": [1, 2, 3, 4]\x7d").isOk = true by decide +kernel)
    exact ⟨m, read, readable _ m read⟩
  · have runs : ∀ target ∈ [none, some "base.json"], (Id.run ((Command.calibrate (m := StateM Disk) none
        "samples.json" (some "base.json") target).run.run bench)).1.toOption.any (fun _ => true) = true := by
      decide +kernel
    obtain ⟨outcome, d', run, -⟩ := Succeeds.exists_of_any (runs target listed)
    obtain ⟨model, left, calibrates, leaves⟩ := calibrated _ _ _ _ _ _ _ run
    exact ⟨outcome, d', model, left, run, calibrates, leaves⟩

end CostModel

end LedEffect
