import LedEffect.Files.Disk
import LedEffect.Proofs.Traversal

/-!
# Reading what was written

Writing a file changes nothing that a path passes through, so the path leads to the file afterwards
and the file holds what was written (`Disk.readText_of_writeText`).
-/

namespace LedEffect

variable {d d' : Disk} {place q q' : Place} {entry : DiskEntry} {bytes : ByteArray}
  {part : List Char} {parts : List (List Char)} {path text : String}

/-- The bytes of a text are that text. -/
lemma FileAccess.textOfBytes_toUTF8 (text : String) : textOfBytes text.toUTF8 = .ok text := by
  have valid : String.fromUTF8? text.toUTF8 = some text := dif_pos text.isValidUTF8
  rw [textOfBytes, valid]

namespace Disk

/-! ## Entries -/

lemma get?_put_self (below : place ≠ []) : (d.put place entry).get? place = some entry := by
  have cleared : (d.entries.filter fun e => e.1 != place).find? (fun e => e.1 == place) = none := by
    rw [List.find?_eq_none]
    intro e listed same
    have other := (List.mem_filter.1 listed).2
    simp [eq_of_beq same] at other
  rw [get?, if_neg below, put, List.find?_append, cleared]
  simp

/-- What stands elsewhere stays. -/
lemma get?_put_of_ne (other : q ≠ place) : (d.put place entry).get? q = d.get? q := by
  have kept : (d.entries.filter fun e => e.1 != place).find? (fun e => e.1 == q) =
      d.entries.find? fun e => e.1 == q := by
    rw [List.find?_filter]
    congr 1
    funext e
    by_cases same : e.1 = q <;> simp [same, other]
  have missed : (place == q) = false := beq_eq_false_iff_ne.2 (Ne.symm other)
  rw [get?, get?, put, List.find?_append, kept]
  simp [missed]

section File

variable (below : place ≠ []) (file : d.isDirectoryAt place = false)

include file in
/-- Directories are still there when a file is written. -/
lemma isDirectoryAt_put (directory : d.isDirectoryAt q = true) :
    (d.put place entry).isDirectoryAt q = true := by
  have other : q ≠ place := by
    rintro rfl
    rw [directory] at file
    cases file
  rwa [isDirectoryAt, get?_put_of_ne other]

include below in
lemma isSome_get?_put (present : (d.get? q).isSome = true) :
    ((d.put place entry).get? q).isSome = true := by
  by_cases here : q = place
  · rw [here, get?_put_self below]
    rfl
  · rwa [get?_put_of_ne here]

/-! ## Following paths -/

/-- The step to a name in a directory. -/
structure Enters (d : Disk) (q : Place) (name : String) : Prop where
  directory : d.isDirectoryAt q = true
  named : name ∉ ["", ".", ".."]
  short : name.utf8ByteSize ≤ nameLimit
  present : (d.get? (q ++ [name])).isSome = true

lemma Enters.step (enters : d.Enters q (String.ofList part)) :
    d.step q part = .ok (q ++ [String.ofList part]) := by
  obtain ⟨directory, named, short, present⟩ := enters
  simp only [List.mem_cons, List.not_mem_nil, or_false, not_or] at named
  simp [Disk.step, directory, named, Nat.not_lt.2 short, present]

/-- A step stays, goes up or enters what is there. -/
lemma step_cases (run : d.step q part = .ok q') : d.isDirectoryAt q = true ∧
    (String.ofList part ∈ ["", "."] ∧ q' = q ∨ String.ofList part = ".." ∧ q' = q.dropLast ∨
      d.Enters q (String.ofList part) ∧ q' = q ++ [String.ofList part]) := by
  unfold Disk.step at run
  dsimp only at run
  split_ifs at run with outside idle up long present
  · exact ⟨by simpa using outside, .inl ⟨by simpa using idle, (Except.ok.inj run).symm⟩⟩
  · exact ⟨by simpa using outside, .inr (.inl ⟨up, (Except.ok.inj run).symm⟩)⟩
  · have directory : d.isDirectoryAt q = true := by simpa using outside
    refine ⟨directory, .inr (.inr ⟨⟨directory, ?_, Nat.not_lt.1 long, present⟩,
      (Except.ok.inj run).symm⟩)⟩
    simp [up, not_or.1 idle]

include below file in
/-- A path is followed as before when a file is written. -/
lemma step_put (run : d.step q part = .ok q') : (d.put place entry).step q part = .ok q' := by
  obtain ⟨directory, ⟨idle, rfl⟩ | ⟨up, rfl⟩ | ⟨enters, rfl⟩⟩ := step_cases run
  · have directory : (d.put place entry).isDirectoryAt q' = true := isDirectoryAt_put file directory
    simp only [List.mem_cons, List.not_mem_nil, or_false] at idle
    unfold step
    rw [directory]
    exact if_pos idle
  · have directory : (d.put place entry).isDirectoryAt q = true := isDirectoryAt_put file directory
    simp [step, directory, up]
  · exact Enters.step ⟨isDirectoryAt_put file directory, enters.named, enters.short,
      isSome_get?_put below enters.present⟩

include below file in
lemma follow_put (run : d.follow q parts = .ok q') : (d.put place entry).follow q parts = .ok q' := by
  induction parts generalizing q with
  | nil => exact run
  | cons part parts ih =>
    obtain ⟨next, first, rest⟩ := bind_eq_ok.1 run
    exact bind_eq_ok.2 ⟨next, step_put below file first, ih rest⟩

include below file in
lemma start_put (run : d.start path = .ok q) : (d.put place entry).start path = .ok q := by
  unfold start at run ⊢
  split at run
  next absolute => rwa [if_pos absolute]
  next relative =>
    rw [if_neg relative]
    exact follow_put below file run

end File

/-! ## Writing -/

/-- Where a file is written: the way to its directory, and its name at the end of the path. -/
structure Writes (d : Disk) (path : String) (first directory : Place) (parts : List (List Char))
    (part : List Char) : Prop where
  valid : checkPath path = .ok ()
  start : d.start path = .ok first
  split : Path.parts path = parts ++ [part]
  follow : d.follow first parts = .ok directory
  inside : d.isDirectoryAt directory = true
  named : String.ofList part ∉ ["", ".", ".."]
  short : (String.ofList part).utf8ByteSize ≤ nameLimit
  file : d.isDirectoryAt (directory ++ [String.ofList part]) = false

/-- A text is written at the end of its path. -/
lemma exists_writes (run : d.writeText path text = .ok d') : ∃ first directory parts part,
    d.Writes path first directory parts part ∧
      d' = d.put (directory ++ [String.ofList part]) (.file text.toUTF8) := by
  obtain ⟨t, target, run⟩ := bind_eq_ok.1 run
  obtain ⟨⟨⟩, valid, target⟩ := bind_eq_ok.1 target
  obtain ⟨first, start, target⟩ := bind_eq_ok.1 target
  obtain ⟨directory, follow, target⟩ := bind_eq_ok.1 target
  dsimp only at target follow
  split_ifs at target with inside
  obtain rfl := pure_eq_ok.1 target
  dsimp only at run
  split at run
  next => cases run
  next name found =>
    split_ifs at run with slashed long taken
    obtain rfl := Except.ok.inj run
    -- No slashes follow the name, so the last part is not empty.
    cases reversed : (Path.parts path).reverse with
    | nil => simp [reversed] at found
    | cons part before =>
      have solid : part.isEmpty = false := by
        cases part with
        | nil => simp [reversed] at slashed
        | cons => rfl
      have split : Path.parts path = before.reverse ++ [part] := by
        rw [← List.reverse_reverse (Path.parts path), reversed, List.reverse_cons]
      rw [reversed, List.dropWhile_cons_of_neg (by simp [solid])] at found follow
      simp only [List.head?_cons, Option.bind_some] at found
      split_ifs at found with marked
      obtain rfl := Option.some_inj.1 found
      refine ⟨first, directory, before.reverse, part, ⟨valid, start, split, follow, inside, ?_,
        Nat.not_lt.1 long, by simpa using taken⟩, rfl⟩
      have named : String.ofList part ≠ "" := by simpa using solid
      simp [named, not_or.1 marked]

/-- What was written is read. -/
theorem readText_of_writeText (run : d.writeText path text = .ok d') : d'.readText path = .ok text := by
  obtain ⟨first, directory, parts, part, writes, rfl⟩ := exists_writes run
  have below : directory ++ [String.ofList part] ≠ [] := by simp
  have located : (d.put (directory ++ [String.ofList part]) (.file text.toUTF8)).locate path =
      .ok (directory ++ [String.ofList part]) := by
    refine bind_eq_ok.2 ⟨(), writes.valid, bind_eq_ok.2 ⟨first, start_put below writes.file
      writes.start, ?_⟩⟩
    rw [writes.split, follow, List.foldlM_append]
    refine bind_eq_ok.2 ⟨directory, follow_put below writes.file writes.follow, ?_⟩
    have enters : (d.put (directory ++ [String.ofList part]) (.file text.toUTF8)).Enters directory
        (String.ofList part) := ⟨isDirectoryAt_put writes.file writes.inside, writes.named,
      writes.short, by rw [get?_put_self below]; rfl⟩
    exact bind_eq_ok.2 ⟨_, enters.step, rfl⟩
  refine bind_eq_ok.2 ⟨_, located, ?_⟩
  rw [get?_put_self below]
  exact FileAccess.textOfBytes_toUTF8 text

end Disk

end LedEffect
