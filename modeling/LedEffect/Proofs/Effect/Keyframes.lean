import LedEffect.Proofs.Effect.Palettes
import LedEffect.Proofs.Effect.Ranges
import LedEffect.Proofs.Number.Sums

/-!
# Keyframes of palette data

Which rows make a palette (`exists_ofRows_iff`), and in what order their keyframes stand (`arranged_ofRows`).
The order compares representations, in which the negative zero comes before the positive one: rows at the
same position keep their order unless these are the two zeros, so that the sort is stable just when no
positive zero stands before a negative one (`stablySorted_iff`).
-/

namespace LedEffect

/-! ## Representations -/

namespace Binary64

open Magnitude (unitsPerOne)

variable {x y : Binary64}

lemma value_eq_units (x : Binary64) : x.value = x.units / unitsPerOne := by
  have none : (0 : ℚ) = (0 : Int) / unitsPerOne := by rw [Int.cast_zero, zero_div]
  cases x with
  | finite s m => rfl
  | _ => exact none

lemma value_le_iff : x.value ≤ y.value ↔ x.units ≤ y.units := by
  rw [value_eq_units, value_eq_units, div_le_div_iff_of_pos_right Magnitude.cast_unitsPerOne_pos,
    Int.cast_le]

lemma value_inj : x.value = y.value ↔ x.units = y.units := by
  rw [le_antisymm_iff, value_le_iff, value_le_iff, ← le_antisymm_iff]

lemma value_eq_zero : x.value = 0 ↔ x.units = 0 := by
  rw [value_eq_units, div_eq_zero_iff, Int.cast_eq_zero]
  exact or_iff_left Magnitude.cast_unitsPerOne_pos.ne'

/-- Numbers in the order of their representations do not descend. -/
lemma value_le_of_rank_le (hx : x.isFinite = true) (hy : y.isFinite = true) (le : x.rank ≤ y.rank) :
    x.value ≤ y.value := by
  cases x with
  | finite s a =>
    cases y with
    | finite t b =>
      rw [value_le_iff]
      cases s <;> cases t <;>
        simp only [rank, units, signedUnits, Bool.false_eq_true, if_true, if_false] at le ⊢ <;> omega
    | _ => cases hy
  | _ => cases hx

/-- Equal numbers other than zero have one representation. -/
lemma rank_eq_of_value_eq (same : x.value = y.value) (nonzero : x.value ≠ 0) : x.rank = y.rank := by
  have differ : y.value ≠ 0 := same ▸ nonzero
  rw [Ne, value_eq_zero] at nonzero differ
  rw [value_inj] at same
  cases x with
  | finite s a =>
    cases y with
    | finite t b =>
      cases s <;> cases t <;>
        simp only [rank, units, signedUnits, Bool.false_eq_true, if_true, if_false] at * <;> omega
    | _ => exact absurd rfl differ
  | _ => exact absurd rfl nonzero

/-- A finite number that is zero is one of the two zeros. -/
lemma value_eq_zero_iff (hx : x.isFinite = true) : x.value = 0 ↔ x = -zero ∨ x = zero := by
  rw [value_eq_zero]
  cases x with
  | finite s m =>
    have zero_iff : units (finite s m) = 0 ↔ m = .zero := by
      have none : m.units = 0 ↔ m = .zero :=
        ⟨fun none => Magnitude.units_inj none, fun zero => zero ▸ Nat.zero_mul _⟩
      rw [← none]
      cases s
      · exact Int.natCast_eq_zero
      · exact Int.neg_eq_zero.trans Int.natCast_eq_zero
    have neg : -zero = finite true .zero := rfl
    rw [zero_iff, neg, zero]
    cases s <;> simp
  | _ => cases hx

end Binary64

/-! ## Sorting -/

section Sorting

variable {α : Type} {p : α → Bool} {l : List α}

/-- Elements that a sort does not tell apart keep their order. -/
lemma filter_mergeSort {le : α → α → Bool}
    (trans : ∀ a b c, le a b = true → le b c = true → le a c = true)
    (total : ∀ a b, (le a b || le b a) = true)
    (tied : ∀ a b, p a = true → p b = true → le a b = true) :
    (l.mergeSort le).filter p = l.filter p := by
  have sorted : (l.filter p).Pairwise fun a b => le a b = true :=
    List.pairwise_filter.2 (List.pairwise_of_forall tied)
  have inside := (List.sublist_mergeSort trans total sorted List.filter_sublist).filter p
  rw [List.filter_filter, List.filter_congr fun a _ => Bool.and_self (p a)] at inside
  exact (inside.eq_of_length ((List.mergeSort_perm l le).filter p).length_eq.symm).symm

/-- A list in which some elements never follow others begins with them. -/
lemma filter_append_of_pairwise {R : α → α → Prop} (sorted : l.Pairwise R)
    (first : ∀ a ∈ l, ∀ b, R a b → p b = true → p a = true) :
    l = l.filter p ++ l.filter fun a => !p a := by
  induction l with
  | nil => rfl
  | cons a l ih =>
    obtain ⟨before, sorted⟩ := List.pairwise_cons.1 sorted
    obtain ⟨head, first⟩ := List.forall_mem_cons.1 first
    cases here : p a with
    | true => simpa [here] using ih sorted first
    | false =>
      have none : ∀ b ∈ l, p b = false := by
        intro b mem
        by_contra there
        rw [head b (before b mem) (Bool.eq_true_of_not_eq_false there)] at here
        cases here
      have rest : (l.filter fun a => !p a) = l :=
        List.filter_eq_self.2 fun b mem => by rw [none b mem, Bool.not_false]
      have gone : l.filter p = [] := List.filter_eq_nil_iff.2 fun b mem => by simp [none b mem]
      simp [here, rest, gone]

end Sorting

/-! ## Rows -/

/-- Whether a number is a byte. -/
def Binary64.IsByte (x : Binary64) (b : UInt8) : Prop := x.isFinite = true ∧ x.value = b.toNat

lemma Binary64.isByte_iff {x : Binary64} {b : UInt8} :
    x.IsByte b ↔ x.isFinite = true ∧ x.units = b.toNat * Magnitude.unitsPerOne := by
  refine and_congr_right fun _ => ?_
  rw [value_eq_units, div_eq_iff Magnitude.cast_unitsPerOne_pos.ne']
  exact_mod_cast Iff.rfl

/-- A whole number is a finite multiple of one. -/
lemma Binary64.isIntegral_iff {x : Binary64} :
    x.isIntegral = true ↔ x.isFinite = true ∧ (Magnitude.unitsPerOne : Int) ∣ x.units := by
  constructor
  · intro whole
    refine ⟨?_, dvd_units whole⟩
    cases x with
    | finite s m => rfl
    | _ => cases whole
  · rintro ⟨real, divides⟩
    cases x with
    | finite s m =>
      have divides : (Magnitude.unitsPerOne : Int) ∣ m.units := by
        cases s
        · exact divides
        · exact Int.dvd_neg.1 divides
      exact beq_iff_eq.2 (Nat.mod_eq_zero_of_dvd (Int.natCast_dvd_natCast.1 divides))
    | _ => cases real

namespace PaletteRow

/-- Whether a keyframe is that of a row: its position is that of the row, which is finite, and its channels
are those of the row, which are bytes. -/
structure Shows (r : PaletteRow) (k : Keyframe) : Prop where
  finite : r.position.isFinite = true
  position : k.position = r.position
  red : r.red.IsByte k.red
  green : r.green.IsByte k.green
  blue : r.blue.IsByte k.blue

/-- Whether the position of a row is finite and each of its channels is a whole number from 0 to 255. -/
def Usable (r : PaletteRow) : Prop :=
  r.position.isFinite = true ∧ ∀ x ∈ [r.red, r.green, r.blue],
    x.isFinite = true ∧ ∃ n : ℕ, n ≤ 255 ∧ x.value = n

lemma exists_isByte {x : Binary64} :
    (∃ b, x.IsByte b) ↔ x.isFinite = true ∧ ∃ n : ℕ, n ≤ 255 ∧ x.value = n := by
  constructor
  · rintro ⟨b, finite, value⟩
    exact ⟨finite, b.toNat, Nat.le_of_lt_succ b.toNat_lt, value⟩
  · rintro ⟨finite, n, inside, value⟩
    refine ⟨UInt8.ofNat n, finite, ?_⟩
    rw [value, UInt8.toNat_ofNat_of_lt' (Nat.lt_succ_of_le inside)]

lemma exists_shows {r : PaletteRow} : (∃ k, r.Shows k) ↔ r.Usable := by
  rw [Usable, List.forall_mem_cons, List.forall_mem_cons, List.forall_mem_singleton, ← exists_isByte,
    ← exists_isByte, ← exists_isByte]
  constructor
  · rintro ⟨k, shows⟩
    exact ⟨shows.finite, ⟨_, shows.red⟩, ⟨_, shows.green⟩, _, shows.blue⟩
  · rintro ⟨finite, ⟨red, hr⟩, ⟨green, hg⟩, blue, hb⟩
    exact ⟨⟨r.position, red, green, blue⟩, finite, rfl, hr, hg, hb⟩

end PaletteRow

namespace Palette

variable {r : PaletteRow} {rows : List PaletteRow} {k : Keyframe} {ks sorted : List Keyframe}
  {p : Palette} {row : Nat}

/-- A channel is taken just when it is a byte, as that byte. -/
lemma channel_eq_ok {name : String} {x : Binary64} {b : UInt8} :
    channel row name x = .ok b ↔ x.IsByte b := by
  have positive := Magnitude.unitsPerOne_pos
  have zero : Binary64.zero.isFinite = true := rfl
  have none : Binary64.zero.units = 0 := rfl
  have last : (255 : Binary64).isFinite = true := Binary64.isFinite_ofNat (by decide)
  have most : (255 : Binary64).units = 255 * Magnitude.unitsPerOne := Binary64.units_ofNat (by decide)
  rw [Binary64.isByte_iff]
  unfold channel
  constructor
  · intro run
    split at run
    next accepted =>
      simp only [Bool.and_eq_true, Binary64.isIntegral_iff] at accepted
      obtain ⟨⟨⟨finite, divides⟩, least⟩, below⟩ := accepted
      obtain ⟨count, units⟩ := divides
      rw [Binary64.le_iff zero finite, none, units] at least
      rw [Binary64.le_iff finite last, most, units, Int.mul_comm] at below
      have nonneg : 0 ≤ count := Int.nonneg_of_mul_nonneg_right least (by omega)
      have bound : count ≤ 255 := Int.le_of_mul_le_mul_right below (by omega)
      have whole : x.truncate 0 255 = count := by
        rw [Binary64.truncate_eq finite, units, Int.mul_tdiv_cancel_left _ (by omega)]
        omega
      rw [whole] at run
      obtain rfl := Except.ok.inj run
      have small : count.toNat < UInt8.size := by
        rw [UInt8.size]
        omega
      rw [UInt8.toNat_ofNat_of_lt' small, units, Int.toNat_of_nonneg nonneg, Int.mul_comm]
      exact ⟨finite, rfl⟩
    next => cases run
  · rintro ⟨finite, units⟩
    have small := b.toNat_lt
    have divides : (Magnitude.unitsPerOne : Int) ∣ x.units := units ▸ Int.dvd_mul_left _ _
    have least : Binary64.zero.le x = true := by
      rw [Binary64.le_iff zero finite, none, units]
      exact Int.mul_nonneg (Int.natCast_nonneg _) (Int.natCast_nonneg _)
    have below : x.le 255 = true := by
      rw [Binary64.le_iff finite last, most, units]
      exact Int.mul_le_mul_of_nonneg_right (by omega) (Int.natCast_nonneg _)
    have whole : x.truncate 0 255 = b.toNat := by
      rw [Binary64.truncate_eq finite, units, Int.mul_tdiv_cancel _ (by omega)]
      omega
    have accepted : (x.isIntegral && Binary64.zero.le x && x.le 255) = true := by
      rw [Bool.and_eq_true, Bool.and_eq_true, Binary64.isIntegral_iff]
      exact ⟨⟨⟨finite, divides⟩, least⟩, below⟩
    rw [if_pos accepted, whole, Int.toNat_natCast, UInt8.ofNat_toNat]

/-- A row is taken just when it has a keyframe, as that keyframe. -/
lemma keyframe_eq_ok : keyframe row r = .ok k ↔ r.Shows k := by
  unfold keyframe
  split_ifs with finite
  · constructor
    · intro run
      obtain ⟨red, hr, run⟩ := bind_eq_ok.1 run
      obtain ⟨green, hg, run⟩ := bind_eq_ok.1 run
      obtain ⟨blue, hb, run⟩ := bind_eq_ok.1 run
      obtain rfl := pure_eq_ok.1 run
      exact ⟨finite, rfl, channel_eq_ok.1 hr, channel_eq_ok.1 hg, channel_eq_ok.1 hb⟩
    · intro shows
      rw [channel_eq_ok.2 shows.red, channel_eq_ok.2 shows.green, channel_eq_ok.2 shows.blue,
        ← shows.position]
      rfl
  · exact iff_of_false nofun fun shows => finite shows.finite

lemma rowKeyframes_eq_ok : rowKeyframes row rows = .ok ks ↔ List.Forall₂ PaletteRow.Shows rows ks := by
  induction rows generalizing row ks with
  | nil =>
    rw [rowKeyframes, Except.ok.injEq, List.forall₂_nil_left_iff]
    exact eq_comm
  | cons r rows ih =>
    rw [rowKeyframes, bind_eq_ok, List.forall₂_cons_left_iff]
    refine exists_congr fun k => ?_
    rw [bind_eq_ok]
    simp only [keyframe_eq_ok, ih, pure_eq_ok]
    exact ⟨fun ⟨here, ks, rest, eq⟩ => ⟨ks, here, rest, eq.symm⟩,
      fun ⟨ks, here, rest, eq⟩ => ⟨here, ks, rest, eq.symm⟩⟩

/-- Whether the keyframe `a` comes before `b` in the order of representations, or with it. -/
def upTo (a b : Keyframe) : Bool := a.position.totalCompare b.position != .gt

lemma upTo_iff {a b : Keyframe} : upTo a b = true ↔ a.position.rank ≤ b.position.rank := by
  rw [upTo, Binary64.totalCompare, bne_iff_ne, Ne, compare_gt_iff_gt, not_lt]

lemma upTo_trans (a b c : Keyframe) (first : upTo a b = true) (second : upTo b c = true) :
    upTo a c = true :=
  upTo_iff.2 ((upTo_iff.1 first).trans (upTo_iff.1 second))

lemma upTo_total (a b : Keyframe) : (upTo a b || upTo b a) = true := by
  rw [Bool.or_eq_true, upTo_iff, upTo_iff]
  exact le_total _ _

/-- Palette data of two rows or more makes the palette of its keyframes, sorted. -/
lemma ofRows_eq_ok : ofRows rows = .ok p ↔ 2 ≤ rows.length ∧
    ∃ ks, List.Forall₂ PaletteRow.Shows rows ks ∧ p.keyframes = ks.mergeSort upTo := by
  unfold ofRows
  split_ifs with few
  · exact iff_of_false nofun fun made => Nat.not_le.2 few made.1
  · rw [and_iff_right (Nat.le_of_not_lt few), bind_eq_ok]
    refine exists_congr fun ks => ?_
    rw [rowKeyframes_eq_ok, pure_eq_ok]
    refine and_congr_right fun _ => ⟨?_, fun eq => ?_⟩
    · rintro rfl
      rfl
    · cases p
      exact congrArg Palette.mk eq.symm

/-- Palette data makes a palette just when it has two rows or more and each of them is usable. -/
lemma exists_ofRows_iff : (∃ p, ofRows rows = .ok p) ↔ 2 ≤ rows.length ∧ ∀ r ∈ rows, r.Usable := by
  constructor
  · rintro ⟨p, made⟩
    obtain ⟨enough, ks, shows, -⟩ := ofRows_eq_ok.1 made
    refine ⟨enough, fun r mem => ?_⟩
    obtain ⟨k, -, here⟩ := Forall₂.exists_mem_right shows mem
    exact PaletteRow.exists_shows.1 ⟨k, here⟩
  · rintro ⟨enough, usable⟩
    obtain ⟨ks, shows⟩ := exists_forall₂ fun r mem => PaletteRow.exists_shows.2 (usable r mem)
    exact ⟨⟨ks.mergeSort upTo⟩, ofRows_eq_ok.2 ⟨enough, ks, shows, rfl⟩⟩

/-! ## The order of keyframes -/

/-- Whether keyframes are others sorted by position, with those at one position in their order. -/
structure StablySorted (ks sorted : List Keyframe) : Prop where
  perm : sorted.Perm ks
  ascending : sorted.Pairwise fun a b => a.position.value ≤ b.position.value
  ties : ∀ q : ℚ, sorted.filter (fun k => k.position.value = q) =
    ks.filter fun k => k.position.value = q

/-- Whether keyframes are others sorted by position, with those at one position in their order but for the
two zeros: those at the negative one come first, and each zero has its keyframes in their order. -/
structure Arranged (ks sorted : List Keyframe) : Prop where
  perm : sorted.Perm ks
  ascending : sorted.Pairwise fun a b => a.position.value ≤ b.position.value
  ties : ∀ q : ℚ, q ≠ 0 → sorted.filter (fun k => k.position.value = q) =
    ks.filter fun k => k.position.value = q
  zeros : sorted.filter (fun k => k.position.value = 0) =
    (ks.filter fun k => k.position = -.zero) ++ ks.filter fun k => k.position = .zero

/-- Keyframes at zero, when none at the positive zero comes before one at the negative zero. -/
lemma filter_zeros {R : Keyframe → Keyframe → Prop} (finite : ∀ k ∈ ks, k.position.isFinite = true)
    (sorted : ks.Pairwise R)
    (apart : ∀ a b, R a b → a.position = .zero → b.position ≠ -.zero) :
    ks.filter (fun k => k.position.value = 0) =
      (ks.filter fun k => k.position = -.zero) ++ ks.filter fun k => k.position = .zero := by
  have zero_iff : ∀ k ∈ ks, k.position.value = 0 ↔ k.position = -.zero ∨ k.position = .zero :=
    fun k mem => Binary64.value_eq_zero_iff (finite k mem)
  have differ : -Binary64.zero ≠ .zero := by decide
  have split := @filter_append_of_pairwise _ (fun k : Keyframe => k.position = -.zero) _ _
    (sorted.filter fun k => k.position.value = 0) (by
      intro a mem b related negative
      obtain ⟨mem, zero⟩ := List.mem_filter.1 mem
      have either := (zero_iff a mem).1 (of_decide_eq_true zero)
      exact decide_eq_true (either.resolve_right fun positive =>
        apart a b related positive (of_decide_eq_true negative)))
  rw [split, List.filter_filter, List.filter_filter]
  congr 1
  · refine List.filter_congr fun k mem => Bool.eq_iff_iff.2 ?_
    simp only [Bool.and_eq_true, decide_eq_true_eq, zero_iff k mem]
    tauto
  · refine List.filter_congr fun k mem => Bool.eq_iff_iff.2 ?_
    simp only [Bool.and_eq_true, Bool.not_eq_true', decide_eq_true_eq, decide_eq_false_iff_not,
      zero_iff k mem]
    constructor
    · rintro ⟨other, negative | positive⟩
      · exact absurd negative other
      · exact positive
    · intro positive
      exact ⟨fun negative => differ (negative.symm.trans positive), .inr positive⟩

/-- Sorted keyframes stand in the order of their positions. -/
lemma arranged_sort (finite : ∀ k ∈ ks, k.position.isFinite = true) :
    Arranged ks (ks.mergeSort upTo) := by
  have perm := List.mergeSort_perm ks upTo
  have sorted := List.pairwise_mergeSort upTo_trans upTo_total ks
  have finite' : ∀ k ∈ ks.mergeSort upTo, k.position.isFinite = true :=
    fun k mem => finite k (perm.mem_iff.1 mem)
  have kept {x : Binary64} : (ks.mergeSort upTo).filter (fun k => k.position = x) =
      ks.filter fun k => k.position = x := by
    refine filter_mergeSort upTo_trans upTo_total fun a b here there => upTo_iff.2 ?_
    rw [of_decide_eq_true here, of_decide_eq_true there]
  refine ⟨perm, ?_, fun q nonzero => ?_, ?_⟩
  · refine List.Pairwise.imp_of_mem (fun ha hb le => ?_) sorted
    exact Binary64.value_le_of_rank_le (finite' _ ha) (finite' _ hb) (upTo_iff.1 le)
  · refine filter_mergeSort upTo_trans upTo_total fun a b here there => upTo_iff.2 ?_
    have here := of_decide_eq_true here
    have there := of_decide_eq_true there
    exact (Binary64.rank_eq_of_value_eq (here.trans there.symm) (here ▸ nonzero)).le
  · rw [filter_zeros finite' sorted, kept, kept]
    intro a b le positive negative
    have le := upTo_iff.1 le
    rw [positive, negative] at le
    exact absurd le (by decide)

/-- Keyframes are sorted stably just when none at the positive zero stood before one at the negative zero. -/
lemma stablySorted_iff (finite : ∀ k ∈ ks, k.position.isFinite = true) (arranged : Arranged ks sorted) :
    StablySorted ks sorted ↔ ks.Pairwise fun a b => a.position = .zero → b.position ≠ -.zero := by
  constructor
  · intro stable
    have zeros := (stable.ties 0).symm.trans arranged.zeros
    have differ : -Binary64.zero ≠ .zero := by decide
    have first : ∀ k ∈ ks.filter (fun k => k.position = -.zero), k.position ≠ .zero :=
      fun k mem positive => differ ((of_decide_eq_true (List.mem_filter.1 mem).2).symm.trans positive)
    have second : ∀ k ∈ ks.filter (fun k => k.position = .zero), k.position ≠ -.zero :=
      fun k mem negative => differ (negative.symm.trans (of_decide_eq_true (List.mem_filter.1 mem).2))
    have apart : (ks.filter fun k => k.position.value = 0).Pairwise
        fun a b => a.position = .zero → b.position ≠ -.zero := by
      rw [zeros, List.pairwise_append]
      exact ⟨List.pairwise_of_forall_mem_list fun a mem _ _ positive => absurd positive (first a mem),
        List.pairwise_of_forall_mem_list fun _ _ b mem _ => second b mem,
        fun a mem _ _ positive => absurd positive (first a mem)⟩
    rw [List.pairwise_filter] at apart
    refine List.Pairwise.imp_of_mem (fun ha hb apart positive negative => ?_) apart
    refine apart (decide_eq_true ?_) (decide_eq_true ?_) positive negative
    · exact (Binary64.value_eq_zero_iff (finite _ ha)).2 (.inr positive)
    · exact (Binary64.value_eq_zero_iff (finite _ hb)).2 (.inl negative)
  · intro apart
    refine ⟨arranged.perm, arranged.ascending, fun q => ?_⟩
    by_cases zero : q = 0
    · rw [zero, arranged.zeros, filter_zeros finite apart fun _ _ => id]
    · exact arranged.ties q zero

end Palette

end LedEffect
