import LedEffect.Proofs.Program.Form
import LedEffect.Proofs.Program.Liveness

/-!
# Lowered values

Lowering goes along the order, so each node finds its inputs lowered, and later nodes change nothing
that an earlier one has read: the table of lowered values is a fixed point of lowering single nodes
(`Lowers`). The scope of a lowered node is that of the pixel exactly when it depends on the pixel
(`Lowers.scope_iff`), and it has a variable exactly when it is read twice or needs statements
(`Lowers.block_ne_nil_iff`).
-/

namespace LedEffect

namespace ResolvedEffect

variable {r : ResolvedEffect}

/-- Whether a node or one that it reads, directly or not, is of a kind that differs from pixel to
pixel. -/
def PerPixel (r : ResolvedEffect) (v : Nat) : Prop :=
  ∃ j n, r.Reaches v j ∧ r.nodes[j]? = some n ∧ n.kind.isPerPixel = true

lemma PerPixel.of_reaches {u v : Nat} (perPixel : r.PerPixel v) (path : r.Reaches u v) :
    r.PerPixel u := by
  obtain ⟨j, n, onward, place, kind⟩ := perPixel
  exact ⟨j, n, path.trans onward, place, kind⟩

/-- Whether a node is computed into a variable: its value needs statements, or it has inputs and is
read by two or more operand slots of live nodes. -/
def Materialized (r : ResolvedEffect) (v : Nat) : Prop :=
  ∃ n, r.nodes[v]? = some n ∧ (n.NeedsStatements ∨ n.inputs ≠ [] ∧ 2 ≤ r.readers v)

/-- What holds of a node when it holds of all it reads holds of every node. -/
lemma WellFormed.induction (wf : r.WellFormed) {P : Nat → Prop}
    (step : ∀ v, (∀ u, r.Reads v u → P u) → P v) (v : Nat) : P v := by
  induction measure : r.order.toList.idxOf v using Nat.strong_induction_on generalizing v with
  | _ k ih =>
    subst measure
    exact step v fun u read => ih _ (wf.forward v u read) u rfl

end ResolvedEffect

namespace Program

open ResolvedEffect

variable {r : ResolvedEffect} {values : Values}

/-- What the table of lowered values is: each live node but the sinks is lowered from the same table,
all others have no entry. -/
structure Lowers (r : ResolvedEffect) (values : Values) : Prop where
  size : values.size = r.nodes.size
  lowered : ∀ v n, r.nodes[v]? = some n → r.Live v → n.kind.isSink = false →
    ∃ l, values[v]? = some (some l) ∧ lowerNode? values v (r.readers v) n = some l
  absent : ∀ v n, r.nodes[v]? = some n → ¬ (r.Live v ∧ n.kind.isSink = false) →
    values[v]? = some none

/-- What holds of the table while the nodes `done` are lowered. -/
structure Lowering (r : ResolvedEffect) (done : List Nat) (values : Values) : Prop where
  size : values.size = r.nodes.size
  lowered : ∀ v ∈ done, ∀ n, r.nodes[v]? = some n → r.Live v → n.kind.isSink = false →
    ∃ l, values[v]? = some (some l) ∧ lowerNode? values v (r.readers v) n = some l
  absent : ∀ v n, r.nodes[v]? = some n → v ∉ done ∨ ¬ (r.Live v ∧ n.kind.isSink = false) →
    values[v]? = some none

lemma Lowering.initial (r : ResolvedEffect) :
    Lowering r [] (Array.replicate r.nodes.size none) := by
  refine ⟨by simp, fun v mem => absurd mem List.not_mem_nil, fun v n place _ => ?_⟩
  rw [Array.getElem?_replicate, if_pos (Array.getElem?_eq_some_iff.1 place).1]

/-- A node that is not live or a sink is passed over. -/
lemma Lowering.skip {done : List Nat} {u : Nat} {n : ResolvedNode} (inv : Lowering r done values)
    (place : r.nodes[u]? = some n) (idle : ¬ (r.Live u ∧ n.kind.isSink = false)) :
    Lowering r (done ++ [u]) values := by
  refine ⟨inv.size, fun v mem m place' live value => ?_, fun v m place' left => ?_⟩
  · rcases List.mem_append.1 mem with mem | mem
    · exact inv.lowered v mem m place' live value
    · obtain rfl := List.mem_singleton.1 mem
      obtain rfl := Option.some_inj.1 (place.symm.trans place')
      exact absurd ⟨live, value⟩ idle
  · exact inv.absent v m place' (left.imp_left fun fresh mem => fresh (List.mem_append_left _ mem))

/-- The inputs of the next node that is live and no sink are lowered. -/
lemma Lowering.input {done rest : List Nat} {u v : Nat} {n : ResolvedNode} (wf : r.WellFormed)
    (inv : Lowering r done values) (split : r.order.toList = done ++ u :: rest)
    (place : r.nodes[u]? = some n) (live : r.Live u) (value : n.kind.isSink = false)
    (mem : v ∈ n.inputs) : ∃ l, values[v]? = some (some l) := by
  have read : r.Reads u v := ⟨n, place, mem⟩
  obtain ⟨m, here⟩ : ∃ m, r.nodes[v]? = some m :=
    ⟨_, Array.getElem?_eq_getElem (wf.inside u v read)⟩
  obtain ⟨l, lowered, -⟩ := inv.lowered v (wf.read_before split read) _ here (live.read read)
    (wf.sinks u n place (Kind.ne_output value) v mem _ here)
  exact ⟨l, lowered⟩

/-- A live node that is no sink is lowered, which no earlier node notices. -/
lemma Lowering.lower {done rest : List Nat} {u : Nat} {n : ResolvedNode} (wf : r.WellFormed)
    (inv : Lowering r done values) (split : r.order.toList = done ++ u :: rest)
    (place : r.nodes[u]? = some n) (live : r.Live u) (value : n.kind.isSink = false) :
    ∃ l, lowerNode? values u (r.readers u) n = some l ∧
      Lowering r (done ++ [u]) (values.set! u (some l)) := by
  have small : u < values.size := by
    rw [inv.size]
    exact (Array.getElem?_eq_some_iff.1 place).1
  have fresh : u ∉ done := fun mem => by
    have distinct := wf.nodup_order
    rw [split] at distinct
    exact (List.nodup_append.1 distinct).2.2 u mem u List.mem_cons_self rfl
  obtain ⟨form, asked⟩ := @exists_form? u n (operand? values n) value (wf.params u n place)
    (wf.arity u n place).1 (fun slot bound => by
      have input := List.getElem?_eq_getElem bound
      obtain ⟨l, lowered⟩ := inv.input wf split place live value (List.mem_of_getElem? input)
      exact ⟨l.expr, operand?_eq_some input lowered⟩)
  obtain ⟨l, run⟩ := @exists_lowerNode? values u (r.readers u) n form asked
  refine ⟨l, run, by simpa using inv.size, fun v mem m place' live' value' => ?_,
    fun v m place' left => ?_⟩
  · -- Neither an earlier node nor the node itself reads the entry that is new.
    have unread : u ∉ m.inputs := by
      intro input
      have read : r.Reads v u := ⟨m, place', input⟩
      rcases List.mem_append.1 mem with mem | mem
      · obtain ⟨before, after, eq⟩ := List.append_of_mem mem
        rw [eq, List.append_assoc, List.cons_append] at split
        exact fresh (eq ▸ List.mem_append_left _ (wf.read_before split read))
      · rw [List.mem_singleton.1 mem] at read
        exact fresh (wf.read_before split read)
    have same : ∀ w ∈ m.inputs, (values.set! u (some l))[w]? = values[w]? := by
      intro w input
      have differ : u ≠ w := fun eq => unread (eq ▸ input)
      rw [Array.set!_eq_setIfInBounds, Array.getElem?_setIfInBounds, if_neg differ]
    rw [lowerNode?_congr same, Array.set!_eq_setIfInBounds, Array.getElem?_setIfInBounds]
    split
    next eq =>
      subst eq
      obtain rfl := Option.some_inj.1 (place.symm.trans place')
      exact ⟨l, by simp, run⟩
    next differ =>
      have earlier : v ∈ done :=
        (List.mem_append.1 mem).resolve_right fun mem => differ (List.mem_singleton.1 mem).symm
      exact inv.lowered v earlier m place' live' value'
  · have differ : u ≠ v := by
      rintro rfl
      obtain rfl := Option.some_inj.1 (place.symm.trans place')
      rcases left with new | idle
      · exact new (List.mem_append_right _ (List.mem_singleton.2 rfl))
      · exact idle ⟨live, value⟩
    rw [Array.set!_eq_setIfInBounds, Array.getElem?_setIfInBounds, if_neg differ]
    exact inv.absent v m place' (left.imp_left fun new mem => new (List.mem_append_left _ mem))

lemma orderedNodes?_spec (wf : r.WellFormed) :
    ∃ ordered, orderedNodes? r = some ordered ∧ ordered.map (·.1) = r.order.toList ∧
      ∀ x ∈ ordered, r.nodes[x.1]? = some x.2 := by
  obtain ⟨ordered, each⟩ : ∃ ordered : List (Nat × ResolvedNode),
      List.Forall₂ (fun i x => (r.nodes[i]?).map (i, ·) = some x) r.order.toList ordered := by
    refine exists_forall₂ fun i mem => ?_
    rw [Array.getElem?_eq_getElem (wf.mem_order.1 mem)]
    exact ⟨_, rfl⟩
  have places : ∀ (i : Nat) (x : Nat × ResolvedNode), (r.nodes[i]?).map (i, ·) = some x →
      x.1 = i ∧ r.nodes[x.1]? = some x.2 := by
    intro i x eq
    obtain ⟨n, place, rfl⟩ := Option.map_eq_some_iff.1 eq
    exact ⟨rfl, place⟩
  refine ⟨ordered, mapM_eq_some.2 each, ?_, fun x mem => ?_⟩
  · simpa using @Forall₂.map_eq _ _ _ id Prod.fst _ _ (each.imp fun i x eq => (places i x eq).1)
  · obtain ⟨i, -, eq⟩ := Forall₂.exists_mem_left each mem
    exact (places i x eq).2

/-- Lowering the rest of the order, each node after what it reads. -/
lemma Lowering.run (wf : r.WellFormed) {live : Array Bool} {counts : Array Nat}
    {rest : List (Nat × ResolvedNode)} {done : List Nat} {values : Values}
    (size : live.size = r.nodes.size) (live_iff : ∀ v : Nat, live[v]? = some true ↔ r.Live v)
    (readers : ∀ v < r.nodes.size, counts[v]? = some (r.readers v))
    (places : ∀ x ∈ rest, r.nodes[x.1]? = some x.2)
    (split : r.order.toList = done ++ rest.map (·.1)) (inv : Lowering r done values) :
    ∃ final, rest.foldlM (fun values (i, n) => do
        if (← live[i]?) && !n.kind.isSink then
          let lowered ← lowerNode? values i (← counts[i]?) n
          some (values.set! i (some lowered))
        else some values) values = some final ∧ Lowering r r.order.toList final := by
  induction rest generalizing done values with
  | nil =>
    rw [List.map_nil, List.append_nil] at split
    exact ⟨values, rfl, split ▸ inv⟩
  | cons x rest ih =>
    obtain ⟨u, n⟩ := x
    obtain ⟨place, places⟩ := List.forall_mem_cons.1 places
    have small : u < r.nodes.size := (Array.getElem?_eq_some_iff.1 place).1
    have next : r.order.toList = (done ++ [u]) ++ rest.map (·.1) := by
      simpa using split
    rw [List.foldlM_cons]
    by_cases active : r.Live u ∧ n.kind.isSink = false
    · obtain ⟨l, run, inv'⟩ := inv.lower wf (by simpa using split) place active.1 active.2
      obtain ⟨final, rest', done'⟩ := ih places next inv'
      refine ⟨final, Option.bind_eq_some_iff.2 ⟨values.set! u (some l), ?_, rest'⟩, done'⟩
      refine Option.bind_eq_some_iff.2 ⟨true, (live_iff u).2 active.1, ?_⟩
      rw [active.2, readers u small]
      exact Option.bind_eq_some_iff.2 ⟨l, run, rfl⟩
    · obtain ⟨final, rest', done'⟩ := ih places next (inv.skip place active)
      obtain ⟨mark, marked⟩ : ∃ mark, live[u]? = some mark :=
        ⟨_, Array.getElem?_eq_getElem (size ▸ small)⟩
      refine ⟨final, Option.bind_eq_some_iff.2 ⟨values, ?_, rest'⟩, done'⟩
      refine Option.bind_eq_some_iff.2 ⟨mark, marked, ?_⟩
      rw [if_neg]
      intro chosen
      rw [Bool.and_eq_true, Bool.not_eq_true'] at chosen
      exact active ⟨(live_iff u).1 (chosen.1 ▸ marked), chosen.2⟩

/-- Lowering along the order succeeds and fills the table. -/
lemma lowerValues?_spec (wf : r.WellFormed) {live : Array Bool} {counts : Array Nat}
    {ordered : List (Nat × ResolvedNode)} (size : live.size = r.nodes.size)
    (live_iff : ∀ v : Nat, live[v]? = some true ↔ r.Live v)
    (readers : ∀ v < r.nodes.size, counts[v]? = some (r.readers v))
    (nodes : ordered.map (·.1) = r.order.toList)
    (places : ∀ x ∈ ordered, r.nodes[x.1]? = some x.2) :
    ∃ values, lowerValues? live counts ordered = some values ∧ Lowers r values := by
  have blank : Lowering r [] (Array.replicate live.size none) := size ▸ Lowering.initial r
  obtain ⟨values, run, inv⟩ := Lowering.run wf size live_iff readers places
    (by simpa using nodes.symm) blank
  refine ⟨values, run, inv.size, fun v n place live value => ?_, fun v n place idle => ?_⟩
  · exact inv.lowered v (wf.mem_order.2 (Array.getElem?_eq_some_iff.1 place).1) n place live value
  · exact inv.absent v n place (.inr idle)

namespace Lowers

variable {u v : Nat} {n : ResolvedNode} {l : Lowered}

/-- An entry of the table is that of a live node that is no sink. -/
lemma entry (lowers : Lowers r values) (lowered : values[v]? = some (some l)) :
    ∃ n, r.nodes[v]? = some n ∧ r.Live v ∧ n.kind.isSink = false ∧
      lowerNode? values v (r.readers v) n = some l := by
  have small : v < r.nodes.size := by
    rw [← lowers.size]
    exact (Array.getElem?_eq_some_iff.1 lowered).1
  obtain ⟨n, place⟩ : ∃ n, r.nodes[v]? = some n := ⟨_, Array.getElem?_eq_getElem small⟩
  by_cases active : r.Live v ∧ n.kind.isSink = false
  · obtain ⟨l', lowered', run⟩ := lowers.lowered v n place active.1 active.2
    rw [lowered, Option.some_inj, Option.some_inj] at lowered'
    exact ⟨n, place, active.1, active.2, lowered' ▸ run⟩
  · cases lowered.symm.trans (lowers.absent v n place active)

/-- What a live node other than an output reads is lowered. -/
lemma input (lowers : Lowers r values) (wf : r.WellFormed) (place : r.nodes[v]? = some n)
    (live : r.Live v) (kind : n.kind ≠ .output) (mem : u ∈ n.inputs) :
    ∃ l, values[u]? = some (some l) := by
  have read : r.Reads v u := ⟨n, place, mem⟩
  obtain ⟨m, here⟩ : ∃ m, r.nodes[u]? = some m :=
    ⟨_, Array.getElem?_eq_getElem (wf.inside v u read)⟩
  obtain ⟨l, lowered, -⟩ := lowers.lowered u m here (live.read read)
    (wf.sinks v n place kind u mem m here)
  exact ⟨l, lowered⟩

end Lowers

/-! ## Scopes -/

/-- The narrowest of some scopes is that of the pixel when one of them is. -/
lemma foldl_max_eq_pixel {s : Scope} {scopes : List Scope} :
    scopes.foldl Scope.max s = .pixel ↔ s = .pixel ∨ Scope.pixel ∈ scopes := by
  induction scopes generalizing s with
  | nil => simp
  | cons first scopes ih =>
    rw [List.foldl_cons, ih, List.mem_cons, ← or_assoc]
    apply or_congr_left
    cases s with
    | frame => simp [Scope.max, eq_comm]
    | pixel => simp [Scope.max]

lemma scopeOf_eq_pixel {n : ResolvedNode} :
    scopeOf values n = .pixel ↔ n.kind.isPerPixel = true ∨
      ∃ u ∈ n.inputs, ∃ l, values[u]? = some (some l) ∧ l.scope = .pixel := by
  rw [scopeOf, foldl_max_eq_pixel, List.mem_filterMap]
  refine or_congr ?_ (exists_congr fun u => and_congr_right fun _ => ?_)
  · split
    next perPixel => simp [perPixel]
    next frame => simp [frame]
  · simp [Option.join_eq_some_iff]

lemma perPixel_iff {v : Nat} {n : ResolvedNode} (place : r.nodes[v]? = some n) :
    r.PerPixel v ↔ n.kind.isPerPixel = true ∨ ∃ u ∈ n.inputs, r.PerPixel u := by
  constructor
  · rintro ⟨j, m, path, there, perPixel⟩
    rcases Relation.ReflTransGen.cases_head path with rfl | ⟨u, ⟨n', place', mem⟩, path⟩
    · obtain rfl := Option.some_inj.1 (place.symm.trans there)
      exact .inl perPixel
    · obtain rfl := Option.some_inj.1 (place.symm.trans place')
      exact .inr ⟨u, mem, j, m, path, there, perPixel⟩
  · rintro (perPixel | ⟨u, mem, j, m, path, there, perPixel⟩)
    · exact ⟨v, n, .refl, place, perPixel⟩
    · exact ⟨j, m, path.head ⟨n, place, mem⟩, there, perPixel⟩

/-- The scope of a lowered node is that of the pixel when it depends on the pixel. -/
lemma Lowers.scope_iff (lowers : Lowers r values) (wf : r.WellFormed) {v : Nat} {l : Lowered}
    (lowered : values[v]? = some (some l)) : l.scope = .pixel ↔ r.PerPixel v := by
  -- Along the order: what the node reads has its scope before.
  induction v using wf.induction generalizing l with
  | step v ih =>
    obtain ⟨n, place, live, value, run⟩ := lowers.entry lowered
    rw [(lowerNode?_eq_some run).1, scopeOf_eq_pixel, perPixel_iff place]
    refine or_congr_right (exists_congr fun u => and_congr_right fun mem => ?_)
    obtain ⟨l', lowered'⟩ := lowers.input wf place live (Kind.ne_output value) mem
    rw [← ih u ⟨n, place, mem⟩ lowered']
    constructor
    · rintro ⟨l'', lowered'', scope⟩
      rw [lowered', Option.some_inj, Option.some_inj] at lowered''
      exact lowered'' ▸ scope
    · exact fun scope => ⟨l', lowered', scope⟩

/-! ## Variables -/

namespace Lowers

variable {v : Nat} {l : Lowered}

/-- A lowered node has statements of its own when it is computed into a variable. -/
lemma block_ne_nil_iff (lowers : Lowers r values) (lowered : values[v]? = some (some l)) :
    l.block ≠ [] ↔ r.Materialized v := by
  obtain ⟨n, place, -, -, run⟩ := lowers.entry lowered
  obtain ⟨-, form, asked, stored⟩ := lowerNode?_eq_some run
  have needs := form?_statements_iff asked
  have materialized : r.Materialized v ↔
      n.NeedsStatements ∨ n.inputs ≠ [] ∧ 2 ≤ r.readers v := by
    refine ⟨fun ⟨m, place', h⟩ => ?_, fun h => ⟨n, place, h⟩⟩
    obtain rfl := Option.some_inj.1 (place.symm.trans place')
    exact h
  rw [materialized, ← needs]
  generalize l.expr = e at stored
  generalize l.block = block at stored
  cases stored with
  | statements body => simp
  | shared e many operation => simp [many, operation]
  | inlined e once =>
    simp only [ne_eq, not_true_eq_false, reduceCtorEq, exists_false, false_or, false_iff]
    exact fun h => once ⟨h.2, h.1⟩

/-- What a lowered node is the lowering of. -/
lemma stored (lowers : Lowers r values) (lowered : values[v]? = some (some l)) :
    ∃ n form, r.nodes[v]? = some n ∧ r.Live v ∧ n.kind ≠ .output ∧
      Formed v n (operand? values n) form ∧ Stored v (r.readers v) n form l.expr l.block := by
  obtain ⟨n, place, live, value, run⟩ := lowers.entry lowered
  obtain ⟨-, form, asked, stored⟩ := lowerNode?_eq_some run
  exact ⟨n, form, place, live, Kind.ne_output value, Formed.of_form? asked, stored⟩

/-- Consumers of a node without a variable read its expression. -/
lemma inlined (lowers : Lowers r values) (lowered : values[v]? = some (some l))
    (bare : ¬ r.Materialized v) :
    ∃ n, r.nodes[v]? = some n ∧ r.Live v ∧ n.kind ≠ .output ∧
      Formed v n (operand? values n) (.expr l.expr) := by
  obtain ⟨n, form, place, live, kind, formed, stored⟩ := lowers.stored lowered
  have empty : l.block = [] := by
    by_contra block
    exact bare ((lowers.block_ne_nil_iff lowered).1 block)
  generalize l.expr = e at stored ⊢
  generalize l.block = block at stored empty
  cases stored with
  | statements body => cases empty
  | shared e many operation => cases empty
  | inlined e once => exact ⟨n, place, live, kind, formed⟩

/-- Consumers of a node with a variable read the variable, which the statements of the node define. -/
lemma variable_of_materialized (lowers : Lowers r values) (lowered : values[v]? = some (some l))
    (materialized : r.Materialized v) :
    l.expr = .name (.temporary v) ∧ ∃ n, r.nodes[v]? = some n ∧ r.Live v ∧ n.kind ≠ .output ∧
      ((∃ body, Formed v n (operand? values n) (.statements body) ∧
          l.block = .comment (heading n) :: body) ∨
        ∃ e, Formed v n (operand? values n) (.expr e) ∧
          l.block = [.comment (heading n), .declare .float (.temporary v) (some e)]) := by
  have block := (lowers.block_ne_nil_iff lowered).2 materialized
  obtain ⟨n, form, place, live, kind, formed, stored⟩ := lowers.stored lowered
  generalize l.expr = e at stored
  generalize l.block = statements at stored block
  cases stored with
  | statements body => exact ⟨rfl, n, place, live, kind, .inl ⟨body, formed, rfl⟩⟩
  | shared e many operation => exact ⟨rfl, n, place, live, kind, .inr ⟨e, formed, rfl⟩⟩
  | inlined e once => exact absurd rfl block

/-- What holds of the variables, and of an expression when it holds of what the node reads, holds of
what consumers read of every lowered node. -/
lemma expr_induction (lowers : Lowers r values) (wf : r.WellFormed) {P : Nat → Expr → Prop}
    (stored : ∀ v l, values[v]? = some (some l) → r.Materialized v → P v (.name (.temporary v)))
    (inlined : ∀ v n e, r.nodes[v]? = some n → r.Live v → n.kind ≠ .output →
      Formed v n (operand? values n) (.expr e) →
      (∀ u l, r.Reads v u → values[u]? = some (some l) → P u l.expr) → P v e)
    (lowered : values[v]? = some (some l)) : P v l.expr := by
  -- Along the order, as the expression is put together.
  induction v using wf.induction generalizing l with
  | step v ih =>
    by_cases materialized : r.Materialized v
    · rw [(lowers.variable_of_materialized lowered materialized).1]
      exact stored v l lowered materialized
    · obtain ⟨n, place, live, kind, formed⟩ := lowers.inlined lowered materialized
      exact inlined v n l.expr place live kind formed fun u l read lowered => ih u read lowered

end Lowers

end Program

end LedEffect
