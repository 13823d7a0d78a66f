import LedEffect.Graph.Search
import LedEffect.Proofs.Graph.Reach
import LedEffect.Proofs.Traversal

/-!
# Breadth-first search

Along the queue the distances ascend, and none is more than one above that of the node whose turn it is
(`Spreading`). A node that is discovered therefore keeps its distance, which is the least number of
edges from the source (`bfs_spec`).
-/

namespace LedEffect.Graph

/-- Whether a walk of `k` edges leads from the source to a node. -/
inductive Hops (g : Graph) (source : Nat) : Nat → Nat → Prop
  | start : Hops g source source 0
  | step {u v k : Nat} (walk : Hops g source u k) (edge : g.Adjacent u v) : Hops g source v (k + 1)

variable {g : Graph} {source head u v : Nat} {f : Frontier}

lemma exists_hops_iff : (∃ k, Hops g source v k) ↔ g.Reaches source v := by
  constructor
  · rintro ⟨k, walk⟩
    induction walk with
    | start => exact .refl
    | step _ edge ih => exact ih.tail edge
  · intro path
    induction path with
    | refl => exact ⟨0, .start⟩
    | tail _ edge ih =>
      obtain ⟨k, walk⟩ := ih
      exact ⟨k + 1, walk.step edge⟩

/-! ## The invariant -/

/-- The distance of a node so far. -/
def Frontier.hops (f : Frontier) (v : Nat) : Nat := f.distances.getD v unreachable

/-- The state in which a node has come to the end of the queue. -/
def Frontier.push (f : Frontier) (v distance : Nat) : Frontier :=
  ⟨f.distances.set! v distance, f.queue.push v⟩

lemma Frontier.hops_push {distance : Nat} (bound : v < f.distances.size) (w : Nat) :
    (f.push v distance).hops w = if w = v then distance else f.hops w := by
  simp only [push, hops, Array.getD_eq_getD_getElem?, Array.set!_eq_setIfInBounds,
    Array.getElem?_setIfInBounds]
  rcases eq_or_ne w v with rfl | differ
  · simp [bound]
  · simp [differ, differ.symm]

lemma Frontier.hops_push_self {distance : Nat} (bound : v < f.distances.size) :
    (f.push v distance).hops v = distance := by
  rw [hops_push bound, if_pos rfl]

/-- The distances of the nodes in the queue stay when another comes to its end. -/
lemma Frontier.hops_push_of_mem {distance w : Nat} (bound : v < f.distances.size)
    (absent : v ∉ f.queue.toList) (mem : w ∈ f.queue.toList) :
    (f.push v distance).hops w = f.hops w := by
  rw [hops_push bound, if_neg]
  rintro rfl
  exact absent mem

lemma Frontier.toList_push (f : Frontier) (v distance : Nat) :
    (f.push v distance).queue.toList = f.queue.toList ++ [v] := Array.toList_push

/-- A place of the queue that was never filled changes nothing. -/
lemma Frontier.expand?_none (turn : f.queue.toList[head]? = none) : f.expand? g head = some f := by
  rw [Array.getElem?_toList] at turn
  rw [expand?, turn]

/-- The node whose turn it is offers its neighbours one hop more than its own distance. -/
lemma Frontier.expand?_some (size : f.distances.size = g.nodeCount) (node : u < g.nodeCount)
    (turn : f.queue.toList[head]? = some u) : f.expand? g head =
      (increment? (f.hops u)).bind fun next => (g.row u).foldlM (reach? g.nodeCount next) f := by
  have known : f.distances[u]? = some (f.hops u) := by
    simp [hops, size ▸ node]
  rw [Array.getElem?_toList] at turn
  simp only [expand?, turn, known, neighbors?_eq_row node, Option.bind_eq_bind, Option.bind_some]

/-- What holds when the first `head` places of the queue are expanded. -/
structure Spreading (g : Graph) (source head : Nat) (f : Frontier) : Prop where
  size : f.distances.size = g.nodeCount
  nodup : f.queue.toList.Nodup
  nodes : ∀ v ∈ f.queue.toList, v < g.nodeCount
  reached : ∀ v < g.nodeCount, v ∈ f.queue.toList ↔ f.hops v ≠ unreachable
  origin : source ∈ f.queue.toList ∧ f.hops source = 0
  sound : ∀ v ∈ f.queue.toList, Hops g source v (f.hops v)
  early : ∀ (place v : Nat), f.queue.toList[place]? = some v → f.hops v ≤ place
  ascending : f.queue.toList.Pairwise fun u v => f.hops u ≤ f.hops v
  level : ∀ u, f.queue.toList[head]? = some u → ∀ v ∈ f.queue.toList, f.hops v ≤ f.hops u + 1
  closed : ∀ u ∈ f.queue.toList.take head, ∀ v, g.Adjacent u v →
    v ∈ f.queue.toList ∧ f.hops v ≤ f.hops u + 1

namespace Spreading

lemma size_le (inv : Spreading g source head f) : f.queue.size ≤ g.nodeCount :=
  length_le_of_nodup inv.nodup inv.nodes

lemma size_lt (inv : Spreading g source head f) (node : v < g.nodeCount)
    (absent : v ∉ f.queue.toList) : f.queue.size < g.nodeCount :=
  length_lt_of_nodup inv.nodup inv.nodes node absent

/-- What holds of the nodes in the queue and of a fresh one holds of the nodes in the longer queue. -/
lemma forall_mem_push {distance : Nat} {p : Nat → Prop} (old : ∀ w ∈ f.queue.toList, p w)
    (fresh : p v) : ∀ w ∈ (f.push v distance).queue.toList, p w := by
  rw [Frontier.toList_push]
  exact List.forall_mem_append.2 ⟨old, List.forall_mem_singleton.2 fresh⟩

/-- A fresh neighbour of the node whose turn it is comes to the end of the queue, one edge farther
away. -/
lemma push (inv : Spreading g source head f) (turn : f.queue.toList[head]? = some u)
    (near : f.hops u + 1 ≠ unreachable) (edge : g.Adjacent u v)
    (absent : v ∉ f.queue.toList) : Spreading g source head (f.push v (f.hops u + 1)) := by
  have bound : v < f.distances.size := inv.size ▸ edge.target
  have here : head < f.queue.toList.length := (List.getElem?_eq_some_iff.1 turn).1
  have mem : u ∈ f.queue.toList := List.mem_of_getElem? turn
  have early := inv.early head u turn
  have level := inv.level u turn
  have fresh : (f.push v (f.hops u + 1)).hops v = f.hops u + 1 := Frontier.hops_push_self bound
  have kept : ∀ w ∈ f.queue.toList, (f.push v (f.hops u + 1)).hops w = f.hops w :=
    fun w => Frontier.hops_push_of_mem bound absent
  have queue := f.toList_push v (f.hops u + 1)
  rw [Array.length_toList] at here
  refine
    { size := by simpa [Frontier.push] using inv.size
      nodes := forall_mem_push inv.nodes edge.target
      nodup := ?nodup, reached := ?reached, origin := ?origin, sound := ?sound, early := ?early
      ascending := ?ascending, level := ?level, closed := ?closed }
  case nodup =>
    rw [queue, List.nodup_append_comm]
    exact List.nodup_cons.2 ⟨absent, inv.nodup⟩
  case reached =>
    intro w node
    rw [queue, List.mem_append, List.mem_singleton]
    rcases eq_or_ne w v with rfl | differ
    · rw [fresh]
      exact iff_of_true (.inr rfl) near
    · rw [Frontier.hops_push bound, if_neg differ, ← inv.reached w node]
      simp [differ]
  case origin =>
    rw [queue]
    exact ⟨List.mem_append_left _ inv.origin.1, (kept source inv.origin.1).trans inv.origin.2⟩
  case sound =>
    refine forall_mem_push (fun w old => ?_) ?_
    · rw [kept w old]
      exact inv.sound w old
    · rw [fresh]
      exact (inv.sound u mem).step edge
  case early =>
    intro place w there
    rw [queue] at there
    rcases Nat.lt_or_ge place f.queue.toList.length with old | new
    · rw [List.getElem?_append_left old] at there
      rw [kept w (List.mem_of_getElem? there)]
      exact inv.early place w there
    · rw [List.getElem?_append_right new] at there
      obtain rfl := List.mem_singleton.1 (List.mem_of_getElem? there)
      rw [fresh]
      rw [Array.length_toList] at new
      omega
  case ascending =>
    rw [queue]
    refine List.pairwise_append.2 ⟨?_, List.pairwise_singleton _ _, fun w old x new => ?_⟩
    · refine inv.ascending.imp_of_mem fun {w x} hw hx le => ?_
      rwa [kept w hw, kept x hx]
    · obtain rfl := List.mem_singleton.1 new
      rw [kept w old, fresh]
      exact level w old
  case level =>
    intro w there
    rw [queue, List.getElem?_append_left (by rw [Array.length_toList]; exact here), turn,
      Option.some_inj] at there
    subst there
    rw [kept u mem]
    refine forall_mem_push (fun x old => ?_) fresh.le
    rw [kept x old]
    exact level x old
  case closed =>
    intro w done x edge'
    rw [queue, List.take_append_of_le_length (by rw [Array.length_toList]; omega)] at done
    obtain ⟨old, near⟩ := inv.closed w done x edge'
    rw [queue, kept x old, kept w (List.mem_of_mem_take done)]
    exact ⟨List.mem_append_left _ old, near⟩

/-- The distance of a node is below the number of nodes in the queue. -/
lemma hops_lt_size (inv : Spreading g source head f) (mem : u ∈ f.queue.toList) :
    f.hops u < f.queue.size := by
  obtain ⟨place, there⟩ := List.getElem?_of_mem mem
  have bound := (List.getElem?_eq_some_iff.1 there).1
  rw [Array.length_toList] at bound
  exact (inv.early place u there).trans_lt bound

/-- In a graph within the limit the sentinel is not one edge behind a node whose neighbour is fresh. -/
lemma near (inv : Spreading g source head f) (small : g.nodeCount < 2 ^ 32)
    (mem : u ∈ f.queue.toList) (node : v < g.nodeCount) (absent : v ∉ f.queue.toList) :
    f.hops u + 1 ≠ unreachable := by
  have early := inv.hops_lt_size mem
  have room := inv.size_lt node absent
  simp only [unreachable, counterLimit]
  omega

/-- In a graph within the limit the distance of a node is below the sentinel. -/
lemma hops_lt (inv : Spreading g source head f) (small : g.nodeCount < 2 ^ 32)
    (mem : u ∈ f.queue.toList) : f.hops u < counterLimit := by
  have early := inv.hops_lt_size mem
  have size := inv.size_le
  simp only [counterLimit]
  omega

/-- A neighbour of the node whose turn it is is reached, and nothing that was reached changes. -/
lemma reach (inv : Spreading g source head f) (turn : f.queue.toList[head]? = some u)
    (edge : g.Adjacent u v) (near : v ∉ f.queue.toList → f.hops u + 1 ≠ unreachable) :
    ∃ f', f.reach? g.nodeCount (f.hops u + 1) v = some f' ∧ Spreading g source head f' ∧
      f.queue.toList <+: f'.queue.toList ∧ f'.hops u = f.hops u ∧ v ∈ f'.queue.toList := by
  have node := edge.target
  have bound : v < f.distances.size := inv.size ▸ node
  have known : f.distances[v]? = some (f.hops v) := by
    simp [Frontier.hops, bound]
  by_cases old : f.hops v = unreachable
  · have absent : v ∉ f.queue.toList := fun mem => (inv.reached v node).1 mem old
    have room := inv.size_lt node absent
    have differ : u ≠ v := by
      rintro rfl
      exact absent (List.mem_of_getElem? turn)
    refine ⟨f.push v (f.hops u + 1), ?_, inv.push turn (near absent) edge absent, ?_, ?_, ?_⟩
    · simp [Frontier.reach?, known, old, room, Frontier.push]
    · rw [Frontier.toList_push]
      exact List.prefix_append _ _
    · rw [Frontier.hops_push bound, if_neg differ]
    · rw [Frontier.toList_push]
      simp
  · refine ⟨f, ?_, inv, List.prefix_refl _, rfl, (inv.reached v node).2 old⟩
    simp [Frontier.reach?, known, old]

/-- The neighbours of the node whose turn it is are reached one after the other. -/
lemma row (inv : Spreading g source head f) (turn : f.queue.toList[head]? = some u)
    {nodes : List Nat} (edges : ∀ v ∈ nodes, g.Adjacent u v)
    (near : ∀ v ∈ nodes, v ∉ f.queue.toList → f.hops u + 1 ≠ unreachable) :
    ∃ f', nodes.foldlM (Frontier.reach? g.nodeCount (f.hops u + 1)) f = some f' ∧
      Spreading g source head f' ∧ f.queue.toList <+: f'.queue.toList ∧ f'.hops u = f.hops u ∧
      ∀ v ∈ nodes, v ∈ f'.queue.toList := by
  refine exists_foldlM (I := fun done f' => Spreading g source head f' ∧
    f.queue.toList <+: f'.queue.toList ∧ f'.hops u = f.hops u ∧ ∀ v ∈ done, v ∈ f'.queue.toList)
    nodes ?_ ⟨inv, List.prefix_refl _, rfl, nofun⟩
  rintro done v rest f₁ split ⟨inv₁, grows₁, same₁, reached₁⟩
  have mem : v ∈ nodes := by simp [split]
  have turn₁ : f₁.queue.toList[head]? = some u := by
    obtain ⟨fresh, eq⟩ := grows₁
    rw [← eq, List.getElem?_append_left (List.getElem?_eq_some_iff.1 turn).1, turn]
  obtain ⟨f₂, step, inv₂, grows₂, same₂, reached₂⟩ := inv₁.reach turn₁ (edges v mem) fun absent => by
    rw [same₁]
    exact near v mem fun old => absent (grows₁.subset old)
  rw [same₁] at step same₂
  refine ⟨f₂, step, inv₂, grows₁.trans grows₂, same₂, List.forall_mem_append.2 ⟨?_, ?_⟩⟩
  · exact fun w before => grows₂.subset (reached₁ w before)
  · exact List.forall_mem_singleton.2 reached₂

/-- A place of the queue that was never filled is done with. -/
lemma idle (inv : Spreading g source head f) (short : f.queue.toList.length ≤ head) :
    Spreading g source (head + 1) f := by
  refine { inv with level := ?_, closed := ?_ }
  · intro u turn
    rw [List.getElem?_eq_none (Nat.le_succ_of_le short)] at turn
    cases turn
  · have closed := inv.closed
    rw [List.take_of_length_le short] at closed
    rwa [List.take_of_length_le (Nat.le_succ_of_le short)]

/-- A node all of whose neighbours are reached is done with. -/
lemma finish (inv : Spreading g source head f) (turn : f.queue.toList[head]? = some u)
    (reached : ∀ v, g.Adjacent u v → v ∈ f.queue.toList) : Spreading g source (head + 1) f := by
  refine { inv with level := ?_, closed := ?_ }
  · -- The next node is no nearer than this one.
    intro w next v mem
    have bound := inv.level u turn v mem
    have below : f.hops u ≤ f.hops w := by
      obtain ⟨hi, rfl⟩ := List.getElem?_eq_some_iff.1 turn
      obtain ⟨hj, rfl⟩ := List.getElem?_eq_some_iff.1 next
      exact List.pairwise_iff_getElem.1 inv.ascending head (head + 1) hi hj (Nat.lt_succ_self _)
    omega
  · intro w done v edge
    rw [List.take_add_one, turn, Option.toList_some, List.mem_append, List.mem_singleton] at done
    rcases done with done | rfl
    · exact inv.closed w done v edge
    · exact ⟨reached v edge, inv.level w turn v (reached v edge)⟩

/-- The place behind the expanded ones is expanded. -/
lemma expand (inv : Spreading g source head f) (small : g.nodeCount < 2 ^ 32) :
    ∃ f', f.expand? g head = some f' ∧ Spreading g source (head + 1) f' := by
  cases turn : f.queue.toList[head]? with
  | none =>
    exact ⟨f, Frontier.expand?_none turn, inv.idle (List.getElem?_eq_none_iff.1 turn)⟩
  | some u =>
    have mem := List.mem_of_getElem? turn
    have raised : increment? (f.hops u) = some (f.hops u + 1) := if_pos (inv.hops_lt small mem)
    obtain ⟨f', run, inv', grows, -, reached⟩ := inv.row turn
      (fun v (edge : v ∈ g.row u) => edge) fun v edge => inv.near small mem (Adjacent.target edge)
    have turn' : f'.queue.toList[head]? = some u := by
      obtain ⟨fresh, eq⟩ := grows
      rw [← eq, List.getElem?_append_left (List.getElem?_eq_some_iff.1 turn).1, turn]
    refine ⟨f', ?_, inv'.finish turn' reached⟩
    rw [Frontier.expand?_some inv.size (inv.nodes u mem) turn, raised, Option.bind_some, run]

/-- All places are expanded one after the other. -/
lemma expandAll (inv : Spreading g source 0 f) (small : g.nodeCount < 2 ^ 32) (turns : Nat) :
    ∃ f', (List.range turns).foldlM (Frontier.expand? g) f = some f' ∧
      Spreading g source turns f' := by
  have run := exists_turns (fun head f inv => Spreading.expand inv small) inv turns
  rwa [← List.range_eq_range', Nat.zero_add] at run

/-- At the end no walk to a node has fewer edges than its distance. -/
lemma least (inv : Spreading g source g.nodeCount f) {k : Nat} (walk : Hops g source v k) :
    v ∈ f.queue.toList ∧ f.hops v ≤ k := by
  have all : f.queue.toList.take g.nodeCount = f.queue.toList :=
    List.take_of_length_le (by simpa using inv.size_le)
  induction walk with
  | start => exact ⟨inv.origin.1, Nat.le_of_eq inv.origin.2⟩
  | step _ edge ih =>
    obtain ⟨mem, near⟩ := ih
    obtain ⟨mem', near'⟩ := inv.closed _ (by rwa [all]) _ edge
    exact ⟨mem', near'.trans (Nat.succ_le_succ near)⟩

end Spreading

/-- The source comes into the queue first. -/
lemma Spreading.initial (node : source < g.nodeCount) :
    ∃ f, Frontier.reach? g.nodeCount 0 ⟨Array.replicate g.nodeCount unreachable, #[]⟩ source =
        some f ∧ Spreading g source 0 f := by
  have bound : source < (Array.replicate g.nodeCount unreachable).size := by simpa using node
  let blank : Frontier := ⟨Array.replicate g.nodeCount unreachable, #[]⟩
  have near : (blank.push source 0).hops source = 0 := by
    rw [Frontier.hops_push bound, if_pos rfl]
  have far : ∀ v < g.nodeCount, v ≠ source → (blank.push source 0).hops v = unreachable := by
    intro v small differ
    rw [Frontier.hops_push bound, if_neg differ]
    simp [blank, Frontier.hops, small]
  have queue : (blank.push source 0).queue.toList = [source] := rfl
  have room : 0 < g.nodeCount := Nat.zero_lt_of_lt node
  refine ⟨blank.push source 0, by simp [Frontier.reach?, Frontier.push, blank, node, room], ?_⟩
  refine
    { size := by simp [blank, Frontier.push]
      nodup := List.nodup_singleton source
      nodes := List.forall_mem_singleton.2 node
      origin := ⟨List.mem_singleton.2 rfl, near⟩
      ascending := List.pairwise_singleton _ _
      closed := nofun
      reached := ?reached, sound := ?sound, early := ?early, level := ?level }
  case reached =>
    intro v small
    rw [queue, List.mem_singleton]
    rcases eq_or_ne v source with rfl | differ
    · simp [near, unreachable, counterLimit]
    · simp [far v small differ, differ]
  case sound =>
    intro v mem
    rw [queue] at mem
    rw [List.mem_singleton.1 mem, near]
    exact .start
  case early =>
    intro place v there
    rw [queue] at there
    rw [List.mem_singleton.1 (List.mem_of_getElem? there), near]
    exact Nat.zero_le _
  case level =>
    intro u _ v mem
    rw [queue] at mem
    rw [List.mem_singleton.1 mem, near]
    exact Nat.zero_le _

/-- The search gives every node the least number of edges of a walk to it from the source, and the
sentinel exactly when there is no walk. -/
theorem bfs_spec (small : g.nodeCount < 2 ^ 32) (node : source < g.nodeCount) :
    ∃ hops, g.bfs source = .ok hops ∧ hops.size = g.nodeCount ∧ ∀ v < g.nodeCount, ∃ d,
      hops[v]? = some d ∧ (d ≠ unreachable → Hops g source v d) ∧
        ∀ k, Hops g source v k → d ≠ unreachable ∧ d ≤ k := by
  obtain ⟨start, first, inv⟩ := Spreading.initial node
  obtain ⟨f, run, final⟩ := inv.expandAll small g.nodeCount
  refine ⟨f.distances, ?_, final.size, fun v small' => ⟨f.hops v, ?_, fun reached => ?_,
    fun k walk => ?_⟩⟩
  · rw [bfs, checkSource, if_pos node, hops?, first]
    simp only [Option.bind_eq_bind, Option.bind_some, run]
    rfl
  · simp [Frontier.hops, final.size ▸ small']
  · exact final.sound v ((final.reached v small').2 reached)
  · obtain ⟨mem, near⟩ := final.least walk
    exact ⟨(final.reached v small').1 mem, near⟩

end LedEffect.Graph
