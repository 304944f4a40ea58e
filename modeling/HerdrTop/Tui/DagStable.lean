import HerdrTop.Tui.DagLoops

/-!
# The dependency order is complete, topological and stable

`Recomputed` says what a recomputation ends with: a greedy run over the inherited positions and,
behind it, the runs that some cycle leads to, in the order of their keys. From it follow, for every
order that recomputations can reach, that nothing is lost or listed twice, that prerequisites come
first, that displayed runs keep their order, and that the result is determined.

## What is proved

`recompute_order`: all of this for every model. Runs behind a cycle are the exception to
stability: `cycle_moves_survivor` shows a run that falls behind another one when a cycle appears
among new runs before it.
-/

namespace HerdrTop.Tui

open PriorityOrder HerdrTop.Digraph Relation

/-! ### The index of a list -/

theorem get_indexed {runs : List RunId} (hnodup : runs.Nodup) {run : RunId} {i : ℕ} :
    (indexed runs).get run = some i ↔ runs[i]? = some run := by
  have hkeys : (runs.zipIdx.map Prod.fst).Nodup := by rwa [List.zipIdx_map_fst]
  constructor
  · intro h
    rcases HashMap.get_extend_cases h with h | ⟨h, -⟩
    · exact List.mem_zipIdx_iff_getElem?.mp h
    · cases h
  · intro h
    exact HashMap.get_extend_of_mem hkeys (List.mem_zipIdx_iff_getElem?.mpr h)

/-- Runs in order have indices in order. -/
theorem before_indexed {runs : List RunId} (hnodup : runs.Nodup) {a b : RunId}
    (h : Before runs a b) :
    ∃ i j, (indexed runs).get a = some i ∧ (indexed runs).get b = some j ∧ i < j := by
  simp only [get_indexed hnodup]
  induction runs with
  | nil => cases h
  | cons c runs ih =>
    obtain ⟨hc, hnodup'⟩ := List.nodup_cons.mp hnodup
    cases h with
    | cons _ h =>
      obtain ⟨i, j, hi, hj, hij⟩ := ih hnodup' h
      exact ⟨i + 1, j + 1, by simpa using hi, by simpa using hj, by omega⟩
    | cons_cons _ h =>
      obtain ⟨j, hj⟩ := List.mem_iff_getElem?.mp (List.singleton_sublist.mp h)
      exact ⟨0, j + 1, rfl, by simpa using hj, by omega⟩

theorem contains_indexed {runs : List RunId} (hnodup : runs.Nodup) {run : RunId} :
    (indexed runs).contains run = true ↔ run ∈ runs := by
  rw [HashMap.contains_iff, List.mem_iff_getElem?]
  exact exists_congr fun i => get_indexed hnodup

/-- Two vertices of a sorted list stand in the order of their keys. -/
theorem before_of_sorted {l : List RunId} {key : RunId → OrderKey}
    (hl : l.Pairwise fun a b => key a ≤ key b) {a b : RunId} (ha : a ∈ l) (hb : b ∈ l)
    (hlt : key a < key b) : Before l a b := by
  induction l with
  | nil => cases ha
  | cons c l ih =>
    obtain ⟨hc, hl'⟩ := List.pairwise_cons.mp hl
    rcases List.mem_cons.mp ha with rfl | ha'
    · have hb' : b ∈ l := (List.mem_cons.mp hb).resolve_left fun heq =>
        lt_irrefl _ (heq ▸ hlt)
      exact before_cons_self hb'
    · rcases List.mem_cons.mp hb with rfl | hb'
      · exact absurd (hc a ha') (not_le.mpr hlt)
      · exact (ih hl' ha' hb').cons c

/-! ### Keys -/

@[simp]
theorem orderKey_runId (previous inherited : HashMap RunId ℕ)
    (ordinals : HashMap RunId DisplayOrdinal) (run : RunId) :
    (orderKey previous inherited ordinals run).runId = run := rfl

theorem orderKey_injective (previous inherited : HashMap RunId ℕ)
    (ordinals : HashMap RunId DisplayOrdinal) :
    Function.Injective (orderKey previous inherited ordinals) := fun a b h => by
  simpa using congrArg OrderKey.runId h

/-- The position in a key. -/
def effective (previous inherited : HashMap RunId ℕ) (run : RunId) : WithTop ℕ :=
  if previous.contains run then position previous run else position inherited run

theorem orderKey_lt {previous inherited : HashMap RunId ℕ}
    {ordinals : HashMap RunId DisplayOrdinal} {a b : RunId}
    (h : effective previous inherited a < effective previous inherited b) :
    orderKey previous inherited ordinals a < orderKey previous inherited ordinals b :=
  Prod.Lex.toLex_lt_toLex.mpr (.inl h)

/-- The positions that a recomputation starts with: those of the runs that still exist. -/
def seeds (previous : HashMap RunId ℕ) (nodes : List RunId) (run : RunId) : WithTop ℕ :=
  if run ∈ nodes then position previous run else ⊤

/-- The dependencies between the runs of a model. -/
def modelEdges (model : DomainModel) : List (RunId × RunId) :=
  knownEdges (ordinals model).keys model.dependencyEdges.keys

theorem modelEdges_known {model : DomainModel} {e : RunId × RunId} (he : e ∈ modelEdges model) :
    e.1 ∈ (ordinals model).keys ∧ e.2 ∈ (ordinals model).keys :=
  (mem_knownEdges.mp he).2

/-! ### What a recomputation ends with -/

/-- The result of a recomputation: a greedy run, and behind it what some cycle leads to. -/
structure Recomputed (order : DagOrder) (model : DomainModel) (inherited : HashMap RunId ℕ)
    (ordered remainder : List RunId) (next : DagOrder) : Prop where
  inherits : Inherits (modelEdges model) (seeds order.previousPositions (ordinals model).keys)
    (position inherited)
  greedy : Greedy (modelEdges model) (ordinals model).keys
    (orderKey order.previousPositions inherited (ordinals model)) [] ordered
  sorted : remainder.Pairwise fun a b =>
    orderKey order.previousPositions inherited (ordinals model) a ≤
      orderKey order.previousPositions inherited (ordinals model) b
  perm : remainder.Perm ((ordinals model).keys.filter fun run => run ∉ ordered)
  result : next = {
    runIds := ordered ++ remainder
    previousPositions := indexed (ordered ++ remainder)
    cycleFallbacks :=
      if remainder = [] then order.cycleFallbacks else satAddU64 order.cycleFallbacks 1 }

/-- The seeds are bounded by the sum of all previous positions. -/
theorem seeds_lt {previous : HashMap RunId ℕ} {nodes : List RunId} {n : RunId} {p : ℕ}
    (h : seeds previous nodes n = (p : ℕ)) : p < previous.values.sum + 1 := by
  simp only [seeds] at h
  split at h
  case isTrue =>
    have hget := get_of_position h
    have hmem : p ∈ previous.values := HashMap.mem_values.mpr ⟨n, hget⟩
    have := List.single_le_sum (fun _ _ => Nat.zero_le _) p hmem
    omega
  case isFalse => cases h

theorem get_positioned {nodes : List RunId} {previous : HashMap RunId ℕ} {n : RunId} {p : ℕ} :
    (positioned nodes previous).get n = some p ↔ n ∈ nodes ∧ previous.get n = some p := by
  constructor
  · intro h
    rcases HashMap.get_extend_cases h with h | ⟨h, -⟩
    · obtain ⟨m, hm, heq⟩ := List.mem_map.mp h
      obtain ⟨rfl, rfl⟩ := Prod.mk.inj heq
      obtain ⟨hnode, hcontains⟩ := List.mem_filter.mp hm
      obtain ⟨q, hq⟩ := HashMap.contains_iff.mp hcontains
      exact ⟨hnode, by rw [hq]; rfl⟩
    · cases h
  · rintro ⟨hnode, hp⟩
    have hmem : n ∈ nodes.filter previous.contains :=
      List.mem_filter.mpr ⟨hnode, HashMap.contains_iff.mpr ⟨p, hp⟩⟩
    refine HashMap.get_extend_of_unique (List.mem_map.mpr ⟨n, hmem, by rw [hp]; rfl⟩) ?_
    intro q hq
    obtain ⟨m, -, heq⟩ := List.mem_map.mp hq
    obtain ⟨rfl, rfl⟩ := Prod.mk.inj heq
    rw [hp]
    rfl

theorem position_positioned (nodes : List RunId) (previous : HashMap RunId ℕ) (n : RunId) :
    position (positioned nodes previous) n = seeds previous nodes n := by
  have hnone : ¬ (n ∈ nodes ∧ ∃ p, previous.get n = some p) →
      (positioned nodes previous).get n = none := fun h =>
    Option.eq_none_iff_forall_ne_some.mpr fun p hp =>
      h ⟨(get_positioned.mp hp).1, p, (get_positioned.mp hp).2⟩
  simp only [seeds]
  split
  case isTrue hnode =>
    cases hp : previous.get n with
    | none =>
      have hfree : (positioned nodes previous).get n = none := hnone (by simp [hp])
      simp only [position, hp, hfree]
    | some p => rw [position_of_get hp, position_of_get (get_positioned.mpr ⟨hnode, hp⟩)]
  case isFalse hnode => simp only [position, hnone fun h => hnode h.1]

/-- The propagation begins in a state that satisfies its invariant. -/
theorem propagating_start {edges : List (RunId × RunId)} {nodes : List RunId}
    (previous : HashMap RunId ℕ) (dependent : RunId)
    (hknown : ∀ e ∈ edges, e.1 ∈ nodes ∧ e.2 ∈ nodes) :
    Propagating edges nodes (seeds previous nodes) dependent [] (positioned nodes previous)
      (nodes.filter previous.contains) := by
  have hmem : ∀ n ∈ nodes, ∀ p, previous.get n = some p → n ∈ nodes.filter previous.contains :=
    fun n hn p hp => List.mem_filter.mpr ⟨hn, HashMap.contains_iff.mpr ⟨p, hp⟩⟩
  refine ⟨fun n => (position_positioned nodes previous n).le,
    fun n => ⟨n, .refl, (position_positioned nodes previous n).symm⟩, fun a n ha hn _ => ?_,
    fun n hn => ?_⟩
  · have htop : position (positioned nodes previous) n = ⊤ := by
      rw [position_positioned, seeds, if_pos (hknown _ ha).2]
      cases hp : previous.get n with
      | none => simp only [position, hp]
      | some p => exact absurd (hmem n (hknown _ ha).2 p hp) hn
    rw [htop]
    exact le_top
  · obtain ⟨hnode, hcontains⟩ := List.mem_filter.mp hn
    obtain ⟨p, hp⟩ := HashMap.contains_iff.mp hcontains
    exact ⟨hnode, p, get_positioned.mpr ⟨hnode, hp⟩⟩

/-- The turns that the propagation has are enough. -/
theorem propagationLeft_start (nodes : List RunId) (previous : HashMap RunId ℕ) :
    propagationLeft nodes (previous.values.sum + 1) (positioned nodes previous)
      (nodes.filter previous.contains) ≤ propagationTurns nodes previous := by
  have hsum : (nodes.map fun n => ((positioned nodes previous).get n).getD
      (previous.values.sum + 1)).sum ≤ nodes.length * (previous.values.sum + 1) := by
    refine (List.sum_le_card_nsmul _ (previous.values.sum + 1) fun x hx => ?_).trans_eq (by simp)
    obtain ⟨n, -, rfl⟩ := List.mem_map.mp hx
    cases hp : (positioned nodes previous).get n with
    | none => exact le_rfl
    | some p =>
      have hseed : seeds previous nodes n = (p : ℕ) := by
        rw [← position_positioned, position_of_get hp]
      exact (seeds_lt hseed).le
  exact Nat.add_le_add (List.length_filter_le _ _) hsum

theorem emitting_start {edges : List (RunId × RunId)} {nodes : List RunId} {links : Links}
    {key : RunId → OrderKey} (hkey : Function.Injective key) (hnodup : nodes.Nodup)
    (hlinked : Linked nodes edges links) :
    Emitting edges nodes key [] [] links.indegree
      ((nodes.filter fun run => links.indegree.get run = some 0).map key) := by
  have hdegree : ∀ v d, links.indegree.get v = some d ↔ v ∈ nodes ∧ d = openCount edges [] v := by
    intro v d
    rw [hlinked.indegree, openCount_nil]
    split
    case isTrue h => exact ⟨fun he => ⟨h, (Option.some.inj he).symm⟩, fun he => by rw [he.2]⟩
    case isFalse h => exact ⟨fun he => absurd he (by simp), fun he => absurd he.1 h⟩
  refine ⟨fun v d => by rw [hdegree, List.count_nil, Nat.add_zero], fun k => ?_,
    (hnodup.filter _).map hkey, fun v hv => by cases hv⟩
  rw [List.mem_map]
  constructor
  · rintro ⟨n, hn, rfl⟩
    obtain ⟨hnode, hzero⟩ := List.mem_filter.mp hn
    have := ((hdegree n 0).mp (of_decide_eq_true hzero)).2
    exact ⟨n, rfl, hnode, List.not_mem_nil, by rw [List.count_nil]; omega⟩
  · rintro ⟨n, rfl, hnode, -, hzero⟩
    refine ⟨n, List.mem_filter.mpr ⟨hnode, decide_eq_true ((hdegree n 0).mpr ⟨hnode, ?_⟩)⟩, rfl⟩
    rw [List.count_nil] at hzero
    omega

/-- Every recomputation terminates. -/
theorem recompute_total (order : DagOrder) (model : DomainModel) :
    ∃ next inherited ordered remainder, order.recompute model = some next ∧
      Recomputed order model inherited ordered remainder next := by
  set nodes := (ordinals model).keys with hnodes
  have hnodup : nodes.Nodup := HashMap.keys_nodup _
  have hknown : ∀ e ∈ modelEdges model, e.1 ∈ nodes ∧ e.2 ∈ nodes := fun _ he =>
    modelEdges_known he
  obtain ⟨links, hlinks, hlinked⟩ := (linked_empty nodes).foldlM model.dependencyEdges.keys
  rw [List.nil_append] at hlinked
  obtain ⟨inherited, hpropagate, hinherits⟩ := (propagating_start order.previousPositions ⟨0⟩
    hknown).propagate (fun _ _ => seeds_lt) hlinked hknown _ (propagationLeft_start nodes _)
  set key := orderKey order.previousPositions inherited (ordinals model) with hkeydef
  have hkey : Function.Injective key := orderKey_injective _ _ _
  obtain ⟨ordered, hemit, hgreedy⟩ := (emitting_start hkey hnodup hlinked).emit hkey
    (fun _ => rfl) hlinked hknown nodes.length ⟨List.nodup_nil, by simp, by simp⟩ (by simp)
  have hsub : ordered.Subperm nodes := hgreedy.nodup.subperm fun n hn => (hgreedy.mem hn).1
  set remainder := (nodes.filter fun run => run ∉ ordered).insertionSort fun a b => key a ≤ key b
    with hremainder
  have hperm : remainder.Perm (nodes.filter fun run => run ∉ ordered) := List.perm_insertionSort _ _
  have hsorted : remainder.Pairwise fun a b => key a ≤ key b := List.pairwise_insertionSort _ _
  -- nothing is left over exactly when the sort listed as many runs as there are
  have hlength : ordered.length = nodes.length ↔ remainder = [] := by
    constructor
    · intro h
      refine List.eq_nil_iff_forall_not_mem.mpr fun n hn => ?_
      obtain ⟨hnode, hnot⟩ := List.mem_filter.mp (hperm.mem_iff.mp hn)
      exact of_decide_eq_true hnot ((hsub.perm_of_length_le h.ge).mem_iff.mpr hnode)
    · intro h
      refine le_antisymm hsub.length_le (hnodup.subperm fun n hn => ?_).length_le
      by_contra hnot
      have : n ∈ remainder := hperm.mem_iff.mpr (List.mem_filter.mpr ⟨hn, decide_eq_true hnot⟩)
      rw [h] at this
      cases this
  refine ⟨{
    runIds := ordered ++ remainder
    previousPositions := indexed (ordered ++ remainder)
    cycleFallbacks :=
      if remainder = [] then order.cycleFallbacks else satAddU64 order.cycleFallbacks 1 },
    inherited, ordered, remainder, ?_, hinherits, hgreedy, hsorted, hperm, rfl⟩
  simp only [DagOrder.recompute, ← hnodes, hlinks, hpropagate, ← hkeydef, hemit, ← hremainder,
    Option.bind_eq_bind, Option.bind_some, Option.pure_def, ne_eq, hlength]
  by_cases h : remainder = []
  · simp only [h, not_true, if_false, if_true, List.append_nil]
  · simp only [h, not_false_iff, if_true, if_false]

/-! ### Consequences -/

theorem mem_ordinals {model : DomainModel} {id : RunId} :
    id ∈ (ordinals model).keys ↔ ∃ run ∈ model.taskRuns.values, run.runId = id := by
  rw [HashMap.mem_keys]
  constructor
  · rintro ⟨ordinal, h⟩
    rcases HashMap.get_extend_cases h with h | ⟨h, -⟩
    · obtain ⟨run, hrun, heq⟩ := List.mem_map.mp h
      exact ⟨run, hrun, (Prod.mk.inj heq).1⟩
    · cases h
  · rintro ⟨run, hrun, rfl⟩
    by_contra hnone
    push Not at hnone
    have hget := Option.eq_none_iff_forall_ne_some.mpr hnone
    have hmem : (run.runId, run.displayOrdinal) ∈
        model.taskRuns.values.map fun run => (run.runId, run.displayOrdinal) :=
      List.mem_map.mpr ⟨run, hrun, rfl⟩
    exact HashMap.get_extend_ne_none hmem hget

/-- The orders that recomputations can reach. -/
inductive Reached : DagOrder → Prop
  /-- The order of a new session. -/
  | init : Reached {}
  /-- One more snapshot. -/
  | recompute {order next : DagOrder} (model : DomainModel) :
    Reached order → order.recompute model = some next → Reached next

/-- The previous order of the runs that are still there agrees with the new dependencies and
everything that follows from them. -/
def Consistent (order : DagOrder) (model : DomainModel) : Prop :=
  ∀ a ∈ order.runIds, ∀ b ∈ order.runIds, TransGen (Edge (modelEdges model)) a b →
    Before order.runIds a b

namespace Recomputed

variable {order next : DagOrder} {model : DomainModel} {inherited : HashMap RunId ℕ}
  {ordered remainder : List RunId}

theorem mem_remainder (h : Recomputed order model inherited ordered remainder next) {id : RunId} :
    id ∈ remainder ↔ id ∈ (ordinals model).keys ∧ id ∉ ordered := by
  rw [h.perm.mem_iff, List.mem_filter, decide_eq_true_eq]

theorem mem_ordered (h : Recomputed order model inherited ordered remainder next) {id : RunId} :
    id ∈ ordered ↔ id ∈ (ordinals model).keys ∧ Grounded (modelEdges model) id :=
  h.greedy.mem_iff (fun _ he => (modelEdges_known he).1) id

theorem runIds (h : Recomputed order model inherited ordered remainder next) :
    next.runIds = ordered ++ remainder := by rw [h.result]

theorem mem_runIds (h : Recomputed order model inherited ordered remainder next) {id : RunId} :
    id ∈ next.runIds ↔ id ∈ (ordinals model).keys := by
  rw [h.runIds, List.mem_append, h.mem_remainder]
  constructor
  · rintro (ho | ⟨hnode, -⟩)
    · exact (h.greedy.mem ho).1
    · exact hnode
  · intro hnode
    by_cases ho : id ∈ ordered
    · exact .inl ho
    · exact .inr ⟨hnode, ho⟩

theorem nodup (h : Recomputed order model inherited ordered remainder next) :
    next.runIds.Nodup := by
  rw [h.runIds]
  refine h.greedy.nodup.append (h.perm.nodup_iff.mpr ((HashMap.keys_nodup _).filter _)) ?_
  exact fun _ ho hr => (h.mem_remainder.mp hr).2 ho

/-- A prerequisite comes before a dependent that no cycle leads to. -/
theorem topological (h : Recomputed order model inherited ordered remainder next) {a b : RunId}
    (hab : Edge (modelEdges model) a b) (hb : Grounded (modelEdges model) b) :
    Before next.runIds a b := by
  rw [h.runIds]
  have hb' : b ∈ ordered := h.mem_ordered.mpr ⟨(modelEdges_known hab).2, hb⟩
  rcases h.greedy.parent hb' hab with hd | hbefore
  · cases hd
  · exact hbefore.append remainder

theorem remainder_nil (h : Recomputed order model inherited ordered remainder next)
    (hacyclic : Acyclic (modelEdges model)) : remainder = [] := by
  refine List.eq_nil_iff_forall_not_mem.mpr fun id hid => ?_
  obtain ⟨hnode, hnot⟩ := h.mem_remainder.mp hid
  exact hnot (h.mem_ordered.mpr ⟨hnode, .of_acyclic hacyclic id⟩)

theorem remainder_ne_nil (h : Recomputed order model inherited ordered remainder next)
    (hcyclic : ¬ Acyclic (modelEdges model)) : remainder ≠ [] := by
  simp only [Acyclic, not_forall, not_not] at hcyclic
  obtain ⟨id, hid⟩ := hcyclic
  obtain ⟨_, hedge, -⟩ := TransGen.head'_iff.mp hid
  have hrest : id ∈ remainder :=
    h.mem_remainder.mpr ⟨(modelEdges_known hedge).1, fun ho => (h.mem_ordered.mp ho).2 id .refl hid⟩
  exact List.ne_nil_of_mem hrest

/-- Keys in order put runs in order, unless only the first one is behind a cycle. -/
theorem before (h : Recomputed order model inherited ordered remainder next) {u v : RunId}
    (hu : u ∈ (ordinals model).keys) (hv : v ∈ (ordinals model).keys)
    (hkey : ∀ a ∈ (ordinals model).keys, ReflTransGen (Edge (modelEdges model)) a u →
      effective order.previousPositions inherited a < effective order.previousPositions inherited v)
    (hcycle : Grounded (modelEdges model) v → Grounded (modelEdges model) u) :
    Before next.runIds u v := by
  rw [h.runIds]
  by_cases huo : u ∈ ordered
  · by_cases hvo : v ∈ ordered
    · exact (h.greedy.before huo hvo fun a ha hau => orderKey_lt (hkey a ha hau)).append remainder
    · exact before_append huo (h.mem_remainder.mpr ⟨hv, hvo⟩)
  · have hvo : v ∉ ordered := fun hvo =>
      huo (h.mem_ordered.mpr ⟨hu, hcycle (h.mem_ordered.mp hvo).2⟩)
    refine List.Sublist.trans ?_ (List.sublist_append_right ordered remainder)
    exact before_of_sorted h.sorted (h.mem_remainder.mpr ⟨hu, huo⟩)
      (h.mem_remainder.mpr ⟨hv, hvo⟩) (orderKey_lt (hkey u hu .refl))

end Recomputed

theorem Reached.indexed {order : DagOrder} (h : Reached order) :
    order.runIds.Nodup ∧ order.previousPositions = indexed order.runIds := by
  cases h with
  | init => exact ⟨List.nodup_nil, rfl⟩
  | @recompute previous _ model _ hnext =>
    obtain ⟨next, inherited, ordered, remainder, heq, h⟩ := recompute_total previous model
    obtain rfl := Option.some.inj (hnext.symm.trans heq)
    exact ⟨h.nodup, by rw [h.result]⟩

/-- Displayed runs keep their order as far as the dependencies allow. -/
theorem Recomputed.stable {order next : DagOrder} {model : DomainModel}
    {inherited : HashMap RunId ℕ} {ordered remainder : List RunId} (horder : Reached order)
    (h : Recomputed order model inherited ordered remainder next)
    (hconsistent : Consistent order model) {u v : RunId} (huv : Before order.runIds u v)
    (hu : u ∈ (ordinals model).keys) (hv : v ∈ (ordinals model).keys)
    (hcycle : Grounded (modelEdges model) v → Grounded (modelEdges model) u) :
    Before next.runIds u v := by
  obtain ⟨hnodup, hpositions⟩ := horder.indexed
  have heffective : ∀ {a i}, (indexed order.runIds).get a = some i →
      effective order.previousPositions inherited a = i := fun {a i} hi => by
    rw [effective, hpositions, if_pos (HashMap.contains_iff.mpr ⟨i, hi⟩), position_of_get hi]
  obtain ⟨i, j, hi, hj, hij⟩ := before_indexed hnodup huv
  refine h.before hu hv (fun a ha hau => ?_) hcycle
  rw [heffective hj]
  by_cases hmem : a ∈ order.runIds
  · rcases reflTransGen_iff_eq_or_transGen.mp hau with rfl | hau
    · rw [heffective hi]
      exact WithTop.coe_lt_coe.mpr hij
    · obtain ⟨k, i', hk, hi', hki⟩ :=
        before_indexed hnodup (hconsistent a hmem u huv.left hau)
      rw [heffective hk]
      cases hi.symm.trans hi'
      exact WithTop.coe_lt_coe.mpr (hki.trans hij)
  · -- a new prerequisite inherits a position that is not after that of `u`
    have hnew : order.previousPositions.contains a = false := by
      rw [Bool.eq_false_iff, hpositions]
      exact fun hc => hmem ((contains_indexed hnodup).mp hc)
    have hseed : seeds order.previousPositions (ordinals model).keys u = (i : ℕ) := by
      rw [seeds, if_pos hu, hpositions, position_of_get hi]
    calc effective order.previousPositions inherited a
        = position inherited a := by rw [effective, hnew]; rfl
      _ ≤ position inherited u := h.inherits.closed_star hau
      _ ≤ (i : ℕ) := hseed ▸ h.inherits.le u
      _ < (j : ℕ) := WithTop.coe_lt_coe.mpr hij

/-- Positions along a list grow. -/
theorem pairwise_indexed {runs : List RunId} (hnodup : runs.Nodup) (inherited : HashMap RunId ℕ)
    (ordinals : HashMap RunId DisplayOrdinal) :
    runs.Pairwise fun a b => orderKey (indexed runs) inherited ordinals a ≤
      orderKey (indexed runs) inherited ordinals b := by
  refine List.pairwise_iff_forall_sublist.mpr fun {a b} hab => (orderKey_lt ?_).le
  obtain ⟨i, j, hi, hj, hij⟩ := before_indexed hnodup hab
  rw [effective, if_pos (HashMap.contains_iff.mpr ⟨i, hi⟩), position_of_get hi, effective,
    if_pos (HashMap.contains_iff.mpr ⟨j, hj⟩), position_of_get hj]
  exact WithTop.coe_lt_coe.mpr hij

/-- The sort ends with one result for given keys. -/
theorem Recomputed.runIds_unique {order order' next next' : DagOrder} {model model' : DomainModel}
    {inherited inherited' : HashMap RunId ℕ} {ordered remainder ordered' remainder' : List RunId}
    (h : Recomputed order model inherited ordered remainder next)
    (h' : Recomputed order' model' inherited' ordered' remainder' next')
    (hedges : ∀ e, e ∈ modelEdges model' ↔ e ∈ modelEdges model)
    (hnodes : ∀ n, n ∈ (ordinals model').keys ↔ n ∈ (ordinals model).keys)
    (hgreedy : Greedy (modelEdges model) (ordinals model).keys
      (orderKey order'.previousPositions inherited' (ordinals model')) [] ordered)
    (hsorted : remainder.Pairwise fun a b =>
      orderKey order'.previousPositions inherited' (ordinals model') a ≤
        orderKey order'.previousPositions inherited' (ordinals model') b) :
    ordered' = ordered ∧ remainder' = remainder := by
  have hkey := orderKey_injective order'.previousPositions inherited' (ordinals model')
  have hordered : ordered' = ordered :=
    h'.greedy.unique (fun a _ b _ => @hkey a b) (hgreedy.congr hedges hnodes)
  refine ⟨hordered, List.Perm.eq_of_pairwise (fun a b _ _ hab hba => ?_) h'.sorted hsorted ?_⟩
  · exact hkey (le_antisymm hab hba)
  · refine h'.perm.trans (List.Perm.trans ?_ h.perm.symm)
    rw [hordered]
    refine List.Perm.filter _ ?_
    exact (List.perm_ext_iff_of_nodup (HashMap.keys_nodup _) (HashMap.keys_nodup _)).mpr hnodes

/-- Recomputing once more gives the same order. -/
theorem Recomputed.again {order next last : DagOrder} {model : DomainModel}
    {inherited inherited' : HashMap RunId ℕ} {ordered remainder ordered' remainder' : List RunId}
    (h : Recomputed order model inherited ordered remainder next)
    (h' : Recomputed next model inherited' ordered' remainder' last) :
    ordered' = ordered ∧ remainder' = remainder := by
  have hpositions : next.previousPositions = indexed next.runIds := by rw [h.result]
  have hpairwise := pairwise_indexed h.nodup inherited' (ordinals model)
  rw [← hpositions, h.runIds, List.pairwise_append] at hpairwise
  exact h.runIds_unique h' (fun _ => Iff.rfl) (fun _ => Iff.rfl)
    (h.greedy.rekey hpairwise.1) hpairwise.2.1

theorem get_ordinals {model : DomainModel}
    (hfiled : ∀ id run, model.taskRuns.get id = some run → run.runId = id) (id : RunId) :
    (ordinals model).get id = (model.taskRuns.get id).map TaskRun.displayOrdinal := by
  have hmem : ∀ ordinal, (id, ordinal) ∈ model.taskRuns.values.map (fun run =>
      (run.runId, run.displayOrdinal)) → (model.taskRuns.get id).map TaskRun.displayOrdinal =
        some ordinal := by
    intro ordinal h
    obtain ⟨run, hrun, heq⟩ := List.mem_map.mp h
    obtain ⟨rfl, rfl⟩ := Prod.mk.inj heq
    obtain ⟨key, hkey⟩ := HashMap.mem_values.mp hrun
    rw [hfiled key run hkey, hkey]
    rfl
  cases hget : (ordinals model).get id with
  | some ordinal =>
    rcases HashMap.get_extend_cases hget with h | ⟨h, -⟩
    · exact (hmem ordinal h).symm
    · cases h
  | none =>
    cases hrun : model.taskRuns.get id with
    | none => rfl
    | some run =>
      refine absurd hget (HashMap.get_extend_ne_none (a := run.displayOrdinal) ?_)
      exact List.mem_map.mpr ⟨run, HashMap.mem_values.mpr ⟨id, hrun⟩, by rw [hfiled id run hrun]⟩

/-- The result does not depend on the order in which maps are iterated. -/
theorem Recomputed.determined {order order' next next' : DagOrder} {model model' : DomainModel}
    {inherited inherited' : HashMap RunId ℕ} {ordered remainder ordered' remainder' : List RunId}
    (hfiled : ∀ id run, model.taskRuns.get id = some run → run.runId = id)
    (hruns : model.taskRuns.Rehash model'.taskRuns)
    (hdependencies : model.dependencyEdges.Rehash model'.dependencyEdges)
    (hpositions : order.previousPositions.Rehash order'.previousPositions)
    (hfallbacks : order'.cycleFallbacks = order.cycleFallbacks)
    (h : Recomputed order model inherited ordered remainder next)
    (h' : Recomputed order' model' inherited' ordered' remainder' next') : next' = next := by
  have hordinals : ∀ id, (ordinals model').get id = (ordinals model).get id := fun id => by
    rw [get_ordinals hfiled, get_ordinals (fun id run hrun => hfiled id run (hruns.get id ▸ hrun)),
      hruns.get]
  have hnodes : ∀ n, n ∈ (ordinals model').keys ↔ n ∈ (ordinals model).keys := fun n => by
    rw [HashMap.mem_keys, HashMap.mem_keys, hordinals]
  have hedges : ∀ e, e ∈ modelEdges model' ↔ e ∈ modelEdges model := by
    rintro ⟨a, b⟩
    have hmem : (⟨a, b⟩ : DependencyEdge) ∈ model'.dependencyEdges.keys ↔
        ⟨a, b⟩ ∈ model.dependencyEdges.keys := by
      rw [HashMap.mem_keys, HashMap.mem_keys, hdependencies.get]
    rw [modelEdges, modelEdges, mem_knownEdges, mem_knownEdges, hnodes, hnodes, hmem]
  have hedge : Edge (modelEdges model') = Edge (modelEdges model) :=
    funext fun a => funext fun b => propext (hedges (a, b))
  have hprior : ∀ n, position order'.previousPositions n = position order.previousPositions n :=
    fun n => by simp only [position, hpositions.get]
  have hcontains : ∀ n, order'.previousPositions.contains n = order.previousPositions.contains n :=
    fun n => by simp only [HashMap.contains, hpositions.get]
  have hinherited : position inherited' = position inherited := by
    have hseeds : seeds order'.previousPositions (ordinals model').keys =
        seeds order.previousPositions (ordinals model).keys := funext fun n => by
      simp only [seeds, hnodes, hprior]
    have hinherits := h'.inherits
    rw [hseeds] at hinherits
    have hsame : Inherits (modelEdges model)
        (seeds order.previousPositions (ordinals model).keys) (position inherited') :=
      ⟨hinherits.le, fun a n ha => hinherits.closed a n ((hedges _).mpr ha),
        fun n => hedge ▸ hinherits.source n⟩
    exact hsame.unique h.inherits
  have hkey : orderKey order'.previousPositions inherited' (ordinals model') =
      orderKey order.previousPositions inherited (ordinals model) := funext fun n => by
    simp only [orderKey, hcontains, hprior, hinherited, hordinals]
  obtain ⟨rfl, rfl⟩ := h.runIds_unique h' hedges hnodes (hkey ▸ h.greedy) (hkey ▸ h.sorted)
  rw [h.result, h'.result, hfallbacks]

/-- Every recomputation terminates and lists every run once. Prerequisites come first where there
are no cycles, displayed runs keep their order where the dependencies allow it (of two runs, the
first one may only fall behind when it alone is behind a cycle), an unchanged model changes nothing
(but a cycle is counted once more), and the result is determined by the model and the previous order. -/
theorem recompute_order {order : DagOrder} (horder : Reached order) (model : DomainModel) :
    ∃ next, order.recompute model = some next ∧
      next.runIds.Nodup ∧
      (∀ id, id ∈ next.runIds ↔ ∃ run ∈ model.taskRuns.values, run.runId = id) ∧
      (Acyclic (modelEdges model) → ∀ edge ∈ model.dependencyEdges.keys,
        edge.prerequisiteRunId ∈ next.runIds → edge.dependentRunId ∈ next.runIds →
          Before next.runIds edge.prerequisiteRunId edge.dependentRunId) ∧
      (Consistent order model → ∀ u v, Before order.runIds u v → u ∈ next.runIds →
        v ∈ next.runIds → (Grounded (modelEdges model) v → Grounded (modelEdges model) u) →
          Before next.runIds u v) ∧
      (∃ again, next.recompute model = some again ∧ again.runIds = next.runIds ∧
        again.previousPositions = next.previousPositions ∧
        (Acyclic (modelEdges model) → again = next) ∧
        (¬ Acyclic (modelEdges model) → again.cycleFallbacks = satAddU64 next.cycleFallbacks 1)) ∧
      ((∀ id run, model.taskRuns.get id = some run → run.runId = id) →
        ∀ (order' : DagOrder) (model' : DomainModel),
        model.taskRuns.Rehash model'.taskRuns →
        model.dependencyEdges.Rehash model'.dependencyEdges →
        order.previousPositions.Rehash order'.previousPositions →
        order'.cycleFallbacks = order.cycleFallbacks → order'.recompute model' = some next) := by
  obtain ⟨next, inherited, ordered, remainder, hnext, h⟩ := recompute_total order model
  refine ⟨next, hnext, h.nodup, fun id => h.mem_runIds.trans mem_ordinals, ?_, ?_, ?_, ?_⟩
  · intro hacyclic edge hedge hp hd
    refine h.topological (mem_knownEdges.mpr ⟨hedge, ?_, ?_⟩) (.of_acyclic hacyclic _)
    · exact h.mem_runIds.mp hp
    · exact h.mem_runIds.mp hd
  · intro hconsistent u v huv hu hv hcycle
    exact h.stable horder hconsistent huv (h.mem_runIds.mp hu) (h.mem_runIds.mp hv) hcycle
  · obtain ⟨again, inherited', ordered', remainder', hagain, h'⟩ := recompute_total next model
    obtain ⟨rfl, rfl⟩ := h.again h'
    refine ⟨again, hagain, by rw [h.runIds, h'.runIds], by rw [h.result, h'.result], ?_, ?_⟩
    · intro hacyclic
      obtain rfl := h.remainder_nil hacyclic
      rw [h'.result, h.result]
      rfl
    · intro hcyclic
      rw [h'.result, if_neg (h.remainder_ne_nil hcyclic)]
  · intro hfiled order' model' hruns hdependencies hpositions hfallbacks
    obtain ⟨next', inherited', ordered', remainder', hnext', h'⟩ := recompute_total order' model'
    rw [hnext', h.determined hfiled hruns hdependencies hpositions hfallbacks h']

/-- A run of a model of its own. -/
private def plainRun (n : ℕ) : TaskRun :=
  { runId := ⟨n⟩
    key := .controller "run"
    displayOrdinal := n
    state := .queued
    hasControllerTaskStateEvent := false }

/-- Some runs with some dependencies. -/
private def plainModel (runs : List ℕ) (edges : List (ℕ × ℕ)) : DomainModel :=
  { taskRuns := HashMap.ofList (runs.map fun n => (⟨n⟩, plainRun n))
    dependencyEdges := HashSet.ofList (edges.map fun e => ⟨⟨e.1⟩, ⟨e.2⟩⟩) }

/-- The edges of a plain model do not lead from these runs. -/
private theorem consistent_of_no_edges {order : DagOrder} {model : DomainModel}
    (h : ∀ e ∈ modelEdges model, e.1 ∉ order.runIds) : Consistent order model := by
  intro a ha b _ hab
  obtain ⟨c, hac, -⟩ := TransGen.head'_iff.mp hab
  exact absurd ha (h _ hac)

/-- The first snapshot has a run that depends on a later one. The second one drops that dependency and adds a
new prerequisite: the two displayed runs stay in their order, and a third snapshot changes nothing. -/
theorem recompute_order_chain : ∃ order next, Reached order ∧ order.runIds = [⟨2⟩, ⟨1⟩] ∧
    order.recompute (plainModel [1, 2, 3] [(3, 1)]) = some next ∧ Before next.runIds ⟨2⟩ ⟨1⟩ ∧
    Before next.runIds ⟨3⟩ ⟨1⟩ ∧ next.recompute (plainModel [1, 2, 3] [(3, 1)]) = some next := by
  have hfirst : DagOrder.recompute {} (plainModel [1, 2] [(2, 1)]) =
      some { runIds := [⟨2⟩, ⟨1⟩], previousPositions := indexed [⟨2⟩, ⟨1⟩] } := by decide
  have horder := Reached.recompute _ .init hfirst
  have hacyclic : Acyclic (modelEdges (plainModel [1, 2, 3] [(3, 1)])) :=
    hasCycle_eq_false_iff _ |>.mp (by decide)
  obtain ⟨next, hnext, -, hlisted, hprerequisites, hstable, ⟨again, hagain, -, -, hsame, -⟩, -⟩ :=
    recompute_order horder (plainModel [1, 2, 3] [(3, 1)])
  have hmem : ∀ n ∈ [1, 2, 3], (⟨n⟩ : RunId) ∈ next.runIds := fun n hn =>
    (hlisted _).mpr (by revert n; decide)
  refine ⟨_, next, horder, rfl, hnext, ?_, ?_, hsame hacyclic ▸ hagain⟩
  · exact hstable (consistent_of_no_edges (by decide)) _ _ (List.Sublist.refl _) (hmem 2 (by decide))
      (hmem 1 (by decide)) fun _ => .of_acyclic hacyclic _
  · exact hprerequisites hacyclic ⟨⟨3⟩, ⟨1⟩⟩ (by decide) (hmem 3 (by decide)) (hmem 1 (by decide))

/-- The displayed runs `1` and `2` do not depend on each other, and then two new runs appear that
depend on each other, one of them a prerequisite of `1`: now `1` is behind a cycle and falls behind
`2`. On the unchanged model the next recomputation counts the cycle once more. -/
theorem cycle_moves_survivor : ∃ order next again, Reached order ∧
    order.recompute (plainModel [1, 2, 3, 4] [(3, 4), (4, 3), (3, 1)]) = some next ∧
    Consistent order (plainModel [1, 2, 3, 4] [(3, 4), (4, 3), (3, 1)]) ∧
    Before order.runIds ⟨1⟩ ⟨2⟩ ∧ Before next.runIds ⟨2⟩ ⟨1⟩ ∧ ¬ Before next.runIds ⟨1⟩ ⟨2⟩ ∧
    next.recompute (plainModel [1, 2, 3, 4] [(3, 4), (4, 3), (3, 1)]) = some again ∧
    again ≠ next := by
  let model := plainModel [1, 2, 3, 4] [(3, 4), (4, 3), (3, 1)]
  have hfirst : DagOrder.recompute {} (plainModel [1, 2] []) =
      some { runIds := [⟨1⟩, ⟨2⟩], previousPositions := indexed [⟨1⟩, ⟨2⟩] } := by decide
  let runs : List RunId := [⟨2⟩, ⟨1⟩, ⟨3⟩, ⟨4⟩]
  refine ⟨_, ⟨runs, indexed runs, 1⟩, ⟨runs, indexed runs, 2⟩, .recompute _ .init hfirst, by decide,
    consistent_of_no_edges (by decide), ?_, ?_, ?_, by decide, by decide⟩
  all_goals
    unfold Before
    decide

end HerdrTop.Tui
