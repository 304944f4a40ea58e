import HerdrTop.Library.HashMap
import Mathlib.Data.Fintype.EquivFin
import Mathlib.Data.List.Nodup
import Mathlib.Logic.Relation
import Mathlib.Order.WellFounded

/-!
# Finite directed graphs and Kahn's algorithm

A graph is a list of edges `(parent, child)`; an edge may be listed several times.
`hasCycle` removes vertices of indegree zero one by one and reports a cycle when
some vertex is left over.

## What is proved

`hasCycle_iff`: the algorithm reports a cycle exactly when some vertex reaches
itself through one or more edges. The fuel of the loop is the number of vertices,
and the proof shows that it never runs out early.
-/

namespace HerdrTop.Digraph

open Relation

universe u

variable {α : Type u}

/-- One edge of the graph. -/
def Edge (edges : List (α × α)) (a b : α) : Prop := (a, b) ∈ edges

/-- No vertex reaches itself. -/
def Acyclic (edges : List (α × α)) : Prop := ∀ v, ¬ TransGen (Edge edges) v v

/-- Fewer edges, fewer cycles. -/
theorem Acyclic.mono {edges edges' : List (α × α)} (h : Acyclic edges)
    (hsub : ∀ e ∈ edges', e ∈ edges) : Acyclic edges' := fun v hv =>
  h v (TransGen.mono (show Edge edges' ≤ Edge edges from fun _ _ he => hsub _ he) v v hv)

theorem Acyclic.ne {edges : List (α × α)} (h : Acyclic edges) {a b : α} (he : (a, b) ∈ edges) :
    a ≠ b := fun hab => h a (.single (show (a, a) ∈ edges from hab ▸ he))

variable [DecidableEq α]

/-! ### The algorithm -/

/-- The indegree of every vertex, edges counted with their multiplicity. -/
def indegrees : List (α × α) → HashMap α ℕ → HashMap α ℕ
  | [], m => m
  | (parent, child) :: rest, m =>
    let m := m.orInsert parent 0
    indegrees rest (m.insert child ((m.get child).getD 0 + 1))

/-- The children of every vertex that has some, in the order of the edges. -/
def children : List (α × α) → HashMap α (List α) → HashMap α (List α)
  | [], m => m
  | (parent, child) :: rest, m =>
    children rest (m.insert parent ((m.get parent).getD [] ++ [child]))

/-- Takes the edges to `nexts` away: the new indegrees and the vertices that became free. -/
def relax : List α → HashMap α ℕ → List α → HashMap α ℕ × List α
  | [], degrees, queue => (degrees, queue)
  | next :: rest, degrees, queue =>
    match degrees.get next with
    | none => relax rest degrees queue
    | some 0 => relax rest degrees queue
    | some (d + 1) =>
      relax rest (degrees.insert next d) (if d = 0 then queue ++ [next] else queue)

/-- Visits free vertices until none is queued; returns how many were visited, and what is still queued when
the fuel is used up. -/
def visit (succs : HashMap α (List α)) : ℕ → HashMap α ℕ → List α → ℕ → ℕ × List α
  | 0, _, queue, visited => (visited, queue)
  | _ + 1, _, [], visited => (visited, [])
  | fuel + 1, degrees, run :: queue, visited =>
    let next := relax ((succs.get run).getD []) degrees queue
    visit succs fuel next.1 next.2 (visited + 1)

/-- How many are visited until none is queued; `none` if the fuel is used up before. -/
def visitAll (succs : HashMap α (List α)) (fuel : ℕ) (degrees : HashMap α ℕ) (queue : List α) (visited : ℕ) :
    Option ℕ :=
  let result := visit succs fuel degrees queue visited
  if result.2.isEmpty then some result.1 else none

/-- Whether some vertex stays unvisited. -/
def hasCycle (edges : List (α × α)) : Bool :=
  let degrees := indegrees edges ∅
  let succs := children edges ∅
  let queue := (degrees.toList.filter fun e => e.2 == 0).map Prod.fst
  (visit succs degrees.keys.length degrees queue 0).1 != degrees.keys.length

/-! ### The tables -/

/-- How many edges lead to `v`. -/
def inCount (edges : List (α × α)) (v : α) : ℕ := edges.countP fun e => e.2 = v

/-- The endpoints of the edges. -/
def IsVertex (edges : List (α × α)) (v : α) : Prop := ∃ e ∈ edges, e.1 = v ∨ e.2 = v

instance (edges : List (α × α)) (v : α) : Decidable (IsVertex edges v) :=
  inferInstanceAs (Decidable (∃ e ∈ edges, e.1 = v ∨ e.2 = v))

theorem get_indegrees (edges : List (α × α)) (m : HashMap α ℕ) (v : α) :
    (indegrees edges m).get v =
      if IsVertex edges v ∨ (m.get v).isSome then some ((m.get v).getD 0 + inCount edges v)
      else none := by
  induction edges generalizing m with
  | nil =>
    cases h : m.get v <;> simp [indegrees, IsVertex, inCount, h]
  | cons e rest ih =>
    obtain ⟨a, b⟩ := e
    have hv : IsVertex ((a, b) :: rest) v ↔ a = v ∨ b = v ∨ IsVertex rest v := by
      simp [IsVertex, or_assoc]
    have hc : inCount ((a, b) :: rest) v = inCount rest v + if b = v then 1 else 0 := by
      simp [inCount, List.countP_cons]
    simp only [indegrees]
    rw [ih, HashMap.get_insert, HashMap.get_orInsert, HashMap.get_orInsert]
    simp only [hv, hc]
    by_cases hb : b = v
    · subst hb
      by_cases hba : b = a
      · subst hba
        cases h : m.get b <;> simp <;> omega
      · cases h : m.get b <;> simp [hba] <;> omega
    · have hb' : v ≠ b := fun h => hb h.symm
      by_cases hav : a = v
      · subst hav
        cases h : m.get a <;> simp [hb, hb']
      · have hav' : v ≠ a := fun h => hav h.symm
        cases h : m.get v <;> simp [hb, hb', hav, hav']

theorem get_children (edges : List (α × α)) (m : HashMap α (List α)) (v : α) :
    ((children edges m).get v).getD [] =
      (m.get v).getD [] ++ (edges.filter fun e => e.1 = v).map Prod.snd := by
  induction edges generalizing m with
  | nil => simp [children]
  | cons e rest ih =>
    obtain ⟨a, b⟩ := e
    simp only [children]
    rw [ih, HashMap.get_insert]
    by_cases h : a = v
    · subst h
      simp
    · rw [if_neg fun hv => h hv.symm, List.filter_cons_of_neg (by simpa using h)]

/-! ### The loop -/

/-- How many edges lead to `v` from outside `done`. -/
def openCount (edges : List (α × α)) (done : List α) (v : α) : ℕ :=
  edges.countP fun e => e.2 = v ∧ e.1 ∉ done

/-- What holds whenever the loop looks at its queue: `done` are the visited vertices. -/
structure Inv (edges : List (α × α)) (done queue : List α) (degrees : HashMap α ℕ) : Prop where
  /-- Nothing is visited or queued twice. -/
  nodup : (done ++ queue).Nodup
  /-- The table has the vertices, with the edges that are left. -/
  degree : ∀ v d, degrees.get v = some d ↔ IsVertex edges v ∧ d = openCount edges done v
  /-- The free vertices are those visited or queued. -/
  free : ∀ v, IsVertex edges v ∧ openCount edges done v = 0 ↔ v ∈ done ++ queue
  /-- No visited vertex is on a cycle. -/
  acyclic : ∀ v ∈ done, ¬ TransGen (Edge edges) v v

/-- What holds within `relax`: `rest` are the edges of `run` still to be taken away. -/
structure RelaxInv (edges : List (α × α)) (done rest queue : List α) (degrees : HashMap α ℕ) :
    Prop where
  /-- Nothing is visited or queued twice. -/
  nodup : (done ++ queue).Nodup
  /-- The table still counts the edges to `rest`. -/
  degree : ∀ v d, degrees.get v = some d ↔
    IsVertex edges v ∧ d = openCount edges done v + rest.count v
  /-- The free vertices are those visited or queued. -/
  free : ∀ v, IsVertex edges v ∧ openCount edges done v + rest.count v = 0 ↔ v ∈ done ++ queue
  /-- The edges lead to vertices. -/
  vertex : ∀ v ∈ rest, IsVertex edges v

theorem openCount_nil (edges : List (α × α)) (v : α) : openCount edges [] v = inCount edges v := by
  simp [openCount, inCount]

/-- Visiting `run` splits the open edges of `v` into those that stay open and those from `run`. -/
theorem openCount_cons (edges : List (α × α)) (done : List α) (run v : α) (hr : run ∉ done) :
    openCount edges done v = openCount edges (run :: done) v +
      ((edges.filter fun e => e.1 = run).map Prod.snd).count v := by
  induction edges with
  | nil => rfl
  | cons e rest ih =>
    obtain ⟨a, b⟩ := e
    simp only [openCount, List.countP_cons, List.filter_cons] at ih ⊢
    by_cases ha : a = run
    · subst ha
      by_cases hb : b = v
      · simp [hr, hb] at ih ⊢
        omega
      · simp [hb] at ih ⊢
        omega
    · by_cases hb : b = v <;> by_cases hd : a ∈ done <;> simp [ha, hb, hd] at ih ⊢ <;> omega

theorem openCount_pos {edges : List (α × α)} {done : List α} {v : α}
    (h : openCount edges done v ≠ 0) : ∃ a, Edge edges a v ∧ a ∉ done := by
  obtain ⟨⟨a, b⟩, he, hp⟩ := List.countP_pos_iff.mp (Nat.pos_of_ne_zero h)
  simp only [decide_eq_true_eq] at hp
  obtain ⟨rfl, hd⟩ := hp
  exact ⟨a, he, hd⟩

theorem relax_inv {edges : List (α × α)} {done rest queue : List α} {degrees : HashMap α ℕ}
    (h : RelaxInv edges done rest queue degrees) :
    RelaxInv edges done [] (relax rest degrees queue).2 (relax rest degrees queue).1 := by
  induction rest generalizing queue degrees with
  | nil => exact h
  | cons next rest ih =>
    have hd : degrees.get next = some (openCount edges done next + (next :: rest).count next) :=
      (h.degree next _).mpr ⟨h.vertex next List.mem_cons_self, rfl⟩
    rw [List.count_cons_self, ← Nat.add_assoc] at hd
    simp only [relax, hd]
    set d := openCount edges done next + rest.count next with hdef
    -- the vertex that loses an edge was not free before
    have hnot : next ∉ done ++ queue := fun hm => by
      have := ((h.free next).mpr hm).2
      rw [List.count_cons_self] at this
      omega
    have hcount : ∀ v, v ≠ next → (next :: rest).count v = rest.count v := fun v hv =>
      List.count_cons_of_ne hv.symm
    refine ih ⟨?_, ?_, ?_, fun v hv => h.vertex v (List.mem_cons_of_mem _ hv)⟩
    · by_cases h0 : d = 0
      · rw [if_pos h0, ← List.append_assoc]
        refine List.Nodup.append h.nodup (List.nodup_singleton _) ?_
        simpa using hnot
      · rw [if_neg h0]
        exact h.nodup
    · intro v e
      rw [HashMap.get_insert]
      by_cases hv : v = next
      · subst hv
        simp only [if_true, Option.some.injEq, h.vertex v List.mem_cons_self, true_and]
        exact eq_comm
      · rw [if_neg hv, h.degree, hcount v hv]
    · intro v
      by_cases hv : v = next
      · subst hv
        simp only [h.vertex v List.mem_cons_self, true_and, ← hdef]
        by_cases h0 : d = 0
        · simp [h0]
        · simp only [h0, if_false, false_iff]
          exact hnot
      · rw [← hcount v hv, h.free]
        by_cases h0 : d = 0 <;> simp [h0, hv]

theorem isVertex_child {edges : List (α × α)} {run v : α}
    (h : v ∈ (edges.filter fun e => e.1 = run).map Prod.snd) : IsVertex edges v := by
  obtain ⟨e, he, rfl⟩ := List.mem_map.mp h
  exact ⟨e, (List.mem_filter.mp he).1, .inr rfl⟩

/-- A vertex without open edges is not on a cycle when the visited ones are not. -/
theorem not_cycle_of_free {edges : List (α × α)} {done : List α} {run : α}
    (hfree : openCount edges done run = 0)
    (hdone : ∀ v ∈ done, ¬ TransGen (Edge edges) v v) : ¬ TransGen (Edge edges) run run := by
  intro hc
  obtain ⟨u, hru, hu⟩ := TransGen.tail'_iff.mp hc
  have hud : u ∈ done := by
    by_contra hn
    have : 0 < openCount edges done run :=
      List.countP_pos_iff.mpr ⟨(u, run), hu, by simpa using hn⟩
    omega
  exact hdone u hud (TransGen.head'_iff.mpr ⟨run, hu, hru⟩)

/-- One visit keeps the invariant. -/
theorem visit_step {edges : List (α × α)} {done queue : List α} {degrees : HashMap α ℕ} {run : α}
    (h : Inv edges done (run :: queue) degrees) :
    let next := relax (((children edges ∅).get run).getD []) degrees queue
    Inv edges (run :: done) next.2 next.1 := by
  have hrun : run ∉ done := by
    have := List.nodup_append.mp h.nodup
    exact fun hd => this.2.2 run hd run List.mem_cons_self rfl
  have hmem : ∀ v, v ∈ run :: done ++ queue ↔ v ∈ done ++ run :: queue := fun v => by
    simp only [List.mem_append, List.mem_cons]
    tauto
  have hfree : openCount edges done run = 0 :=
    ((h.free run).mpr (by simp)).2
  rw [get_children, HashMap.get_empty, Option.getD_none, List.nil_append]
  have hr : RelaxInv edges (run :: done) ((edges.filter fun e => e.1 = run).map Prod.snd)
      queue degrees := by
    refine ⟨?_, ?_, ?_, fun v hv => isVertex_child hv⟩
    · have := h.nodup
      rwa [List.nodup_middle] at this
    · intro v d
      rw [h.degree, openCount_cons edges done run v hrun]
    · intro v
      rw [← openCount_cons edges done run v hrun, h.free, hmem]
  have := relax_inv hr
  refine ⟨this.nodup, fun v d => by simpa using this.degree v d,
    fun v => by simpa using this.free v, ?_⟩
  intro v hv
  rcases List.mem_cons.mp hv with rfl | hv
  · exact not_cycle_of_free hfree h.acyclic
  · exact h.acyclic v hv

theorem mem_keys_iff {edges : List (α × α)} {done queue : List α} {degrees : HashMap α ℕ}
    (h : Inv edges done queue degrees) (v : α) : v ∈ degrees.keys ↔ IsVertex edges v := by
  rw [HashMap.mem_keys]
  constructor
  · rintro ⟨d, hd⟩
    exact ((h.degree v d).mp hd).1
  · exact fun hv => ⟨_, (h.degree v _).mpr ⟨hv, rfl⟩⟩

/-- What is visited or queued are vertices. -/
theorem Inv.length_le {edges : List (α × α)} {done queue : List α} {degrees : HashMap α ℕ}
    (h : Inv edges done queue degrees) : (done ++ queue).length ≤ degrees.keys.length :=
  (h.nodup.subperm fun v hv => (mem_keys_iff h v).mpr ((h.free v).mpr hv).1).length_le

/-- The table keeps its vertices. -/
theorem Inv.length_keys {edges : List (α × α)} {done done' queue queue' : List α} {degrees degrees' : HashMap α ℕ}
    (h : Inv edges done queue degrees) (h' : Inv edges done' queue' degrees') :
    degrees'.keys.length = degrees.keys.length := by
  refine List.Perm.length_eq ?_
  refine (List.perm_ext_iff_of_nodup degrees'.keys_nodup degrees.keys_nodup).mpr fun v => ?_
  rw [mem_keys_iff h', mem_keys_iff h]

/-- With the fuel for all vertices, the queue is empty in the end. -/
theorem visit_queue {edges : List (α × α)} {fuel : ℕ} {done queue : List α} {degrees : HashMap α ℕ}
    (h : Inv edges done queue degrees) (hfuel : fuel + done.length = degrees.keys.length) :
    (visit (children edges ∅) fuel degrees queue done.length).2 = [] := by
  induction fuel generalizing done queue degrees with
  | zero =>
    have hlength := h.length_le
    rw [List.length_append] at hlength
    obtain rfl : queue = [] := List.length_eq_zero_iff.mp (by omega)
    rfl
  | succ fuel ih =>
    cases queue with
    | nil => rfl
    | cons run queue =>
      have hinv := visit_step h
      refine ih hinv ?_
      rw [h.length_keys hinv, List.length_cons]
      omega

/-- Backwards from any vertex with a parent one never leaves: somewhere there is a cycle. -/
theorem cycle_of_closed (edges : List (α × α)) (l : List α) (hne : l ≠ [])
    (hpred : ∀ v ∈ l, ∃ a ∈ l, Edge edges a v) : ∃ v ∈ l, TransGen (Edge edges) v v := by
  by_contra hno
  push Not at hno
  let R : {v // v ∈ l} → {v // v ∈ l} → Prop := fun a b => TransGen (Edge edges) a b
  have : IsTrans _ R := ⟨fun _ _ _ => TransGen.trans⟩
  have : Std.Irrefl R := ⟨fun a => hno a a.2⟩
  have hwf : WellFounded R := Finite.wellFounded_of_trans_of_irrefl R
  obtain ⟨v, hv⟩ := List.exists_mem_of_ne_nil l hne
  obtain ⟨⟨m, hm⟩, -, hmin⟩ := hwf.has_min Set.univ ⟨⟨v, hv⟩, trivial⟩
  obtain ⟨a, ha, hae⟩ := hpred m hm
  exact hmin ⟨a, ha⟩ trivial (.single hae)

/-- With the fuel for all vertices, the count falls short exactly when there is a cycle. -/
theorem visit_ne_iff (edges : List (α × α)) (n fuel : ℕ) (done queue : List α)
    (degrees : HashMap α ℕ) (h : Inv edges done queue degrees) (hn : degrees.keys.length = n)
    (hfuel : fuel + done.length = n) :
    (visit (children edges ∅) fuel degrees queue done.length).1 ≠ n ↔
      ∃ v, TransGen (Edge edges) v v := by
  induction fuel generalizing done queue degrees with
  | zero =>
    -- every vertex is visited, so none is on a cycle
    have hall : ∀ v ∈ degrees.keys, v ∈ done := by
      have hsub' : done.Subperm degrees.keys := (List.Nodup.of_append_left h.nodup).subperm fun v hv =>
        (mem_keys_iff h v).mpr ((h.free v).mpr (List.mem_append_left _ hv)).1
      have := hsub'.perm_of_length_le (by omega)
      exact fun v hv => this.mem_iff.mpr hv
    simp only [visit]
    refine iff_of_false (by omega) ?_
    rintro ⟨v, hv⟩
    obtain ⟨u, -, hu⟩ := TransGen.tail'_iff.mp hv
    exact h.acyclic v (hall v ((mem_keys_iff h v).mpr ⟨_, hu, .inr rfl⟩)) hv
  | succ fuel ih =>
    cases queue with
    | nil =>
      -- the loop stops early: the vertices left over have open edges
      simp only [visit]
      refine iff_of_true (by omega) ?_
      have hopen : ∀ v, IsVertex edges v → v ∉ done → openCount edges done v ≠ 0 :=
        fun v hv hd h0 => hd (by simpa using (h.free v).mp ⟨hv, h0⟩)
      refine Exists.imp (fun _ h => h.2)
        (cycle_of_closed edges (degrees.keys.filter (· ∉ done)) ?_ ?_)
      · intro hnil
        have hsub' : degrees.keys ⊆ done := fun v hv => by
          by_contra hd
          have : v ∈ degrees.keys.filter (· ∉ done) := List.mem_filter.mpr ⟨hv, by simpa using hd⟩
          rw [hnil] at this
          cases this
        have := (degrees.keys_nodup.subperm hsub').length_le
        omega
      · intro v hv
        obtain ⟨hk, hd⟩ := List.mem_filter.mp hv
        obtain ⟨a, ha, had⟩ :=
          openCount_pos (hopen v ((mem_keys_iff h v).mp hk) (by simpa using hd))
        exact ⟨a, List.mem_filter.mpr ⟨(mem_keys_iff h a).mpr ⟨_, ha, .inl rfl⟩, by simpa using had⟩,
          ha⟩
    | cons run queue =>
      have hinv := visit_step h
      simp only at hinv
      set next := relax (((children edges ∅).get run).getD []) degrees queue with hnext
      have := ih (run :: done) next.2 next.1 hinv ((h.length_keys hinv).trans hn)
        (by simp only [List.length_cons]; omega)
      simpa only [visit, ← hnext, List.length_cons] using this

/-- The vertices that no edge leads to, in the order of the table. -/
def freeVertices (edges : List (α × α)) : List α :=
  ((indegrees edges ∅).toList.filter fun e => e.2 == 0).map Prod.fst

theorem inv_init (edges : List (α × α)) : Inv edges [] (freeVertices edges) (indegrees edges ∅) := by
  have hget : ∀ v d, (indegrees edges ∅).get v = some d ↔
      IsVertex edges v ∧ d = inCount edges v := fun v d => by
    rw [get_indegrees, HashMap.get_empty]
    by_cases hv : IsVertex edges v
    · simp [hv, eq_comm]
    · simp [hv]
  refine ⟨?_, fun v d => by rw [hget, openCount_nil], ?_, fun v hv => by cases hv⟩
  · rw [List.nil_append]
    refine List.Nodup.sublist (List.Sublist.map _ List.filter_sublist) ?_
    rw [← HashMap.keys_eq_map_toList]
    exact HashMap.keys_nodup _
  · intro v
    rw [openCount_nil, List.nil_append, freeVertices, List.mem_map]
    constructor
    · rintro ⟨hv, h0⟩
      exact ⟨(v, 0), List.mem_filter.mpr ⟨HashMap.mem_toList.mpr ((hget v 0).mpr ⟨hv, h0.symm⟩), rfl⟩,
        rfl⟩
    · rintro ⟨⟨w, d⟩, hmem, rfl⟩
      obtain ⟨hin, hd⟩ := List.mem_filter.mp hmem
      have := (hget w d).mp (HashMap.mem_toList.mp hin)
      exact ⟨this.1, this.2 ▸ by simpa using hd⟩

/-- The order of the queue does not matter. -/
theorem Inv.perm {edges : List (α × α)} {done queue queue' : List α} {degrees : HashMap α ℕ}
    (h : Inv edges done queue degrees) (hperm : queue.Perm queue') : Inv edges done queue' degrees :=
  ⟨(hperm.append_left done).nodup_iff.mp h.nodup, h.degree,
    fun v => (h.free v).trans (hperm.append_left done).mem_iff, h.acyclic⟩

/-- In whatever order the free vertices are queued first, the loop comes to an end, and leaves a vertex out exactly
when there is a cycle. -/
theorem visitAll_iff (edges : List (α × α)) {queue : List α} (hqueue : (freeVertices edges).Perm queue) :
    ∃ visited, visitAll (children edges ∅) (indegrees edges ∅).keys.length (indegrees edges ∅) queue 0 =
        some visited ∧
      (visited ≠ (indegrees edges ∅).keys.length ↔ ∃ v, TransGen (Edge edges) v v) := by
  have hinv := (inv_init edges).perm hqueue
  have hempty := visit_queue hinv (Nat.add_zero _)
  refine ⟨_, if_pos (List.isEmpty_iff.mpr hempty), ?_⟩
  exact visit_ne_iff edges _ _ [] _ _ hinv rfl (Nat.add_zero _)

/-- The algorithm reports a cycle exactly when there is one. -/
theorem hasCycle_iff (edges : List (α × α)) :
    hasCycle edges = true ↔ ∃ v, TransGen (Edge edges) v v := by
  have := visit_ne_iff edges _ (indegrees edges ∅).keys.length [] _ _ (inv_init edges) rfl (by simp)
  rw [hasCycle, bne_iff_ne]
  exact this

theorem hasCycle_eq_false_iff (edges : List (α × α)) :
    hasCycle edges = false ↔ Acyclic edges := by
  rw [← Bool.not_eq_true, hasCycle_iff]
  exact not_exists

end HerdrTop.Digraph
