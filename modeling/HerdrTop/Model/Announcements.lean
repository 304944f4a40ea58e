import HerdrTop.Library.Components
import HerdrTop.Model.Graph

/-!
# What the number of dangling announcements is

The runs that are known only from relationships, with the edges between them in either direction, form an
undirected graph. `danglingAnnouncementComponents` walks through it; the count is that of the components of
this graph without a neighbor that is still going on.

## What is proved

* `Exploring`: what holds in the walk through a component, and `Counting`: what holds between components.
* `dangling_announcements_counted`: the count, in whatever order maps and sets are visited.
-/

namespace HerdrTop

namespace DomainModel

open Relation

/-! ### The graph -/

/-- The runs that are known only from relationships. -/
def RelationshipOnly (m : DomainModel) (runId : RunId) : Prop :=
  ∃ run ∈ m.taskRuns.values, m.relationshipOnly run = true ∧ run.runId = runId

/-- Whether one run depends on the other or dispatched it. -/
def Related (m : DomainModel) (first second : RunId) : Prop :=
  ⟨first, second⟩ ∈ m.executionEdges.keys ∨ ⟨first, second⟩ ∈ m.dependencyEdges.keys

/-- The relationships, in either direction. -/
def relationships (m : DomainModel) : SimpleGraph RunId := SimpleGraph.fromRel m.Related

/-- The relationships between runs that are known from nothing else. -/
def announcements (m : DomainModel) : SimpleGraph {runId // m.RelationshipOnly runId} :=
  m.relationships.induce {runId | m.RelationshipOnly runId}

/-- A run that is still going on. -/
def Ongoing (m : DomainModel) (runId : RunId) : Prop :=
  ∃ run, m.taskRun runId = some run ∧ run.state.isTerminal = false

/-- A component that nothing came of: no neighbor outside of it is still going on. -/
def Dangling (m : DomainModel) (component : m.announcements.ConnectedComponent) : Prop :=
  ∀ member ∈ component.supp, ∀ neighbor, m.relationships.Adj member neighbor →
    ¬m.RelationshipOnly neighbor → ¬m.Ongoing neighbor

/-! ### Neighbors -/

section

variable {m : DomainModel} {a b : RunId}

theorem mem_neighbors : b ∈ m.neighbors a ↔ m.Related a b ∨ m.Related b a := by
  have hadjacent : ∀ first second : RunId,
      b ∈ (if first = a then [second] else if second = a then [first] else []) ↔
        first = a ∧ second = b ∨ first = b ∧ second = a := by
    intro first second
    split_ifs with hfirst hsecond
    · subst hfirst
      simp only [List.mem_singleton, true_and]
      constructor
      · exact fun h => .inl h.symm
      · rintro (h | ⟨h, h'⟩)
        · exact h.symm
        · exact h.symm.trans h'.symm
    · simp [hfirst, hsecond, eq_comm]
    · simp [hfirst, hsecond]
  simp only [neighbors, List.mem_append, List.mem_flatMap, hadjacent, Related]
  constructor
  · rintro (⟨⟨parent, child⟩, hedge, ⟨rfl, rfl⟩ | ⟨rfl, rfl⟩⟩ | ⟨⟨first, second⟩, hedge, ⟨rfl, rfl⟩ | ⟨rfl, rfl⟩⟩)
    · exact .inl (.inl hedge)
    · exact .inr (.inl hedge)
    · exact .inl (.inr hedge)
    · exact .inr (.inr hedge)
  · rintro ((hedge | hedge) | hedge | hedge)
    · exact .inl ⟨_, hedge, .inl ⟨rfl, rfl⟩⟩
    · exact .inr ⟨_, hedge, .inl ⟨rfl, rfl⟩⟩
    · exact .inl ⟨_, hedge, .inr ⟨rfl, rfl⟩⟩
    · exact .inr ⟨_, hedge, .inr ⟨rfl, rfl⟩⟩

theorem ongoing_iff : ((m.taskRun a).any fun run => !run.state.isTerminal) = true ↔ m.Ongoing a := by
  unfold Ongoing
  cases m.taskRun a <;> simp

end

/-! ### The walk through a component -/

section

variable {m : DomainModel} {only : List RunId}

/-- Looking at the neighbors of a run: the new ones are put on the stack. -/
theorem visitNeighbors_spec (rest stack visited : List RunId) (outside : Bool) :
    ∃ fresh, (m.visitNeighbors only rest stack visited outside).1 = fresh ++ stack ∧ fresh.Nodup ∧
      (∀ a ∈ fresh, a ∈ rest ∧ a ∈ only ∧ a ∉ visited) ∧
      (∀ a, a ∈ (m.visitNeighbors only rest stack visited outside).2.1 ↔ a ∈ visited ∨ a ∈ fresh) ∧
      (∀ a ∈ rest, a ∈ only → a ∈ (m.visitNeighbors only rest stack visited outside).2.1) ∧
      ((m.visitNeighbors only rest stack visited outside).2.2 = true ↔
        outside = true ∨ ∃ a ∈ rest, a ∉ only ∧ m.Ongoing a) := by
  induction rest generalizing stack visited outside with
  | nil => exact ⟨[], rfl, List.nodup_nil, by simp, by simp [visitNeighbors], by simp, by simp [visitNeighbors]⟩
  | cons neighbor rest ih =>
    unfold visitNeighbors
    split_ifs with honly hvisited
    · obtain ⟨fresh, hstack, hnodup, hfresh, hmem, hall, hout⟩ := ih stack visited outside
      refine ⟨fresh, hstack, hnodup, fun a ha => ?_, hmem, fun a ha hin => ?_, ?_⟩
      · exact ⟨List.mem_cons_of_mem _ (hfresh a ha).1, (hfresh a ha).2⟩
      · rcases List.mem_cons.mp ha with rfl | ha
        · exact (hmem a).mpr (.inl hvisited)
        · exact hall a ha hin
      · rw [hout]
        simp [honly]
    · obtain ⟨fresh, hstack, hnodup, hfresh, hmem, hall, hout⟩ := ih (neighbor :: stack) (neighbor :: visited) outside
      have hnew : neighbor ∉ fresh := fun h => (hfresh neighbor h).2.2 List.mem_cons_self
      refine ⟨fresh ++ [neighbor], ?_, ?_, fun a ha => ?_, fun a => ?_, fun a ha hin => ?_, ?_⟩
      · rw [hstack, List.append_assoc]
        rfl
      · rw [List.nodup_append]
        exact ⟨hnodup, List.nodup_singleton _, fun a ha b hb hab => hnew (List.mem_singleton.mp hb ▸ hab ▸ ha)⟩
      · rcases List.mem_append.mp ha with ha | ha
        · obtain ⟨hrest, hin, hnot⟩ := hfresh a ha
          exact ⟨List.mem_cons_of_mem _ hrest, hin, fun h => hnot (List.mem_cons_of_mem _ h)⟩
        · rw [List.mem_singleton.mp ha]
          exact ⟨List.mem_cons_self, honly, hvisited⟩
      · rw [hmem, List.mem_cons, List.mem_append, List.mem_singleton]
        tauto
      · rcases List.mem_cons.mp ha with rfl | ha
        · exact (hmem a).mpr (.inl List.mem_cons_self)
        · exact hall a ha hin
      · rw [hout]
        simp [honly]
    · obtain ⟨fresh, hstack, hnodup, hfresh, hmem, hall, hout⟩ := ih stack visited
        (outside || (m.taskRun neighbor).any fun run => !run.state.isTerminal)
      refine ⟨fresh, hstack, hnodup, fun a ha => ?_, hmem, fun a ha hin => ?_, ?_⟩
      · exact ⟨List.mem_cons_of_mem _ (hfresh a ha).1, (hfresh a ha).2⟩
      · rcases List.mem_cons.mp ha with rfl | ha
        · exact absurd hin honly
        · exact hall a ha hin
      · rw [hout, Bool.or_eq_true, ongoing_iff]
        simp only [List.mem_cons, exists_eq_or_imp, honly, not_false_eq_true, true_and]
        tauto

/-- Runs that are found from another one. -/
def Leads (m : DomainModel) (only : List RunId) (a b : RunId) : Prop := b ∈ m.neighbors a ∧ b ∈ only

/-- What holds in the walk that starts at a run when the runs of `base` were found before. -/
structure Exploring (m : DomainModel) (only base : List RunId) (start : RunId) (done stack visited : List RunId)
    (outside : Bool) : Prop where
  /-- What was found is done or waits. -/
  found : ∀ a, a ∈ visited ↔ a ∈ done ∨ a ∈ stack
  within : ∀ a ∈ visited, a ∈ only
  /-- Nothing is done twice. -/
  nodup : (done ++ stack).Nodup
  /-- What is done has no neighbors that were not found. -/
  closed : ∀ a ∈ done, ∀ b, m.Leads only a b → b ∈ visited
  /-- What was found since is of this component. -/
  reached : ∀ a ∈ visited, a ∈ base ∨ ReflTransGen (m.Leads only) start a
  outside : outside = true ↔ ∃ a ∈ done, a ∉ base ∧ ∃ b ∈ m.neighbors a, b ∉ only ∧ m.Ongoing b
  base : ∀ a ∈ base, a ∈ done
  start : start ∈ visited

variable {base done stack visited : List RunId} {start runId : RunId} {outside : Bool}

/-- What waits was not found before. -/
theorem Exploring.fresh (h : Exploring m only base start done (runId :: stack) visited outside) :
    runId ∉ done ∧ runId ∉ base ∧ runId ∈ visited := by
  have hdone : runId ∉ done := fun hmem =>
    (List.nodup_append.mp h.nodup).2.2 _ hmem _ List.mem_cons_self rfl
  exact ⟨hdone, fun hbase => hdone (h.base _ hbase), (h.found _).mpr (.inr List.mem_cons_self)⟩

/-- One round of the walk. -/
theorem Exploring.step (h : Exploring m only base start done (runId :: stack) visited outside) :
    Exploring m only base start (runId :: done)
      (m.visitNeighbors only (m.neighbors runId) stack visited outside).1
      (m.visitNeighbors only (m.neighbors runId) stack visited outside).2.1
      (m.visitNeighbors only (m.neighbors runId) stack visited outside).2.2 := by
  obtain ⟨hdone, hbase, hvisited⟩ := h.fresh
  obtain ⟨fresh, hstack, hnodup, hfresh, hmem, hall, hout⟩ :=
    @visitNeighbors_spec m only (m.neighbors runId) stack visited outside
  have hkept : ∀ a ∈ visited, a ∈ (m.visitNeighbors only (m.neighbors runId) stack visited outside).2.1 :=
    fun a ha => (hmem a).mpr (.inl ha)
  rw [hstack]
  refine ⟨fun a => ?_, fun a ha => ?_, ?_, fun a ha b hb => ?_, fun a ha => ?_, ?_, fun a ha => ?_,
    hkept _ h.start⟩
  · rw [hmem, h.found, List.mem_cons, List.mem_append, List.mem_cons]
    tauto
  · rcases (hmem a).mp ha with ha | ha
    · exact h.within a ha
    · exact (hfresh a ha).2.1
  · have hold : (runId :: done ++ stack).Nodup := (List.perm_middle.nodup_iff).mp h.nodup
    have hnew : ∀ a ∈ fresh, a ∉ runId :: done ++ stack := by
      intro a ha hin
      refine (hfresh a ha).2.2 ((h.found a).mpr ?_)
      simp only [List.cons_append, List.mem_cons, List.mem_append] at hin ⊢
      tauto
    have hboth : (fresh ++ (runId :: done ++ stack)).Nodup :=
      List.nodup_append.mpr ⟨hnodup, hold, fun a ha b hb hab => hnew a ha (hab ▸ hb)⟩
    rw [← List.append_assoc] at hboth ⊢
    refine (List.Perm.nodup_iff ?_).mp hboth
    exact (List.perm_append_comm).append_right stack
  · rcases List.mem_cons.mp ha with rfl | ha
    · exact hall b hb.1 hb.2
    · exact hkept b (h.closed a ha b hb)
  · rcases (hmem a).mp ha with ha | ha
    · exact h.reached a ha
    · rcases h.reached runId hvisited with hin | hreach
      · exact absurd hin hbase
      · exact .inr (hreach.tail ⟨(hfresh a ha).1, (hfresh a ha).2.1⟩)
  · rw [hout, h.outside]
    constructor
    · rintro (⟨a, ha, hnot, hb⟩ | hb)
      · exact ⟨a, List.mem_cons_of_mem _ ha, hnot, hb⟩
      · exact ⟨runId, List.mem_cons_self, hbase, hb⟩
    · rintro ⟨a, ha, hnot, hb⟩
      rcases List.mem_cons.mp ha with rfl | ha
      · exact .inr hb
      · exact .inl ⟨a, ha, hnot, hb⟩
  · exact List.mem_cons_of_mem _ (h.base a ha)

/-- The walk ends with nothing waiting: every round does another run. -/
theorem exploreComponent_spec {fuel : ℕ} (h : Exploring m only base start done stack visited outside)
    (hfuel : only.length ≤ fuel + done.length) :
    ∃ done', Exploring m only base start done' [] (m.exploreComponent only fuel stack visited outside).1
      (m.exploreComponent only fuel stack visited outside).2 := by
  induction fuel generalizing done stack visited outside with
  | zero =>
    have hsub : done ++ stack ⊆ only := fun a ha => h.within a ((h.found a).mpr (List.mem_append.mp ha))
    have hlength := (h.nodup.subperm hsub).length_le
    rw [List.length_append] at hlength
    obtain rfl : stack = [] := List.length_eq_zero_iff.mp (by omega)
    exact ⟨done, h⟩
  | succ fuel ih =>
    cases stack with
    | nil => exact ⟨done, h⟩
    | cons runId stack => exact ih h.step (by rw [List.length_cons]; omega)

/-- Relationships go both ways. -/
theorem Leads.symm {a b : RunId} (h : m.Leads only a b) (ha : a ∈ only) : m.Leads only b a :=
  ⟨mem_neighbors.mpr (mem_neighbors.mp h.1).symm, ha⟩

theorem leads_symm {a b : RunId} (h : ReflTransGen (m.Leads only) a b) (ha : a ∈ only) :
    ReflTransGen (m.Leads only) b a ∧ b ∈ only := by
  induction h with
  | refl => exact ⟨.refl, ha⟩
  | tail _ hstep ih => exact ⟨.head (hstep.symm ih.2) ih.1, hstep.2⟩

/-- Whether nothing came of the component of a run. -/
def DanglingFrom (m : DomainModel) (only : List RunId) (root : RunId) : Prop :=
  ∀ a, ReflTransGen (m.Leads only) root a → ∀ b ∈ m.neighbors a, b ∉ only → ¬m.Ongoing b

open scoped Classical in
/-- What holds between components: one root for each that was found. -/
structure Counting (m : DomainModel) (only found visited : List RunId) (count : ℕ) : Prop where
  within : ∀ a ∈ visited, a ∈ only
  closed : ∀ a ∈ visited, ∀ b, m.Leads only a b → b ∈ visited
  roots : ∀ root ∈ found, root ∈ visited
  covered : ∀ a ∈ visited, ∃ root ∈ found, ReflTransGen (m.Leads only) root a
  apart : found.Pairwise fun root root' => ¬ReflTransGen (m.Leads only) root root'
  count : count = min (found.countP fun root => m.DanglingFrom only root) u64Max

variable {found starts : List RunId} {count : ℕ}

/-- What is found from a run that was found was found too. -/
theorem Counting.closed_run (h : Counting m only found visited count) {a b : RunId} (ha : a ∈ visited)
    (hab : ReflTransGen (m.Leads only) a b) : b ∈ visited := by
  induction hab with
  | refl => exact ha
  | tail _ hstep ih => exact h.closed _ ih _ hstep

/-- A component that was not found before. -/
theorem Counting.explore (h : Counting m only found visited count) (honly : start ∈ only) (hnew : start ∉ visited) :
    let explored := m.exploreComponent only only.length [start] (start :: visited) false
    Counting m only (start :: found) explored.1 (if explored.2 then count else satAddU64 count 1) ∧
      start ∈ explored.1 ∧ ∀ a ∈ visited, a ∈ explored.1 := by
  intro explored
  have hstart : Exploring m only visited.dedup start visited.dedup [start] (start :: visited) false := by
    refine ⟨fun a => ?_, fun a ha => ?_, ?_, fun a ha b hb => ?_, fun a ha => ?_, ?_, fun a ha => ha,
      List.mem_cons_self⟩
    · rw [List.mem_dedup, List.mem_cons, List.mem_singleton, or_comm]
    · rcases List.mem_cons.mp ha with rfl | ha
      · exact honly
      · exact h.within a ha
    · exact List.nodup_append.mpr ⟨List.nodup_dedup _, List.nodup_singleton _, fun a ha b hb hab =>
        hnew (List.mem_singleton.mp hb ▸ hab ▸ List.mem_dedup.mp ha)⟩
    · exact List.mem_cons_of_mem _ (h.closed a (List.mem_dedup.mp ha) b hb)
    · rcases List.mem_cons.mp ha with rfl | ha
      · exact .inr .refl
      · exact .inl (List.mem_dedup.mpr ha)
    · constructor
      · exact fun hfalse => by cases hfalse
      · rintro ⟨a, ha, hnot, -⟩
        exact absurd ha hnot
  obtain ⟨done, hdone⟩ := exploreComponent_spec hstart (Nat.le_add_right _ _)
  change Exploring m only visited.dedup start done [] explored.1 explored.2 at hdone
  have hfound : ∀ a, a ∈ explored.1 ↔ a ∈ done := fun a => by rw [hdone.found]; simp
  have hkept : ∀ a ∈ visited, a ∈ explored.1 := fun a ha =>
    (hfound a).mpr (hdone.base a (List.mem_dedup.mpr ha))
  have hclosed : ∀ a ∈ explored.1, ∀ b, m.Leads only a b → b ∈ explored.1 := fun a ha b hb =>
    hdone.closed a ((hfound a).mp ha) b hb
  have hreach : ∀ a, ReflTransGen (m.Leads only) start a → a ∈ explored.1 ∧ a ∉ visited := by
    intro a ha
    refine ⟨?_, fun hin => hnew (h.closed_run hin (leads_symm ha honly).1)⟩
    induction ha with
    | refl => exact hdone.start
    | tail _ hstep ih => exact hclosed _ ih _ hstep
  have hdangling : explored.2 = true ↔ ¬m.DanglingFrom only start := by
    rw [hdone.outside]
    unfold DanglingFrom
    push Not
    constructor
    · rintro ⟨a, ha, hnot, b, hb⟩
      rcases hdone.reached a ((hfound a).mpr ha) with hin | ha
      · exact absurd hin hnot
      · exact ⟨a, ha, b, hb⟩
    · rintro ⟨a, ha, b, hb⟩
      exact ⟨a, (hfound a).mp (hreach a ha).1, fun hin => (hreach a ha).2 (List.mem_dedup.mp hin), b, hb⟩
  refine ⟨⟨hdone.within, hclosed, fun root hroot => ?_, fun a ha => ?_, ?_, ?_⟩, hdone.start, hkept⟩
  · rcases List.mem_cons.mp hroot with rfl | hroot
    · exact hdone.start
    · exact hkept _ (h.roots root hroot)
  · rcases hdone.reached a ha with hin | ha
    · obtain ⟨root, hroot, ha⟩ := h.covered a (List.mem_dedup.mp hin)
      exact ⟨root, List.mem_cons_of_mem _ hroot, ha⟩
    · exact ⟨start, List.mem_cons_self, ha⟩
  · exact List.pairwise_cons.mpr ⟨fun root hroot hto => (hreach root hto).2 (h.roots root hroot), h.apart⟩
  · classical
    rw [List.countP_cons, h.count]
    by_cases hout : explored.2 = true
    · have hnot : decide (m.DanglingFrom only start) = false := decide_eq_false (hdangling.mp hout)
      rw [if_pos hout, hnot, if_neg Bool.false_ne_true, Nat.add_zero]
    · have hyes : decide (m.DanglingFrom only start) = true :=
        decide_eq_true (by_contra fun hnot => hout (hdangling.mpr hnot))
      rw [if_neg hout, hyes, if_pos rfl, satAddU64]
      omega

/-- Counting from some starts. -/
theorem countDangling_spec (h : Counting m only found visited count) (honly : ∀ a ∈ starts, a ∈ only) :
    ∃ found' visited', Counting m only found' visited' (m.countDangling only starts visited count) ∧
      (∀ a ∈ starts, a ∈ visited') ∧ ∀ a ∈ visited, a ∈ visited' := by
  induction starts generalizing found visited count with
  | nil => exact ⟨found, visited, h, by simp, fun _ ha => ha⟩
  | cons start starts ih =>
    have hrest := fun a ha => honly a (List.mem_cons_of_mem _ ha)
    unfold countDangling
    split_ifs with hin
    · obtain ⟨found', visited', hcount, hstarts, hkept⟩ := ih h hrest
      exact ⟨found', visited', hcount, List.forall_mem_cons.mpr ⟨hkept _ hin, hstarts⟩, hkept⟩
    · obtain ⟨hnext, hstart, hkept⟩ := h.explore (honly _ List.mem_cons_self) hin
      obtain ⟨found', visited', hcount, hstarts, hkept'⟩ := ih hnext hrest
      exact ⟨found', visited', hcount, List.forall_mem_cons.mpr ⟨hkept' _ hstart, hstarts⟩,
        fun a ha => hkept' a (hkept a ha)⟩

end

/-! ### The components -/

section

variable {m : DomainModel} {only starts : List RunId}

/-- The runs from which the components are walked. -/
theorem mem_relationshipOnly (m : DomainModel) (a : RunId) :
    a ∈ (m.taskRuns.values.filter m.relationshipOnly).map (·.runId) ↔ m.RelationshipOnly a := by
  simp only [List.mem_map, List.mem_filter, RelationshipOnly, and_assoc]

/-- Edges of the graph are steps of the walk. -/
theorem announcements_adj {a b : RunId} {ha : m.RelationshipOnly a} {hb : m.RelationshipOnly b} :
    m.announcements.Adj ⟨a, ha⟩ ⟨b, hb⟩ ↔ a ≠ b ∧ b ∈ m.neighbors a := by
  rw [mem_neighbors]
  exact SimpleGraph.fromRel_adj m.Related a b

/-- A walk through relationships between runs that are known from nothing else is one of the graph. -/
theorem reachable_iff (honly : ∀ a, a ∈ only ↔ m.RelationshipOnly a) {a : RunId} (ha : m.RelationshipOnly a)
    {b : RunId} (hb : m.RelationshipOnly b) :
    m.announcements.Reachable ⟨a, ha⟩ ⟨b, hb⟩ ↔ ReflTransGen (m.Leads only) a b := by
  constructor
  · intro h
    rw [SimpleGraph.reachable_iff_reflTransGen] at h
    have hstep : ∀ v w, m.announcements.Adj v w → m.Leads only v.1 w.1 := fun v w hadj =>
      ⟨(announcements_adj.mp hadj).2, (honly _).mpr w.2⟩
    exact h.lift (fun v => v.1) hstep
  · intro h
    induction h with
    | refl => exact .refl _
    | @tail mid last hwalk hstep ih =>
      have hmid := (honly _).mp (leads_symm hwalk ((honly _).mpr ha)).2
      rcases eq_or_ne mid last with rfl | hne
      · exact ih hmid
      · exact (ih hmid).trans (announcements_adj.mpr ⟨hne, hstep.1⟩).reachable

/-- Whether nothing came of a component can be seen from any of its runs. -/
theorem dangling_mk (honly : ∀ a, a ∈ only ↔ m.RelationshipOnly a) {root : RunId} (hroot : m.RelationshipOnly root) :
    m.Dangling (m.announcements.connectedComponentMk ⟨root, hroot⟩) ↔ m.DanglingFrom only root := by
  constructor
  · intro h a ha b hb hnot hongoing
    have hmem := (honly _).mp (leads_symm ha ((honly _).mpr hroot)).2
    have hsupp : ⟨a, hmem⟩ ∈ (m.announcements.connectedComponentMk ⟨root, hroot⟩).supp :=
      SimpleGraph.ConnectedComponent.sound ((reachable_iff honly hroot hmem).mpr ha).symm
    have hout : ¬m.RelationshipOnly b := fun hin => hnot ((honly b).mpr hin)
    have hne : a ≠ b := fun heq => hout (heq ▸ hmem)
    refine h ⟨a, hmem⟩ hsupp b ?_ hout hongoing
    exact (SimpleGraph.fromRel_adj m.Related a b).mpr ⟨hne, mem_neighbors.mp hb⟩
  · rintro h ⟨a, hmem⟩ hsupp b hadj hout hongoing
    have hreach := (SimpleGraph.ConnectedComponent.exact hsupp).symm
    refine h a ((reachable_iff honly hroot hmem).mp hreach) b ?_ (fun hin => hout ((honly b).mp hin)) hongoing
    exact mem_neighbors.mpr ((SimpleGraph.fromRel_adj m.Related a b).mp hadj).2

/-- The count is that of the dangling components, from whatever order of starts. -/
theorem countDangling_eq (honly : ∀ a, a ∈ only ↔ m.RelationshipOnly a) (hstarts : ∀ a, a ∈ starts ↔ a ∈ only) :
    m.countDangling only starts [] 0 = min {component | m.Dangling component}.ncard u64Max := by
  classical
  have hempty : Counting m only [] [] 0 :=
    ⟨by simp, by simp, by simp, by simp, .nil, by simp⟩
  obtain ⟨found, visited, h, hvisited, -⟩ := countDangling_spec hempty fun a ha => (hstarts a).mp ha
  have hfound : ∀ a ∈ found, m.RelationshipOnly a := fun a ha => (honly a).mp (h.within a (h.roots a ha))
  let roots : List {runId // m.RelationshipOnly runId} := found.attach.map fun root => ⟨root.1, hfound _ root.2⟩
  have hrepresents : Components.Represents m.announcements roots := by
    refine ⟨fun ⟨a, ha⟩ => ?_, ?_⟩
    · obtain ⟨root, hroot, hwalk⟩ := h.covered a (hvisited a ((hstarts a).mpr ((honly a).mpr ha)))
      exact ⟨⟨root, hfound _ hroot⟩, List.mem_map.mpr ⟨⟨root, hroot⟩, List.mem_attach _ _, rfl⟩,
        (reachable_iff honly _ ha).mpr hwalk⟩
    · rw [List.pairwise_map]
      have hapart : found.attach.Pairwise fun root root' => ¬ReflTransGen (m.Leads only) root.1 root'.1 := by
        rw [← List.pairwise_map (f := Subtype.val) (R := fun a b => ¬ReflTransGen (m.Leads only) a b),
          List.attach_map_subtype_val]
        exact h.apart
      exact hapart.imp fun hnot hreach => hnot ((reachable_iff honly _ _).mp hreach)
  rw [h.count, hrepresents.ncard m.Dangling, List.countP_map]
  congr 1
  conv_lhs => rw [← List.attach_map_subtype_val found, List.countP_map]
  refine List.countP_congr fun root _ => ?_
  simp only [Function.comp_apply, decide_eq_true_eq]
  exact (dangling_mk honly (hfound _ root.2)).symm

/-- The number of components that nothing came of depends on the graph and the runs that are going on. -/
theorem ncard_dangling_congr {m m' : DomainModel} (honly : m.RelationshipOnly = m'.RelationshipOnly)
    (hrelated : m.Related = m'.Related) (hongoing : m.Ongoing = m'.Ongoing) :
    {component | m.Dangling component}.ncard = {component | m'.Dangling component}.ncard := by
  have hgeneral : ∀ (only : RunId → Prop) (related : RunId → RunId → Prop) (ongoing : RunId → Prop),
      only = m.RelationshipOnly → related = m.Related → ongoing = m.Ongoing →
      {component | m.Dangling component}.ncard =
        {component : ((SimpleGraph.fromRel related).induce {runId | only runId}).ConnectedComponent |
          ∀ member ∈ component.supp, ∀ neighbor, (SimpleGraph.fromRel related).Adj member neighbor →
            ¬only neighbor → ¬ongoing neighbor}.ncard := by
    rintro _ _ _ rfl rfl rfl
    rfl
  exact hgeneral _ _ _ honly.symm hrelated.symm hongoing.symm

/-- In whatever order the runs and the executions are visited, the same runs are known only from relationships. -/
theorem relationshipOnly_rehash {m m' : DomainModel} (hruns : m.taskRuns.Rehash m'.taskRuns)
    (hexecutions : m.executions.Rehash m'.executions) : m.RelationshipOnly = m'.RelationshipOnly := by
  have hsame : m'.relationshipOnly = m.relationshipOnly := by
    funext run
    have hany := hexecutions.values_perm.any_eq (f := fun e => decide (e.taskRunId = run.runId))
    simp only [relationshipOnly, hany]
  funext a
  simp only [RelationshipOnly, hsame, hruns.values_perm.mem_iff]

end

end DomainModel

/-- For every model, the number of dangling announcements is the number of components, in the undirected graph of
dispatches and dependencies between the runs known only from relationships, that have no neighbor outside which
is still going on (as far as it can be counted); whatever the order in which the set of these runs is visited;
and maps and sets of the model that are visited in another order give the same. -/
theorem dangling_announcements_counted (m : DomainModel) :
    m.danglingAnnouncementComponents = min {component | m.Dangling component}.ncard u64Max ∧
    (∀ only starts : List RunId, (∀ a, a ∈ only ↔ m.RelationshipOnly a) → (∀ a, a ∈ starts ↔ a ∈ only) →
      m.countDangling only starts [] 0 = m.danglingAnnouncementComponents) ∧
    ∀ m' : DomainModel, m.taskRuns.Rehash m'.taskRuns → m.executions.Rehash m'.executions →
      m.executionEdges.Rehash m'.executionEdges → m.dependencyEdges.Rehash m'.dependencyEdges →
      m'.danglingAnnouncementComponents = m.danglingAnnouncementComponents := by
  have hcount : ∀ only starts : List RunId, (∀ a, a ∈ only ↔ m.RelationshipOnly a) →
      (∀ a, a ∈ starts ↔ a ∈ only) →
      m.countDangling only starts [] 0 = min {component | m.Dangling component}.ncard u64Max :=
    fun _ _ honly hstarts => DomainModel.countDangling_eq honly hstarts
  have hall : ∀ only starts : List RunId, (∀ a, a ∈ only ↔ m.RelationshipOnly a) → (∀ a, a ∈ starts ↔ a ∈ only) →
      m.countDangling only starts [] 0 = m.danglingAnnouncementComponents := fun only starts honly hstarts =>
    (hcount only starts honly hstarts).trans (hcount _ _ m.mem_relationshipOnly fun _ => Iff.rfl).symm
  refine ⟨hcount _ _ m.mem_relationshipOnly fun _ => Iff.rfl, hall, fun m' hruns hexecutions hedges hdeps => ?_⟩
  have hrelated : m.Related = m'.Related := by
    funext a b
    simp only [DomainModel.Related, hedges.keys_perm.mem_iff, hdeps.keys_perm.mem_iff]
  have hongoing : m.Ongoing = m'.Ongoing := by
    funext a
    simp only [DomainModel.Ongoing, DomainModel.taskRun, hruns.get]
  have hnumber := DomainModel.ncard_dangling_congr (DomainModel.relationshipOnly_rehash hruns hexecutions) hrelated
    hongoing
  calc m'.danglingAnnouncementComponents
      = min {component | m'.Dangling component}.ncard u64Max :=
        DomainModel.countDangling_eq m'.mem_relationshipOnly fun _ => Iff.rfl
    _ = min {component | m.Dangling component}.ncard u64Max := by rw [hnumber]
    _ = m.danglingAnnouncementComponents := (hcount _ _ m.mem_relationshipOnly fun _ => Iff.rfl).symm

end HerdrTop
