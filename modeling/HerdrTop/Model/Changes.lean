import HerdrTop.Model.Publication
import Mathlib.Data.Set.Basic

/-!
# What changed of a run

A model is compared with an earlier one, collection by collection, and the runs of the rows that differ are gathered.
What a model has of one run is its projection: its own row, the rows that are filed under it, the rows that belong to
it and the edges that join it.

## What is proved

* `mem_changedMapKeys`, `mem_changedOwnedRows`, `mem_changedEdges`, `mem_changedNames`: each way of comparing a
  collection finds the runs whose part of it differs.
* `changedTaskRunIdsSince_exact`: the runs that are found are those whose projection differs.
-/

namespace HerdrTop

/-- Everything a model has of one run. -/
structure RunProjection where
  taskRun : Option TaskRun
  v6State : Option TaskRunV6State
  rateTotals : Option RunRateTotals
  rateCursor : Option RunRateCursor
  telemetry : Option RunTelemetry
  runKind : Option String
  /-- The executions of the run by their names. -/
  executions : String → Option Execution
  /-- The agents of the run by their names. -/
  agentNodes : String → Option AgentNode
  executionEdges : Set ExecutionEdge
  dependencyEdges : Set DependencyEdge
  /-- The keys that lead to the run. -/
  keys : Set RunKey

/-- The part of a table that belongs to a run. -/
def ownedRows {α : Type} (rows : HashMap String α) (owner : α → RunId) (runId : RunId) (id : String) : Option α :=
  (rows.get id).filter fun a => owner a = runId

/-- The edges that join a run. -/
def joinedEdges {α : Type} [DecidableEq α] (edges : HashSet α) (ends : α → List RunId) (runId : RunId) : Set α :=
  fun edge => edge ∈ edges.keys ∧ runId ∈ ends edge

/-- The keys that lead to a run. -/
def namesOf (runIdsByKey : HashMap RunKey RunId) (runId : RunId) : Set RunKey :=
  fun key => runIdsByKey.get key = some runId

/-- What a model has of a run. -/
def DomainModel.projection (m : DomainModel) (runId : RunId) : RunProjection where
  taskRun := m.taskRuns.get runId
  v6State := m.v6States.get runId
  rateTotals := m.rateTotals.get runId
  rateCursor := m.rateCursors.get runId
  telemetry := m.telemetry.get runId
  runKind := m.runKinds.get runId
  executions := ownedRows m.executions (·.taskRunId) runId
  agentNodes := ownedRows m.agentNodes (·.taskRunId) runId
  executionEdges := joinedEdges m.executionEdges (fun edge => [edge.parentRunId, edge.childRunId]) runId
  dependencyEdges := joinedEdges m.dependencyEdges (fun edge => [edge.prerequisiteRunId, edge.dependentRunId]) runId
  keys := namesOf m.runIdsByKey runId

variable {runId : RunId}

/-- The keys found are those under which the maps differ. -/
theorem mem_changedMapKeys {α : Type} [DecidableEq α] {current before : HashMap RunId α} :
    runId ∈ DomainModel.changedMapKeys current before ↔ current.get runId ≠ before.get runId := by
  rw [DomainModel.changedMapKeys, List.mem_append, List.mem_map, List.mem_filter]
  constructor
  · rintro (⟨⟨id, a⟩, hmem, rfl⟩ | ⟨hbefore, hnone⟩) heq
    · obtain ⟨hcurrent, hdiffers⟩ := List.mem_filter.mp hmem
      rw [HashMap.mem_toList] at hcurrent
      exact of_decide_eq_true hdiffers (heq.symm.trans hcurrent)
    · obtain ⟨a, ha⟩ := HashMap.mem_keys.mp hbefore
      rw [Bool.not_eq_true', HashMap.contains_eq_false, heq, ha] at hnone
      cases hnone
  · intro hdiffers
    cases hcurrent : current.get runId with
    | some a =>
      refine .inl ⟨(runId, a), List.mem_filter.mpr ⟨HashMap.mem_toList.mpr hcurrent, decide_eq_true fun h => ?_⟩, rfl⟩
      exact hdiffers (hcurrent.trans h.symm)
    | none =>
      obtain ⟨a, ha⟩ := Option.ne_none_iff_exists'.mp fun h => hdiffers (hcurrent.trans h.symm)
      refine .inr ⟨HashMap.mem_keys.mpr ⟨a, ha⟩, ?_⟩
      rw [Bool.not_eq_true', HashMap.contains_eq_false, hcurrent]

/-- The owners found are those whose rows differ. -/
theorem mem_changedOwnedRows {α : Type} [DecidableEq α] {current before : HashMap String α} {owner : α → RunId} :
    runId ∈ DomainModel.changedOwnedRows current before owner ↔
      ownedRows current owner runId ≠ ownedRows before owner runId := by
  have howned : ∀ {rows : HashMap String α} {id a}, ownedRows rows owner runId id = some a ↔
      rows.get id = some a ∧ owner a = runId := by
    intro rows id a
    rw [ownedRows, Option.filter_eq_some_iff, decide_eq_true_iff]
  rw [DomainModel.changedOwnedRows, List.mem_append, List.mem_flatMap, List.mem_map]
  constructor
  · rintro (⟨⟨id, a⟩, hmem, hrun⟩ | ⟨⟨id, a⟩, hmem, rfl⟩) heq
    · obtain ⟨hcurrent, hdiffers⟩ := List.mem_filter.mp hmem
      rw [HashMap.mem_toList] at hcurrent
      rcases List.mem_cons.mp hrun with rfl | hrun
      · have hsame := howned.mpr ⟨hcurrent, rfl⟩
        rw [heq] at hsame
        exact of_decide_eq_true hdiffers (howned.mp hsame).1
      · obtain ⟨previous, hprevious, hrun⟩ := Option.map_eq_some_iff.mp (Option.mem_toList.mp hrun)
        have hsame := howned.mpr ⟨hprevious, hrun⟩
        rw [← heq] at hsame
        obtain rfl := Option.some.inj (hcurrent.symm.trans (howned.mp hsame).1)
        exact of_decide_eq_true hdiffers hprevious
    · obtain ⟨hbefore, hnone⟩ := List.mem_filter.mp hmem
      rw [HashMap.mem_toList] at hbefore
      have hsame := howned.mpr ⟨hbefore, rfl⟩
      rw [← heq] at hsame
      rw [Bool.not_eq_true', HashMap.contains_eq_false, (howned.mp hsame).1] at hnone
      cases hnone
  · intro hdiffers
    obtain ⟨id, hid⟩ := Function.ne_iff.mp hdiffers
    cases hcurrent : current.get id with
    | none =>
      have hnone : ownedRows current owner runId id = none := by rw [ownedRows, hcurrent, Option.filter_none]
      obtain ⟨a, ha⟩ := Option.ne_none_iff_exists'.mp fun h => hid (hnone.trans h.symm)
      obtain ⟨hbefore, hrun⟩ := howned.mp ha
      refine .inr ⟨(id, a), List.mem_filter.mpr ⟨HashMap.mem_toList.mpr hbefore, ?_⟩, hrun⟩
      rw [Bool.not_eq_true', HashMap.contains_eq_false, hcurrent]
    | some a =>
      have hchanged : before.get id ≠ some a := by
        intro hbefore
        refine hid ?_
        rw [ownedRows, ownedRows, hcurrent, hbefore]
      refine .inl ⟨(id, a), List.mem_filter.mpr ⟨HashMap.mem_toList.mpr hcurrent, decide_eq_true hchanged⟩, ?_⟩
      rw [List.mem_cons, Option.mem_toList]
      by_cases hrun : owner a = runId
      · exact .inl hrun.symm
      · -- the row went from the run to another one
        have hnone : ownedRows current owner runId id = none :=
          Option.eq_none_iff_forall_ne_some.mpr fun b hb => by
            obtain ⟨hb, hown⟩ := howned.mp hb
            obtain rfl := Option.some.inj (hcurrent.symm.trans hb)
            exact hrun hown
        obtain ⟨previous, hprevious⟩ := Option.ne_none_iff_exists'.mp fun h => hid (hnone.trans h.symm)
        obtain ⟨hbefore, hown⟩ := howned.mp hprevious
        exact .inr (Option.map_eq_some_iff.mpr ⟨previous, hbefore, hown⟩)

/-- The runs found are those whose edges differ. -/
theorem mem_changedEdges {α : Type} [DecidableEq α] {current before : HashSet α} {ends : α → List RunId} :
    runId ∈ (DomainModel.symmetricDifference current before).flatMap ends ↔
      joinedEdges current ends runId ≠ joinedEdges before ends runId := by
  have hdifference : ∀ edge, edge ∈ DomainModel.symmetricDifference current before ↔
      ¬(edge ∈ current.keys ↔ edge ∈ before.keys) := by
    intro edge
    simp only [DomainModel.symmetricDifference, List.mem_append, List.mem_filter, Bool.not_eq_true',
      ← Bool.not_eq_true, HashSet.contains_iff_mem_keys]
    tauto
  rw [List.mem_flatMap]
  constructor
  · rintro ⟨edge, hedge, hrun⟩ heq
    have hsame : joinedEdges current ends runId edge ↔ joinedEdges before ends runId edge :=
      iff_of_eq (congrFun heq edge)
    exact (hdifference edge).mp hedge
      ⟨fun h => (hsame.mp ⟨h, hrun⟩).1, fun h => (hsame.mpr ⟨h, hrun⟩).1⟩
  · intro hdiffers
    obtain ⟨edge, hedge⟩ := Function.ne_iff.mp hdiffers
    have hrun : runId ∈ ends edge := by
      by_contra hrun
      refine hedge (propext (iff_of_false (fun h => hrun h.2) fun h => hrun h.2))
    refine ⟨edge, (hdifference edge).mpr fun hsame => hedge (propext ?_), hrun⟩
    exact and_congr_left' hsame

/-- The runs found are those whose keys differ. -/
theorem mem_changedNames {current before : HashMap RunKey RunId} :
    (runId ∈ (current.toList.filter fun e => before.get e.1 ≠ some e.2).flatMap fun e =>
        e.2 :: (before.get e.1).toList) ∨
      (runId ∈ (before.toList.filter fun e => current.get e.1 ≠ some e.2).map Prod.snd) ↔
      namesOf current runId ≠ namesOf before runId := by
  rw [List.mem_flatMap, List.mem_map]
  constructor
  · rintro (⟨⟨key, owner⟩, hmem, hrun⟩ | ⟨⟨key, owner⟩, hmem, rfl⟩) heq
    · obtain ⟨hcurrent, hdiffers⟩ := List.mem_filter.mp hmem
      rw [HashMap.mem_toList] at hcurrent
      rcases List.mem_cons.mp hrun with rfl | hrun
      · exact of_decide_eq_true hdiffers ((iff_of_eq (congrFun heq key)).mp hcurrent)
      · have hback : current.get key = some runId := (iff_of_eq (congrFun heq key)).mpr (Option.mem_toList.mp hrun)
        obtain rfl := Option.some.inj (hcurrent.symm.trans hback)
        exact of_decide_eq_true hdiffers (Option.mem_toList.mp hrun)
    · obtain ⟨hbefore, hdiffers⟩ := List.mem_filter.mp hmem
      rw [HashMap.mem_toList] at hbefore
      exact of_decide_eq_true hdiffers ((iff_of_eq (congrFun heq key)).mpr hbefore)
  · intro hdiffers
    obtain ⟨key, hkey⟩ := Function.ne_iff.mp hdiffers
    by_cases hcurrent : current.get key = some runId
    · refine .inl ⟨(key, runId), List.mem_filter.mpr ⟨HashMap.mem_toList.mpr hcurrent, decide_eq_true fun h => ?_⟩,
        List.mem_cons_self⟩
      exact hkey (propext (iff_of_true hcurrent h))
    · have hbefore : before.get key = some runId := by
        by_contra h
        exact hkey (propext (iff_of_false hcurrent h))
      exact .inr ⟨(key, runId), List.mem_filter.mpr ⟨HashMap.mem_toList.mpr hbefore, decide_eq_true hcurrent⟩, rfl⟩

/-- A run is not found when the two models have the same things of it. -/
theorem notMem_changedTaskRunIdsSince {m before : DomainModel} :
    runId ∉ m.changedTaskRunIdsSince before ↔ m.projection runId = before.projection runId := by
  have hnames := @mem_changedNames runId m.runIdsByKey before.runIdsByKey
  simp only [DomainModel.changedTaskRunIdsSince, List.mem_append, mem_changedMapKeys, mem_changedOwnedRows,
    mem_changedEdges, or_assoc, hnames, not_or, not_ne_iff, DomainModel.projection, RunProjection.mk.injEq]

/-- The runs found to have changed are exactly those of which the two models have different things: the run's own row,
a row filed under it, one that belongs to it, an edge or a key; a run of just one model is one of them. -/
theorem changedTaskRunIdsSince_exact (m before : DomainModel) (runId : RunId) :
    runId ∈ m.changedTaskRunIdsSince before ↔ m.projection runId ≠ before.projection runId := by
  rw [← not_iff_not, not_ne_iff]
  exact notMem_changedTaskRunIdsSince

end HerdrTop
