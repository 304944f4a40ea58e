import HerdrTop.Model.Graph
import Mathlib.Data.List.Sort

/-!
# The published snapshot

A run whose history is incomplete is withheld from the published snapshot. If it was shown
before, the snapshot shows the state it had then: its before-image, captured when the first
piece of history arrived and kept under the run's identity at that time.
-/

namespace HerdrTop

/-- The edge's ends, in the order in which edges are sorted. -/
def ExecutionEdge.le (left right : ExecutionEdge) : Bool :=
  decide (left.parentRunId < right.parentRunId) ||
    (decide (left.parentRunId = right.parentRunId) && decide (left.childRunId ≤ right.childRunId))

def DependencyEdge.le (left right : DependencyEdge) : Bool :=
  decide (left.prerequisiteRunId < right.prerequisiteRunId) ||
    (decide (left.prerequisiteRunId = right.prerequisiteRunId) &&
      decide (left.dependentRunId ≤ right.dependentRunId))

namespace DomainModel

/-- The runs whose history is not complete. -/
def blockedRuns (m : DomainModel) : List RunId :=
  (m.v6States.toList.filter fun e => !e.2.historyReady).map Prod.fst

/-- The model without any row of a run. -/
def removeTaskRunProjection (m : DomainModel) (runId : RunId) : DomainModel :=
  { m with
    taskRuns := m.taskRuns.remove runId
    runIdsByKey := m.runIdsByKey.retain fun _ owner => owner ≠ runId
    v6States := m.v6States.remove runId
    rateTotals := m.rateTotals.remove runId
    rateCursors := m.rateCursors.remove runId
    telemetry := m.telemetry.remove runId
    runKinds := m.runKinds.remove runId
    executions := m.executions.retain fun _ execution => execution.taskRunId ≠ runId
    agentNodes := m.agentNodes.retain fun _ node => node.taskRunId ≠ runId
    executionEdges := m.executionEdges.retain fun edge _ =>
      edge.parentRunId ≠ runId && edge.childRunId ≠ runId
    dependencyEdges := m.dependencyEdges.retain fun edge _ =>
      edge.prerequisiteRunId ≠ runId && edge.dependentRunId ≠ runId }

/-- Puts the rows of a before-image back. -/
def restoreHistoryPublication (m : DomainModel) (publication : HistoryRunPublication) :
    DomainModel :=
  let runId := publication.taskRun.runId
  let m := m.insertTaskRun publication.taskRun
  let m := m.setV6State runId publication.state
  let m := publication.aliases.foldl (fun m key => m.insertTaskRunAlias key runId) m
  let m := publication.rateTotals.elim m (m.setRunRateTotals runId)
  let m := publication.rateCursor.elim m (m.setRunRateCursor runId)
  let m := publication.telemetry.elim m (m.setTelemetry runId)
  let m := publication.runKind.elim m fun kind =>
    { m with runKinds := m.runKinds.insert runId kind }
  let m := publication.executions.foldl insertExecution m
  let m := publication.agentNodes.foldl insertAgentNode m
  { m with
    executionEdges := HashSet.extend m.executionEdges publication.executionEdges
    dependencyEdges := HashSet.extend m.dependencyEdges publication.dependencyEdges }

/-- The before-images that stand for blocked runs, in the order of the map. -/
def blockedPublications (m : DomainModel) : List HistoryRunPublication :=
  m.historyRunPublications.values.filter fun publication =>
    publication.canonicalRunId ∈ m.blockedRuns

/-- The model as it is shown: blocked runs as they were last shown, or not at all. -/
def publicationSnapshot (m : DomainModel) : DomainModel :=
  if m.blockedRuns.isEmpty then { m with historyRunPublications := ∅ }
  else
    let snapshot := m.blockedRuns.foldl removeTaskRunProjection m
    let snapshot := m.blockedPublications.foldl restoreHistoryPublication snapshot
    let dangling := snapshot.danglingAnnouncementComponents
    { snapshot with
      diagnostics := snapshot.diagnostics.setDanglingAnnouncementComponents dangling
      historyRunPublications := ∅ }

/-- Every row of a run as it stands. -/
def captureHistoryPublication (m : DomainModel) (runId : RunId) : Option HistoryRunPublication :=
  (m.taskRun runId).map fun taskRun =>
    { canonicalRunId := runId
      taskRun := taskRun
      state := (m.v6State runId).getD {}
      aliases := ((m.runIdsByKey.toList.filter fun e => e.2 = runId).map Prod.fst).insertionSort
        fun left right => stableRunKeyIdentity left ≤ stableRunKeyIdentity right
      rateTotals := m.rateTotals.get runId
      executions := (m.executions.values.filter fun e => e.taskRunId = runId).insertionSort
        fun left right => left.executionId ≤ right.executionId
      agentNodes := (m.agentNodes.values.filter fun n => n.taskRunId = runId).insertionSort
        fun left right => left.agentNodeId ≤ right.agentNodeId
      executionEdges := (m.executionEdges.keys.filter fun e =>
        e.parentRunId = runId || e.childRunId = runId).insertionSort (ExecutionEdge.le · ·)
      dependencyEdges := (m.dependencyEdges.keys.filter fun e =>
        e.prerequisiteRunId = runId || e.dependentRunId = runId).insertionSort
          (DependencyEdge.le · ·)
      telemetry := m.telemetry.get runId
      runKind := m.runKinds.get runId
      rateCursor := m.rateCursors.get runId }

/-- Keeps a before-image unless there is one for the run already; whether it was kept. -/
def installHistoryPublication (m : DomainModel) (publication : HistoryRunPublication) :
    DomainModel × Bool :=
  let publishedRunId := publication.taskRun.runId
  if m.historyRunPublications.contains publishedRunId then (m, false)
  else
    ({ m with
      historyRunPublications := m.historyRunPublications.insert publishedRunId publication }, true)

/-- Drops the before-images that stand for a run; whether there were any. -/
def releaseHistoryPublications (m : DomainModel) (canonicalRunId : RunId) : DomainModel × Bool :=
  let kept := m.historyRunPublications.retain fun _ publication =>
    publication.canonicalRunId ≠ canonicalRunId
  ({ m with historyRunPublications := kept },
    kept.keys.length != m.historyRunPublications.keys.length)

/-! ### What changed since -/

/-- The keys under which two maps differ. -/
def changedMapKeys {α : Type} [DecidableEq α] (current before : HashMap RunId α) : List RunId :=
  (current.toList.filter fun e => before.get e.1 ≠ some e.2).map Prod.fst ++
    before.keys.filter fun runId => !current.contains runId

/-- The owners of the rows in which two maps differ. -/
def changedOwnedRows {α : Type} [DecidableEq α] (current before : HashMap String α)
    (owner : α → RunId) : List RunId :=
  (current.toList.filter fun e => before.get e.1 ≠ some e.2).flatMap (fun e =>
    owner e.2 :: ((before.get e.1).map owner).toList) ++
    (before.toList.filter fun e => !current.contains e.1).map fun e => owner e.2

/-- The elements of just one of two sets. -/
def symmetricDifference {α : Type} [DecidableEq α] (s t : HashSet α) : List α :=
  (s.keys.filter fun a => !t.contains a) ++ t.keys.filter fun a => !s.contains a

/-- The runs of which some row differs from an earlier model; the order has no meaning. -/
def changedTaskRunIdsSince (m before : DomainModel) : List RunId :=
  changedMapKeys m.taskRuns before.taskRuns ++
    changedMapKeys m.v6States before.v6States ++
    changedMapKeys m.rateTotals before.rateTotals ++
    changedMapKeys m.rateCursors before.rateCursors ++
    changedMapKeys m.telemetry before.telemetry ++
    changedMapKeys m.runKinds before.runKinds ++
    changedOwnedRows m.executions before.executions (·.taskRunId) ++
    changedOwnedRows m.agentNodes before.agentNodes (·.taskRunId) ++
    (symmetricDifference m.executionEdges before.executionEdges).flatMap (fun edge =>
      [edge.parentRunId, edge.childRunId]) ++
    (symmetricDifference m.dependencyEdges before.dependencyEdges).flatMap (fun edge =>
      [edge.prerequisiteRunId, edge.dependentRunId]) ++
    (m.runIdsByKey.toList.filter fun e => before.runIdsByKey.get e.1 ≠ some e.2).flatMap (fun e =>
      e.2 :: (before.runIdsByKey.get e.1).toList) ++
    (before.runIdsByKey.toList.filter fun e => m.runIdsByKey.get e.1 ≠ some e.2).map Prod.snd

end DomainModel

end HerdrTop
