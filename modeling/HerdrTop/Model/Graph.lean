import HerdrTop.Model.Entities

/-!
# Announced runs that nothing came of

A run that is known only from relationships (it never had a task state of its own and no
execution) belongs to a component of such runs. A component with no neighbor that is still
going on is dangling; the number of dangling components is shown as a diagnostic.
-/

namespace HerdrTop

namespace DomainModel

/-- Whether the run is known only from relationships. -/
def relationshipOnly (m : DomainModel) (run : TaskRun) : Bool :=
  !run.hasControllerTaskStateEvent && !m.executions.values.any fun e => e.taskRunId = run.runId

/-- The runs a run has an edge with, in the order of the edges. -/
def neighbors (m : DomainModel) (runId : RunId) : List RunId :=
  let adjacent := fun (first second : RunId) =>
    if first = runId then [second] else if second = runId then [first] else []
  m.executionEdges.keys.flatMap (fun edge => adjacent edge.parentRunId edge.childRunId) ++
    m.dependencyEdges.keys.flatMap fun edge => adjacent edge.prerequisiteRunId edge.dependentRunId

/-- Looks at the neighbors of one run: which of `only` are new, and whether one outside of it is
still going on. -/
def visitNeighbors (m : DomainModel) (only : List RunId) :
    List RunId → List RunId → List RunId → Bool → List RunId × List RunId × Bool
  | [], stack, visited, outside => (stack, visited, outside)
  | neighbor :: rest, stack, visited, outside =>
    if neighbor ∈ only then
      if neighbor ∈ visited then m.visitNeighbors only rest stack visited outside
      else m.visitNeighbors only rest (neighbor :: stack) (neighbor :: visited) outside
    else
      let ongoing := (m.taskRun neighbor).any fun run => !run.state.isTerminal
      m.visitNeighbors only rest stack visited (outside || ongoing)

/-- Walks through a component; `fuel` bounds the runs it has. -/
def exploreComponent (m : DomainModel) (only : List RunId) :
    ℕ → List RunId → List RunId → Bool → List RunId × Bool
  | 0, _, visited, outside => (visited, outside)
  | _ + 1, [], visited, outside => (visited, outside)
  | fuel + 1, runId :: stack, visited, outside =>
    let next := m.visitNeighbors only (m.neighbors runId) stack visited outside
    m.exploreComponent only fuel next.1 next.2.1 next.2.2

/-- Counts the components that start at the given runs and have no ongoing neighbor. -/
def countDangling (m : DomainModel) (only : List RunId) : List RunId → List RunId → ℕ → ℕ
  | [], _, count => count
  | start :: rest, visited, count =>
    if start ∈ visited then m.countDangling only rest visited count
    else
      let found := m.exploreComponent only only.length [start] (start :: visited) false
      m.countDangling only rest found.1 (if found.2 then count else satAddU64 count 1)

/-- The number of dangling components. -/
def danglingAnnouncementComponents (m : DomainModel) : ℕ :=
  let only := (m.taskRuns.values.filter m.relationshipOnly).map (·.runId)
  m.countDangling only only [] 0

end DomainModel

end HerdrTop
