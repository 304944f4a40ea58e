import HerdrTop.Library.PriorityOrder
import HerdrTop.Model.Graph
import Mathlib.Data.Prod.Lex
import Mathlib.Data.List.Sort

/-!
# The order of the dependency view

`DagOrder` keeps the task runs in an order that respects the dependencies and changes as little
as it can: a run keeps the position it was last displayed at, and a new prerequisite gets the
position of its earliest displayed dependent, found by propagating positions against the edges.
A priority topological sort then takes the run with the least key that waits for nothing. Runs on
or behind a cycle are appended in the order of their keys.

A lookup that panics in the source when it misses, and a loop that is out of turns, give `none`.
Iterating over `nodes` visits the runs in the order of the model's map, which is arbitrary.
-/

namespace HerdrTop.Tui

open PriorityOrder HerdrTop.Digraph

/-- Session-local dependency order derived from the last displayed DAG. -/
structure DagOrder where
  runIds : List RunId := []
  previousPositions : HashMap RunId ℕ := ∅
  cycleFallbacks : ℕ := 0
  deriving DecidableEq

/-- Position, display ordinal and run, compared in this order. The position `usize::MAX` of runs
that have none lies above every index of a list; here it is `⊤`. -/
abbrev OrderKey := WithTop ℕ ×ₗ DisplayOrdinal ×ₗ RunId

/-- The run at the end of a key. -/
def OrderKey.runId (key : OrderKey) : RunId := (ofLex (ofLex key).2).2

/-- A position as it takes part in comparisons, `usize::MAX` when there is none. -/
def position (positions : HashMap RunId ℕ) (run : RunId) : WithTop ℕ :=
  match positions.get run with
  | some position => position
  | none => ⊤

/-! ### The tables of the graph -/

/-- The three tables built from the dependency edges. -/
structure Links where
  /-- The dependents of every run. -/
  outgoing : HashMap RunId (List RunId)
  /-- The prerequisites of every run. -/
  reverse : HashMap RunId (List RunId)
  indegree : HashMap RunId ℕ

def Links.empty (nodes : List RunId) : Links :=
  { outgoing := HashMap.ofList (nodes.map fun run => (run, []))
    reverse := HashMap.ofList (nodes.map fun run => (run, []))
    indegree := HashMap.ofList (nodes.map fun run => (run, 0)) }

/-- One turn of the loop over the dependency edges. Edges of unknown runs are skipped. -/
def Links.push (nodes : List RunId) (links : Links) (edge : DependencyEdge) : Option Links :=
  if edge.prerequisiteRunId ∉ nodes ∨ edge.dependentRunId ∉ nodes then some links
  else do
    let dependents ← links.outgoing.get edge.prerequisiteRunId
    let prerequisites ← links.reverse.get edge.dependentRunId
    let degree ← links.indegree.get edge.dependentRunId
    return {
      outgoing := links.outgoing.insert edge.prerequisiteRunId (dependents ++ [edge.dependentRunId])
      reverse := links.reverse.insert edge.dependentRunId (prerequisites ++ [edge.prerequisiteRunId])
      indegree := links.indegree.insert edge.dependentRunId (degree + 1) }

/-! ### Propagating positions -/

/-- Gives a position to the prerequisites that have none or a later one, and queues these. -/
def inherit (earliest : ℕ) : List RunId → HashMap RunId ℕ → List RunId →
    HashMap RunId ℕ × List RunId
  | [], inherited, queue => (inherited, queue)
  | prerequisite :: rest, inherited, queue =>
    if (earliest : WithTop ℕ) < position inherited prerequisite then
      inherit earliest rest (inherited.insert prerequisite earliest) (queue ++ [prerequisite])
    else inherit earliest rest inherited queue

/-- Propagates the earliest prior position backwards until no run is queued. -/
def propagate (reverse : HashMap RunId (List RunId)) : ℕ → HashMap RunId ℕ → List RunId →
    Option (HashMap RunId ℕ)
  | _, inherited, [] => some inherited
  | 0, _, _ :: _ => none
  | fuel + 1, inherited, dependent :: queue => do
    let earliest ← inherited.get dependent
    let prerequisites ← reverse.get dependent
    let next := inherit earliest prerequisites inherited queue
    propagate reverse fuel next.1 next.2

/-! ### The sort -/

/-- Takes the least key out of the heap. -/
def popReady (ready : List OrderKey) : Option (OrderKey × List OrderKey) :=
  match ready.min? with
  | none => none
  | some least => some (least, ready.erase least)

/-- Takes the edges to the dependents of an emitted run away. -/
def release (key : RunId → OrderKey) : List RunId → HashMap RunId ℕ → List OrderKey →
    Option (HashMap RunId ℕ × List OrderKey)
  | [], indegree, ready => some (indegree, ready)
  | dependent :: rest, indegree, ready => do
    let degree ← indegree.get dependent
    let remaining := degree - 1
    release key rest (indegree.insert dependent remaining)
      (if remaining = 0 then key dependent :: ready else ready)

/-- Emits runs until none is ready. -/
def emit (key : RunId → OrderKey) (outgoing : HashMap RunId (List RunId)) : ℕ →
    HashMap RunId ℕ → List OrderKey → Option (List RunId)
  | 0, _, ready => if ready = [] then some [] else none
  | fuel + 1, indegree, ready =>
    match popReady ready with
    | none => some []
    | some (least, ready) => do
      let dependents ← outgoing.get least.runId
      let next ← release key dependents indegree ready
      let rest ← emit key outgoing fuel next.1 next.2
      return least.runId :: rest

/-- The display ordinals of the runs of a model. -/
def ordinals (model : DomainModel) : HashMap RunId DisplayOrdinal :=
  HashMap.ofList (model.taskRuns.values.map fun run => (run.runId, run.displayOrdinal))

/-- The key of a run: its own last position before an inherited one. -/
def orderKey (previous inherited : HashMap RunId ℕ) (ordinals : HashMap RunId DisplayOrdinal)
    (run : RunId) : OrderKey :=
  toLex ((if previous.contains run then position previous run else position inherited run),
    toLex ((ordinals.get run).getD 0, run))

/-- The index of every run. -/
def indexed (runs : List RunId) : HashMap RunId ℕ := HashMap.ofList runs.zipIdx

/-- The previous positions of the runs that still exist. -/
def positioned (nodes : List RunId) (previous : HashMap RunId ℕ) : HashMap RunId ℕ :=
  HashMap.ofList ((nodes.filter previous.contains).map fun run => (run, (previous.get run).getD 0))

/-- How many turns the propagation may take: a run gets its turn again only with an earlier
position. -/
def propagationTurns (nodes : List RunId) (previous : HashMap RunId ℕ) : ℕ :=
  nodes.length + nodes.length * (previous.values.sum + 1)

/-- Recomputes the full dependency order from one coherent model snapshot. -/
def DagOrder.recompute (order : DagOrder) (model : DomainModel) : Option DagOrder := do
  let nodes := (ordinals model).keys
  let links ← model.dependencyEdges.keys.foldlM (Links.push nodes) (Links.empty nodes)
  let inherited ← propagate links.reverse (propagationTurns nodes order.previousPositions)
    (positioned nodes order.previousPositions) (nodes.filter order.previousPositions.contains)
  let key := orderKey order.previousPositions inherited (ordinals model)
  let ready := (nodes.filter fun run => links.indegree.get run = some 0).map key
  let ordered ← emit key links.outgoing nodes.length links.indegree ready
  if ordered.length ≠ nodes.length then
    let remainder := (nodes.filter fun run => run ∉ ordered).insertionSort fun a b => key a ≤ key b
    return {
      runIds := ordered ++ remainder
      previousPositions := indexed (ordered ++ remainder)
      cycleFallbacks := satAddU64 order.cycleFallbacks 1 }
  else
    return { order with
      runIds := ordered
      previousPositions := indexed ordered }

end HerdrTop.Tui
