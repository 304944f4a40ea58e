import HerdrTop.Tui.DagStable
import HerdrTop.Tui.Expiry
import HerdrTop.Tui.TreeRows

/-!
# What is on the screen

The state of the interface, and the rows that it makes of the model: those of the view it is in, filtered and
collapsed, with the time until when they need not be made again. The texts that only people read, what `to_lowercase`
and `trim` do, and which runs are stalled are left open.
-/

namespace HerdrTop.Tui

/-! ### State -/

/-- What the interface gets at its start. -/
structure Environment where
  texts : RowTexts
  /-- The name of a run in the lists of its neighbors. -/
  shortRunName : TaskRun → String
  toLowercase : String → String
  trim : String → String
  stalledRuns : DomainModel → ℤ → RunId → Bool
  ghostVisibilityMs : ℤ
  headlessInactivityMs : ℤ
  /-- Only positive durations are taken. -/
  positive : 0 < headlessInactivityMs
  bounded : headlessInactivityMs ≤ i64Max
  noticeVisible : Bool
  /-- Where it is noted that the notice was dismissed. -/
  noticeStateBase : Option String

inductive Overlay
  | notice
  | help
  | detail
  | summary
  deriving DecidableEq

/-- Why the selection moved. -/
inductive SelectionReason
  | merged
  | closed
  | filtered
  | collapsed
  | agedOut
  deriving DecidableEq

/-- Executions in the order in which they were first seen. -/
structure StableOrder where
  byId : HashMap String ℕ := ∅
  next : ℕ := 0

def StableOrder.push (order : StableOrder) (id : String) : StableOrder where
  byId := order.byId.insert id order.next
  next := satAddU64 order.next 1

/-- Names that have not been seen before come after all others, in their own order. -/
def StableOrder.adopt (order : StableOrder) (ids : List String) : StableOrder :=
  let unseen := ((ids.filter fun id => !order.byId.contains id).insertionSort (· ≤ ·)).destutter (· ≠ ·)
  unseen.foldl StableOrder.push order

def StableOrder.get (order : StableOrder) (id : String) : ℕ := (order.byId.get id).getD u64Max

/-- What the interface keeps, without the copies of what the operator sees, which make no rows. -/
structure AppState where
  selected : Option NodeKey := none
  selectedRunKey : Option RunKey := none
  follow : Bool := false
  selectionReason : Option SelectionReason := none
  executionOrder : StableOrder := {}
  viewMode : ViewMode := .executionTree
  dagOrder : DagOrder := {}
  collapsed : HashSet NodeKey := (∅ : HashMap NodeKey Unit)
  filterQuery : String := ""
  filterDraft : Option String := none
  overlay : Option Overlay := none
  summarySessionWide : Bool := false
  overlayScroll : ℕ := 0
  overlayScrollMax : ℕ := 0
  safeWarning : Option String := none
  nowMs : ℤ := 0

/-- Takes up a new model; `none` if the dependency order is out of turns. -/
def AppState.adoptModel (state : AppState) (model : DomainModel) : Option AppState := do
  let dagOrder ← state.dagOrder.recompute model
  return { state with
    executionOrder := state.executionOrder.adopt (model.executions.values.map (·.executionId))
    dagOrder }

/-! ### The dependency view -/

/-- The visible neighbors of a run by their names. -/
def neighborNames (env : Environment) (model : DomainModel) (visibleRuns : HashSet RunId) (runIds : List RunId) :
    List String :=
  (((runIds.filter visibleRuns.contains).filterMap model.taskRun).insertionSort fun a b =>
    toLex (a.displayOrdinal, a.runId) ≤ toLex (b.displayOrdinal, b.runId)).map env.shortRunName

/-- What the dependency edges lead to, from either end. -/
def neighbors (model : DomainModel) (source target : DependencyEdge → RunId) : HashMap RunId (List RunId) :=
  (model.dependencyEdges.keys.filter (joinsKnown model)).foldl
    (fun neighbors edge => pushEntry neighbors (source edge) (target edge)) ∅

def dagRow (env : Environment) (ctx : RowContext) (visibleRuns : HashSet RunId) (run : TaskRun) : TreeRow :=
  let status := ctx.statuses.taskDisplayStatus ctx.model run none (ctx.stalledRuns run.runId)
  let prerequisites := neighbors ctx.model (·.dependentRunId) (·.prerequisiteRunId)
  let dependents := neighbors ctx.model (·.prerequisiteRunId) (·.dependentRunId)
  { key := .run run.runId none
    depth := 0
    label := runRowHead ctx.texts run status ++ runDuration ctx.model run ctx.nowMs ++ annotations ctx.texts run false true
    displayStatus := some status
    prerequisites := neighborNames env ctx.model visibleRuns ((prerequisites.get run.runId).getD [])
    dependents := neighborNames env ctx.model visibleRuns ((dependents.get run.runId).getD []) }

/-- Whether a row may be shown that is not of an agent that is stale. -/
def showsFresh (ctx : RowContext) (row : TreeRow) : Bool :=
  match row.key with
  | .agent agentNodeId _ => (ctx.model.agentNodes.get agentNodeId).all fun agent =>
      !agentNodeIsDisplayStale ctx.headlessInactivityMs agent ctx.nowMs
  | _ => true

/-- The rows of the dependency view. -/
def buildDagRows (env : Environment) (ctx : RowContext) (order : DagOrder) (visibleRuns : HashSet RunId) :
    List TreeRow :=
  (((order.runIds.filter visibleRuns.contains).filterMap ctx.model.taskRun).map (dagRow env ctx visibleRuns)).filter
    (showsFresh ctx)

/-! ### The rows -/

section

variable (env : Environment) (model : DomainModel) (state : AppState)

def rowContext : RowContext where
  model
  texts := env.texts
  headlessInactivityMs := env.headlessInactivityMs
  nowMs := state.nowMs
  stalledRuns := env.stalledRuns model state.nowMs
  executionOrder := state.executionOrder.get

/-- The rows of either view before they are filtered and collapsed. -/
def buildFullRows (visibleRuns : HashSet RunId) : Option (List TreeRow) :=
  match state.viewMode with
  | .executionTree => buildTreeRows (rowContext env model state) visibleRuns
  | .dependencyDag => some (buildDagRows env (rowContext env model state) state.dagOrder visibleRuns)

def defaultVisible : HashSet RunId := defaultVisibleTaskRunIds env.ghostVisibilityMs model state.nowMs

/-- The rows, with these ones collapsed. -/
def buildCollapsed (collapsed : HashSet NodeKey) : Option RowProjection := do
  let fullRows ← buildFullRows env model state (defaultVisible env model state)
  projectRowsWithVisible env.toLowercase env.headlessInactivityMs env.ghostVisibilityMs model fullRows
    (defaultVisible env model state) state.filterQuery collapsed state.viewMode state.nowMs

def buildProjection : Option RowProjection := buildCollapsed env model state state.collapsed

def buildRows : Option (List TreeRow) := (buildProjection env model state).map (·.rows)

def buildUncollapsedRows : Option (List TreeRow) :=
  (buildCollapsed env model state (∅ : HashMap NodeKey Unit)).map (·.rows)

end

end HerdrTop.Tui
