import HerdrTop.Library.Forest
import HerdrTop.Library.Shortlist
import HerdrTop.Tui.Projection
import Mathlib.Data.List.Destutter

/-!
# The execution tree

The tree has a row for every workspace, tab and pane, and below a pane the runs that are worked on in it, or were at
last. A run without a place of its own is shown below the visible run that dispatched it, unless the dispatches lead
in a circle; all others are unattached. A run that is worked on in several panes has a row in each of them, and what
it dispatched stands below the first one.

Texts that are only read by people are left to a parameter; how a run's label is put together is not, as a query
looks for `[shared]` in it. So is which runs are stalled, which only a glyph tells. The recursions stop at what they
have entered already; with fuel they give `none` when they are out of it.
-/

namespace HerdrTop.Tui

open Closure

/-! ### Texts -/

/-- The texts that only people read. -/
structure RowTexts where
  sessionLabel : String
  workspaceLabel : Workspace → String
  tabLabel : Tab → String
  paneLabel : Pane → String
  /-- Kind and subject of a run. -/
  runHead : TaskRun → String
  /-- What the newest agent of a live run said, with the dash before it. -/
  liveLine : TaskRun → Option AgentNode → String
  /-- The name of the dispatching run, in brackets. -/
  dispatchedBy : TaskRun → String
  agentLabel : AgentNode → DisplayStatus → String

def displayStatusGlyph (status : DisplayStatus) : String :=
  if status.stalled then "⚠"
  else match status.status with
    | .queued => "◌"
    | .working | .blocked => "●"
    | .idle => "○"
    | .done => "✓"
    | .error => "✗"
    | .cancelled => "⊘"
    | .unknown => "?"

/-- A number with two digits at least. -/
def twoDigits (n : ℤ) : String := if n < 10 then "0" ++ toString n else toString n

def formatDuration (elapsedMs : ℤ) : String :=
  let totalSeconds := elapsedMs / 1000
  if 3600 ≤ totalSeconds then toString (totalSeconds / 3600) ++ "h" ++ twoDigits (totalSeconds % 3600 / 60) ++ "m"
  else if 60 ≤ totalSeconds then twoDigits (totalSeconds / 60) ++ "m" ++ twoDigits (totalSeconds % 60) ++ "s"
  else twoDigits totalSeconds ++ "s"

/-- How long a run took, or has been taking; nothing if that is not known. -/
def runDuration (model : DomainModel) (run : TaskRun) (nowMs : ℤ) : String :=
  let endMs := (model.effectiveLifecycleEndMs run).getD nowMs
  let elapsedMs := (run.createdAtMs.bind fun createdAtMs => checkedI64 (endMs - createdAtMs)).filter (0 ≤ ·)
  match elapsedMs with
  | some elapsedMs => " · " ++ formatDuration elapsedMs
  | none => ""

def runRowHead (texts : RowTexts) (run : TaskRun) (status : DisplayStatus) : String :=
  displayStatusGlyph status ++ " " ++ displayStatusLabel status.status ++ " " ++ texts.runHead run

def annotations (texts : RowTexts) (run : TaskRun) (shared showDispatchParent : Bool) : String :=
  (if shared then " [shared]" else "") ++ (if showDispatchParent then texts.dispatchedBy run else "")

def nativeAgentDisplayStatus (agent : AgentNode) : DisplayStatus :=
  match agent.state with
  | none => ⟨.unknown, .fallback, false⟩
  | some state => (executionDisplayStatus state true).withSource .agentNodeState

def isLiveLineAgent (agent : AgentNode) : Bool := agent.lastEventKind = some liveLineEventKind

/-- The agent of every run that was active last. -/
def newestAgentNodes (headlessInactivityMs : ℤ) (model : DomainModel) (nowMs : ℤ) : HashMap RunId AgentNode :=
  (model.agentNodes.values.filter fun agent =>
    !isLiveLineAgent agent && !agentNodeIsDisplayStale headlessInactivityMs agent nowMs).foldl
      (fun newest agent => Champions.keepBest (·.evidence.rank) newest agent.taskRunId agent) ∅

/-- What the rows are made of. -/
structure RowContext where
  model : DomainModel
  texts : RowTexts
  headlessInactivityMs : ℤ
  nowMs : ℤ
  stalledRuns : RunId → Bool
  /-- The order in which executions were first seen. -/
  executionOrder : String → ℕ

namespace RowContext

def statuses (ctx : RowContext) : StatusReadModel :=
  StatusReadModel.fromModel ctx.headlessInactivityMs ctx.model ctx.nowMs

def newestAgent (ctx : RowContext) (runId : RunId) : Option AgentNode :=
  (newestAgentNodes ctx.headlessInactivityMs ctx.model ctx.nowMs).get runId

/-- The label of a run in the tree. -/
def runLabel (ctx : RowContext) (run : TaskRun) (shared showDispatchParent : Bool) (status : DisplayStatus) : String :=
  runRowHead ctx.texts run status ++ ctx.texts.liveLine run (ctx.newestAgent run.runId) ++
    runDuration ctx.model run ctx.nowMs ++ annotations ctx.texts run shared showDispatchParent

def runRow (ctx : RowContext) (run : TaskRun) (runId : RunId) (shared : Bool) (paneId : Option String) (depth : ℕ)
    (showDispatchParent : Bool) : TreeRow :=
  let status := ctx.statuses.taskDisplayStatus ctx.model run paneId (ctx.stalledRuns runId)
  { key := .run runId paneId
    depth
    label := ctx.runLabel run shared showDispatchParent status
    displayStatus := some status }

def agentRow (ctx : RowContext) (agent : AgentNode) (paneId : Option String) (depth : ℕ) : TreeRow :=
  let status := nativeAgentDisplayStatus agent
  { key := .agent agent.agentNodeId paneId
    depth
    label := ctx.texts.agentLabel agent status
    displayStatus := some status }

end RowContext

/-! ### Placing runs -/

/-- A run in a pane, and whether it is in others, too. -/
abbrev RunPlacement := RunId × Bool

def paneIsRenderable (model : DomainModel) (paneId : String) : Bool :=
  (model.panes.get paneId).any fun pane =>
    (model.workspaces.get pane.workspaceId).isSome &&
      (model.tabs.get pane.tabId).any fun tab => tab.workspaceId = pane.workspaceId

/-- The executions of a run in panes that are shown, as they were first seen. -/
def renderableExecutions (ctx : RowContext) (run : TaskRun) : List Execution :=
  ((ctx.model.executions.values.filter fun execution => execution.taskRunId = run.runId).filter fun execution =>
    paneIsRenderable ctx.model execution.paneId).insertionSort fun a b =>
      toLex (ctx.executionOrder a.executionId, a.executionId) ≤ toLex (ctx.executionOrder b.executionId, b.executionId)

/-- The panes of a run: those it is worked on in, or else the one it was in at last. -/
def runPanes (ctx : RowContext) (run : TaskRun) : List (String × Bool) :=
  let executions := renderableExecutions ctx run
  let livePanes := Shortlist.keepFirst id [] ((executions.filter fun execution =>
    !execution.state.isTerminal).map (·.paneId))
  if !livePanes.isEmpty then livePanes.map fun paneId => (paneId, decide (1 < livePanes.length))
  else match executions.getLast? with
    | some execution => [(execution.paneId, false)]
    | none => []

/-- The run that dispatched a run, the first one to be displayed. -/
def dispatchParentRun (model : DomainModel) (childRunId : RunId) : Option TaskRun :=
  (((model.executionEdges.keys.filter fun edge => edge.childRunId = childRunId).filterMap fun edge =>
    model.taskRun edge.parentRunId).insertionSort fun a b =>
      toLex (a.displayOrdinal, a.runId) ≤ toLex (b.displayOrdinal, b.runId)).head?

/-- The visible run below which a run without executions may be shown. -/
def candidateParent (ctx : RowContext) (visibleRuns : HashSet RunId) (run : TaskRun) : Option RunId :=
  if ctx.model.hasExecution run.runId then none
  else ((dispatchParentRun ctx.model run.runId).map (·.runId)).filter visibleRuns.contains

/-- Runs that are being placed. -/
structure Placing where
  paneRuns : HashMap String (List RunPlacement) := ∅
  unplaced : List RunId := []
  candidateParents : HashMap RunId RunId := ∅

/-- One more value under a key. -/
def pushEntry {κ α : Type} [DecidableEq κ] (m : HashMap κ (List α)) (k : κ) (a : α) : HashMap κ (List α) :=
  m.insert k ((m.get k).getD [] ++ [a])

def placeRun (ctx : RowContext) (visibleRuns : HashSet RunId) (placing : Placing) (run : TaskRun) : Placing :=
  match runPanes ctx run with
  | [] =>
    { placing with
      unplaced := placing.unplaced ++ [run.runId]
      candidateParents := match candidateParent ctx visibleRuns run with
        | some parent => placing.candidateParents.insert run.runId parent
        | none => placing.candidateParents }
  | panes =>
    { placing with
      paneRuns := panes.foldl (fun paneRuns pane => pushEntry paneRuns pane.1 (run.runId, pane.2)) placing.paneRuns }

/-- Whether going up over the candidates leads in a circle; `none` if it is out of steps. -/
def parentChainHasCycle (candidateParents : HashMap RunId RunId) : ℕ → HashSet RunId → RunId → Option Bool
  | 0, _, _ => none
  | fuel + 1, seen, current =>
    if seen.contains current then some true
    else match candidateParents.get current with
      | none => some false
      | some parent => parentChainHasCycle candidateParents fuel (HashSet.insert seen current) parent

/-- Where the runs are. -/
structure Placement where
  paneRuns : HashMap String (List RunPlacement)
  unattached : List RunId
  nestedRuns : HashMap RunId (List RunId)

/-- Puts a run that has no place below its candidate, or leaves it unattached. -/
def attachRun (candidateParents : HashMap RunId RunId) (placed : HashMap RunId (List RunId) × List RunId)
    (runId : RunId) : Option (HashMap RunId (List RunId) × List RunId) := do
  match candidateParents.get runId with
  | none => return (placed.1, placed.2 ++ [runId])
  | some parent =>
    let cycle ← parentChainHasCycle candidateParents (candidateParents.keys.length + 1) ∅ runId
    return if !cycle then (pushEntry placed.1 parent runId, placed.2) else (placed.1, placed.2 ++ [runId])

/-- Runs are displayed by their ordinals. -/
def displayKey (model : DomainModel) (runId : RunId) : DisplayOrdinal ×ₗ RunId :=
  match model.taskRun runId with
  | some run => toLex (run.displayOrdinal, run.runId)
  | none => toLex (i64Max, runId)

/-- Sorted by display, each run once. -/
def displayOrder {α : Type} (model : DomainModel) (runId : α → RunId) (runs : List α) : List α :=
  (runs.insertionSort fun a b => displayKey model (runId a) ≤ displayKey model (runId b)).destutter fun a b =>
    runId a ≠ runId b

/-- The visible runs by their identities. -/
def visibleTaskRuns (model : DomainModel) (visibleRuns : HashSet RunId) : List TaskRun :=
  (model.taskRuns.values.filter fun run => visibleRuns.contains run.runId).insertionSort fun a b => a.runId ≤ b.runId

def placeRuns (ctx : RowContext) (visibleRuns : HashSet RunId) : Option Placement := do
  let placing := (visibleTaskRuns ctx.model visibleRuns).foldl (placeRun ctx visibleRuns) {}
  let (nestedRuns, unattached) ← placing.unplaced.foldlM (attachRun placing.candidateParents) (∅, [])
  return {
    paneRuns := placing.paneRuns.mapValues fun _ runs => displayOrder ctx.model Prod.fst runs
    nestedRuns := nestedRuns.mapValues fun _ runs => displayOrder ctx.model id runs
    unattached := displayOrder ctx.model id unattached }

/-! ### The rows of agents -/

/-- The agents that are shown below a run: not the one that speaks for it, and none that is stale. -/
def rowAgents (ctx : RowContext) (run : TaskRun) (runId : RunId) : List AgentNode :=
  ctx.model.agentNodes.values.filter fun agent =>
    agent.taskRunId = runId && agent.parentAgentNodeId.isSome && !isLiveLineAgent agent &&
      !agentNodeIsDisplayStale ctx.headlessInactivityMs agent ctx.nowMs &&
      (taskRunProvider run).all fun provider => provider = agent.provider

def sortAgents (agents : List AgentNode) : List AgentNode :=
  agents.insertionSort fun a b =>
    toLex (a.displayOrdinal, a.agentNodeId) ≤ toLex (b.displayOrdinal, b.agentNodeId)

/-- The parent of an agent, if it is one of the given agents. -/
def shownParent (agents : List AgentNode) (agent : AgentNode) : Option String :=
  agent.parentAgentNodeId.filter fun parentId => agents.any fun other => other.agentNodeId = parentId

/-- The children of every agent. -/
def agentChildren (agents : List AgentNode) : HashMap String (List AgentNode) :=
  (agents.foldl (fun children agent =>
    match shownParent agents agent with
    | some parentId => pushEntry children parentId agent
    | none => children) ∅).mapValues fun _ children => sortAgents children

/-- The rows of an agent and of what is below it, and who has been visited then. -/
def appendAgentSubtree (ctx : RowContext) (children : HashMap String (List AgentNode)) (paneId : Option String) :
    ℕ → HashSet String → ℕ → AgentNode → Option (List TreeRow × HashSet String)
  | 0, _, _, _ => none
  | fuel + 1, visited, depth, agent =>
    if visited.contains agent.agentNodeId then some ([], visited)
    else do
      let below ← ((children.get agent.agentNodeId).getD []).foldlM (fun state child =>
        (appendAgentSubtree ctx children paneId fuel state.2 (depth + 1) child).map fun more =>
          (state.1 ++ more.1, more.2)) ([], HashSet.insert visited agent.agentNodeId)
      return (ctx.agentRow agent paneId depth :: below.1, below.2)

def appendAgentRows (ctx : RowContext) (agents : List AgentNode) (paneId : Option String) (depth : ℕ) :
    Option (List TreeRow) := do
  let roots := sortAgents (agents.filter fun agent => (shownParent agents agent).isNone)
  let shown ← roots.foldlM (fun state root =>
    (appendAgentSubtree ctx (agentChildren agents) paneId (agents.length + 1) state.2 depth root).map fun more =>
      (state.1 ++ more.1, more.2)) ([], ∅)
  return shown.1

/-! ### The rows of runs -/

/-- The rows of a run and of what is below it, and the shared runs that have been expanded then. The source takes a
run out of its set of ancestors when it is done with it; here the set is handed down instead. -/
def appendRunSubtree (ctx : RowContext) (nestedRuns : HashMap RunId (List RunId)) :
    ℕ → HashSet RunId → HashSet RunId → ℕ → RunPlacement → Option String → Bool →
      Option (List TreeRow × HashSet RunId)
  | 0, _, _, _, _, _, _ => none
  | fuel + 1, ancestors, expanded, depth, (runId, shared), paneId, showDispatchParent =>
    if ancestors.contains runId then some ([], expanded)
    else match ctx.model.taskRun runId with
      | none => some ([], expanded)
      | some run => do
        let agentRows ← appendAgentRows ctx (rowAgents ctx run runId) paneId (depth + 1)
        let expandNestedRuns := !shared || !expanded.contains runId
        let children := if expandNestedRuns then (nestedRuns.get runId).getD [] else []
        let below ← children.foldlM (fun state child =>
          (appendRunSubtree ctx nestedRuns fuel (HashSet.insert ancestors runId) state.2 (depth + 1) (child, false) none
            false).map fun more => (state.1 ++ more.1, more.2))
          ([], if shared then HashSet.insert expanded runId else expanded)
        return (ctx.runRow run runId shared paneId depth showDispatchParent :: agentRows ++ below.1, below.2)

/-- The rows of runs at one place. -/
def appendRunRows (ctx : RowContext) (nestedRuns : HashMap RunId (List RunId)) (expanded : HashSet RunId)
    (runs : List RunPlacement) (paneId : Option String) (depth : ℕ) : Option (List TreeRow × HashSet RunId) :=
  runs.foldlM (fun state placement =>
    (appendRunSubtree ctx nestedRuns (ctx.model.taskRuns.keys.length + 1) ∅ state.2 depth placement paneId
      paneId.isSome).map fun more => (state.1 ++ more.1, more.2)) ([], expanded)

/-! ### The tree -/

/-- The tree as far as it is built, and the runs that have not been shown in their panes yet. -/
structure TreeState where
  rows : List TreeRow
  paneRuns : HashMap String (List RunPlacement)
  expanded : HashSet RunId := (∅ : HashMap RunId Unit)

def topologyKey (model : DomainModel) (kind : TopologyKind) (id : String) : DisplayOrdinal ×ₗ String :=
  toLex ((model.topologyOrdinal kind id).getD i64Max, id)

def orderedWorkspaces (model : DomainModel) : List Workspace :=
  model.workspaces.values.insertionSort fun a b =>
    topologyKey model .workspace a.workspaceId ≤ topologyKey model .workspace b.workspaceId

def orderedTabs (model : DomainModel) (workspace : Workspace) : List Tab :=
  (model.tabs.values.filter fun tab => tab.workspaceId = workspace.workspaceId).insertionSort fun a b =>
    topologyKey model .tab a.tabId ≤ topologyKey model .tab b.tabId

def orderedPanes (model : DomainModel) (workspace : Workspace) (tab : Tab) : List Pane :=
  (model.panes.values.filter fun pane =>
    pane.workspaceId = workspace.workspaceId && pane.tabId = tab.tabId).insertionSort fun a b =>
      topologyKey model .pane a.paneId ≤ topologyKey model .pane b.paneId

def appendPane (ctx : RowContext) (nestedRuns : HashMap RunId (List RunId)) (state : TreeState) (pane : Pane) :
    Option TreeState := do
  let row : TreeRow := { key := .pane pane.paneId, depth := 3, label := ctx.texts.paneLabel pane }
  match state.paneRuns.get pane.paneId with
  | none => return { state with rows := state.rows ++ [row] }
  | some runs =>
    let more ← appendRunRows ctx nestedRuns state.expanded runs (some pane.paneId) 4
    return {
      rows := state.rows ++ row :: more.1
      paneRuns := state.paneRuns.remove pane.paneId
      expanded := more.2 }

def appendTab (ctx : RowContext) (nestedRuns : HashMap RunId (List RunId)) (workspace : Workspace) (state : TreeState)
    (tab : Tab) : Option TreeState :=
  let row : TreeRow := { key := .tab tab.tabId, depth := 2, label := ctx.texts.tabLabel tab }
  (orderedPanes ctx.model workspace tab).foldlM (appendPane ctx nestedRuns) { state with rows := state.rows ++ [row] }

def appendWorkspace (ctx : RowContext) (nestedRuns : HashMap RunId (List RunId)) (state : TreeState)
    (workspace : Workspace) : Option TreeState :=
  let row : TreeRow :=
    { key := .workspace workspace.workspaceId, depth := 1, label := ctx.texts.workspaceLabel workspace }
  (orderedTabs ctx.model workspace).foldlM (appendTab ctx nestedRuns workspace)
    { state with rows := state.rows ++ [row] }

def appendExecutionTreeRows (ctx : RowContext) (visibleRuns : HashSet RunId) (rows : List TreeRow) :
    Option (List TreeRow) := do
  let placement ← placeRuns ctx visibleRuns
  let state ← (orderedWorkspaces ctx.model).foldlM (appendWorkspace ctx placement.nestedRuns)
    { rows, paneRuns := placement.paneRuns }
  if placement.unattached.isEmpty then return state.rows
  else
    let row : TreeRow := { key := .unattachedGroup, depth := 1, label := "Unattached Task Runs" }
    let more ← appendRunRows ctx placement.nestedRuns state.expanded (placement.unattached.map (·, false)) none 2
    return state.rows ++ row :: more.1

/-- The rows of the execution tree; `none` if a recursion is out of fuel. -/
def buildTreeRows (ctx : RowContext) (visibleRuns : HashSet RunId) : Option (List TreeRow) :=
  appendExecutionTreeRows ctx visibleRuns [{ key := .session, depth := 0, label := ctx.texts.sessionLabel }]

end HerdrTop.Tui
