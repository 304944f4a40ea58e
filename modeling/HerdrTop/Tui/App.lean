import HerdrTop.Tui.Selection

/-!
# The interface at work

The interface keeps a copy of the model that was published at last and the rows made of it. In every turn of its loop
it looks whether something was published or is due, draws a frame if there is anything new, but not too often, and
takes at most one event from the terminal. A key changes what is shown, and most keys make the rows again.

What clocks, the terminal and the files of the notice answer are inputs: a clock is a sequence of readings, each of
which is taken in its place. Making rows may be out of turns, which gives `none`.
-/

namespace HerdrTop.Tui

open HerdrTop

/-! ### Inputs -/

/-- What is published elsewhere: the last value, and whether it is new or nobody publishes any more. -/
structure Watch (α : Type) where
  value : α
  changed : Bool := false
  closed : Bool := false

namespace Watch

variable {α : Type}

def hasChanged (watch : Watch α) : Option Bool := if watch.closed then none else some watch.changed

def send (watch : Watch α) (value : α) : Watch α := { watch with value, changed := true }

def borrowAndUpdate (watch : Watch α) : Watch α := { watch with changed := false }

end Watch

/-- The bounded way to the collector. -/
structure CommandQueue where
  waiting : ℕ := 0
  capacity : ℕ
  closed : Bool := false

/-- Never blocks. -/
def CommandQueue.trySend (queue : CommandQueue) : CommandQueue :=
  if queue.closed || queue.capacity ≤ queue.waiting then queue else { queue with waiting := queue.waiting + 1 }

inductive KeyCode
  | char (character : Char)
  | enter
  | esc
  | backspace
  | up
  | down
  | left
  | right
  | tab
  | endKey
  | other
  deriving DecidableEq

structure KeyEvent where
  code : KeyCode
  /-- There are no modifiers. -/
  plain : Bool := true
  release : Bool := false

/-- What becomes of the notice that is dismissed: whether it is noted, and whether it looks so afterwards. -/
structure NoticeReply where
  published : Bool
  observable : Bool

inductive LoopControl
  | goOn
  | exit
  deriving DecidableEq

/-! ### The application -/

structure App where
  modelReceiver : Watch DomainModel
  performance : Watch Unit
  sourceCoverage : Watch Unit
  diagnosticsReceiver : Watch Unit
  operatorReceiver : Watch Unit
  operatorCommands : CommandQueue
  model : DomainModel
  state : AppState
  rows : List TreeRow := []
  nextExpiryMs : Option ℤ := none
  nextPaintMs : ℤ

def nextWallSecondMs (nowMs : ℤ) : ℤ := (checkedI64 (nowMs + (1000 - nowMs % 1000))).getD i64Max

def lastKey (rows : List TreeRow) : Option NodeKey := rows.getLast?.map (·.key)

def ViewMode.toggled : ViewMode → ViewMode
  | .executionTree => .dependencyDag
  | .dependencyDag => .executionTree

namespace AppState

def resetOverlayScroll (state : AppState) : AppState := { state with overlayScroll := 0, overlayScrollMax := u64Max }

def scrollOverlayUp (state : AppState) : AppState := { state with overlayScroll := state.overlayScroll - 1 }

def scrollOverlayDown (state : AppState) : AppState :=
  { state with overlayScroll := min (satAddU64 state.overlayScroll 1) state.overlayScrollMax }

def normalizeOverlayScroll (state : AppState) (maximum : ℕ) : AppState :=
  { state with overlayScroll := min state.overlayScroll maximum, overlayScrollMax := maximum }

end AppState

namespace App

def setSelection (app : App) (selected : Option NodeKey) : App :=
  { app with state := { app.state with
      selected
      selectedRunKey := ((selected.bind (·.runId)).bind app.model.taskRun).map (·.key) } }

def withReason (app : App) (selectionReason : Option SelectionReason) : App :=
  { app with state := { app.state with selectionReason } }

def rebuildRows (env : Environment) (app : App) (nowMs : ℤ) : Option App := do
  let projection ← buildProjection env app.model { app.state with nowMs }
  return { app with
    state := { app.state with nowMs }
    rows := projection.rows
    nextExpiryMs := projection.nextExpiryMs }

/-! ### Recovery of the selection -/

/-- Whether the key of the selected run now leads to another run. -/
def selectedMerged (app : App) (selected : NodeKey) : Bool :=
  match selected.runId, app.state.selectedRunKey with
  | some oldRunId, some selectedKey => (app.model.taskRunByKey selectedKey).any fun run => run.runId ≠ oldRunId
  | _, _ => false

/-- Whether the selected run ended long ago. -/
def selectedAgedOut (app : App) (selected : NodeKey) : Bool :=
  ((selected.runId.bind app.model.taskRun).bind app.model.effectiveLifecycleEndMs).any fun endMs =>
    satAddI64 endMs defaultTerminalVisibilityMs ≤ app.state.nowMs

def disappearanceReason (app : App) (oldRows newRows : List TreeRow) : Option SelectionReason := do
  let selected ← app.state.selected
  if !hasKey oldRows selected || hasKey newRows selected then none
  else if app.selectedMerged selected then some .merged
  else if app.selectedAgedOut selected then some .agedOut
  else some .closed

/-- The row of the run that the selected one was merged into. -/
def survivorRow (app : App) (newRows : List TreeRow) (selected : NodeKey) : Option TreeRow := do
  let oldRunId ← selected.runId
  let selectedKey ← app.state.selectedRunKey
  let survivor ← app.model.taskRunByKey selectedKey
  if survivor.runId ≠ oldRunId then preferredRunRow newRows survivor.runId selected else none

/-- The new row of the selected run at another place. A candidate already present in the old rows is a separate
occurrence that survived. -/
def reparentedRow (oldRows newRows : List TreeRow) (selected : NodeKey) : Option TreeRow := do
  let runId ← selected.runId
  let row ← preferredRunRow newRows runId selected
  if !hasKey oldRows row.key then some row else none

def recoverSelection (app : App) (oldRows newRows : List TreeRow) (reasonHint : Option SelectionReason) : App :=
  match app.state.selected with
  | none => app.setSelection (lastKey newRows)
  | some selected =>
    if hasKey newRows selected then app.withReason none
    else match app.survivorRow newRows selected with
      | some row => (app.setSelection (some row.key)).withReason (some .merged)
      | none => match reparentedRow oldRows newRows selected with
        | some row => (app.setSelection (some row.key)).withReason none
        | none => (app.setSelection (fallback oldRows newRows selected)).withReason (reasonHint.or (some .closed))

/-! ### Refreshing -/

/-- The rows at the cached time, which tell what has disappeared; nobody asks while the selection follows. -/
def previousRows (env : Environment) (app : App) : Option (List TreeRow) :=
  if app.state.follow then some [] else buildRows env app.model app.state

/-- Takes up what makes no rows. -/
def takeUp (app : App) : App :=
  { app with
    performance := app.performance.borrowAndUpdate
    diagnosticsReceiver := app.diagnosticsReceiver.borrowAndUpdate
    sourceCoverage := app.sourceCoverage.borrowAndUpdate }

/-- Takes up the model. -/
def adopt (app : App) : Option App :=
  (app.state.adoptModel app.modelReceiver.value).map fun state => { app with
    modelReceiver := app.modelReceiver.borrowAndUpdate
    operatorReceiver := app.operatorReceiver.borrowAndUpdate
    state
    model := app.modelReceiver.value }

/-- Selects a row of the new ones. -/
def reselect (app : App) (oldRows : List TreeRow) : App :=
  if app.state.follow then (app.withReason none).setSelection (lastKey app.rows)
  else app.recoverSelection oldRows app.rows (app.disappearanceReason oldRows app.rows)

/-- Takes up what was published; the rows are only made again if they may have changed. -/
def refreshCached (env : Environment) (app : App) (recomputeProjection : Bool) (nowMs : ℤ) : Option App :=
  if recomputeProjection then do
    let oldRows ← app.previousRows env
    let adopted ← app.takeUp.adopt
    let rebuilt ← adopted.rebuildRows env nowMs
    return rebuilt.reselect oldRows
  else some app.takeUp

/-- Whether the rows are due at the given time. -/
def deadlineDue (app : App) (nowMs : ℤ) : Bool := app.nextExpiryMs.any (· ≤ nowMs)

/-- Looks whether something changed or is due, and refreshes then; fails if the collector is gone. -/
def refreshIfChanged (env : Environment) (app : App) (deadlineMs nowMs : ℤ) :
    Option (Except String (App × Bool)) :=
  match app.modelReceiver.hasChanged, app.performance.hasChanged with
  | none, _ => some (.error "model watch closed; collector is no longer publishing state")
  | some _, none => some (.error "performance watch closed; collector is no longer publishing performance state")
  | some modelChanged, some performanceChanged =>
    let coverageChanged := app.sourceCoverage.hasChanged.getD false
    let diagnosticsChanged := app.diagnosticsReceiver.hasChanged.getD false
    let operatorChanged := app.operatorReceiver.hasChanged.getD false
    let deadlineDue := app.deadlineDue deadlineMs
    if modelChanged || performanceChanged || coverageChanged || diagnosticsChanged || operatorChanged || deadlineDue then
      (app.refreshCached env (modelChanged || operatorChanged || deadlineDue) nowMs).map fun app => .ok (app, true)
    else some (.ok (app, false))

/-! ### Keys -/

def handleOverlayKey (env : Environment) (app : App) (overlay : Overlay) (code : KeyCode) (notice : NoticeReply) : App :=
  match overlay, code with
  | .notice, .enter | .notice, .esc =>
    let state := { app.state with overlay := none }
    if env.noticeStateBase.isSome && !notice.published then
      { app with state := { state with
          safeWarning := some (if notice.observable then "notice_marker_sync_unconfirmed"
            else "notice_marker_write_failed") } }
    else { app with state }
  | .help, .esc | .help, .char '?' | .detail, .esc | .detail, .char 'i' | .summary, .esc | .summary, .char 's' =>
    { app with state := { app.state with overlay := none } }
  | .summary, .char 'w' =>
    { app with state := { app.state with summarySessionWide := !app.state.summarySessionWide }.resetOverlayScroll }
  | .help, .up | .detail, .up | .summary, .up => { app with state := app.state.scrollOverlayUp }
  | .help, .down | .detail, .down | .summary, .down => { app with state := app.state.scrollOverlayDown }
  | _, _ => app

def commitFilter (env : Environment) (app : App) (clock : ℕ → ℤ) : Option App := do
  let old ← app.rebuildRows env (clock 0)
  let new ← rebuildRows env { old with
    state := { old.state with
      filterDraft := none
      filterQuery := env.trim (old.state.filterDraft.getD "")
      follow := false } } (clock 1)
  return new.recoverSelection old.rows new.rows (some .filtered)

def handleFilterKey (env : Environment) (app : App) (code : KeyCode) (clock : ℕ → ℤ) : Option App :=
  match code with
  | .esc => some { app with state := { app.state with filterDraft := none } }
  | .enter => app.commitFilter env clock
  | .backspace => some { app with state := { app.state with
      filterDraft := app.state.filterDraft.map fun draft => .ofList draft.toList.dropLast } }
  | .char character => some { app with state := { app.state with
      filterDraft := app.state.filterDraft.map fun draft => draft.push character } }
  | _ => some app

def collapseAvailable (app : App) : Bool := app.state.viewMode = .executionTree && app.state.filterQuery.isEmpty

/-- Whether there are rows below the one at a place. -/
def isBranch (rows : List TreeRow) (index : ℕ) : Bool :=
  (rows[index]?).any fun row => (rows[index + 1]?).any fun next => row.depth < next.depth

/-- Moves the selection by hand. -/
def select (app : App) (key : NodeKey) : App :=
  ({ app with state := { app.state with follow := false, selectionReason := none } } : App).setSelection (some key)

def toggleCollapse (env : Environment) (app : App) (key : NodeKey) (clock : ℕ → ℤ) : Option App := do
  if !app.collapseAvailable then return app
  let old ← app.rebuildRows env (clock 0)
  let fullRows ← buildUncollapsedRows env old.model old.state
  match rowIndex fullRows key with
  | none => return old
  | some index =>
    if !isBranch fullRows index then return old
    let collapseKey := key.collapseKey
    let collapses := !old.state.collapsed.contains collapseKey
    let new ← rebuildRows env { old with
      state := { old.state with
        follow := false
        selectionReason := none
        collapsed :=
          if collapses then HashSet.insert old.state.collapsed collapseKey
          else HashMap.remove old.state.collapsed collapseKey } } (clock 1)
    return if collapses then new.recoverSelection old.rows new.rows (some .collapsed) else new

def navigateRight (env : Environment) (app : App) (clock : ℕ → ℤ) : Option App := do
  if !app.collapseAvailable then return app
  match app.state.selected with
  | none => return app
  | some selected =>
    if app.state.collapsed.contains selected.collapseKey then app.toggleCollapse env selected clock
    else
      let new ← app.rebuildRows env (clock 0)
      match rowIndex new.rows selected with
      | none => return new
      | some index =>
        let depth := (new.rows[index]?.map (·.depth)).getD 0
        match (new.rows[index + 1]?).filter fun row => depth < row.depth with
        | some child => return new.select child.key
        | none => return new

def navigateLeft (env : Environment) (app : App) (clock : ℕ → ℤ) : Option App := do
  if !app.collapseAvailable then return app
  match app.state.selected with
  | none => return app
  | some selected =>
    let new ← app.rebuildRows env (clock 0)
    match rowIndex new.rows selected with
    | none => return new
    | some index =>
      let depth := (new.rows[index]?.map (·.depth)).getD 0
      if !new.state.collapsed.contains selected.collapseKey && isBranch new.rows index then
        new.toggleCollapse env selected fun reading => clock (reading + 1)
      else match (new.rows.take index).reverse.find? fun row => row.depth < depth with
        | some parent => return new.select parent.key
        | none => return new

def moveSelection (env : Environment) (app : App) (down : Bool) (nowMs : ℤ) : Option App := do
  let new ← rebuildRows env
    { app with state := { app.state with follow := false, selectionReason := none } } nowMs
  if new.rows.isEmpty then return new.setSelection none
  let current := (new.state.selected.bind (rowIndex new.rows)).getD (new.rows.length - 1)
  let next := if down then min (current + 1) (new.rows.length - 1) else current - 1
  return new.setSelection ((new.rows[next]?).map (·.key))

def resumeFollow (env : Environment) (app : App) (nowMs : ℤ) : Option App := do
  let new ← rebuildRows env
    { app with state := { app.state with follow := true, selectionReason := none } } nowMs
  return new.setSelection (lastKey new.rows)

/-- The run that a row is about. -/
def semanticRunId (model : DomainModel) : NodeKey → Option RunId
  | .agent agentNodeId _ => (model.agentNodes.get agentNodeId).map (·.taskRunId)
  | key => key.runId

def toggleView (env : Environment) (app : App) (clock : ℕ → ℤ) : Option App := do
  let previous := app.state.selected
  let old ← app.rebuildRows env (clock 0)
  let new ← rebuildRows env { old with
    state := { old.state with viewMode := old.state.viewMode.toggled, selectionReason := none } } (clock 1)
  if old.state.follow then return new.setSelection (lastKey new.rows)
  let replacement := previous.bind fun selected => (semanticRunId new.model selected).bind fun runId =>
    match new.state.viewMode with
    | .executionTree => (preferredRunRow new.rows runId selected).map (·.key)
    | .dependencyDag => (new.rows.find? fun row => row.key.runId = some runId).map (·.key)
  return match replacement with
    | some key => new.setSelection (some key)
    | none => new.setSelection (match previous with
      | some selected => fallback old.rows new.rows selected
      | none => new.rows.head?.map (·.key))

def openOverlay (app : App) (overlay : Overlay) : App :=
  { app with state := { app.state with overlay := some overlay }.resetOverlayScroll }

def handleKey (env : Environment) (app : App) (key : KeyEvent) (clock : ℕ → ℤ) (notice : NoticeReply) :
    Option (App × LoopControl) :=
  if key.release then some (app, .goOn)
  else match app.state.overlay with
    | some overlay => some (app.handleOverlayKey env overlay key.code notice, .goOn)
    | none =>
      if app.state.filterDraft.isSome then (app.handleFilterKey env key.code clock).map (·, .goOn)
      else match key.code with
        | .char 'q' => some (app, .exit)
        | .char '/' => some ({ app with state := { app.state with filterDraft := some app.state.filterQuery } }, .goOn)
        | .char 'c' =>
          some (if key.plain then { app with operatorCommands := app.operatorCommands.trySend } else app, .goOn)
        | .char 'i' => some (app.openOverlay .detail, .goOn)
        | .char 's' =>
          some (if key.plain then
            ({ app with state := { app.state with summarySessionWide := false } } : App).openOverlay .summary
          else app, .goOn)
        | .char '?' => some (app.openOverlay .help, .goOn)
        | .up => (app.moveSelection env false (clock 0)).map (·, .goOn)
        | .down => (app.moveSelection env true (clock 0)).map (·, .goOn)
        | .char 'f' | .endKey => (app.resumeFollow env (clock 0)).map (·, .goOn)
        | .tab => (app.toggleView env clock).map (·, .goOn)
        | .left => (app.navigateLeft env clock).map (·, .goOn)
        | .right => (app.navigateRight env clock).map (·, .goOn)
        | .enter =>
          match app.state.selected with
          | some selected => (app.toggleCollapse env selected clock).map (·, .goOn)
          | none => some (app, .goOn)
        | _ => some (app, .goOn)

/-! ### The start -/

/-- Whether the clock shows another second; then the next one is awaited. -/
def paintTickDue (app : App) (nowMs : ℤ) : App × Bool :=
  if nowMs < app.nextPaintMs then (app, false) else ({ app with nextPaintMs := nextWallSecondMs nowMs }, true)

/-- The application at its start, when nothing has been made of the model yet. -/
def initial (env : Environment) (modelReceiver : Watch DomainModel)
    (performance sourceCoverage diagnosticsReceiver operatorReceiver : Watch Unit) (operatorCommands : CommandQueue)
    (nowMs : ℤ) : App :=
  { modelReceiver, performance, sourceCoverage, diagnosticsReceiver, operatorReceiver, operatorCommands
    model := modelReceiver.value
    state := { follow := true, overlay := if env.noticeVisible then some .notice else none, nowMs }
    nextPaintMs := nextWallSecondMs nowMs }

def begin (env : Environment) (app : App) (nowMs : ℤ) : Option App := do
  let state ← app.state.adoptModel app.model
  let app ← rebuildRows env { app with state } nowMs
  return app.setSelection (lastKey app.rows)

end App

/-! ### The loop -/

/-- In nanoseconds. -/
def frameInterval : ℕ := 100000000

def watchPollInterval : ℕ := 10000000

def fromMillis (ms : ℤ) : ℕ := (max ms 0).toNat * 1000000

structure FrameLimiter where
  lastDraw : Option ℕ := none

namespace FrameLimiter

def ready (limiter : FrameLimiter) (dirty : Bool) (now : ℕ) : Bool :=
  dirty && limiter.lastDraw.all fun last => frameInterval ≤ now - last

def record (_limiter : FrameLimiter) (now : ℕ) : FrameLimiter := { lastDraw := some now }

def pollDuration (limiter : FrameLimiter) (dirty : Bool) (now : ℕ) : ℕ :=
  if !dirty then watchPollInterval
  else (limiter.lastDraw.map fun last => min (frameInterval - (now - last)) watchPollInterval).getD 0

end FrameLimiter

/-- For how long the terminal is waited for. -/
def App.pollDuration (app : App) (limiter : FrameLimiter) (dirty : Bool) (elapsed : ℕ) (nowMs : ℤ) : ℕ :=
  let base := limiter.pollDuration dirty elapsed
  let untilPaint := fromMillis (satSubI64 (nextWallSecondMs nowMs) nowMs)
  min ((app.nextExpiryMs.map fun deadline => min base (fromMillis (satSubI64 deadline nowMs))).getD base) untilPaint

/-- The loop between two turns. -/
structure EventLoop where
  app : App
  limiter : FrameLimiter := {}
  dirty : Bool := true

inductive TerminalEvent
  | key (key : KeyEvent) (clock : ℕ → ℤ) (notice : NoticeReply)
  | resize
  | other

/-- What clocks and the terminal say during a turn; the terminal may fail. -/
structure TurnInputs where
  deadlineMs : ℤ
  nowMs : ℤ
  paintMs : ℤ
  elapsed : ℕ
  /-- How far the overlay can be scrolled, if one with a scroll is drawn. -/
  drawn : Except String (Option ℕ)
  /-- Whether there is an event in time. -/
  polled : Except String Bool
  /-- The event, if there is one. -/
  read : Except String TerminalEvent

/-- The event of a turn. -/
def TurnInputs.event (inputs : TurnInputs) : Except String (Option TerminalEvent) :=
  inputs.polled.bind fun ready => if ready then inputs.read.map some else .ok none

/-- A turn of the loop: the frame that is drawn, if there is one, and how it goes on, if the terminal does not fail. -/
structure Turn where
  loop : EventLoop
  frame : Option App
  control : Except String LoopControl

/-- Draws if it is time to; drawing tells how far the overlay can be scrolled. -/
def EventLoop.draw (loop : EventLoop) (elapsed : ℕ) (drawn : Except String (Option ℕ)) :
    Except String (EventLoop × Option App) :=
  if loop.limiter.ready loop.dirty elapsed then
    drawn.map fun overlayMaximum =>
      ({ app := overlayMaximum.elim loop.app fun maximum =>
          { loop.app with state := loop.app.state.normalizeOverlayScroll maximum }
         limiter := loop.limiter.record elapsed
         dirty := false }, some loop.app)
  else .ok (loop, none)

/-- Takes an event. -/
def EventLoop.take (env : Environment) (loop : EventLoop) : Option TerminalEvent → Option (EventLoop × LoopControl)
  | some (.key key clock notice) => (loop.app.handleKey env key clock notice).map fun handled =>
      ({ loop with app := handled.1, dirty := true }, handled.2)
  | some .resize => some ({ loop with dirty := true }, .goOn)
  | some .other | none => some (loop, .goOn)

/-- Waits for an event and takes it. -/
def EventLoop.await (env : Environment) (loop : EventLoop) :
    Except String (Option TerminalEvent) → Option (EventLoop × Except String LoopControl)
  | .error message => some (loop, .error message)
  | .ok event => (loop.take env event).map fun taken => (taken.1, .ok taken.2)

/-- The loop after the look for changes. -/
def EventLoop.looked (loop : EventLoop) (paintMs : ℤ) (refreshed : App × Bool) : EventLoop :=
  let painted := refreshed.1.paintTickDue paintMs
  { loop with app := painted.1, dirty := loop.dirty || refreshed.2 || painted.2 }

/-- What follows the look for changes. -/
def EventLoop.proceed (env : Environment) (loop : EventLoop) (inputs : TurnInputs) : Option (Except String Turn) :=
  match loop.draw inputs.elapsed inputs.drawn with
  | .error message => some (.error message)
  | .ok drawn => (drawn.1.await env inputs.event).map fun taken =>
      .ok { loop := taken.1, frame := drawn.2, control := taken.2 }

/-- A turn of the loop; it ends when the collector is gone, or when nothing can be drawn. -/
def EventLoop.turn (env : Environment) (loop : EventLoop) (inputs : TurnInputs) : Option (Except String Turn) :=
  (loop.app.refreshIfChanged env inputs.deadlineMs inputs.nowMs).bind fun
    | .error message => some (.error message)
    | .ok refreshed => (loop.looked inputs.paintMs refreshed).proceed env inputs

end HerdrTop.Tui
