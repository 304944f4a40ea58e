import HerdrTop.Provider.Admission
import HerdrTop.Provider.Pending
import HerdrTop.Reducer.Transitions

/-!
# Synthesis of provider logs

`Synthesis` turns the facts of provider logs into the events that a Controller would have sent. A scope
starts with its first record or announcement; the end of a subagent is held for a grace period, in which
a failure or a resumption takes its place; a scope that is silent for too long is closed; and a newer record
opens a closed scope again.

Each function returns the events it pushes. `ScopedEvent` pairs an event with the scope it is about, which
the source does not do: the event itself names the scope only by its run. Maps are visited in their iteration
order, and sorted as the source sorts them.
-/

namespace HerdrTop

/-- The default delay before a completion becomes durable. -/
def defaultCompleteGraceMs : ℤ := 30000

/-- The default silence after which a run closes. -/
def defaultHeadlessInactivityMs : ℤ := 600000

/-! ### Names -/

/-- The provider selector of hooks. -/
def hookSelector : Provider → String
  | .claude => "claude-code"
  | .codex => "codex"

/-- The run that the hooks of a session, or of a subagent in it, name. -/
def hookKey (provider : Provider) (sessionId : String) (agentId : Option String) : String :=
  let sessionRunId := "hook:" ++ hookSelector provider ++ ":" ++ sessionId
  match agentId with
  | none => sessionRunId
  | some agentId => sessionRunId ++ ":agent:" ++ agentId

def controllerKeyForScope : SessionScope → String
  | .claudeRoot sessionId => hookKey .claude sessionId none
  | .claudeSubagent parent agentId => hookKey .claude parent (some agentId)
  | .codex rolloutId => hookKey .codex rolloutId none

/-- The key of the run of a scope. -/
def runKeyForScope : SessionScope → RunKey
  | .codex rolloutId => .native .codex rolloutId
  | scope => .controller (controllerKeyForScope scope)

/-- The position of a scope in the order of scopes: its kind, then its ids. -/
def scopeRank : SessionScope → ℕ × String × String
  | .claudeRoot sessionId => (0, sessionId, "")
  | .claudeSubagent parent agentId => (1, parent, agentId)
  | .codex rolloutId => (2, rolloutId, "")

def scopeOrder (left right : SessionScope) : Ordering :=
  (compare (scopeRank left).1 (scopeRank right).1).then <|
    (compare (scopeRank left).2.1 (scopeRank right).2.1).then
      (compare (scopeRank left).2.2 (scopeRank right).2.2)

def controllerEventKindSlug : ControllerEventKind → String
  | .dispatch _ => "dispatch"
  | .taskStarted => "task-started"
  | .dependsOn _ => "depends-on"
  | .blocked => "blocked"
  | .progress => "progress"
  | .complete => "complete"
  | .failed => "failed"
  | .cancelled => "cancelled"
  | .sessionEnded => "session-ended"
  | .dismiss => "dismiss"

def controllerSourceEventType : ControllerEventKind → String
  | .dispatch _ => "dispatch"
  | .taskStarted => "task_started"
  | .dependsOn _ => "depends_on"
  | .blocked => "blocked"
  | .progress => "progress"
  | .complete => "complete"
  | .failed => "failed"
  | .cancelled => "cancelled"
  | .sessionEnded => "session_ended"
  | .dismiss => "dismiss"

/-- The id of an event of the lane: where its record stands and what it is about. -/
def deterministicLaneEventId (artifact : ArtifactPath) (ordinal : ℕ) (kind : String)
    (sequence : Option ℕ) (scope : SessionScope) : String :=
  let id := "log:" ++ artifact.basename ++ ":" ++ toString ordinal ++ ":" ++ kind ++ ":" ++ scope.targetId
  match sequence with
  | none => id
  | some sequence => id ++ ":" ++ toString sequence

def deterministicEventId (artifact : ArtifactPath) (ordinal : ℕ) (event : ControllerEventKind)
    (scope : SessionScope) : String :=
  deterministicLaneEventId artifact ordinal (controllerEventKindSlug event) none scope

/-! ### Events -/

/-- An event of the lane and the scope it is about. -/
structure ScopedEvent where
  scope : SessionScope
  event : ProviderEvent
  deriving DecidableEq

/-- The provider of a scope and the native session its events name. -/
def scopeNative : SessionScope → Provider × Option String
  | .claudeRoot sessionId => (.claude, some sessionId)
  | .claudeSubagent _ _ => (.claude, none)
  | .codex rolloutId => (.codex, some rolloutId)

def controllerEvent (artifact : ArtifactPath) (ordinal : ℕ) (scope : SessionScope)
    (event : ControllerEventKind) (atMs : ℤ) (label : Option String)
    (providerMetadata : Option MinimalProviderMetadata) : ControllerEvent where
  schemaVersion := 1
  taskRunId := controllerKeyForScope scope
  metadata :=
    { eventId := deterministicEventId artifact ordinal event scope
      timestampMs := atMs
      receiptTimeMs := atMs
      source := sourceLogLane
      sourceEventType := controllerSourceEventType event
      provider := some (scopeNative scope).1
      nativeSessionId := (scopeNative scope).2
      providerMetadata
      label := label.map sanitizeControllerText }
  event

/-- The position that events of the lane carry. -/
def lanePosition (ordinal : ℕ) : SourcePosition := ⟨2 ^ 32 - 1, 0, ordinal⟩

def liveLineEvent (artifact : ArtifactPath) (ordinal sequence : ℕ) (scope : SessionScope) (atMs : ℤ)
    (line : Option String) : ProviderEvent :=
  let (provider, agentThreadId) :=
    match scope with
    | .codex rolloutId => (Provider.codex, rolloutId)
    | scope => (Provider.claude, controllerKeyForScope scope)
  .activity provider agentThreadId
    { agentId := some agentThreadId
      eventKind := some liveLineEventKind
      toolName := some (line.getD "") }
    none (deterministicLaneEventId artifact ordinal "activity" (some sequence) scope) atMs
    (lanePosition ordinal)

/-- The runtime state of a rollout, working or idle. -/
def rootRuntimeStateEvent (artifact : ArtifactPath) (ordinal sequence : ℕ) (rolloutId : String)
    (atMs : ℤ) (working : Bool) : ProviderEvent :=
  .agentUpsert .codex rolloutId (some rolloutId) none (some (if working then .working else .idle)) none
    (some 0)
    ("prov:codex:runtime:" ++ artifact.basename ++ ":" ++ toString ordinal ++ ":" ++ toString sequence ++
      ":" ++ if working then "working" else "idle")
    atMs (lanePosition ordinal)

/-- The kind under which a Codex run is published. -/
def codexRunKind (originator : String) (internal : Option CodexInternal) : Option String :=
  let meaningful := fun value : String =>
    let trimmed := ((value.toList.dropWhile isWhiteSpace).reverse.dropWhile isWhiteSpace).reverse
    if trimmed = [] then none else some (String.ofList trimmed)
  (match internal with
    | some (.threadSpawn _ _ role) => role.bind meaningful
    | some (.named name) => meaningful name
    | none => none).or (meaningful originator)

/-! ### The state -/

/-- The current activities of a scope. -/
structure ActivitySelection where
  toolUse : Option String := none
  commentary : Option String := none
  command : Option String := none
  deriving DecidableEq

def ActivitySelection.observe (selection : ActivitySelection) (line : String) :
    ActivitySource → ActivitySelection
  | .toolUse => { selection with toolUse := some line }
  | .commentary => { selection with commentary := some line }
  | .command => { selection with command := some line }

def ActivitySelection.selected (selection : ActivitySelection) : Option String :=
  selection.commentary.or (selection.command.or selection.toolUse)

/-- What the first metadata of a rollout says. -/
structure CodexSessionMetadata where
  cwd : String
  originator : String
  internal : Option CodexInternal
  cliVersion : String
  deriving DecidableEq

/-- The end of a subagent as its notifications report it so far. -/
structure SubagentEnd where
  failed : Bool
  ordinal : ℕ
  atMs : ℤ
  deriving DecidableEq

/-- One more notification of the end of a subagent; failures stay, and the earliest counts. -/
def SubagentEnd.join (current : Option SubagentEnd) (failed : Bool) (ordinal : ℕ) (atMs : ℤ) :
    SubagentEnd :=
  match current with
  | none => ⟨failed, ordinal, atMs⟩
  | some current => ⟨current.failed || failed, min current.ordinal ordinal, min current.atMs atMs⟩

/-- The state of the lane. -/
structure Synthesis where
  completeGraceMs : ℤ
  headlessInactivityMs : ℤ
  latestLifecycleMs : ℤ
  sessionMeta : HashMap ArtifactPath CodexSessionMetadata := ∅
  /-- Model, effort and sandbox of the current turn. -/
  turnContext : HashMap SessionScope (String × Option String × Option String) := ∅
  aiTitles : HashMap String String := ∅
  claudeCwds : HashMap String String := ∅
  publishedSubjects : HashMap String String := ∅
  started : HashMap SessionScope ℤ := ∅
  startedOrigins : HashMap SessionScope ObservationOrigin := ∅
  usageSamples : HashSet (SessionScope × String) := ∅
  /-- By the parent and the agent. -/
  subagentEnds : HashMap (String × String) SubagentEnd := ∅
  lineage : HashSet (SessionScope × SessionScope) := ∅
  lastAppendMs : HashMap SessionScope ℤ := ∅
  lastAppendOrigins : HashMap SessionScope ObservationOrigin := ∅
  /-- The completions that are held for their grace period. -/
  pendingCompletes : HashMap SessionScope ControllerEvent := ∅
  pendingCompleteOrigins : HashMap SessionScope ObservationOrigin := ∅
  emittedSynthesizedOrigins : HashMap String ObservationOrigin := ∅
  emittedLaneCloseOrigins : HashMap (RunKey × ℤ) ObservationOrigin := ∅
  completed : HashSet SessionScope := ∅
  inactivityClosed : HashSet SessionScope := ∅
  liveLines : HashMap SessionScope ActivitySelection := ∅
  deriving DecidableEq

/-- Where a fact stands in its artifact, and where the artifact comes from. -/
structure FactContext where
  ordinal : ℕ
  sequence : ℕ
  origin : ObservationOrigin
  deriving DecidableEq

namespace Synthesis

/-- A lane that has seen nothing. -/
def withLifecycleTimingAt (completeGraceMs headlessInactivityMs nowMs : ℤ) : Synthesis where
  completeGraceMs
  headlessInactivityMs
  latestLifecycleMs := max nowMs 1

/-! ### Completions and closes -/

/-- Emits the completion that is held for a scope. -/
def releaseComplete (s : Synthesis) (scope : SessionScope) : Synthesis × List ScopedEvent :=
  match s.pendingCompletes.get scope with
  | none => (s, [])
  | some event =>
    ({ s with
        pendingCompletes := s.pendingCompletes.remove scope
        started := s.started.remove scope
        startedOrigins := s.startedOrigins.remove scope
        completed := s.completed.insert scope
        pendingCompleteOrigins := s.pendingCompleteOrigins.remove scope
        emittedSynthesizedOrigins :=
          match s.pendingCompleteOrigins.get scope with
          | some origin => s.emittedSynthesizedOrigins.insert event.metadata.eventId origin
          | none => s.emittedSynthesizedOrigins },
      [⟨scope, .synthesized event⟩])

/-- Emits the completions that are held for some scopes, one after the other. -/
def releaseCompletes (s : Synthesis) : List SessionScope → Synthesis × List ScopedEvent
  | [] => (s, [])
  | scope :: scopes =>
    let (s, events) := s.releaseComplete scope
    let (s, later) := s.releaseCompletes scopes
    (s, events ++ later)

/-- Whether a held completion has waited long enough. -/
def isDue (s : Synthesis) (nowMs : ℤ) (event : ControllerEvent) : Bool :=
  satAddI64 event.metadata.timestampMs s.completeGraceMs ≤ nowMs

/-- The scopes of some held completions, in the order of their events. -/
def byEventId (held : List (SessionScope × ControllerEvent)) : List SessionScope :=
  (held.insertionSort fun left right => left.2.metadata.eventId ≤ right.2.metadata.eventId).map Prod.fst

def flushDueCompletes (s : Synthesis) (nowMs : ℤ) : Synthesis × List ScopedEvent :=
  s.releaseCompletes (byEventId (s.pendingCompletes.toList.filter fun held => s.isDue nowMs held.2))

/-- Gives up the grace and emits every held completion, for a shutdown. -/
def flushPendingCompletes (s : Synthesis) : Synthesis × List ScopedEvent :=
  s.releaseCompletes (byEventId s.pendingCompletes.toList)

/-- The time since which a started scope is silent. -/
def inactivityAnchor (s : Synthesis) (scope : SessionScope) (startedAtMs : ℤ) : ℤ :=
  (s.lastAppendMs.get scope).getD startedAtMs

/-- Whether a started scope has been silent for too long. -/
def isInactive (s : Synthesis) (nowMs : ℤ) (scope : SessionScope) (startedAtMs : ℤ) : Bool :=
  !s.inactivityClosed.contains scope && !s.pendingCompletes.contains scope &&
    !s.completed.contains scope &&
    s.headlessInactivityMs ≤ satSubI64 nowMs (s.inactivityAnchor scope startedAtMs)

/-- Closes a silent scope. -/
def closeInactive (s : Synthesis) (scope : SessionScope) (anchorMs : ℤ) : Synthesis × List ScopedEvent :=
  let key := runKeyForScope scope
  let origin := (s.lastAppendOrigins.get scope).or (s.startedOrigins.get scope)
  ({ s with
      inactivityClosed := s.inactivityClosed.insert scope
      started := s.started.remove scope
      lastAppendOrigins := s.lastAppendOrigins.remove scope
      startedOrigins :=
        if (s.lastAppendOrigins.get scope).isSome then s.startedOrigins else s.startedOrigins.remove scope
      emittedLaneCloseOrigins :=
        match origin with
        | some origin => s.emittedLaneCloseOrigins.insert (key, anchorMs) origin
        | none => s.emittedLaneCloseOrigins },
    [⟨scope, .laneClose key anchorMs⟩])

/-- Closes silent scopes, one after the other. -/
def closeAllInactive (s : Synthesis) : List (SessionScope × ℤ) → Synthesis × List ScopedEvent
  | [] => (s, [])
  | (scope, anchorMs) :: scopes =>
    let (s, events) := s.closeInactive scope anchorMs
    let (s, later) := s.closeAllInactive scopes
    (s, events ++ later)

/-- The scopes that have been silent for too long, in their order, each with the time since which. -/
def inactiveScopes (s : Synthesis) (nowMs : ℤ) : List (SessionScope × ℤ) :=
  ((s.started.toList.filter fun (scope, startedAtMs) => s.isInactive nowMs scope startedAtMs).map
    fun (scope, startedAtMs) => (scope, s.inactivityAnchor scope startedAtMs)).insertionSort
      fun left right => (scopeOrder left.1 right.1).isLE

/-- Lets time pass: grace periods end, and silent scopes close. -/
def advanceLifecycle (s : Synthesis) (nowMs : ℤ) : Synthesis × List ScopedEvent :=
  let s := { s with latestLifecycleMs := max s.latestLifecycleMs nowMs }
  let (s, flushed) := s.flushDueCompletes nowMs
  let (s, closed) := s.closeAllInactive (s.inactiveScopes nowMs)
  (s, flushed ++ closed)

/-! ### Starting and resuming -/

/-- Whether a subagent has ended at or after this time. -/
def endedSince (s : Synthesis) (atMs : ℤ) : SessionScope → Bool
  | .claudeSubagent parent agentId =>
    (s.subagentEnds.get (parent, agentId)).any fun terminal => atMs ≤ terminal.atMs
  | _ => false

/-- Forgets that a scope ended or was closed. -/
def resume (s : Synthesis) (scope : SessionScope) : Synthesis :=
  { s with
    pendingCompletes := s.pendingCompletes.remove scope
    pendingCompleteOrigins := s.pendingCompleteOrigins.remove scope
    completed := s.completed.remove scope
    inactivityClosed := s.inactivityClosed.remove scope
    subagentEnds :=
      match scope with
      | .claudeSubagent parent agentId => s.subagentEnds.remove (parent, agentId)
      | _ => s.subagentEnds }

/-- Resumes a scope unless it ended later; whether it had completed or was closed. -/
def prepareResume (s : Synthesis) (scope : SessionScope) (atMs : ℤ) :
    Synthesis × List ScopedEvent × Option Bool :=
  let (s, flushed) := s.flushDueCompletes atMs
  if s.endedSince atMs scope then (s, flushed, none)
  else
    (s.resume scope, flushed, some (s.completed.contains scope || s.inactivityClosed.contains scope))

/-- When a scope starts whose source says so: now, if the source has no time. -/
def startTime (s : Synthesis) (sourceAtMs : ℤ) : ℤ :=
  if 0 < sourceAtMs then sourceAtMs else max s.latestLifecycleMs 1

/-- Starts a scope that has not started; whether it did. -/
def startScope (s : Synthesis) (scope : SessionScope) (sourceAtMs : ℤ) (origin : ObservationOrigin) :
    Synthesis × Bool :=
  if s.started.contains scope then (s, false)
  else
    ({ s with
        started := s.started.insert scope (s.startTime sourceAtMs)
        startedOrigins := s.startedOrigins.insert scope origin }, true)

/-! ### One fact -/

section Facts

variable (s : Synthesis) (artifact : ArtifactPath) (context : FactContext)

/-- An event that a record of the artifact gives rise to. -/
def synthesized (scope : SessionScope) (event : ControllerEventKind) (atMs : ℤ)
    (label : Option String) (providerMetadata : Option MinimalProviderMetadata) : ScopedEvent :=
  ⟨scope, .synthesized (controllerEvent artifact context.ordinal scope event atMs label providerMetadata)⟩

/-- The log of a scope that goes on has grown; `reopen` if the scope had completed or was closed. -/
def growScope (scope : SessionScope) (atMs : ℤ) (reopen : Bool) : Synthesis × List ScopedEvent :=
  let s := { s with
    lastAppendMs := s.lastAppendMs.insert scope atMs
    lastAppendOrigins := s.lastAppendOrigins.insert scope context.origin }
  let alive : ScopedEvent := ⟨scope, .runLiveness (runKeyForScope scope) atMs⟩
  if scope.isClaudeRoot || reopen then
    let (s, started) := s.startScope scope atMs context.origin
    (s, alive :: if started then [synthesized artifact context scope .taskStarted atMs none none] else [])
  else (s, [alive])

def synthesizeAppend (scope : SessionScope) (atMs : ℤ) : Synthesis × List ScopedEvent :=
  let (s, flushed, reopen) := s.prepareResume scope atMs
  match reopen with
  | none => (s, flushed)
  | some reopen =>
    let (s, events) := s.growScope artifact context scope atMs reopen
    (s, flushed ++ events)

/-- Publishes the subject of a session when it has changed. -/
def publishClaudeSubject (sessionId : String) : Synthesis × List ScopedEvent :=
  match ((s.aiTitles.get sessionId).filter fun title => title ≠ "").or (s.claudeCwds.get sessionId) with
  | none => (s, [])
  | some subject =>
    if s.publishedSubjects.get sessionId = some subject then (s, [])
    else
      let scope := SessionScope.claudeRoot sessionId
      let atMs := (s.lastAppendMs.get scope).getD s.latestLifecycleMs
      let event := controllerEvent artifact context.ordinal scope .progress atMs (some subject) none
      let eventId := deterministicLaneEventId artifact context.ordinal "subject" none scope
      ({ s with publishedSubjects := s.publishedSubjects.insert sessionId subject },
        [⟨scope, .synthesized { event with metadata := { event.metadata with eventId } }⟩])

def synthesizeAiTitle (sessionId title : String) : Synthesis × List ScopedEvent :=
  { s with aiTitles := s.aiTitles.insert sessionId title }.publishClaudeSubject artifact context sessionId

def synthesizeClaudeCwd (sessionId cwd : String) : Synthesis × List ScopedEvent :=
  match (ArtifactPath.ofText cwd.toList).fileText.filter fun basename => basename ≠ "" with
  | none => (s, [])
  | some basename =>
    { s with claudeCwds := s.claudeCwds.insert sessionId basename }.publishClaudeSubject artifact context
      sessionId

def synthesizeCodexMeta (rolloutId cwd originator : String) (internal : Option CodexInternal)
    (cliVersion : String) : Synthesis × List ScopedEvent :=
  if s.sessionMeta.contains artifact then (s, [])
  else
    let s := { s with sessionMeta := s.sessionMeta.insert artifact ⟨cwd, originator, internal, cliVersion⟩ }
    let scope := SessionScope.codex rolloutId
    let atMs := (s.lastAppendMs.get scope).getD s.latestLifecycleMs
    let (s, flushed, _) := s.prepareResume scope atMs
    let (s, _) := s.startScope scope atMs context.origin
    (s, flushed ++ [synthesized artifact context scope .taskStarted atMs none
      (some { eventKind := codexRunKind originator internal })])

def synthesizeCodexTurnStarted (rolloutId : String) (atMs : ℤ) : Synthesis × List ScopedEvent :=
  let scope := SessionScope.codex rolloutId
  let (s, flushed, _) := s.prepareResume scope atMs
  let selected := (s.liveLines.get scope).bind (·.selected)
  let s := { s with liveLines := s.liveLines.remove scope }
  let (s, started) := s.startScope scope atMs context.origin
  (s, flushed ++
    ((if selected.isSome then
      [⟨scope, liveLineEvent artifact context.ordinal context.sequence scope atMs none⟩] else []) ++
    (if started then [synthesized artifact context scope .taskStarted atMs none none] else []) ++
    [⟨scope, rootRuntimeStateEvent artifact context.ordinal context.sequence rolloutId atMs true⟩]))

def synthesizeCodexTurnComplete (rolloutId : String) (atMs : ℤ) : Synthesis × List ScopedEvent :=
  let (s, flushed) := s.flushDueCompletes atMs
  (s, flushed ++ [⟨.codex rolloutId,
    rootRuntimeStateEvent artifact context.ordinal context.sequence rolloutId atMs false⟩])

/-- Drops what is known of a scope that is over at once. -/
def dropScope (scope : SessionScope) : Synthesis :=
  { s with
    pendingCompletes := s.pendingCompletes.remove scope
    pendingCompleteOrigins := s.pendingCompleteOrigins.remove scope
    completed := s.completed.remove scope
    started := s.started.remove scope
    startedOrigins := s.startedOrigins.remove scope }

def synthesizeCodexTurnAborted (rolloutId : String) (atMs : ℤ) : Synthesis × List ScopedEvent :=
  let scope := SessionScope.codex rolloutId
  let (s, flushed) := s.flushDueCompletes atMs
  (s.dropScope scope, flushed ++ [synthesized artifact context scope .cancelled atMs none none])

def synthesizeSubagentAppeared (parent agentId agentType description : String) (atMs : ℤ) :
    Synthesis × List ScopedEvent :=
  let scope := SessionScope.claudeSubagent parent agentId
  let (s, flushed, reopen) := s.prepareResume scope atMs
  if reopen.isNone then (s, flushed)
  else
    let metadata : Option MinimalProviderMetadata := some { eventKind := some agentType }
    let dispatch := ControllerEventKind.dispatch (controllerKeyForScope (.claudeRoot parent))
    ((s.startScope scope atMs context.origin).1, flushed ++
      [synthesized artifact context scope dispatch atMs (some description) metadata,
        synthesized artifact context scope .taskStarted atMs (some description) metadata])

def synthesizeSubagentEnded (parent agentId : String) (failed : Bool) (atMs : ℤ) :
    Synthesis × List ScopedEvent :=
  let previous := s.subagentEnds.get (parent, agentId)
  let scope := SessionScope.claudeSubagent parent agentId
  -- what became durable is not rewritten; only a held completion can change
  if previous.any (·.failed) || s.completed.contains scope then (s, [])
  else
    let terminal := SubagentEnd.join previous failed context.ordinal atMs
    let s := { s with subagentEnds := s.subagentEnds.insert (parent, agentId) terminal }
    let (s, flushed) := s.flushDueCompletes terminal.atMs
    let event := controllerEvent artifact terminal.ordinal scope
      (if terminal.failed then .failed else .complete) terminal.atMs none none
    if terminal.failed then (s.dropScope scope, flushed ++ [⟨scope, .synthesized event⟩])
    else
      ({ s with
          pendingCompletes := s.pendingCompletes.insert scope event
          pendingCompleteOrigins := s.pendingCompleteOrigins.insert scope context.origin }, flushed)

def synthesizeActivity (scope : SessionScope) (atMs : ℤ) (source : ActivitySource) (line : String) :
    Synthesis × List ScopedEvent :=
  let selection := (s.liveLines.get scope).getD {}
  let updated := selection.observe line source
  ({ s with liveLines := s.liveLines.insert scope updated },
    if updated.selected = selection.selected then []
    else [⟨scope, liveLineEvent artifact context.ordinal context.sequence scope atMs updated.selected⟩])

def synthesizeUsage (scope : SessionScope) (atMs : ℤ) (sampleId : String) (outputTokens : ℕ)
    (tokenBreakdown : TokenBreakdown) (model effort : Option String) : Synthesis × List ScopedEvent :=
  if s.usageSamples.contains (scope, sampleId) then (s, [])
  else
    let turn := s.turnContext.get scope
    ({ s with usageSamples := s.usageSamples.insert (scope, sampleId) },
      [⟨scope, .telemetry (runKeyForScope scope) atMs outputTokens tokenBreakdown
        (model.or (turn.map (·.1))) (effort.or (turn.bind (·.2.1))) (turn.bind (·.2.2))⟩])

/-- The event of a scope that another one led to. -/
def synthesizeLineage (parent child : SessionScope) (atMs : ℤ) : Synthesis × List ScopedEvent :=
  if child = parent || s.lineage.contains (parent, child) then (s, [])
  else
    ({ s with lineage := s.lineage.insert (parent, child) },
      [synthesized artifact context child (.dispatch (controllerKeyForScope parent)) atMs none none])

/-- The clock of the lane follows the times of the facts. -/
def noteTime (fact : LogFact) : Synthesis :=
  match fact.lifecycleTime with
  | some atMs => { s with latestLifecycleMs := max s.latestLifecycleMs atMs }
  | none => s

/-- Consumes one fact. -/
def synthesizeFact (fact : LogFact) (admission : Admission) (discovered : AdmissionIndex) :
    Synthesis × Admission × List ScopedEvent :=
  let s := s.noteTime fact
  let keep := fun r : Synthesis × List ScopedEvent => (r.1, admission, r.2)
  match fact with
  | .append scope atMs => keep (s.synthesizeAppend artifact context scope atMs)
  | .aiTitle sessionId title => keep (s.synthesizeAiTitle artifact context sessionId title)
  | .claudeCwd sessionId cwd => keep (s.synthesizeClaudeCwd artifact context sessionId cwd)
  | .codexMeta rolloutId cwd originator internal cliVersion =>
    keep (s.synthesizeCodexMeta artifact context rolloutId cwd originator internal cliVersion)
  | .codexTurn rolloutId _ model effort sandbox =>
    keep ({ s with turnContext := s.turnContext.insert (.codex rolloutId) (model, effort, sandbox) }, [])
  | .codexPid _ _ => keep (s, [])
  | .codexTurnStarted rolloutId atMs => keep (s.synthesizeCodexTurnStarted artifact context rolloutId atMs)
  | .codexTurnComplete rolloutId atMs =>
    keep (s.synthesizeCodexTurnComplete artifact context rolloutId atMs)
  | .codexTurnAborted rolloutId atMs => keep (s.synthesizeCodexTurnAborted artifact context rolloutId atMs)
  | .subagentAppeared parent agentId agentType description atMs =>
    keep (s.synthesizeSubagentAppeared artifact context parent agentId agentType description atMs)
  | .subagentEnded parent agentId failed atMs =>
    keep (s.synthesizeSubagentEnded artifact context parent agentId failed atMs)
  | .activity scope atMs source line => keep (s.synthesizeActivity artifact context scope atMs source line)
  | .usage scope atMs sampleId outputTokens tokenBreakdown model effort =>
    keep (s.synthesizeUsage scope atMs sampleId outputTokens tokenBreakdown model effort)
  | .evidenceId parent id atMs =>
    let (admission, child) := admission.onEvidence parent id discovered
    match child with
    | none => (s, admission, [])
    | some child =>
      let (s, events) := s.synthesizeLineage artifact context parent child atMs
      (s, admission, events)

end Facts

/-! ### Batches -/

/-- Whether a fact is the end of a subagent: its parent, agent, outcome and time. -/
def asSubagentEnded : LogFact → Option ((String × String) × Bool × ℤ)
  | .subagentEnded parent agentId failed atMs => some ((parent, agentId), failed, atMs)
  | _ => none

def isAppend : LogFact → Bool
  | .append _ _ => true
  | _ => false

/-- A fact with its ordinal, its place in the batch and its place in its record. -/
structure OrderedFact where
  ordinal : ℕ
  /-- The place in the batch; what was collapsed comes last. -/
  order : ℕ
  sequence : ℕ
  fact : LogFact

def usizeMax : ℕ := 2 ^ 64 - 1

/-- How many of the facts belong to a record. -/
def recordLength (ordinal : ℕ) (facts : List (ℕ × LogFact)) : ℕ :=
  (facts.filter fun fact => fact.1 = ordinal).length

/-- The facts other than ends of subagents, each with the facts of its record before it. -/
def ordinaryFacts (facts : List (ℕ × LogFact)) : List OrderedFact :=
  facts.zipIdx.filterMap fun ((ordinal, fact), order) =>
    if (asSubagentEnded fact).isSome then none
    else some ⟨ordinal, order, recordLength ordinal (facts.take order), fact⟩

/-- The ends of subagents, one for each: the least ordinal and time, and a failure if there is one. -/
def collapsedEnds (facts : List (ℕ × LogFact)) : HashMap (String × String) (ℕ × Bool × ℤ) :=
  facts.foldl (fun ended (ordinal, fact) =>
    match asSubagentEnded fact with
    | none => ended
    | some (agent, failed, atMs) =>
      let (ordinal', failed', atMs') := (ended.get agent).getD (ordinal, false, atMs)
      ended.insert agent (min ordinal' ordinal, failed' || failed, min atMs' atMs)) ∅

def endedFacts (facts : List (ℕ × LogFact)) : List OrderedFact :=
  (collapsedEnds facts).toList.map fun ((parent, agentId), ordinal, failed, atMs) =>
    ⟨ordinal, usizeMax, 0, .subagentEnded parent agentId failed atMs⟩

/-- The order within a batch: by ordinal, appends first, then as they came. -/
def factBefore (left right : OrderedFact) : Bool :=
  if left.ordinal = right.ordinal then
    if isAppend left.fact = isAppend right.fact then left.order ≤ right.order else isAppend left.fact
  else left.ordinal ≤ right.ordinal

/-- The facts of a batch in the order in which they are consumed. -/
def batchFacts (facts : List (ℕ × LogFact)) : List OrderedFact :=
  (ordinaryFacts facts ++ endedFacts facts).insertionSort fun left right => factBefore left right

/-- Consumes facts, one after the other. -/
def synthesizeFacts (artifact : ArtifactPath) (origin : ObservationOrigin) (discovered : AdmissionIndex) :
    Synthesis → Admission → List OrderedFact → Synthesis × Admission × List ScopedEvent
  | s, admission, [] => (s, admission, [])
  | s, admission, fact :: facts =>
    let (s, admission, events) :=
      s.synthesizeFact artifact ⟨fact.ordinal, fact.sequence, origin⟩ fact.fact admission discovered
    let (s, admission, later) := synthesizeFacts artifact origin discovered s admission facts
    (s, admission, events ++ later)

/-- Consumes the facts of an artifact, given in file order with the ordinals of their records. -/
def synthesizeBatch (s : Synthesis) (artifact : ArtifactPath) (facts : List (ℕ × LogFact))
    (admission : Admission) (discovered : AdmissionIndex) (origin : ObservationOrigin) :
    Synthesis × Admission × List ScopedEvent :=
  synthesizeFacts artifact origin discovered s admission (batchFacts facts)

/-! ### Origins -/

/-- Takes the origin that a lifecycle event was synthesized from. -/
def takeLifecycleOrigin (s : Synthesis) : ProviderEvent → Synthesis × Option ObservationOrigin
  | .synthesized event =>
    ({ s with emittedSynthesizedOrigins := s.emittedSynthesizedOrigins.remove event.metadata.eventId },
      s.emittedSynthesizedOrigins.get event.metadata.eventId)
  | .laneClose key atMs =>
    ({ s with emittedLaneCloseOrigins := s.emittedLaneCloseOrigins.remove (key, atMs) },
      s.emittedLaneCloseOrigins.get (key, atMs))
  | _ => (s, none)

/-- Forgets everything about one scope that an abandoned origin supplied. -/
def abandonScope (s : Synthesis) (scope : SessionScope) : Synthesis :=
  { s with
    started := s.started.remove scope
    startedOrigins := s.startedOrigins.remove scope
    lastAppendMs := s.lastAppendMs.remove scope
    lastAppendOrigins := s.lastAppendOrigins.remove scope
    pendingCompletes := s.pendingCompletes.remove scope
    pendingCompleteOrigins := s.pendingCompleteOrigins.remove scope
    completed := s.completed.remove scope
    inactivityClosed := s.inactivityClosed.remove scope }

/-- The scopes with this origin. -/
def scopesOf (origins : HashMap SessionScope ObservationOrigin) (origin : ObservationOrigin) :
    List SessionScope :=
  (origins.toList.filter fun stored => stored.2 = origin).map Prod.fst

def abandonOrigin (s : Synthesis) (origin : ObservationOrigin) : Synthesis :=
  (scopesOf s.startedOrigins origin ++ scopesOf s.lastAppendOrigins origin ++
    scopesOf s.pendingCompleteOrigins origin).foldl abandonScope s

/-- The activity that a scope shows. -/
def liveLine (s : Synthesis) (scope : SessionScope) : Option String :=
  (s.liveLines.get scope).bind (·.selected)

end Synthesis

end HerdrTop
