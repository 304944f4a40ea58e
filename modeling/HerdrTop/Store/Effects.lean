import HerdrTop.Store.Batch

/-!
# What accepted statements leave

For every function that writes tables, what the tables are once it has succeeded. Later proofs read
these lemmas and not the functions.

## What is proved

- each operation of a batch changes the tables it is named after, and the run tables only as
  `UpsertTaskRun`, `PromoteTaskRunKey` and `MergeTaskRuns` say;
- a merge leaves, table by table, what `Merged` says.
-/

namespace HerdrTop

namespace Database

variable {db db' : Database}

/-! ### Ordinals and topology -/

/-- The ordinals after one was given, whether or not it was there. -/
def OrdinalGiven (before after : HashMap (EntityKind × String) DisplayOrdinal)
    (entity : EntityKind × String) (ordinal : DisplayOrdinal) : Prop :=
  ∀ other, after.get other = if other = entity then some ordinal else before.get other

theorem upsertDisplayOrdinal_ok {kind : EntityKind} {entityId : String} {ordinal : DisplayOrdinal}
    (h : db.upsertDisplayOrdinal kind entityId ordinal = .ok db') :
    ∃ ordinals, OrdinalGiven db.displayOrdinals ordinals (kind, entityId) ordinal ∧
      db' = { db with displayOrdinals := ordinals } := by
  unfold upsertDisplayOrdinal at h
  split at h
  · rename_i persisted hget
    split_ifs at h with hsame
    cases h
    refine ⟨db.displayOrdinals, fun other => ?_, rfl⟩
    split_ifs with hother
    · rw [hother, hget, hsame]
    · rfl
  · obtain ⟨_, -, h⟩ := bind_eq_ok.mp h
    cases h
    exact ⟨_, fun other => HashMap.get_insert .., rfl⟩

theorem upsertWorkspace_ok {workspace : Workspace} {ordinal : DisplayOrdinal}
    (h : db.upsertWorkspace workspace ordinal = .ok db') :
    ∃ ordinals,
      OrdinalGiven db.displayOrdinals ordinals (.topology .workspace, workspace.workspaceId) ordinal ∧
      db' = { db with
        displayOrdinals := ordinals
        workspaces := HashSet.insert db.workspaces workspace.workspaceId } := by
  obtain ⟨next, hordinal, h⟩ := bind_eq_ok.mp h
  obtain ⟨ordinals, hgiven, rfl⟩ := upsertDisplayOrdinal_ok hordinal
  cases h
  exact ⟨ordinals, hgiven, rfl⟩

theorem upsertTab_ok {tab : Tab} {ordinal : DisplayOrdinal} (h : db.upsertTab tab ordinal = .ok db') :
    ∃ ordinals row, OrdinalGiven db.displayOrdinals ordinals (.topology .tab, tab.tabId) ordinal ∧
      db' = { db with displayOrdinals := ordinals, tabs := db.tabs.insert tab.tabId row } := by
  obtain ⟨next, hordinal, h⟩ := bind_eq_ok.mp h
  obtain ⟨ordinals, hgiven, rfl⟩ := upsertDisplayOrdinal_ok hordinal
  obtain ⟨_, -, h⟩ := bind_eq_ok.mp h
  cases h
  exact ⟨ordinals, _, hgiven, rfl⟩

theorem upsertPane_ok {pane : Pane} {ordinal : DisplayOrdinal} (h : db.upsertPane pane ordinal = .ok db') :
    ∃ ordinals row, OrdinalGiven db.displayOrdinals ordinals (.topology .pane, pane.paneId) ordinal ∧
      db' = { db with displayOrdinals := ordinals, panes := db.panes.insert pane.paneId row } := by
  obtain ⟨next, hordinal, h⟩ := bind_eq_ok.mp h
  obtain ⟨ordinals, hgiven, rfl⟩ := upsertDisplayOrdinal_ok hordinal
  obtain ⟨_, -, h⟩ := bind_eq_ok.mp h
  cases h
  exact ⟨ordinals, _, hgiven, rfl⟩

/-! ### Runs -/

/-- The row under which a run is stored. -/
def storedRow (db : Database) (persisted : PersistTaskRun) : TaskRunRow :=
  (db.taskRuns.get persisted.taskRun.runId).elim (newRow persisted) (updatedRow persisted)

/-- What is left once a run was stored. -/
structure RunStored (db db' : Database) (persisted : PersistTaskRun) : Prop where
  /-- No alias is stored again. -/
  notAlias : (db.taskRuns.get persisted.taskRun.runId).bind (·.mergedInto) = none
  keyFree : db.keyFree persisted.taskRun.runId persisted.taskRun.key = true
  nativeFree : db.nativeFree persisted.taskRun.runId persisted.nativeSession = true
  tables : ∃ sessions ordinals,
    OrdinalGiven db.displayOrdinals ordinals (.taskRun, persisted.taskRun.runId.text)
      persisted.taskRun.displayOrdinal ∧
    db' = { db with
      nativeAgentSessions := sessions
      displayOrdinals := ordinals
      taskRuns := db.taskRuns.insert persisted.taskRun.runId (db.storedRow persisted) }

theorem insertNativeSession_eq (native : Option NativeSessionBinding) :
    ∃ sessions, native.elim db (fun native => db.insertNativeSession native.provider native.nativeSessionId) =
      { db with nativeAgentSessions := sessions } := by
  cases native with
  | none => exact ⟨db.nativeAgentSessions, rfl⟩
  | some native => exact ⟨_, rfl⟩

theorem upsertTaskRun_ok {persisted : PersistTaskRun} (h : db.upsertTaskRun persisted = .ok db') :
    RunStored db db' persisted := by
  unfold upsertTaskRun at h
  dsimp only at h
  split at h
  · cases h
  · rename_i hnone
    obtain ⟨sessions, hsessions⟩ := @insertNativeSession_eq db persisted.nativeSession
    rw [hsessions] at h
    obtain ⟨next, hordinal, h⟩ := bind_eq_ok.mp h
    obtain ⟨ordinals, hgiven, rfl⟩ := upsertDisplayOrdinal_ok hordinal
    obtain ⟨_, hfree, h⟩ := bind_eq_ok.mp h
    rw [constraint_ok, Bool.and_eq_true] at hfree
    refine ⟨hnone, hfree.1, hfree.2, sessions, ordinals, hgiven, ?_⟩
    cases hrow : db.taskRuns.get persisted.taskRun.runId with
    | some row =>
      rw [storedRow, hrow]
      simp only [hrow] at h
      cases h
      rfl
    | none =>
      rw [storedRow, hrow]
      simp only [hrow] at h
      obtain ⟨_, -, h⟩ := bind_eq_ok.mp h
      cases h
      rfl

theorem decodeRunKey_encode_ok {key decoded : RunKey} (h : decodeRunKey key.encode = .ok decoded) :
    decoded = key := by
  rw [decodeRunKey_encode] at h
  cases h
  rfl

/-- What is left once a key was promoted. -/
structure KeyPromoted (db db' : Database) (promoted : PersistTaskRun) (oldKey : RunKey)
    (aliasRunId : RunId) : Prop where
  /-- The run was canonical and had the old key. -/
  source : ∃ row, db.taskRuns.get promoted.taskRun.runId = some row ∧ row.mergedInto = none ∧
    row.key = oldKey
  /-- The run was stored, and the alias added. -/
  stored : ∃ next, RunStored db next promoted ∧ next.taskRuns.get aliasRunId = none ∧
    next.keyFree aliasRunId oldKey = true ∧
    db' = { next with taskRuns := next.taskRuns.insert aliasRunId (next.aliasRow promoted oldKey) }

theorem promoteTaskRunKey_ok {promoted : PersistTaskRun} {oldKey : RunKey} {aliasRunId : RunId}
    (h : db.promoteTaskRunKey promoted oldKey aliasRunId = .ok db') :
    KeyPromoted db db' promoted oldKey aliasRunId := by
  unfold promoteTaskRunKey at h
  split at h
  · cases h
  · rename_i row hrow
    obtain ⟨decoded, hdecoded, h⟩ := bind_eq_ok.mp h
    rw [decodeRunKey_encode_ok hdecoded] at h
    split_ifs at h with hkey
    obtain ⟨next, hnext, h⟩ := bind_eq_ok.mp h
    obtain ⟨_, hfree, h⟩ := bind_eq_ok.mp h
    rw [constraint_ok, Bool.and_eq_true, Bool.not_eq_true', HashMap.contains_eq_false] at hfree
    cases h
    obtain ⟨hget, hcanonical⟩ := Option.filter_eq_some_iff.mp hrow
    exact ⟨⟨row, hget, by simpa using hcanonical, not_not.mp hkey⟩,
      next, upsertTaskRun_ok hnext, hfree.1, hfree.2, rfl⟩

/-! ### Merges -/

theorem readCanonicalMergeParty_ok {runId : RunId} {row : TaskRunRow}
    (h : db.readCanonicalMergeParty runId = .ok row) :
    db.taskRuns.get runId = some row ∧ row.mergedInto = none := by
  unfold readCanonicalMergeParty at h
  split at h
  · cases h
  · rename_i stored hget
    split at h
    · cases h
    · rename_i hnone
      cases h
      exact ⟨hget, hnone⟩

/-- A session moves from the absorbed run to the survivor; nothing else changes. -/
theorem mergeBindings_ok {survivor absorbed : RunId} {survivorRow absorbedRow : TaskRunRow}
    (hne : survivor ≠ absorbed) (hs : db.taskRuns.get survivor = some survivorRow)
    (ha : db.taskRuns.get absorbed = some absorbedRow)
    (h : db.mergeBindings survivor absorbed survivorRow absorbedRow = .ok db') :
    (survivorRow.native = none ∨ absorbedRow.native = none) ∧
    ∃ taskRuns, db' = { db with taskRuns } ∧ ∀ r, taskRuns.get r =
      if r = survivor then some { survivorRow with native := survivorRow.native.or absorbedRow.native }
      else if r = absorbed then some { absorbedRow with native := none }
      else db.taskRuns.get r := by
  unfold mergeBindings at h
  split at h
  · rename_i native hsn han
    cases h
    refine ⟨.inl hsn, _, rfl, fun r => ?_⟩
    simp only [modifyRun, HashMap.get_modify]
    by_cases hr : r = survivor
    · simp [hr, hne, hs, hsn, han]
    · by_cases hra : r = absorbed
      · simp [hra, Ne.symm hne, ha]
      · simp [hr, hra]
  · rename_i s a hsn han
    split_ifs at h
  · rename_i han
    cases h
    refine ⟨.inr han, _, rfl, fun r => ?_⟩
    have hor : survivorRow.native.or absorbedRow.native = survivorRow.native := by
      rw [han, Option.or_none]
    have hnone : { absorbedRow with native := none } = absorbedRow := by
      rw [← han]
    rw [hor, hnone]
    split_ifs with hr hra
    · rw [hr, hs]
    · rw [hra, ha]
    · rfl

theorem keepBeforeImages_eq {survivor absorbed : RunId} {historyDrainId : Option HistoryDrainId} :
    ∃ images, db.keepBeforeImages survivor absorbed historyDrainId =
      { db with historyEventBeforeImages := images } := by
  have hevents : ∀ (drainId : HistoryDrainId) (events : List EventRow) (next : Database),
      ∃ images, events.foldl (fun next event => next.keepBeforeImage drainId event) next =
        { next with historyEventBeforeImages := images } := by
    intro drainId events
    induction events with
    | nil => exact fun next => ⟨_, rfl⟩
    | cons event events ih =>
      intro next
      obtain ⟨images, himages⟩ := ih (next.keepBeforeImage drainId event)
      exact ⟨images, himages⟩
  have hdrains : ∀ (drains : List HistoryDrainId) (next : Database),
      ∃ images, drains.foldl (fun next drainId =>
          (db.events.filter fun event => event.taskRunId = some absorbed).foldl
            (fun next event => next.keepBeforeImage drainId event) next) next =
        { next with historyEventBeforeImages := images } := by
    intro drains
    induction drains with
    | nil => exact fun next => ⟨_, rfl⟩
    | cons drainId drains ih =>
      intro next
      obtain ⟨first, hfirst⟩ := hevents drainId
        (db.events.filter fun event => event.taskRunId = some absorbed) next
      rw [List.foldl_cons, hfirst]
      obtain ⟨images, himages⟩ := ih { next with historyEventBeforeImages := first }
      exact ⟨images, himages⟩
  exact hdrains _ db

/-- The row of a run after a merge. -/
def mergedRow (db : Database) (survivor absorbed : RunId) (survivorRow absorbedRow : TaskRunRow)
    (runId : RunId) (row : TaskRunRow) : TaskRunRow :=
  if runId = survivor then
    { survivorRow with
      native := survivorRow.native.or absorbedRow.native
      state := db.mergedV6State survivor absorbed survivorRow.state absorbedRow.state
      finishedAtMs := mergedEndTime survivorRow absorbedRow }
  else if runId = absorbed then { absorbedRow with native := none, mergedInto := some survivor }
  else if row.mergedInto = some absorbed then { row with mergedInto := some survivor }
  else row

/-- What is left, table by table, once a run was merged into another one. -/
structure Merged (db db' : Database) (survivor absorbed : RunId)
    (survivorRow absorbedRow : TaskRunRow) : Prop where
  distinct : survivor ≠ absorbed
  survivorGet : db.taskRuns.get survivor = some survivorRow
  survivorCanonical : survivorRow.mergedInto = none
  absorbedGet : db.taskRuns.get absorbed = some absorbedRow
  absorbedCanonical : absorbedRow.mergedInto = none
  oneNative : survivorRow.native = none ∨ absorbedRow.native = none
  taskRuns : ∀ r, db'.taskRuns.get r =
    (db.taskRuns.get r).map (db.mergedRow survivor absorbed survivorRow absorbedRow r)
  executionEdges : db.substitutedExecutionEdges survivor absorbed = .ok db'.executionEdges
  dependencyEdges : db.substitutedDependencyEdges survivor absorbed = .ok db'.dependencyEdges
  executions : db'.executions = db.executions.mapValues fun _ execution =>
    { execution with taskRunId := substitute execution.taskRunId survivor absorbed }
  agentNodes : db'.agentNodes = db.agentNodes.mapValues fun _ node =>
    { node with taskRunId := substitute node.taskRunId survivor absorbed }
  events : db'.events = db.events.map fun event =>
    { event with taskRunId := event.taskRunId.map (substitute · survivor absorbed) }
  publications : db'.historyRunPublications = db.historyRunPublications.mapValues fun _ publication =>
    { publication with canonicalRunId := substitute publication.canonicalRunId survivor absorbed }
  rateTotals : db'.runRateTotals = (db.mergeRateTotals survivor absorbed).runRateTotals
  associations : db'.historyDrainRuns = (db.mergeAssociations survivor absorbed).historyDrainRuns
  topology : db'.workspaces = db.workspaces ∧ db'.tabs = db.tabs ∧ db'.panes = db.panes
  displayOrdinals : db'.displayOrdinals = db.displayOrdinals
  sessions : db'.nativeAgentSessions = db.nativeAgentSessions
  eventLedger : db'.eventLedger = db.eventLedger
  ingestSeqHighWater : db'.ingestSeqHighWater = db.ingestSeqHighWater
  historyDrains : db'.historyDrains = db.historyDrains
  artifacts : db'.historyDrainArtifacts = db.historyDrainArtifacts

theorem mergeTaskRuns_ok {survivor absorbed : RunId} {historyDrainId : Option HistoryDrainId}
    (h : db.mergeTaskRuns survivor absorbed historyDrainId = .ok db') :
    ∃ survivorRow absorbedRow, Merged db db' survivor absorbed survivorRow absorbedRow := by
  unfold mergeTaskRuns at h
  split_ifs at h with hne
  obtain ⟨survivorRow, hs, h⟩ := bind_eq_ok.mp h
  obtain ⟨absorbedRow, ha, h⟩ := bind_eq_ok.mp h
  obtain ⟨bound, hbound, h⟩ := bind_eq_ok.mp h
  obtain ⟨hsget, hscanonical⟩ := readCanonicalMergeParty_ok hs
  obtain ⟨haget, hacanonical⟩ := readCanonicalMergeParty_ok ha
  obtain ⟨hnative, taskRuns, rfl, htaskRuns⟩ := mergeBindings_ok hne hsget haget hbound
  obtain ⟨executionEdges, hexecution, h⟩ := bind_eq_ok.mp h
  obtain ⟨dependencyEdges, hdependency, h⟩ := bind_eq_ok.mp h
  obtain ⟨_, -, h⟩ := bind_eq_ok.mp h
  obtain ⟨images, himages⟩ := @keepBeforeImages_eq { db with taskRuns } survivor absorbed historyDrainId
  rw [himages] at h
  cases h
  refine ⟨survivorRow, absorbedRow, hne, hsget, hscanonical, haget, hacanonical, hnative, fun r => ?_,
    hexecution, hdependency, rfl, rfl, rfl, rfl, rfl, rfl, ⟨?_, ?_, ?_⟩, ?_, ?_, ?_, ?_, ?_, ?_⟩
  all_goals simp only [redirectAliases, modifyRun, mergeAssociations, mergeRateTotals, repointRows]
  simp only [HashMap.get_mapValues, HashMap.get_modify, htaskRuns]
  by_cases hr : r = survivor
  · subst hr
    simp [mergedRow, hsget, hne, hscanonical]
    rfl
  · by_cases hra : r = absorbed
    · subst hra
      simp [mergedRow, haget, hr]
    · cases hget : db.taskRuns.get r with
      | none => simp [hr, hra]
      | some row =>
        simp [mergedRow, hr, hra]

/-! ### Operations on other tables -/

/-- The tables of runs and drains are left alone. -/
structure SameRuns (db db' : Database) : Prop where
  taskRuns : db'.taskRuns = db.taskRuns
  rateTotals : db'.runRateTotals = db.runRateTotals
  historyDrains : db'.historyDrains = db.historyDrains
  artifacts : db'.historyDrainArtifacts = db.historyDrainArtifacts
  associations : db'.historyDrainRuns = db.historyDrainRuns
  publications : db'.historyRunPublications = db.historyRunPublications

theorem upsertExecution_ok {execution : PersistExecution} (h : db.upsertExecution execution = .ok db') :
    db.taskRuns.contains execution.execution.taskRunId = true ∧
      ∃ row, row = executionRow execution (db.executions.get execution.execution.executionId) ∧
      db' = { db with executions := db.executions.insert execution.execution.executionId row } := by
  obtain ⟨_, hrun, h⟩ := bind_eq_ok.mp h
  cases h
  exact ⟨constraint_ok.mp hrun, _, rfl, rfl⟩

theorem upsertAgentNode_ok {node : AgentNode} (h : db.upsertAgentNode node = .ok db') :
    ∃ sessions ordinals row,
      OrdinalGiven db.displayOrdinals ordinals (.agentNode, node.agentNodeId) node.displayOrdinal ∧
      agentNodeRow node = .ok row ∧ db.taskRuns.contains node.taskRunId = true ∧
      db' = { db with
        nativeAgentSessions := sessions
        displayOrdinals := ordinals
        agentNodes := db.agentNodes.insert node.agentNodeId row } := by
  have hsessions : ∃ sessions, node.nativeSessionId.elim db (db.insertNativeSession node.provider) =
      { db with nativeAgentSessions := sessions } := by
    cases node.nativeSessionId with
    | none => exact ⟨db.nativeAgentSessions, rfl⟩
    | some sid => exact ⟨_, rfl⟩
  obtain ⟨sessions, hsessions⟩ := hsessions
  unfold upsertAgentNode at h
  rw [hsessions] at h
  obtain ⟨next, hordinal, h⟩ := bind_eq_ok.mp h
  obtain ⟨ordinals, hgiven, rfl⟩ := upsertDisplayOrdinal_ok hordinal
  obtain ⟨row, hrow, h⟩ := bind_eq_ok.mp h
  obtain ⟨_, hrun, h⟩ := bind_eq_ok.mp h
  cases h
  exact ⟨sessions, ordinals, row, hgiven, hrow, constraint_ok.mp hrun, rfl⟩

theorem upsertExecutionEdge_ok {edge : ExecutionEdge} {createdAtMs : ℤ}
    (h : db.upsertExecutionEdge edge createdAtMs = .ok db') :
    db' = { db with executionEdges := db.executionEdges.orInsert edge createdAtMs } := by
  unfold upsertExecutionEdge at h
  unfold HashMap.orInsert
  split_ifs at h ⊢ with hknown
  · cases h
    rfl
  · obtain ⟨_, -, h⟩ := bind_eq_ok.mp h
    cases h
    rfl

theorem upsertDependencyEdge_ok {edge : DependencyEdge} {createdAtMs : ℤ}
    (h : db.upsertDependencyEdge edge createdAtMs = .ok db') :
    db' = { db with dependencyEdges := db.dependencyEdges.orInsert edge createdAtMs } := by
  unfold upsertDependencyEdge at h
  unfold HashMap.orInsert
  split_ifs at h ⊢ with hknown
  · cases h
    rfl
  · obtain ⟨_, -, h⟩ := bind_eq_ok.mp h
    cases h
    rfl

/-- An event whose name is known is not recorded again. -/
theorem recordEvent_ok {event : NormalizedEvent} {seenAtMs : ℤ} {drainId : Option HistoryDrainId}
    (h : db.recordEvent event seenAtMs drainId = .ok db') :
    (db.eventLedger.contains (eventMetadata event).1.eventId = true ∧ db' = db) ∨
    (db.eventLedger.contains (eventMetadata event).1.eventId = false ∧
      (∀ other ∈ db.events, other.eventId ≠ (eventMetadata event).1.eventId) ∧
      ∃ row, relationalEventProjection event seenAtMs drainId (eventMetadata event).1.taskRunId = .ok row ∧
      db' = { db with
        eventLedger := db.eventLedger.insert (eventMetadata event).1.eventId seenAtMs
        events := db.events ++ [row] }) := by
  unfold recordEvent insertLedger at h
  dsimp only at h
  by_cases hknown : db.eventLedger.contains (eventMetadata event).1.eventId = true
  · rw [if_pos hknown] at h
    cases h
    exact .inl ⟨hknown, rfl⟩
  · rw [if_neg hknown] at h
    obtain ⟨row, hrow, h⟩ := bind_eq_ok.mp h
    obtain ⟨_, hfree, h⟩ := bind_eq_ok.mp h
    have hid : row.eventId = (eventMetadata event).1.eventId := by
      obtain ⟨_, -, hrow⟩ := bind_eq_ok.mp hrow
      obtain ⟨_, -, hrow⟩ := bind_eq_ok.mp hrow
      obtain ⟨_, -, hrow⟩ := bind_eq_ok.mp hrow
      cases hrow
      rfl
    rw [constraint_ok, List.all_eq_true, hid] at hfree
    cases h
    exact .inr ⟨by simpa using hknown, fun other ho => by simpa using hfree other ho, row, hrow, rfl⟩

theorem recordGap_ok {gap : CollectorGap} (h : db.recordGap gap = .ok db') :
    (db.eventLedger.contains gap.eventId = true ∧ db' = db) ∨
    (db.eventLedger.contains gap.eventId = false ∧ ∃ row : EventRow, row.eventId = gap.eventId ∧
      row.gapKind = some gap.kind ∧ row.taskRunId = none ∧ row.taskState = none ∧ row.ingestSeq = none ∧
      row.itemCount = none ∧ row.byteCount = none ∧
      db' = { db with
        eventLedger := db.eventLedger.insert gap.eventId gap.seenAtMs
        events := db.events ++ [row] }) := by
  unfold recordGap insertLedger at h
  dsimp only at h
  by_cases hknown : db.eventLedger.contains gap.eventId = true
  · rw [if_pos hknown] at h
    cases h
    exact .inl ⟨hknown, rfl⟩
  · rw [if_neg hknown] at h
    obtain ⟨_, -, h⟩ := bind_eq_ok.mp h
    cases h
    exact .inr ⟨Bool.eq_false_iff.mpr hknown, _, rfl, rfl, rfl, rfl, rfl, rfl, rfl, rfl⟩

theorem advanceIngestSequence_ok {ingestSeq : ℤ} (h : db.advanceIngestSequence ingestSeq = .ok db') :
    db.ingestSeqHighWater < ingestSeq ∧ db' = { db with ingestSeqHighWater := ingestSeq } := by
  unfold advanceIngestSequence at h
  split_ifs at h with hlt
  cases h
  exact ⟨hlt, rfl⟩

/-! ### One operation -/

/-- What an accepted operation does to the tables of runs. -/
inductive RunStep (db db' : Database) : PersistOp → Prop
  | same {op : PersistOp} (h : SameRuns db db') : RunStep db db' op
  | stored {run : PersistTaskRun} (h : RunStored db db' run) : RunStep db db' (.upsertTaskRun run)
  | promoted {promoted : PersistTaskRun} {oldKey : RunKey} {aliasRunId : RunId}
      (h : KeyPromoted db db' promoted oldKey aliasRunId) :
      RunStep db db' (.promoteTaskRunKey promoted oldKey aliasRunId)
  | merged {survivor absorbed : RunId} {survivorRow absorbedRow : TaskRunRow}
      (h : Merged db db' survivor absorbed survivorRow absorbedRow) :
      RunStep db db' (.mergeTaskRuns survivor absorbed)

theorem applyOperation_runs {drainId : Option HistoryDrainId} {op : PersistOp}
    (h : applyOperation drainId db op = .ok db') : RunStep db db' op := by
  cases op with
  | upsertWorkspace workspace ordinal =>
    obtain ⟨_, -, rfl⟩ := upsertWorkspace_ok h
    exact .same ⟨rfl, rfl, rfl, rfl, rfl, rfl⟩
  | upsertTab tab ordinal =>
    obtain ⟨_, _, -, rfl⟩ := upsertTab_ok h
    exact .same ⟨rfl, rfl, rfl, rfl, rfl, rfl⟩
  | upsertPane pane ordinal =>
    obtain ⟨_, _, -, rfl⟩ := upsertPane_ok h
    exact .same ⟨rfl, rfl, rfl, rfl, rfl, rfl⟩
  | deleteWorkspace | deleteTab | clearTabLabel | clearPaneDisplayName | deletePane =>
    cases h
    exact .same ⟨rfl, rfl, rfl, rfl, rfl, rfl⟩
  | upsertTaskRun run => exact .stored (upsertTaskRun_ok h)
  | promoteTaskRunKey promoted oldKey aliasRunId => exact .promoted (promoteTaskRunKey_ok h)
  | mergeTaskRuns survivor absorbed =>
    obtain ⟨survivorRow, absorbedRow, hmerged⟩ := mergeTaskRuns_ok h
    exact .merged hmerged
  | upsertExecution execution =>
    obtain ⟨-, _, -, rfl⟩ := upsertExecution_ok h
    exact .same ⟨rfl, rfl, rfl, rfl, rfl, rfl⟩
  | upsertAgentNode node =>
    obtain ⟨_, _, _, -, -, -, rfl⟩ := upsertAgentNode_ok h
    exact .same ⟨rfl, rfl, rfl, rfl, rfl, rfl⟩
  | upsertExecutionEdge edge createdAtMs =>
    rw [upsertExecutionEdge_ok h]
    exact .same ⟨rfl, rfl, rfl, rfl, rfl, rfl⟩
  | upsertDependencyEdge edge createdAtMs =>
    rw [upsertDependencyEdge_ok h]
    exact .same ⟨rfl, rfl, rfl, rfl, rfl, rfl⟩
  | recordEvent event seenAtMs =>
    obtain ⟨-, rfl⟩ | ⟨-, -, _, -, rfl⟩ := recordEvent_ok h <;> exact .same ⟨rfl, rfl, rfl, rfl, rfl, rfl⟩
  | recordCollectorGap gap =>
    obtain ⟨-, rfl⟩ | ⟨-, _, -, -, -, -, -, -, -, rfl⟩ := recordGap_ok h <;> exact .same ⟨rfl, rfl, rfl, rfl, rfl, rfl⟩
  | advanceIngestSequence ingestSeq =>
    obtain ⟨-, rfl⟩ := advanceIngestSequence_ok h
    exact .same ⟨rfl, rfl, rfl, rfl, rfl, rfl⟩

/-! ### The rows of a versioned batch -/

/-- The row of a run stored with its state. -/
def storedV6Row (db : Database) (persisted : PersistTaskRunV6) : TaskRunRow :=
  match db.taskRuns.get persisted.taskRun.taskRun.runId with
  | none => { newRow persisted.taskRun with state := persisted.state }
  | some stored =>
    let row := updatedRow persisted.taskRun stored
    let row := if stored.state.historyReady && !persisted.state.historyReady then
      preservedSemantics stored row else row
    { row with state := upsertedV6State persisted.state stored.state }

/-- What is left once a run was stored with its state. -/
structure RunV6Stored (db db' : Database) (persisted : PersistTaskRunV6) : Prop where
  notAlias : (db.taskRuns.get persisted.taskRun.taskRun.runId).bind (·.mergedInto) = none
  keyFree : db.keyFree persisted.taskRun.taskRun.runId persisted.taskRun.taskRun.key = true
  nativeFree : db.nativeFree persisted.taskRun.taskRun.runId persisted.taskRun.nativeSession = true
  tables : ∃ sessions ordinals taskRuns,
    OrdinalGiven db.displayOrdinals ordinals (.taskRun, persisted.taskRun.taskRun.runId.text)
      persisted.taskRun.taskRun.displayOrdinal ∧
    (∀ r, taskRuns.get r = if r = persisted.taskRun.taskRun.runId then some (db.storedV6Row persisted)
      else db.taskRuns.get r) ∧
    db' = { db with nativeAgentSessions := sessions, displayOrdinals := ordinals, taskRuns }

theorem upsertTaskRunV6_ok {persisted : PersistTaskRunV6} (h : db.upsertTaskRunV6 persisted = .ok db') :
    RunV6Stored db db' persisted := by
  unfold upsertTaskRunV6 at h
  dsimp only at h
  split_ifs at h
  obtain ⟨next, hstored, h⟩ := bind_eq_ok.mp h
  obtain ⟨hnotAlias, hkey, hnative, sessions, ordinals, hgiven, rfl⟩ := upsertTaskRun_ok hstored
  cases h
  refine ⟨hnotAlias, hkey, hnative, sessions, ordinals, _, hgiven, fun r => ?_, rfl⟩
  simp only [HashMap.get_modify, HashMap.get_insert]
  by_cases hr : r = persisted.taskRun.taskRun.runId
  · subst hr
    cases hrow : db.taskRuns.get persisted.taskRun.taskRun.runId with
    | none => simp [storedV6Row, storedRow, hrow]
    | some stored => simp [storedV6Row, storedRow, hrow]
  · simp [hr]

theorem insertPublication_ok {publication : HistoryRunPublication}
    (h : db.insertPublication publication = .ok db') :
    db' = { db with
      historyRunPublications := db.historyRunPublications.orInsert publication.taskRun.runId
        ⟨publication.canonicalRunId, publication.serialized⟩ } := by
  unfold insertPublication at h
  unfold HashMap.orInsert
  split_ifs at h ⊢ with hknown
  · cases h
    rfl
  · obtain ⟨_, -, h⟩ := bind_eq_ok.mp h
    cases h
    rfl

theorem upsertRunRateTotals_ok {entry : RunId × RunRateTotals}
    (h : db.upsertRunRateTotals entry = .ok db') :
    db.taskRuns.contains entry.1 = true ∧
      db' = { db with runRateTotals := db.runRateTotals.insert entry.1 entry.2.clamped.1 } := by
  obtain ⟨_, hrun, h⟩ := bind_eq_ok.mp h
  cases h
  exact ⟨constraint_ok.mp hrun, rfl⟩

/-- A new association is one with a drain that is not finalized. -/
theorem insertAssociation_ok {historical : Bool} {association : PersistHistoryDrainRun}
    (h : insertAssociation historical db association = .ok db') :
    (db.associated association.drainId association.runId = true ∧ db' = db) ∨
    (db.associated association.drainId association.runId = false ∧
      db.openDrain association.drainId = true ∧ db.taskRuns.contains association.runId = true ∧
      db' = { db with
        historyDrainRuns := HashSet.insert db.historyDrainRuns (association.drainId, association.runId)
        taskRuns := db.taskRuns.modify association.runId (db.hideRun historical association.runId) }) := by
  unfold insertAssociation at h
  split_ifs at h with hknown hfinalized
  · cases h
    exact .inl ⟨hknown, rfl⟩
  · obtain ⟨_, hexists, h⟩ := bind_eq_ok.mp h
    rw [constraint_ok, Bool.and_eq_true] at hexists
    cases h
    obtain ⟨row, hrow⟩ := HashMap.contains_iff.mp hexists.1
    refine .inr ⟨by simpa using hknown, ?_, hexists.2, rfl⟩
    rw [finalizedDrain, hrow] at hfinalized
    rw [openDrain, hrow]
    cases hat : row.finalizedAtMs <;> simp [hat] at hfinalized ⊢

/-- A drain is stored once, with its manifest. -/
theorem upsertHistoryDrain_ok {drain : PersistHistoryDrain} (h : db.upsertHistoryDrain drain = .ok db') :
    ∃ incoming, manifestRows drain = .ok incoming ∧
    ((db' = db ∧ (∃ row, db.historyDrains.get drain.drainId = some row ∧ row.provider = drain.provider) ∧
        (db.storedManifest drain.drainId).isPerm incoming = true) ∨
      (db.historyDrains.get drain.drainId = none ∧
        db' = { db with
          historyDrains := db.historyDrains.insert drain.drainId
            { provider := drain.provider, createdAtMs := drain.createdAtMs }
          historyDrainArtifacts := db.historyDrainArtifacts.extend
            (incoming.map fun entry => ((drain.drainId, entry.1), entry.2)) })) := by
  obtain ⟨incoming, hincoming, h⟩ := bind_eq_ok.mp h
  refine ⟨incoming, hincoming, ?_⟩
  split at h
  · rename_i row hrow
    split_ifs at h with hprovider hmanifest
    cases h
    exact .inl ⟨rfl, ⟨row, hrow, not_not.mp hprovider⟩, hmanifest⟩
  · rename_i hnone
    cases h
    exact .inr ⟨hnone, rfl⟩

end Database

end HerdrTop
