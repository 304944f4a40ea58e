import HerdrTop.Store.Finalization
import HerdrTop.Store.Restore

/-!
# What a restart relies on

A restart reads every row, finds the run that stands for each alias, and files what is hidden under the
drain that it waits for. The invariants here say that this is possible, and every accepted call keeps
them as long as batches are such as the reducer makes them.

## What is proved

- `Readable` and `Waiting` are kept by every operation (`applyOperation_readable`,
  `applyOperation_waiting`), by versioned batches, by finalizations and by retention.
-/

namespace HerdrTop

namespace Database

variable {db db' : Database}

/-- Every row can be read. -/
structure Readable (db : Database) : Prop where
  workspaces : ∀ id, HashMap.contains db.workspaces id = true →
    db.displayOrdinals.contains (.topology .workspace, id) = true
  tabs : ∀ id, db.tabs.contains id = true → db.displayOrdinals.contains (.topology .tab, id) = true
  panes : ∀ id, db.panes.contains id = true → db.displayOrdinals.contains (.topology .pane, id) = true
  ordinals : ∀ entity ordinal, db.displayOrdinals.get entity = some ordinal → ordinal < i64Max
  agentNodes : ∀ id row, db.agentNodes.get id = some row → ∀ ordinal,
    ∃ node, row.agentNode id ordinal = .ok node
  publications : ∀ r row, db.historyRunPublications.get r = some row → row.payload.taskRun.runId = r
  events : ∀ event ∈ db.events, ∀ run, ∃ item, activityItem event run = .ok item
  sequence : 0 ≤ db.ingestSeqHighWater ∧ db.ingestSeqHighWater ≤ i64Max
  totals : ∀ r totals, db.runRateTotals.get r = some totals → 0 ≤ totals.workingMs

theorem readable_empty : Readable {} where
  workspaces _ h := by cases h
  tabs _ h := by cases h
  panes _ h := by cases h
  ordinals _ _ h := by cases h
  agentNodes _ _ h := by cases h
  publications _ _ h := by cases h
  events _ h := by cases h
  sequence := by decide
  totals _ _ h := by cases h

/-- What is hidden waits for a drain, or for one that is about to be recorded. -/
structure Waiting (db : Database) (promised : List RunId) : Prop where
  filed : ∀ d r, db.associated d r = true → db.target r = some none
  hidden : ∀ r row, db.canonical r = some row → row.state.historyReady = false →
    db.blocked r = true ∨ (r ∈ promised ∧ ∀ d, db.associated d r = false)
  eventRuns : ∀ event ∈ db.events, ∀ r row, event.taskRunId = some r → db.taskRuns.get r = some row →
    row.mergedInto ≠ none → row.state.historyReady = true
  totals : ∀ r, db.runRateTotals.contains r = true → db.target r = some none

theorem waiting_empty : Waiting {} [] where
  filed _ _ h := by cases h
  hidden _ _ h := by cases h
  eventRuns _ h := by cases h
  totals _ h := by cases h

/-! ### Reading single rows -/

theorem OrdinalGiven.contains {before after : HashMap (EntityKind × String) DisplayOrdinal}
    {entity : EntityKind × String} {ordinal : DisplayOrdinal} (h : OrdinalGiven before after entity ordinal)
    {other : EntityKind × String} (hother : other = entity ∨ before.contains other = true) :
    after.contains other = true := by
  rw [HashMap.contains, h]
  split_ifs with he
  · rfl
  · exact hother.resolve_left he

/-- Ordinals that are small stay small when a small one is given. -/
theorem OrdinalGiven.small {before after : HashMap (EntityKind × String) DisplayOrdinal}
    {entity : EntityKind × String} {ordinal : DisplayOrdinal} (h : OrdinalGiven before after entity ordinal)
    (hsmall : ordinal < i64Max) (hbefore : ∀ e o, before.get e = some o → o < i64Max) (e : EntityKind × String)
    (o : DisplayOrdinal) (ho : after.get e = some o) : o < i64Max := by
  rw [h] at ho
  split_ifs at ho with he
  · cases ho
    exact hsmall
  · exact hbefore e o ho

theorem signedCount_nonneg {field : String} {value : ℕ} {count : ℤ} (h : signedCount field value = .ok count) :
    0 ≤ count ∧ count ≤ i64Max := by
  unfold signedCount at h
  split_ifs at h with hle
  cases h
  exact ⟨by omega, hle⟩

/-- A count that was written is read. -/
theorem signedCounts_nonneg {field : String} {value : Option ℕ} {count : Option ℤ}
    (h : value.mapM (signedCount field) = .ok count) (n : ℤ) (hn : count = some n) : 0 ≤ n := by
  subst hn
  cases value with
  | none => cases h
  | some value =>
    obtain ⟨m, hm, heq⟩ := bind_eq_ok.mp h
    cases heq
    exact (signedCount_nonneg hm).1

theorem optionalUnsignedCount_ok {field : String} {count : Option ℤ} (h : ∀ n, count = some n → 0 ≤ n) :
    ∃ value, optionalUnsignedCount field count = .ok value := by
  cases count with
  | none => exact ⟨none, rfl⟩
  | some n => exact ⟨some n.toNat, by simp [optionalUnsignedCount, h n rfl]⟩

theorem optionalUnsignedInteger_ok {field : String} {count : Option ℤ} (h : ∀ n, count = some n → 0 ≤ n) :
    ∃ value, optionalUnsignedInteger field count = .ok value := by
  cases count with
  | none => exact ⟨none, rfl⟩
  | some n => exact ⟨some n.toNat, by simp [optionalUnsignedInteger, h n rfl]⟩

/-- An agent that was written is read. -/
theorem agentNodeRow_readable {node : AgentNode} {row : AgentNodeRow} (h : agentNodeRow node = .ok row)
    (id : String) (ordinal : DisplayOrdinal) : ∃ node, row.agentNode id ordinal = .ok node := by
  obtain ⟨state, hstate, h⟩ := bind_eq_ok.mp h
  obtain ⟨itemCount, hitems, h⟩ := bind_eq_ok.mp h
  obtain ⟨byteCount, hbytes, h⟩ := bind_eq_ok.mp h
  cases h
  have hparse : ∃ parsed, parseAgentNodeState state = .ok parsed := by
    cases hnode : node.state with
    | none =>
      rw [hnode] at hstate
      cases hstate
      exact ⟨none, rfl⟩
    | some execState =>
      rw [hnode] at hstate
      obtain ⟨text, htext, heq⟩ := bind_eq_ok.mp hstate
      cases heq
      exact ⟨some execState, parseAgentNodeState_text htext⟩
  obtain ⟨parsed, hparsed⟩ := hparse
  obtain ⟨items, hitems⟩ := @optionalUnsignedCount_ok "agent_nodes.last_item_count" _
    (signedCounts_nonneg hitems)
  obtain ⟨bytes, hbytes⟩ := @optionalUnsignedCount_ok "agent_nodes.last_byte_count" _
    (signedCounts_nonneg hbytes)
  exact ⟨_, bind_eq_ok.mpr ⟨parsed, hparsed, bind_eq_ok.mpr ⟨items, hitems, bind_eq_ok.mpr
    ⟨bytes, hbytes, rfl⟩⟩⟩⟩

/-- An event with counts that are not negative is read. -/
theorem activityItem_ok {event : EventRow} (hseq : ∀ n, event.ingestSeq = some n → 0 ≤ n)
    (hitems : ∀ n, event.itemCount = some n → 0 ≤ n) (hbytes : ∀ n, event.byteCount = some n → 0 ≤ n)
    (run : Option RunId) : ∃ item, activityItem event run = .ok item := by
  obtain ⟨seq, hseq⟩ := @optionalUnsignedInteger_ok "events.ingest_seq" _ hseq
  obtain ⟨items, hitems⟩ := @optionalUnsignedCount_ok "events.item_count" _ hitems
  obtain ⟨bytes, hbytes⟩ := @optionalUnsignedCount_ok "events.byte_count" _ hbytes
  exact ⟨_, bind_eq_ok.mpr ⟨seq, hseq, bind_eq_ok.mpr ⟨items, hitems, bind_eq_ok.mpr
    ⟨bytes, hbytes, rfl⟩⟩⟩⟩

/-- An event that was written is read, and names the run that it was written with. -/
theorem relationalEventProjection_readable {event : NormalizedEvent} {seenAtMs : ℤ}
    {drainId : Option HistoryDrainId} {runId : Option RunId} {row : EventRow}
    (h : relationalEventProjection event seenAtMs drainId runId = .ok row) :
    row.taskRunId = runId ∧ ∀ run, ∃ item, activityItem row run = .ok item := by
  obtain ⟨itemCount, hitems, h⟩ := bind_eq_ok.mp h
  obtain ⟨byteCount, hbytes, h⟩ := bind_eq_ok.mp h
  obtain ⟨ingestSeq, hseq, h⟩ := bind_eq_ok.mp h
  cases h
  exact ⟨rfl, activityItem_ok (signedCounts_nonneg hseq) (signedCounts_nonneg hitems)
    (signedCounts_nonneg hbytes)⟩

/-! ### Operations keep what can be read -/

/-- The ordinal that an operation gives. -/
def givenOrdinal : PersistOp → Option DisplayOrdinal
  | .upsertWorkspace _ ordinal | .upsertTab _ ordinal | .upsertPane _ ordinal => some ordinal
  | .upsertTaskRun run => some run.taskRun.displayOrdinal
  | .promoteTaskRunKey promoted _ _ => some promoted.taskRun.displayOrdinal
  | .upsertAgentNode node => some node.displayOrdinal
  | _ => none

/-- The numbers of an operation leave room for the next ones. -/
def NumbersFit (op : PersistOp) : Prop :=
  (∀ ordinal, givenOrdinal op = some ordinal → ordinal < i64Max) ∧
    ∀ ingestSeq, op = .advanceIngestSequence ingestSeq → ingestSeq ≤ i64Max

theorem RunStored.readable {persisted : PersistTaskRun} (h : RunStored db db' persisted)
    (hsmall : persisted.taskRun.displayOrdinal < i64Max) (hr : Readable db) : Readable db' := by
  obtain ⟨-, -, -, _, ordinals, hgiven, rfl⟩ := h
  exact { hr with
    workspaces := fun id hid => hgiven.contains (.inr (hr.workspaces id hid))
    tabs := fun id hid => hgiven.contains (.inr (hr.tabs id hid))
    panes := fun id hid => hgiven.contains (.inr (hr.panes id hid))
    ordinals := hgiven.small hsmall hr.ordinals }

theorem saturatingAdd_nonneg (t delta : RunRateTotals) : 0 ≤ (t.saturatingAdd delta).1.workingMs := by
  rw [RunRateTotals.saturatingAdd_fst]
  simp only [i64Max]
  omega

/-- The totals after a merge: of the survivor the sum, of the absorbed run none. -/
theorem mergeRateTotals_get {survivor absorbed : RunId} (r : RunId) (totals : RunRateTotals)
    (h : (db.mergeRateTotals survivor absorbed).runRateTotals.get r = some totals) : r ≠ absorbed ∧
      ((r = survivor ∧ totals = (((db.runRateTotals.get survivor).getD {}).saturatingAdd
          ((db.runRateTotals.get absorbed).getD {})).1) ∨
        db.runRateTotals.get r = some totals) := by
  unfold mergeRateTotals at h
  dsimp only at h
  rw [HashMap.get_remove] at h
  split_ifs at h with hr hsome
  · rw [HashMap.get_insert] at h
    split_ifs at h with hs
    · cases h
      exact ⟨hr, .inl ⟨hs, rfl⟩⟩
    · exact ⟨hr, .inr h⟩
  · exact ⟨hr, .inr h⟩

theorem Merged.readable {survivor absorbed : RunId} {survivorRow absorbedRow : TaskRunRow}
    (h : Merged db db' survivor absorbed survivorRow absorbedRow) (hr : Readable db) : Readable db' where
  workspaces id hid := by
    rw [h.topology.1] at hid
    rw [h.displayOrdinals]
    exact hr.workspaces id hid
  tabs id hid := by
    rw [h.topology.2.1] at hid
    rw [h.displayOrdinals]
    exact hr.tabs id hid
  panes id hid := by
    rw [h.topology.2.2] at hid
    rw [h.displayOrdinals]
    exact hr.panes id hid
  ordinals := by
    rw [h.displayOrdinals]
    exact hr.ordinals
  agentNodes id row hrow ordinal := by
    rw [h.agentNodes, HashMap.get_mapValues, Option.map_eq_some_iff] at hrow
    obtain ⟨stored, hstored, rfl⟩ := hrow
    obtain ⟨node, hnode⟩ := hr.agentNodes id stored hstored ordinal
    obtain ⟨state, hstate, hnode⟩ := bind_eq_ok.mp hnode
    obtain ⟨items, hitems, hnode⟩ := bind_eq_ok.mp hnode
    obtain ⟨bytes, hbytes, -⟩ := bind_eq_ok.mp hnode
    exact ⟨_, bind_eq_ok.mpr ⟨state, hstate, bind_eq_ok.mpr ⟨items, hitems, bind_eq_ok.mpr
      ⟨bytes, hbytes, rfl⟩⟩⟩⟩
  publications r row hrow := by
    rw [h.publications, HashMap.get_mapValues, Option.map_eq_some_iff] at hrow
    obtain ⟨stored, hstored, rfl⟩ := hrow
    exact hr.publications r stored hstored
  events event hevent run := by
    rw [h.events] at hevent
    obtain ⟨stored, hstored, rfl⟩ := List.mem_map.mp hevent
    exact hr.events stored hstored run
  sequence := by
    rw [h.ingestSeqHighWater]
    exact hr.sequence
  totals r totals htotals := by
    rw [h.rateTotals] at htotals
    obtain ⟨-, ⟨-, rfl⟩ | hold⟩ := mergeRateTotals_get r totals htotals
    · exact saturatingAdd_nonneg _ _
    · exact hr.totals r totals hold

theorem deleteWorkspace_readable {id : String} (hr : Readable db) : Readable (db.deleteWorkspace id) :=
  { hr with
    workspaces := fun other h => by
      obtain ⟨hne, hother⟩ := HashMap.contains_remove.mp h
      exact HashMap.contains_remove.mpr ⟨by simpa using hne, hr.workspaces other hother⟩
    tabs := fun other h => HashMap.contains_remove.mpr ⟨by simp, hr.tabs other (HashMap.contains_of_retain h)⟩
    panes := fun other h => HashMap.contains_remove.mpr ⟨by simp, hr.panes other (HashMap.contains_of_retain h)⟩
    ordinals := fun entity ordinal h => by
      rw [deleteWorkspace, deleteDisplayOrdinal, HashMap.get_remove] at h
      split_ifs at h
      exact hr.ordinals entity ordinal h }

theorem deleteTab_readable {id : String} (hr : Readable db) : Readable (db.deleteTab id) :=
  { hr with
    workspaces := fun other h => HashMap.contains_remove.mpr ⟨by simp, hr.workspaces other h⟩
    tabs := fun other h => by
      obtain ⟨hne, hother⟩ := HashMap.contains_remove.mp h
      exact HashMap.contains_remove.mpr ⟨by simpa using hne, hr.tabs other hother⟩
    panes := fun other h => HashMap.contains_remove.mpr ⟨by simp, hr.panes other (HashMap.contains_of_retain h)⟩
    ordinals := fun entity ordinal h => by
      rw [deleteTab, deleteDisplayOrdinal, HashMap.get_remove] at h
      split_ifs at h
      exact hr.ordinals entity ordinal h }

theorem deletePane_readable {id : String} (hr : Readable db) : Readable (db.deletePane id) :=
  { hr with
    workspaces := fun other h => HashMap.contains_remove.mpr ⟨by simp, hr.workspaces other h⟩
    tabs := fun other h => HashMap.contains_remove.mpr ⟨by simp, hr.tabs other h⟩
    panes := fun other h => by
      obtain ⟨hne, hother⟩ := HashMap.contains_remove.mp h
      exact HashMap.contains_remove.mpr ⟨by simpa using hne, hr.panes other hother⟩
    ordinals := fun entity ordinal h => by
      rw [deletePane, deleteDisplayOrdinal, HashMap.get_remove] at h
      split_ifs at h
      exact hr.ordinals entity ordinal h }

theorem applyOperation_readable {drainId : Option HistoryDrainId} {op : PersistOp}
    (h : applyOperation drainId db op = .ok db') (hfit : NumbersFit op) (hr : Readable db) :
    Readable db' := by
  cases op with
  | upsertWorkspace workspace ordinal =>
    obtain ⟨_, hgiven, rfl⟩ := upsertWorkspace_ok h
    exact { hr with
      workspaces := fun id hid => hgiven.contains ((HashMap.contains_insert.mp hid).imp
        (fun he => by rw [he]) (hr.workspaces id))
      tabs := fun id hid => hgiven.contains (.inr (hr.tabs id hid))
      panes := fun id hid => hgiven.contains (.inr (hr.panes id hid))
      ordinals := hgiven.small (hfit.1 _ rfl) hr.ordinals }
  | upsertTab tab ordinal =>
    obtain ⟨_, _, hgiven, rfl⟩ := upsertTab_ok h
    exact { hr with
      workspaces := fun id hid => hgiven.contains (.inr (hr.workspaces id hid))
      tabs := fun id hid => hgiven.contains ((HashMap.contains_insert.mp hid).imp (fun he => by rw [he]) (hr.tabs id))
      panes := fun id hid => hgiven.contains (.inr (hr.panes id hid))
      ordinals := hgiven.small (hfit.1 _ rfl) hr.ordinals }
  | upsertPane pane ordinal =>
    obtain ⟨_, _, hgiven, rfl⟩ := upsertPane_ok h
    exact { hr with
      workspaces := fun id hid => hgiven.contains (.inr (hr.workspaces id hid))
      tabs := fun id hid => hgiven.contains (.inr (hr.tabs id hid))
      panes := fun id hid => hgiven.contains ((HashMap.contains_insert.mp hid).imp (fun he => by rw [he]) (hr.panes id))
      ordinals := hgiven.small (hfit.1 _ rfl) hr.ordinals }
  | deleteWorkspace id =>
    cases h
    exact deleteWorkspace_readable hr
  | deleteTab id =>
    cases h
    exact deleteTab_readable hr
  | clearTabLabel id =>
    cases h
    exact { hr with tabs := fun other hother => hr.tabs other (by rwa [← HashMap.contains_modify]) }
  | clearPaneDisplayName id =>
    cases h
    exact { hr with panes := fun other hother => hr.panes other (by rwa [← HashMap.contains_modify]) }
  | deletePane id =>
    cases h
    exact deletePane_readable hr
  | upsertTaskRun run => exact (upsertTaskRun_ok h).readable (hfit.1 _ rfl) hr
  | promoteTaskRunKey promoted oldKey aliasRunId =>
    obtain ⟨next, hstored, -, -, rfl⟩ := (promoteTaskRunKey_ok h).stored
    exact { hstored.readable (hfit.1 _ rfl) hr with }
  | mergeTaskRuns survivor absorbed =>
    obtain ⟨_, _, hmerged⟩ := mergeTaskRuns_ok h
    exact hmerged.readable hr
  | upsertExecution execution =>
    obtain ⟨-, _, -, rfl⟩ := upsertExecution_ok h
    exact { hr with }
  | upsertAgentNode node =>
    obtain ⟨_, _, row, hgiven, hrow, -, rfl⟩ := upsertAgentNode_ok h
    exact { hr with
      workspaces := fun id hid => hgiven.contains (.inr (hr.workspaces id hid))
      tabs := fun id hid => hgiven.contains (.inr (hr.tabs id hid))
      panes := fun id hid => hgiven.contains (.inr (hr.panes id hid))
      ordinals := hgiven.small (hfit.1 _ rfl) hr.ordinals
      agentNodes := fun id stored hstored ordinal => by
        rw [HashMap.get_insert] at hstored
        split_ifs at hstored
        · cases hstored
          exact agentNodeRow_readable hrow id ordinal
        · exact hr.agentNodes id stored hstored ordinal }
  | upsertExecutionEdge edge createdAtMs =>
    rw [upsertExecutionEdge_ok h]
    exact { hr with }
  | upsertDependencyEdge edge createdAtMs =>
    rw [upsertDependencyEdge_ok h]
    exact { hr with }
  | recordEvent event seenAtMs =>
    obtain ⟨-, rfl⟩ | ⟨-, -, row, hrow, rfl⟩ := recordEvent_ok h
    · exact hr
    · exact { hr with
        events := fun other hother run => by
          rcases List.mem_append.mp hother with hold | hnew
          · exact hr.events other hold run
          · rw [List.mem_singleton.mp hnew]
            exact (relationalEventProjection_readable hrow).2 run }
  | recordCollectorGap gap =>
    obtain ⟨-, rfl⟩ | ⟨-, row, -, -, -, -, hseq, hitems, hbytes, rfl⟩ := recordGap_ok h
    · exact hr
    · exact { hr with
        events := fun other hother run => by
          rcases List.mem_append.mp hother with hold | hnew
          · exact hr.events other hold run
          · rw [List.mem_singleton.mp hnew]
            exact activityItem_ok (by simp [hseq]) (by simp [hitems]) (by simp [hbytes]) run }
  | advanceIngestSequence ingestSeq =>
    obtain ⟨hlt, rfl⟩ := advanceIngestSequence_ok h
    exact { hr with sequence := ⟨(hr.sequence.1.trans_lt hlt).le, hfit.2 ingestSeq rfl⟩ }

/-! ### Operations keep what waits -/

/-- The run that an event is recorded under. -/
def eventRunId (event : NormalizedEvent) : Option RunId := (eventMetadata event).1.taskRunId

/-- The events of an operation name no alias. -/
def NamesNoAlias (db : Database) (op : PersistOp) : Prop :=
  ∀ event seenAtMs r, op = .recordEvent event seenAtMs → eventRunId event = some r →
    ∀ t, db.target r ≠ some (some t)

theorem target_of_get {r : RunId} {row : TaskRunRow} (h : db.taskRuns.get r = some row) :
    db.target r = some row.mergedInto := by
  rw [target, h, Option.map_some]

/-- Where pointers, associations and drains are the same, so is what waits, if no run is hidden. -/
theorem Waiting.of_runs {promised : List RunId} (hw : Waiting db promised)
    (targets : ∀ r, db'.target r = db.target r) (associations : db'.historyDrainRuns = db.historyDrainRuns)
    (drains : db'.historyDrains = db.historyDrains) (totals : db'.runRateTotals = db.runRateTotals)
    (events : db'.events = db.events)
    (ready : ∀ r row', db'.taskRuns.get r = some row' → row'.state.historyReady = false →
      ∃ row, db.taskRuns.get r = some row ∧ row.state.historyReady = false) : Waiting db' promised where
  filed d r hassoc := by
    rw [associated_congr associations] at hassoc
    rw [targets]
    exact hw.filed d r hassoc
  hidden r row' hrow' hhidden := by
    obtain ⟨hget', hcanonical⟩ := canonical_eq_some.mp hrow'
    obtain ⟨row, hget, hhidden⟩ := ready r row' hget' hhidden
    have htarget := targets r
    rw [target_of_get hget, target_of_get hget', hcanonical] at htarget
    rw [blocked_congr associations drains]
    simp only [associated_congr associations]
    exact hw.hidden r row (canonical_eq_some.mpr ⟨hget, (Option.some.inj htarget).symm⟩) hhidden
  eventRuns event hevent r row' hrun hget' halias := by
    cases hready : row'.state.historyReady with
    | true => rfl
    | false =>
      obtain ⟨row, hget, hhidden⟩ := ready r row' hget' hready
      have htarget := targets r
      rw [target_of_get hget, target_of_get hget'] at htarget
      have hmerged : row'.mergedInto = row.mergedInto := Option.some.inj htarget
      rw [events] at hevent
      rw [hw.eventRuns event hevent r row hrun hget (by rwa [← hmerged])] at hhidden
      cases hhidden
  totals r htotals := by
    rw [totals] at htotals
    rw [targets]
    exact hw.totals r htotals

/-- A run is stored that is no alias; if it is hidden, it was, or it is new and promised. -/
theorem Waiting.stored {promised : List RunId} (hl : Linked db) (hw : Waiting db promised) {runId : RunId}
    {row : TaskRunRow} (notAlias : ∀ t, db.target runId ≠ some (some t)) (hcanonical : row.mergedInto = none)
    (gets : ∀ r, db'.taskRuns.get r = if r = runId then some row else db.taskRuns.get r)
    (associations : db'.historyDrainRuns = db.historyDrainRuns)
    (drains : db'.historyDrains = db.historyDrains) (totals : db'.runRateTotals = db.runRateTotals)
    (events : db'.events = db.events)
    (hidden : row.state.historyReady = false → (db.target runId = none ∧ runId ∈ promised) ∨
      ∃ old, db.taskRuns.get runId = some old ∧ old.state.historyReady = false) : Waiting db' promised where
  filed d r hassoc := by
    rw [associated_congr associations] at hassoc
    rw [target_insert gets, hcanonical]
    split_ifs
    · rfl
    · exact hw.filed d r hassoc
  hidden r row' hrow' hhidden := by
    obtain ⟨hget', hcanonical'⟩ := canonical_eq_some.mp hrow'
    rw [blocked_congr associations drains]
    simp only [associated_congr associations]
    rw [gets] at hget'
    split_ifs at hget' with hr
    · subst hr
      cases hget'
      rcases hidden hhidden with ⟨hnew, hpromised⟩ | ⟨old, hold, hold'⟩
      · refine .inr ⟨hpromised, fun d => Bool.eq_false_iff.mpr fun hassoc => ?_⟩
        exact hl.runKnown d r hassoc hnew
      · refine hw.hidden r old (canonical_eq_some.mpr ⟨hold, ?_⟩) hold'
        cases hmerged : old.mergedInto with
        | none => rfl
        | some t => exact absurd (by rw [target_of_get hold, hmerged]) (notAlias t)
    · exact hw.hidden r row' (canonical_eq_some.mpr ⟨hget', hcanonical'⟩) hhidden
  eventRuns event hevent r row' hrun hget' halias := by
    rw [events] at hevent
    rw [gets] at hget'
    split_ifs at hget' with hr
    · cases hget'
      exact absurd hcanonical halias
    · exact hw.eventRuns event hevent r row' hrun hget' halias
  totals r htotals := by
    rw [totals] at htotals
    rw [target_insert gets, hcanonical]
    split_ifs
    · rfl
    · exact hw.totals r htotals

theorem RunStored.waiting {persisted : PersistTaskRun} {promised : List RunId} (hl : Linked db)
    (h : RunStored db db' persisted) (hw : Waiting db promised) : Waiting db' promised := by
  obtain ⟨hnot, -, -, _, _, -, rfl⟩ := h
  refine hw.stored hl (not_alias_of_bind hnot) (storedRow_mergedInto hnot)
    (fun r => HashMap.get_insert ..) rfl rfl rfl rfl fun hhidden => ?_
  cases hget : db.taskRuns.get persisted.taskRun.runId with
  | none =>
    rw [storedRow, hget] at hhidden
    cases hhidden
  | some old =>
    rw [storedRow, hget] at hhidden
    exact .inr ⟨old, rfl, hhidden⟩

theorem RunV6Stored.waiting {persisted : PersistTaskRunV6} {promised : List RunId} (hl : Linked db)
    (h : RunV6Stored db db' persisted)
    (hpromised : persisted.state.historyReady = false → db.target persisted.taskRun.taskRun.runId = none →
      persisted.taskRun.taskRun.runId ∈ promised) (hw : Waiting db promised) : Waiting db' promised := by
  obtain ⟨hnot, -, -, _, _, taskRuns, -, hget, rfl⟩ := h
  refine hw.stored hl (not_alias_of_bind hnot) (storedV6Row_mergedInto hnot) hget rfl rfl rfl rfl
    fun hhidden => ?_
  cases hold : db.taskRuns.get persisted.taskRun.taskRun.runId with
  | none =>
    rw [storedV6Row, hold] at hhidden
    have htarget : db.target persisted.taskRun.taskRun.runId = none := by
      rw [target, hold]
      rfl
    exact .inl ⟨htarget, hpromised hhidden htarget⟩
  | some old =>
    rw [storedV6Row, hold] at hhidden
    refine .inr ⟨old, rfl, ?_⟩
    have hor : (persisted.state.historyReady || old.state.historyReady) = false := hhidden
    exact (Bool.or_eq_false_iff.mp hor).2

/-- An alias is added that is shown and that nothing is filed under. -/
theorem Waiting.aliased {promised : List RunId} (hl : Linked db) (hw : Waiting db promised)
    {aliasRunId : RunId} {row : TaskRunRow} (fresh : db.taskRuns.get aliasRunId = none)
    (halias : row.mergedInto ≠ none) (hready : row.state.historyReady = true) :
    Waiting { db with taskRuns := db.taskRuns.insert aliasRunId row } promised := by
  have hfresh : db.target aliasRunId = none := by
    rw [target, fresh]
    rfl
  have gets := fun r => HashMap.get_insert db.taskRuns aliasRunId r row
  refine ⟨fun d r hassoc => ?_, fun r row' hrow' hhidden => ?_, fun event hevent r row' hrun hget' hmerged => ?_,
    fun r htotals => ?_⟩
  · rw [target_insert gets, if_neg]
    · exact hw.filed d r hassoc
    · rintro rfl
      exact hl.runKnown d r hassoc hfresh
  · obtain ⟨hget', hcanonical⟩ := canonical_eq_some.mp hrow'
    rw [gets] at hget'
    split_ifs at hget' with hr
    · cases hget'
      exact absurd hcanonical halias
    · exact hw.hidden r row' (canonical_eq_some.mpr ⟨hget', hcanonical⟩) hhidden
  · rw [gets] at hget'
    split_ifs at hget' with hr
    · cases hget'
      exact hready
    · exact hw.eventRuns event hevent r row' hrun hget' hmerged
  · have hcanonical := hw.totals r htotals
    rw [target_insert gets, if_neg]
    · exact hcanonical
    · rintro rfl
      rw [hfresh] at hcanonical
      cases hcanonical

theorem KeyPromoted.waiting {promoted : PersistTaskRun} {oldKey : RunKey} {aliasRunId : RunId}
    {promised : List RunId} (hl : Linked db) (h : KeyPromoted db db' promoted oldKey aliasRunId)
    (hw : Waiting db promised) : Waiting db' promised := by
  obtain ⟨next, hstored, hfresh, -, rfl⟩ := h.stored
  exact (hstored.waiting hl hw).aliased (hstored.targetStep.linked hl) hfresh (by simp [aliasRow]) rfl

/-- Nothing that is finalized was filed under two runs that are hidden together. -/
theorem not_completedCoverage {survivor absorbed : RunId} (h : db.completedCoverage survivor absorbed = false)
    {d : HistoryDrainId} (hassoc : db.associated d survivor = true ∨ db.associated d absorbed = true) :
    db.finalizedDrain d = false := by
  unfold completedCoverage at h
  rw [List.any_eq_false] at h
  have hpair : ∀ r, db.associated d r = true → (r = survivor ∨ r = absorbed) → db.finalizedDrain d = false := by
    intro r hr hor
    have hnot := h (d, r) (associated_iff.mp hr)
    simp only [Bool.and_eq_true, Bool.or_eq_true, decide_eq_true_eq, not_and] at hnot
    exact Bool.eq_false_iff.mpr (hnot hor)
  rcases hassoc with hs | ha
  · exact hpair survivor hs (.inl rfl)
  · exact hpair absorbed ha (.inr rfl)

theorem Merged.waiting {survivor absorbed : RunId} {survivorRow absorbedRow : TaskRunRow}
    {promised : List RunId} (hl : Linked db)
    (h : Merged db db' survivor absorbed survivorRow absorbedRow) (hw : Waiting db promised) :
    Waiting db' promised := by
  have hassoc := h.associated
  have hopen : ∀ d, db'.openDrain d = db.openDrain d := fun d => by rw [openDrain, h.historyDrains, openDrain]
  have hgets : ∀ r row', db'.taskRuns.get r = some row' → r ≠ absorbed → r ≠ survivor →
      ∃ row, db.taskRuns.get r = some row ∧ row'.state = row.state ∧
        (row'.mergedInto = none ↔ row.mergedInto = none) := by
    intro r row' hget' ha hs
    rw [h.taskRuns, Option.map_eq_some_iff] at hget'
    obtain ⟨row, hget, rfl⟩ := hget'
    refine ⟨row, hget, ?_, ?_⟩ <;> unfold mergedRow <;> rw [if_neg hs, if_neg ha] <;> split_ifs with hmoved
    · rfl
    · rfl
    · simp [hmoved]
    · rfl
  refine ⟨fun d r hdr => ?_, fun r row' hrow' hhidden => ?_, fun event hevent r row' hrun hget' halias => ?_,
    fun r htotals => ?_⟩
  · obtain ⟨hne, hdirect | ⟨rfl, -⟩⟩ := (hassoc d r).mp hdr
    · exact h.canonical hne (hw.filed d r hdirect)
    · exact h.canonical hne h.survivorTarget
  · obtain ⟨hget', hcanonical⟩ := canonical_eq_some.mp hrow'
    by_cases ha : r = absorbed
    · subst ha
      rw [h.taskRuns, h.absorbedGet, Option.map_some, mergedRow, if_neg (Ne.symm h.distinct), if_pos rfl] at hget'
      cases hget'
      cases hcanonical
    · have hkeep : db.blocked r = true → db'.blocked r = true := by
        intro hblocked
        obtain ⟨d, hd, ho⟩ := blocked_iff.mp hblocked
        exact blocked_iff.mpr ⟨d, (hassoc d r).mpr ⟨ha, .inl hd⟩, by rwa [hopen]⟩
      by_cases hs : r = survivor
      · subst hs
        rw [h.taskRuns, h.survivorGet, Option.map_some, mergedRow, if_pos rfl] at hget'
        cases hget'
        have hor : ((survivorRow.state.historyReady || absorbedRow.state.historyReady) ||
            db.completedCoverage r absorbed) = false := hhidden
        rw [Bool.or_eq_false_iff, Bool.or_eq_false_iff] at hor
        rcases hw.hidden r survivorRow (canonical_eq_some.mpr ⟨h.survivorGet, h.survivorCanonical⟩)
          hor.1.1 with hblocked | ⟨hpromised, hnone⟩
        · exact .inl (hkeep hblocked)
        · by_cases hany : ∃ d, db.associated d absorbed = true
          · obtain ⟨d, hd⟩ := hany
            have hfinalized := not_completedCoverage hor.2 (.inr hd)
            have hopened := open_or_finalized (hl.drainKnown d absorbed hd)
            rw [hfinalized] at hopened
            exact .inl (blocked_iff.mpr ⟨d, (hassoc d r).mpr ⟨ha, .inr ⟨rfl, hd⟩⟩, by rwa [hopen]⟩)
          · refine .inr ⟨hpromised, fun d => Bool.eq_false_iff.mpr fun hd => ?_⟩
            obtain ⟨-, hdirect | ⟨-, habsorbed⟩⟩ := (hassoc d r).mp hd
            · rw [hnone d] at hdirect
              cases hdirect
            · exact hany ⟨d, habsorbed⟩
      · obtain ⟨row, hget, hstate, hmerged⟩ := hgets r row' hget' ha hs
        rw [hstate] at hhidden
        rcases hw.hidden r row (canonical_eq_some.mpr ⟨hget, hmerged.mp hcanonical⟩) hhidden with
          hblocked | ⟨hpromised, hnone⟩
        · exact .inl (hkeep hblocked)
        · refine .inr ⟨hpromised, fun d => Bool.eq_false_iff.mpr fun hd => ?_⟩
          obtain ⟨-, hdirect | ⟨hs', -⟩⟩ := (hassoc d r).mp hd
          · rw [hnone d] at hdirect
            cases hdirect
          · exact hs hs'
  · rw [h.events] at hevent
    obtain ⟨old, hold, rfl⟩ := List.mem_map.mp hevent
    obtain ⟨run, hrun', rfl⟩ := Option.map_eq_some_iff.mp hrun
    by_cases hmoved : run = absorbed
    · subst hmoved
      simp only [substitute, if_pos] at hget'
      rw [h.taskRuns, h.survivorGet, Option.map_some, mergedRow, if_pos rfl] at hget'
      cases hget'
      exact absurd h.survivorCanonical halias
    · simp only [substitute, if_neg hmoved] at hget'
      by_cases hs : run = survivor
      · subst hs
        rw [h.taskRuns, h.survivorGet, Option.map_some, mergedRow, if_pos rfl] at hget'
        cases hget'
        exact absurd h.survivorCanonical halias
      · obtain ⟨row, hget, hstate, hmerged⟩ := hgets run row' hget' hmoved hs
        rw [hstate]
        exact hw.eventRuns old hold run row hrun' hget fun hnone => halias (hmerged.mpr hnone)
  · rw [h.rateTotals] at htotals
    obtain ⟨totals, hget⟩ := HashMap.contains_iff.mp htotals
    obtain ⟨hne, ⟨rfl, -⟩ | hold⟩ := mergeRateTotals_get r totals hget
    · exact h.canonical hne h.survivorTarget
    · exact h.canonical hne (hw.totals r (HashMap.contains_iff.mpr ⟨totals, hold⟩))

theorem applyOperation_waiting {drainId : Option HistoryDrainId} {op : PersistOp} {promised : List RunId}
    (h : applyOperation drainId db op = .ok db') (hevent : NamesNoAlias db op) (hl : Linked db)
    (hw : Waiting db promised) : Waiting db' promised := by
  cases op with
  | upsertWorkspace workspace ordinal =>
    obtain ⟨_, -, rfl⟩ := upsertWorkspace_ok h
    exact { hw with }
  | upsertTab tab ordinal =>
    obtain ⟨_, _, -, rfl⟩ := upsertTab_ok h
    exact { hw with }
  | upsertPane pane ordinal =>
    obtain ⟨_, _, -, rfl⟩ := upsertPane_ok h
    exact { hw with }
  | deleteWorkspace | deleteTab | clearTabLabel | clearPaneDisplayName | deletePane =>
    cases h
    exact { hw with }
  | upsertTaskRun run => exact (upsertTaskRun_ok h).waiting hl hw
  | promoteTaskRunKey promoted oldKey aliasRunId => exact (promoteTaskRunKey_ok h).waiting hl hw
  | mergeTaskRuns survivor absorbed =>
    obtain ⟨_, _, hmerged⟩ := mergeTaskRuns_ok h
    exact hmerged.waiting hl hw
  | upsertExecution execution =>
    obtain ⟨-, _, -, rfl⟩ := upsertExecution_ok h
    exact { hw with }
  | upsertAgentNode node =>
    obtain ⟨_, _, _, -, -, -, rfl⟩ := upsertAgentNode_ok h
    exact { hw with }
  | upsertExecutionEdge edge createdAtMs =>
    rw [upsertExecutionEdge_ok h]
    exact { hw with }
  | upsertDependencyEdge edge createdAtMs =>
    rw [upsertDependencyEdge_ok h]
    exact { hw with }
  | recordEvent event seenAtMs =>
    obtain ⟨-, rfl⟩ | ⟨-, -, row, hrow, rfl⟩ := recordEvent_ok h
    · exact hw
    · exact { hw with
        eventRuns := fun other hother r run hrun hget halias => by
          rcases List.mem_append.mp hother with hold | hnew
          · exact hw.eventRuns other hold r run hrun hget halias
          · rw [List.mem_singleton.mp hnew, (relationalEventProjection_readable hrow).1] at hrun
            obtain ⟨t, ht⟩ := Option.ne_none_iff_exists'.mp halias
            have hstored : db.taskRuns.get r = some run := hget
            exact absurd (by rw [target_of_get hstored, ht]) (hevent event seenAtMs r rfl hrun t) }
  | recordCollectorGap gap =>
    obtain ⟨-, rfl⟩ | ⟨-, row, -, -, hrun, -, -, -, -, rfl⟩ := recordGap_ok h
    · exact hw
    · exact { hw with
        eventRuns := fun other hother r run hother' hget halias => by
          rcases List.mem_append.mp hother with hold | hnew
          · exact hw.eventRuns other hold r run hother' hget halias
          · rw [List.mem_singleton.mp hnew, hrun] at hother'
            cases hother' }
  | advanceIngestSequence ingestSeq =>
    obtain ⟨-, rfl⟩ := advanceIngestSequence_ok h
    exact { hw with }

/-! ### Batches -/

/-- Whether a run points to another one. -/
def IsAlias (db : Database) (runId : RunId) : Prop := ∃ t, db.target runId = some (some t)

/-- The aliases that operations make. -/
def madeAliases (operations : PersistBatch) : List RunId :=
  operations.filterMap fun operation => match operation with
    | .mergeTaskRuns _ absorbed => some absorbed
    | .promoteTaskRunKey _ _ aliasRunId => some aliasRunId
    | _ => none

/-- Every event of a batch names a run that is no alias when it is recorded. -/
def EventsNameNoAlias (db : Database) (operations : PersistBatch) : Prop :=
  ∀ before event seenAtMs after r, operations = before ++ .recordEvent event seenAtMs :: after →
    eventRunId event = some r → ¬ db.IsAlias r ∧ r ∉ madeAliases before

/-- What an operation makes an alias is one of those that operations make. -/
theorem RunStep.aliases {op : PersistOp} (h : RunStep db db' op) {r : RunId} (hr : db'.IsAlias r) :
    db.IsAlias r ∨ r ∈ madeAliases [op] := by
  obtain ⟨t, ht⟩ := hr
  cases h with
  | same h =>
    rw [target, h.taskRuns] at ht
    exact .inl ⟨t, ht⟩
  | stored h =>
    obtain ⟨hnot, -, -, _, _, -, rfl⟩ := h
    rw [target_insert fun r => HashMap.get_insert .., storedRow_mergedInto hnot] at ht
    split_ifs at ht
    · cases ht
    · exact .inl ⟨t, ht⟩
  | @promoted promoted oldKey aliasRunId h =>
    obtain ⟨next, ⟨hnot, -, -, _, _, -, rfl⟩, -, -, rfl⟩ := h.stored
    unfold target at ht
    rw [HashMap.get_insert] at ht
    split_ifs at ht with halias
    · exact .inr (by simp [madeAliases, halias])
    · rw [HashMap.get_insert] at ht
      split_ifs at ht
      · rw [Option.map_some, storedRow_mergedInto hnot] at ht
        cases ht
      · exact .inl ⟨t, ht⟩
  | @merged survivor absorbed survivorRow absorbedRow h =>
    rw [h.target] at ht
    split_ifs at ht with ha hmoved
    · exact .inr (by simp [madeAliases, ha])
    · exact .inl ⟨_, hmoved⟩
    · exact .inl ⟨t, ht⟩

/-- A run that is known stays known. -/
theorem RunStep.known {op : PersistOp} (h : RunStep db db' op) {r : RunId} (hr : db.target r ≠ none) :
    db'.target r ≠ none := by
  cases h with
  | same h => exact (sameRuns_targetStep h).known hr
  | stored h => exact h.targetStep.known hr
  | promoted h =>
    obtain ⟨next, hstored, haliased⟩ := h.targetSteps
    exact haliased.known (hstored.known hr)
  | merged h => exact h.targetStep.known hr

theorem RunStep.linked {op : PersistOp} (h : RunStep db db' op) (hl : Linked db) : Linked db' := by
  cases h with
  | same h => exact (sameRuns_targetStep h).linked hl
  | stored h => exact h.targetStep.linked hl
  | promoted h =>
    obtain ⟨next, hstored, haliased⟩ := h.targetSteps
    exact haliased.linked (hstored.linked hl)
  | merged h => exact h.targetStep.linked hl

/-- What holds in the middle of a batch: rows can be read, and only what the batch promised is not filed
yet. -/
structure Underway (db : Database) (promised : List RunId) : Prop where
  linked : Linked db
  readable : Readable db
  waiting : Waiting db promised

theorem operations_underway {drainId : Option HistoryDrainId} {operations : PersistBatch}
    {promised : List RunId} (h : operations.foldlM (applyOperation drainId) db = .ok db')
    (hfit : ∀ op ∈ operations, NumbersFit op) (hevents : EventsNameNoAlias db operations)
    (hu : Underway db promised) :
    Underway db' promised ∧ (∀ r, db'.IsAlias r → db.IsAlias r ∨ r ∈ madeAliases operations) ∧
      ∀ r, db.target r ≠ none → db'.target r ≠ none := by
  induction operations generalizing db with
  | nil =>
    rw [← foldlM_nil_ok.mp h]
    exact ⟨hu, fun r hr => .inl hr, fun r hr => hr⟩
  | cons op operations ih =>
    obtain ⟨next, hfirst, hrest⟩ := foldlM_cons_ok.mp h
    have hstep := applyOperation_runs hfirst
    have hmade : madeAliases (op :: operations) = madeAliases [op] ++ madeAliases operations := by
      rw [madeAliases, madeAliases, madeAliases, ← List.filterMap_append, List.singleton_append]
    have hnames : NamesNoAlias db op := by
      rintro event seenAtMs r rfl hrun t ht
      exact (hevents [] event seenAtMs operations r rfl hrun).1 ⟨t, ht⟩
    have hnext : Underway next promised :=
      ⟨hstep.linked hu.linked, applyOperation_readable hfirst (hfit op List.mem_cons_self) hu.readable,
        applyOperation_waiting hfirst hnames hu.linked hu.waiting⟩
    have hlater : EventsNameNoAlias next operations := by
      intro before event seenAtMs after r heq hrun
      obtain ⟨hnot, hnotMade⟩ := hevents (op :: before) event seenAtMs after r (by rw [heq]; rfl) hrun
      have hcons : madeAliases (op :: before) = madeAliases [op] ++ madeAliases before := by
        rw [madeAliases, madeAliases, madeAliases, ← List.filterMap_append, List.singleton_append]
      rw [hcons, List.mem_append, not_or] at hnotMade
      refine ⟨fun halias => ?_, hnotMade.2⟩
      rcases hstep.aliases halias with hold | hnew
      · exact hnot hold
      · exact hnotMade.1 hnew
    obtain ⟨hfinal, haliases, hknown⟩ :=
      ih hrest (fun other hother => hfit other (List.mem_cons_of_mem op hother)) hlater hnext
    refine ⟨hfinal, fun r hr => ?_, fun r hr => hknown r (hstep.known hr)⟩
    rw [hmade, List.mem_append]
    rcases haliases r hr with hr | hr
    · rcases hstep.aliases hr with hr | hr
      · exact .inl hr
      · exact .inr (.inl hr)
    · exact .inr (.inr hr)

/-- What the reducer promises of a versioned batch and the store does not ask for: events, rate totals and
associations name no run that was absorbed, a new run that is hidden has an association, and numbers
leave room for the next ones. -/
structure Promised (db : Database) (batch : PersistV6Batch) : Prop where
  events : EventsNameNoAlias db batch.operations
  numbers : ∀ op ∈ batch.operations, NumbersFit op
  ordinals : ∀ run ∈ batch.taskRuns, run.taskRun.taskRun.displayOrdinal < i64Max
  hidden : ∀ run ∈ batch.taskRuns, run.state.historyReady = false →
    db.target run.taskRun.taskRun.runId = none →
    run.taskRun.taskRun.runId ∈ batch.historyAssociations.map (·.runId)
  totals : ∀ entry ∈ batch.rateTotals, ¬ db.IsAlias entry.1 ∧ entry.1 ∉ madeAliases batch.operations
  associations : ∀ association ∈ batch.historyAssociations,
    ¬ db.IsAlias association.runId ∧ association.runId ∉ madeAliases batch.operations

theorem RunV6Stored.readable {persisted : PersistTaskRunV6} (h : RunV6Stored db db' persisted)
    (hsmall : persisted.taskRun.taskRun.displayOrdinal < i64Max) (hr : Readable db) : Readable db' := by
  obtain ⟨-, -, -, _, ordinals, _, hgiven, -, rfl⟩ := h
  exact { hr with
    workspaces := fun id hid => hgiven.contains (.inr (hr.workspaces id hid))
    tabs := fun id hid => hgiven.contains (.inr (hr.tabs id hid))
    panes := fun id hid => hgiven.contains (.inr (hr.panes id hid))
    ordinals := hgiven.small hsmall hr.ordinals }

/-- A batch in its course: nothing was made an alias or forgotten since its beginning, but what its
operations made an alias. -/
structure Course (start db : Database) (made promised : List RunId) : Prop where
  underway : Underway db promised
  aliases : ∀ r, db.IsAlias r → start.IsAlias r ∨ r ∈ made
  known : ∀ r, start.target r ≠ none → db.target r ≠ none

variable {start : Database} {made promised : List RunId}

/-- A run of the batch is stored. -/
theorem Course.stored (hc : Course start db made promised) {persisted : PersistTaskRunV6}
    (h : RunV6Stored db db' persisted) (hsmall : persisted.taskRun.taskRun.displayOrdinal < i64Max)
    (hpromised : persisted.state.historyReady = false → start.target persisted.taskRun.taskRun.runId = none →
      persisted.taskRun.taskRun.runId ∈ promised) : Course start db' made promised where
  underway :=
    ⟨h.targetStep.linked hc.underway.linked, h.readable hsmall hc.underway.readable,
      h.waiting hc.underway.linked (fun hhidden hnew => hpromised hhidden (by
        by_contra hknown
        exact hc.known _ hknown hnew)) hc.underway.waiting⟩
  aliases r hr := by
    refine hc.aliases r ?_
    obtain ⟨t, ht⟩ := hr
    obtain ⟨hnot, -, -, _, _, _, -, hget, rfl⟩ := h
    rw [target_insert hget, storedV6Row_mergedInto hnot] at ht
    split_ifs at ht
    · cases ht
    · exact ⟨t, ht⟩
  known r hr := h.targetStep.known (hc.known r hr)

theorem Course.seeded (hc : Course start db made promised) {operations : PersistBatch}
    {run : PersistTaskRunV6} (h : seedTaskRun operations db run = .ok db')
    (hsmall : run.taskRun.taskRun.displayOrdinal < i64Max)
    (hpromised : run.state.historyReady = false → start.target run.taskRun.taskRun.runId = none →
      run.taskRun.taskRun.runId ∈ promised) : Course start db' made promised := by
  unfold seedTaskRun at h
  split_ifs at h
  · cases h
    exact hc
  · have hseed : (seedOf operations run).taskRun.taskRun.runId = run.taskRun.taskRun.runId ∧
        (seedOf operations run).taskRun.taskRun.displayOrdinal = run.taskRun.taskRun.displayOrdinal := by
      unfold seedOf
      dsimp only
      split_ifs <;> split <;> exact ⟨rfl, rfl⟩
    refine hc.stored (upsertTaskRunV6_ok h) (by rwa [hseed.2]) ?_
    rw [hseed.1]
    exact hpromised

/-- Steps that leave runs, drains, totals and events alone. -/
theorem Course.of_rows (hc : Course start db made promised) (targets : ∀ r, db'.target r = db.target r)
    (underway : Underway db' promised) : Course start db' made promised where
  underway := underway
  aliases r hr := hc.aliases r (by
    obtain ⟨t, ht⟩ := hr
    rw [targets] at ht
    exact ⟨t, ht⟩)
  known r hr := by
    rw [targets]
    exact hc.known r hr

theorem upsertHistoryDrain_waiting {drain : PersistHistoryDrain} (h : db.upsertHistoryDrain drain = .ok db')
    (hl : Linked db) (hw : Waiting db promised) : Waiting db' promised := by
  obtain ⟨incoming, -, ⟨rfl, -⟩ | ⟨hnew, rfl⟩⟩ := upsertHistoryDrain_ok h
  · exact hw
  · refine { hw with hidden := fun r row hrow hhidden => ?_ }
    rcases hw.hidden r row hrow hhidden with hblocked | hpromised
    · obtain ⟨d, hassoc, hopen⟩ := blocked_iff.mp hblocked
      refine .inl (blocked_iff.mpr ⟨d, hassoc, ?_⟩)
      rw [openDrain, HashMap.get_insert_ne _ _ (hl.not_associated_of_new hnew hassoc)]
      exact hopen
    · exact .inr hpromised

theorem upsertHistoryDrain_readable {drain : PersistHistoryDrain} (h : db.upsertHistoryDrain drain = .ok db')
    (hr : Readable db) : Readable db' := by
  obtain ⟨incoming, -, ⟨rfl, -⟩ | ⟨hnew, rfl⟩⟩ := upsertHistoryDrain_ok h
  · exact hr
  · exact { hr with }

theorem upsertHistoryDrain_target {drain : PersistHistoryDrain} (h : db.upsertHistoryDrain drain = .ok db')
    (r : RunId) : db'.target r = db.target r := by
  rw [target, (upsertHistoryDrain_frame h).1, target]

/-- A run that is no alias and that is known is canonical. -/
theorem canonical_of_not_alias {r : RunId} (hknown : db.taskRuns.contains r = true) (hnot : ¬ db.IsAlias r) :
    db.target r = some none := by
  obtain ⟨row, hrow⟩ := HashMap.contains_iff.mp hknown
  cases hm : row.mergedInto with
  | none => rw [target_of_get hrow, hm]
  | some t => exact absurd ⟨t, by rw [target_of_get hrow, hm]⟩ hnot

theorem insertAssociation_waiting {historical : Bool} {association : PersistHistoryDrainRun}
    (h : insertAssociation historical db association = .ok db') (hnot : ¬ db.IsAlias association.runId)
    (hl : Linked db) (hw : Waiting db promised) : Waiting db' promised := by
  have htarget := insertAssociation_target h
  have hassoc := insertAssociation_associated h
  obtain ⟨-, rfl⟩ | ⟨-, hopen, hrun, hnext⟩ := insertAssociation_ok h
  · exact hw
  have hdrains : db'.historyDrains = db.historyDrains := by rw [hnext]
  have hevents : db'.events = db.events := by rw [hnext]
  have htotals : db'.runRateTotals = db.runRateTotals := by rw [hnext]
  have hgets : ∀ r, r ≠ association.runId → db'.taskRuns.get r = db.taskRuns.get r := fun r hr => by
    rw [hnext]
    simp only [HashMap.get_modify, if_neg hr]
  have hcanonical := canonical_of_not_alias hrun hnot
  have hopens : ∀ d, db'.openDrain d = db.openDrain d := fun d => by rw [openDrain, hdrains, openDrain]
  refine ⟨fun d r hdr => ?_, fun r row hrow hhidden => ?_, fun event hevent r row hname hget halias => ?_,
    fun r hr => ?_⟩
  · rw [htarget]
    rcases (hassoc d r).mp hdr with ⟨rfl, rfl⟩ | hold
    · exact hcanonical
    · exact hw.filed d r hold
  · by_cases hr : r = association.runId
    · subst hr
      exact .inl (blocked_iff.mpr ⟨association.drainId, (hassoc _ _).mpr (.inl ⟨rfl, rfl⟩), by rwa [hopens]⟩)
    · obtain ⟨hget, hmerged⟩ := canonical_eq_some.mp hrow
      rw [hgets r hr] at hget
      rcases hw.hidden r row (canonical_eq_some.mpr ⟨hget, hmerged⟩) hhidden with hblocked | ⟨hmem, hnone⟩
      · obtain ⟨d, hd, ho⟩ := blocked_iff.mp hblocked
        exact .inl (blocked_iff.mpr ⟨d, (hassoc d r).mpr (.inr hd), by rwa [hopens]⟩)
      · refine .inr ⟨hmem, fun d => Bool.eq_false_iff.mpr fun hd => ?_⟩
        rcases (hassoc d r).mp hd with ⟨-, he⟩ | hold
        · exact hr he
        · rw [hnone d] at hold
          cases hold
  · rw [hevents] at hevent
    have hne : r ≠ association.runId := by
      rintro rfl
      have hsame := htarget association.runId
      rw [target_of_get hget, hcanonical] at hsame
      exact halias (Option.some.inj hsame)
    rw [hgets r hne] at hget
    exact hw.eventRuns event hevent r row hname hget halias
  · rw [htotals] at hr
    rw [htarget]
    exact hw.totals r hr

theorem insertAssociation_readable {historical : Bool} {association : PersistHistoryDrainRun}
    (h : insertAssociation historical db association = .ok db') (hr : Readable db) : Readable db' := by
  obtain ⟨-, rfl⟩ | ⟨-, -, -, rfl⟩ := insertAssociation_ok h
  · exact hr
  · exact { hr with }

theorem Course.associated (hc : Course start db made promised) {historical : Bool}
    {associations : List PersistHistoryDrainRun}
    (h : associations.foldlM (insertAssociation historical) db = .ok db')
    (hnames : ∀ association ∈ associations, ¬ start.IsAlias association.runId ∧ association.runId ∉ made) :
    Course start db' made promised ∧ (∀ r, db'.target r = db.target r) ∧
      (∀ d r, db.associated d r = true → db'.associated d r = true) ∧
      ∀ association ∈ associations, db'.associated association.drainId association.runId = true := by
  induction associations generalizing db with
  | nil =>
    rw [← foldlM_nil_ok.mp h]
    exact ⟨hc, fun _ => rfl, fun _ _ h => h, fun _ hmem => by cases hmem⟩
  | cons association associations ih =>
    obtain ⟨next, hfirst, hrest⟩ := foldlM_cons_ok.mp h
    have hnot : ¬ db.IsAlias association.runId := by
      intro halias
      obtain ⟨hstart, hmade⟩ := hnames association List.mem_cons_self
      rcases hc.aliases _ halias with hold | hnew
      · exact hstart hold
      · exact hmade hnew
    have htarget := insertAssociation_target hfirst
    have hassoc := insertAssociation_associated hfirst
    obtain ⟨hcourse, htargets, hkept, hall⟩ := ih (hc.of_rows htarget
      ⟨insertAssociation_linked hfirst hc.underway.linked, insertAssociation_readable hfirst hc.underway.readable,
        insertAssociation_waiting hfirst hnot hc.underway.linked hc.underway.waiting⟩) hrest
      fun other hother => hnames other (List.mem_cons_of_mem _ hother)
    refine ⟨hcourse, fun r => by rw [htargets, htarget], fun d r hold => ?_, fun other hother => ?_⟩
    · exact hkept d r ((hassoc d r).mpr (.inr hold))
    · rcases List.mem_cons.mp hother with rfl | hother
      · exact hkept _ _ ((hassoc _ _).mpr (.inl ⟨rfl, rfl⟩))
      · exact hall other hother

theorem hideBlockedRuns_waiting (historical : Bool) (hw : Waiting db promised) :
    Waiting (db.hideBlockedRuns historical) promised := by
  have htarget := @hideBlockedRuns_target db historical
  have hget : ∀ r, (db.hideBlockedRuns historical).taskRuns.get r = (db.taskRuns.get r).map fun row =>
      if db.blocked r then db.hideRun historical r row else row := fun r => HashMap.get_mapValues ..
  have hblocked : ∀ r, (db.hideBlockedRuns historical).blocked r = db.blocked r := fun r =>
    blocked_congr rfl rfl r
  refine ⟨fun d r hassoc => ?_, fun r row hrow hhidden => ?_, fun event hevent r row hname hrow halias => ?_,
    fun r hr => ?_⟩
  · rw [htarget]
    exact hw.filed d r hassoc
  · obtain ⟨hrow, hcanonical⟩ := canonical_eq_some.mp hrow
    rw [hget, Option.map_eq_some_iff] at hrow
    obtain ⟨old, hold, rfl⟩ := hrow
    rw [hblocked]
    split_ifs at hhidden hcanonical with hb
    · exact .inl hb
    · exact hw.hidden r old (canonical_eq_some.mpr ⟨hold, hcanonical⟩) hhidden
  · rw [hget, Option.map_eq_some_iff] at hrow
    obtain ⟨old, hold, rfl⟩ := hrow
    split_ifs at halias ⊢ with hb
    · obtain ⟨d, hassoc, -⟩ := blocked_iff.mp hb
      have hcanonical := hw.filed d r hassoc
      rw [target_of_get hold] at hcanonical
      rw [hideRun_mergedInto] at halias
      exact absurd (Option.some.inj hcanonical) halias
    · exact hw.eventRuns event hevent r old hname hold halias
  · rw [htarget]
    exact hw.totals r hr

/-- What a restart relies on. -/
abbrev Restorable (db : Database) : Prop := Underway db []

theorem commitV6Batch_restorable {batch : PersistV6Batch} (h : db.commitV6Batch batch = .ok db')
    (hp : Promised db batch) (hr : Restorable db) : Restorable db' := by
  obtain ⟨seeded, hseed, h⟩ := bind_eq_ok.mp h
  obtain ⟨drained, hdrains, h⟩ := bind_eq_ok.mp h
  obtain ⟨_, -, h⟩ := bind_eq_ok.mp h
  obtain ⟨published, hpublications, h⟩ := bind_eq_ok.mp h
  obtain ⟨operated, hoperations, h⟩ := bind_eq_ok.mp h
  obtain ⟨stored, hruns, h⟩ := bind_eq_ok.mp h
  obtain ⟨totalled, htotals, h⟩ := bind_eq_ok.mp h
  obtain ⟨associated, hassociations, h⟩ := bind_eq_ok.mp h
  cases h
  set promised := batch.historyAssociations.map (·.runId)
  have h₀ : Course db db [] promised :=
    ⟨⟨hr.linked, hr.readable, { hr.waiting with
      hidden := fun r row hrow hhidden => (hr.waiting.hidden r row hrow hhidden).imp_right
        fun h => absurd h.1 List.not_mem_nil }⟩, fun r hr => .inl hr, fun r hr => hr⟩
  have h₁ : Course db seeded [] promised :=
    foldlM_keeps (I := fun s => Course db s [] promised) (fun run hrun _ _ hstep hs =>
      hs.seeded hstep (hp.ordinals run hrun) (hp.hidden run hrun)) hseed h₀
  have h₂ : Course db drained [] promised :=
    foldlM_keeps (I := fun s => Course db s [] promised) (fun _ _ _ _ hstep hs =>
      hs.of_rows (upsertHistoryDrain_target hstep)
        ⟨upsertHistoryDrain_linked hstep hs.underway.linked,
          upsertHistoryDrain_readable hstep hs.underway.readable,
          upsertHistoryDrain_waiting hstep hs.underway.linked hs.underway.waiting⟩) hdrains h₁
  have h₃ : Course db published [] promised :=
    foldlM_keeps (I := fun s => Course db s [] promised) (fun publication _ _ _ hstep hs => by
      rw [insertPublication_ok hstep]
      refine hs.of_rows (fun _ => rfl) ⟨{ hs.underway.linked with },
        { hs.underway.readable with publications := fun r row hrow => ?_ }, { hs.underway.waiting with }⟩
      rw [HashMap.get_orInsert] at hrow
      split_ifs at hrow with hkey
      · subst hkey
        cases hold : HashMap.get _ publication.taskRun.runId with
        | none =>
          rw [hold] at hrow
          cases hrow
          rfl
        | some old =>
          rw [hold] at hrow
          cases hrow
          exact hs.underway.readable.publications _ _ hold
      · exact hs.underway.readable.publications r row hrow) hpublications h₂
  have hevents : EventsNameNoAlias published batch.operations := by
    intro before event seenAtMs after r heq hrun
    obtain ⟨hnot, hmade⟩ := hp.events before event seenAtMs after r heq hrun
    exact ⟨fun halias => hnot ((h₃.aliases r halias).resolve_right List.not_mem_nil), hmade⟩
  obtain ⟨hunderway, haliases, hknown⟩ := operations_underway hoperations hp.numbers hevents h₃.underway
  have h₄ : Course db operated (madeAliases batch.operations) promised :=
    ⟨hunderway, fun r hr => (haliases r hr).imp_left fun hr =>
      (h₃.aliases r hr).resolve_right List.not_mem_nil, fun r hr => hknown r (h₃.known r hr)⟩
  have h₅ : Course db stored (madeAliases batch.operations) promised :=
    foldlM_keeps (I := fun s => Course db s (madeAliases batch.operations) promised)
      (fun run hrun _ _ hstep hs => hs.stored (upsertTaskRunV6_ok hstep) (hp.ordinals run hrun)
        (hp.hidden run hrun)) hruns h₄
  have h₆ : Course db (stored.releasePublications (liveReadyRuns batch)) (madeAliases batch.operations)
      promised := by
    refine h₅.of_rows (fun _ => rfl) ⟨{ h₅.underway.linked with },
      { h₅.underway.readable with publications := fun r row hrow => ?_ }, { h₅.underway.waiting with }⟩
    unfold releasePublications at hrow
    rw [HashMap.get_retain, Option.filter_eq_some_iff] at hrow
    exact h₅.underway.readable.publications r row hrow.1
  have h₇ : Course db totalled (madeAliases batch.operations) promised :=
    foldlM_keeps (I := fun s => Course db s (madeAliases batch.operations) promised)
      (fun entry hentry s _ hstep hs => by
        obtain ⟨hknown, rfl⟩ := upsertRunRateTotals_ok hstep
        refine hs.of_rows (fun _ => rfl) ⟨{ hs.underway.linked with },
          { hs.underway.readable with totals := fun r totals hget => ?_ },
          { hs.underway.waiting with totals := fun r hget => ?_ }⟩
        · rw [HashMap.get_insert] at hget
          split_ifs at hget
          · cases hget
            exact le_max_right _ _
          · exact hs.underway.readable.totals r totals hget
        · rcases HashMap.contains_insert.mp hget with rfl | hget
          · have hnot : ¬ s.IsAlias entry.1 := by
              intro halias
              obtain ⟨hstart, hmade⟩ := hp.totals entry hentry
              rcases hs.aliases _ halias with hold | hnew
              · exact hstart hold
              · exact hmade hnew
            exact canonical_of_not_alias hknown hnot
          · exact hs.underway.waiting.totals r hget) htotals h₆
  obtain ⟨h₈, -, -, hall⟩ := h₇.associated hassociations hp.associations
  have hfinal := hideBlockedRuns_waiting batch.historyEventDrain.isSome h₈.underway.waiting
  refine ⟨?_, { h₈.underway.readable with }, { hfinal with hidden := fun r row hrow hhidden => .inl ?_ }⟩
  · exact @TargetStep.linked associated (associated.hideBlockedRuns _) id
      (.same ⟨rfl, rfl, rfl⟩ (@hideBlockedRuns_target associated _)) h₈.underway.linked
  · rcases hfinal.hidden r row hrow hhidden with hblocked | ⟨hmem, hnone⟩
    · exact hblocked
    · obtain ⟨association, hassoc, rfl⟩ := List.mem_map.mp hmem
      have hfiled := hall association hassoc
      have hnot := hnone association.drainId
      rw [@associated_congr associated (associated.hideBlockedRuns _) rfl, hfiled] at hnot
      cases hnot

end Database

end HerdrTop
