import HerdrTop.Store.Restorable

/-!
# Restoring never fails

Finalizing a drain and retention keep what a restart relies on, so every database that was reached by
such batches as the reducer makes is restored.

## What is proved

- `completeDrain_restorable`, `cleanupRetention_restorable`: finalizations and retention keep what a
  restart relies on.
- `restore_succeeds`: in every database that was reached, both restores succeed, and every run that is
  hidden waits for a drain that is not finalized.
-/

namespace HerdrTop

namespace Database

variable {db db' : Database}

/-! ### Finalizations -/

section Finalizing

variable {drainId : HistoryDrainId} {row : HistoryDrainRow} {observedAtMs : ℤ}

/-- The tables that finalizing a drain leaves alone. -/
structure SameRows (db db' : Database) : Prop where
  workspaces : db'.workspaces = db.workspaces
  tabs : db'.tabs = db.tabs
  panes : db'.panes = db.panes
  displayOrdinals : db'.displayOrdinals = db.displayOrdinals
  agentNodes : db'.agentNodes = db.agentNodes
  events : db'.events = db.events
  ingestSeqHighWater : db'.ingestSeqHighWater = db.ingestSeqHighWater
  rateTotals : db'.runRateTotals = db.runRateTotals
  /-- Before-images are dropped, or stay as they are. -/
  publications : ∀ r publication, db'.historyRunPublications.get r = some publication →
    db.historyRunPublications.get r = some publication

theorem completeDrain_sameRows : SameRows db (db.completeDrain drainId row observedAtMs) := by
  refine ⟨?_, ?_, ?_, ?_, ?_, ?_, ?_, ?_, fun r publication h => ?_⟩
  case refine_9 =>
    simp only [completeDrain, dropBeforeImages, readyRuns, closeSessions, finalizeDrains, inheritAssociations,
      HashMap.get_retain, Option.filter_eq_some_iff] at h
    exact h.1
  all_goals
    simp only [completeDrain, dropBeforeImages, readyRuns, closeSessions, finalizeDrains, inheritAssociations]

theorem SameRows.readable (h : SameRows db db') (hr : Readable db) : Readable db' where
  workspaces := by
    rw [h.workspaces, h.displayOrdinals]
    exact hr.workspaces
  tabs := by
    rw [h.tabs, h.displayOrdinals]
    exact hr.tabs
  panes := by
    rw [h.panes, h.displayOrdinals]
    exact hr.panes
  ordinals := by
    rw [h.displayOrdinals]
    exact hr.ordinals
  agentNodes := by
    rw [h.agentNodes]
    exact hr.agentNodes
  publications r publication hget := hr.publications r publication (h.publications r publication hget)
  events := by
    rw [h.events]
    exact hr.events
  sequence := by
    rw [h.ingestSeqHighWater]
    exact hr.sequence
  totals := by
    rw [h.rateTotals]
    exact hr.totals

/-- What still waits when a drain is completed was waiting, and not only for drains that it completes. -/
theorem Completed.waiting (h : Completed db db' drainId row observedAtMs) (same : SameRows db db')
    (hw : Waiting db []) : Waiting db' [] := by
  refine ⟨fun d r hassoc => ?_, fun r run' hrun' hhidden => ?_, fun event hevent r run' hname hget' halias => ?_,
    fun r htotals => ?_⟩
  · rw [h.target]
    rcases (h.associated d r).mp hassoc with hold | ⟨-, older, hold, -⟩
    · exact hw.filed d r hold
    · exact hw.filed older r hold
  · obtain ⟨hget', hcanonical⟩ := canonical_eq_some.mp hrun'
    obtain ⟨state, hget, hstate⟩ := h.taskRuns r
    rw [hget, Option.map_eq_some_iff] at hget'
    obtain ⟨run, hrun, rfl⟩ := hget'
    have hready : (run.state.historyReady ||
        (run.mergedInto.isNone && db'.associated drainId r && !db'.blocked r)) = false := by
      rw [← (hstate run).1]
      exact hhidden
    rw [Bool.or_eq_false_iff] at hready
    have hold : db.canonical r = some run := canonical_eq_some.mpr ⟨hrun, hcanonical⟩
    have hblocked : db.blocked r = true :=
      (hw.hidden r run hold hready.1).resolve_right fun hpromised => List.not_mem_nil hpromised.1
    obtain ⟨d, hassoc, hopen⟩ := blocked_iff.mp hblocked
    refine .inl ?_
    by_cases hcompletes : db.completes drainId row d = true
    · have hfiled : db'.associated drainId r = true := by
        by_cases hd : d = drainId
        · subst hd
          exact (h.associated d r).mpr (.inl hassoc)
        · exact (h.associated drainId r).mpr (.inr ⟨rfl, d, hassoc, hd, hcompletes⟩)
      have hnone : run.mergedInto.isNone = true := by
        rw [Option.isNone_iff_eq_none]
        exact hcanonical
      simpa [hnone, hfiled] using hready.2
    · obtain ⟨older, holder, hat⟩ := openDrain_iff.mp hopen
      refine blocked_iff.mpr ⟨d, (h.associated d r).mpr (.inl hassoc), openDrain_iff.mpr ⟨older, ?_, hat⟩⟩
      rw [h.historyDrains, holder, Option.map_some, if_neg hcompletes]
  · obtain ⟨state, hget, hstate⟩ := h.taskRuns r
    rw [hget, Option.map_eq_some_iff] at hget'
    obtain ⟨run, hrun, rfl⟩ := hget'
    rw [same.events] at hevent
    show (state run).historyReady = true
    rw [(hstate run).1, hw.eventRuns event hevent r run hname hrun halias, Bool.true_or]
  · rw [same.rateTotals] at htotals
    rw [h.target]
    exact hw.totals r htotals

theorem completeDrain_restorable (hdrain : db.historyDrains.contains drainId = true) (hr : Restorable db) :
    Restorable (db.completeDrain drainId row observedAtMs) := by
  have hcompleted := completeDrain_completed db drainId row observedAtMs
  have hsame := @completeDrain_sameRows db drainId row observedAtMs
  exact ⟨hcompleted.linked hdrain hr.linked, hsame.readable hr.readable, hcompleted.waiting hsame hr.waiting⟩

theorem finalizeHistoryDrain_restorable {manifest : PersistHistoryDrain}
    {result : HistoryDrainFinalization}
    (h : db.finalizeHistoryDrain manifest observedAtMs = .ok (db', result)) (hr : Restorable db) :
    Restorable db' := by
  obtain ⟨next, hupsert, h⟩ := bind_eq_ok.mp h
  have hnext : Restorable next :=
    ⟨upsertHistoryDrain_linked hupsert hr.linked, upsertHistoryDrain_readable hupsert hr.readable,
      upsertHistoryDrain_waiting hupsert hr.linked hr.waiting⟩
  split at h
  · cases h
  · rename_i row hrow
    obtain ⟨_, -, h⟩ := bind_eq_ok.mp h
    cases h
    split_ifs
    · exact completeDrain_restorable (HashMap.contains_iff.mpr ⟨row, hrow⟩) hnext
    · exact hnext

end Finalizing

/-! ### Retention -/

/-- The run that stands for a run that is known is found in at most one step. -/
theorem lineage_of_canonical {fuel : ℕ} {r : RunId} (h : ∀ t, db.target r ≠ some (some t)) :
    db.lineage fuel r = [r] := by
  have hnone : (db.taskRuns.get r).bind (·.mergedInto) = none := by
    cases hget : db.taskRuns.get r with
    | none => rfl
    | some row =>
      cases hm : row.mergedInto with
      | none => exact hm
      | some t => exact absurd (by rw [target_of_get hget, hm]) (h t)
  cases fuel with
  | zero => rfl
  | succ fuel => rw [lineage, hnone]

theorem lineage_of_alias (hl : Linked db) {fuel : ℕ} {r t : RunId} (h : db.target r = some (some t)) :
    db.lineage (fuel + 1) r = [r, t] := by
  have hsome : (db.taskRuns.get r).bind (·.mergedInto) = some t := by
    obtain ⟨row, hget, hm⟩ := Option.map_eq_some_iff.mp h
    rw [hget, Option.bind_some, hm]
  have hcanonical := hl.flat r t h
  have hrest : db.lineage fuel t = [t] :=
    lineage_of_canonical fun u hu => by
      rw [hcanonical] at hu
      cases hu
  rw [lineage, hsome]
  dsimp only
  rw [hrest]

/-- There is fuel for a step from a run that is stored. -/
theorem lineageFuel_of_known {r : RunId} (h : db.target r ≠ none) : ∃ fuel, db.lineageFuel = fuel + 1 := by
  have hmem : r ∈ HashMap.keys db.taskRuns := by
    rw [HashMap.mem_keys]
    cases hget : db.taskRuns.get r with
    | none => exact absurd (by rw [target, hget]; rfl) h
    | some row => exact ⟨row, rfl⟩
  exact Nat.exists_eq_succ_of_ne_zero (List.length_pos_of_mem hmem).ne'

/-- A run that is stored goes exactly when the run that stands for it is deleted. -/
theorem goes_iff (hl : Linked db) {cutoff : ℤ} {r s : RunId} (hs : db.survivor r = some s) :
    db.goes (db.doomedRuns cutoff) r = true ↔ s ∈ db.doomedRuns cutoff := by
  unfold survivor at hs
  cases htarget : db.target r with
  | none =>
    rw [htarget] at hs
    cases hs
  | some target =>
    rw [htarget] at hs
    cases hs
    cases target with
    | none =>
      rw [goes, lineage_of_canonical fun t ht => by
        rw [htarget] at ht
        cases ht]
      simp
    | some t =>
      obtain ⟨fuel, hfuel⟩ := @lineageFuel_of_known db r (by simp [htarget])
      have hcanonical := hl.flat r t htarget
      rw [goes, hfuel, lineage_of_alias hl htarget]
      simp only [List.any_cons, List.any_nil, Bool.or_false, Bool.or_eq_true, decide_eq_true_eq,
        Option.getD_some]
      constructor
      · rintro (hdoomed | hdoomed)
        · -- an alias is deleted with the run that stands for it
          obtain ⟨hkey, hdoomed⟩ := List.mem_filter.mp hdoomed
          obtain ⟨row, hget, hm⟩ := Option.map_eq_some_iff.mp htarget
          rw [hfuel, doomed, hget] at hdoomed
          simp only [hm, Bool.and_eq_true] at hdoomed
          obtain ⟨trow, htget, htm⟩ := Option.map_eq_some_iff.mp hcanonical
          refine List.mem_filter.mpr ⟨HashMap.mem_keys.mpr ⟨trow, htget⟩, ?_⟩
          have hexpired := hdoomed.2
          unfold doomed at hexpired ⊢
          rw [htget] at hexpired ⊢
          simp only [htm] at hexpired ⊢
          exact hexpired
        · exact hdoomed
      · exact .inr

/-- What stays of the runs. -/
theorem deleteRuns_target {doomedRuns : List RunId} (r : RunId) :
    (db.deleteRuns doomedRuns).target r = if db.goes doomedRuns r then none else db.target r := by
  unfold target deleteRuns
  dsimp only
  rw [HashMap.get_retain]
  cases db.taskRuns.get r with
  | none => simp
  | some row =>
    cases db.goes doomedRuns r <;> simp [Option.filter]

theorem deleteRuns_associated {doomedRuns : List RunId} {d : HistoryDrainId} {r : RunId} :
    (db.deleteRuns doomedRuns).associated d r = true ↔
      db.associated d r = true ∧ db.goes doomedRuns r = false := by
  rw [associated_iff, associated_iff, deleteRuns]
  dsimp only
  rw [HashSet.mem_keys_retain (p := fun association : HistoryDrainId × RunId =>
    !db.goes doomedRuns association.2), Bool.not_eq_true']

/-- An alias goes with the run that it points to. -/
theorem goes_target (hl : Linked db) {cutoff : ℤ} {r t : RunId} (h : db.target r = some (some t)) :
    db.goes (db.doomedRuns cutoff) r = db.goes (db.doomedRuns cutoff) t := by
  have hr : db.survivor r = some t := by rw [survivor, h]; rfl
  have ht : db.survivor t = some t := survivor_of_canonical (hl.flat r t h)
  rw [Bool.eq_iff_iff, goes_iff hl hr, goes_iff hl ht]

theorem deleteRuns_linked (hl : Linked db) (cutoff : ℤ) : Linked (db.deleteRuns (db.doomedRuns cutoff)) where
  flat r t h := by
    rw [deleteRuns_target] at h ⊢
    split_ifs at h with hr
    rw [goes_target hl h] at hr
    rw [if_neg hr]
    exact hl.flat r t h
  drainKnown d r h := hl.drainKnown d r (deleteRuns_associated.mp h).1
  runKnown d r h := by
    obtain ⟨hassoc, hstays⟩ := deleteRuns_associated.mp h
    rw [deleteRuns_target, hstays]
    exact hl.runKnown d r hassoc
  artifactKnown d a h := hl.artifactKnown d a h

theorem deleteRuns_readable {doomedRuns : List RunId} (hr : Readable db) : Readable (db.deleteRuns doomedRuns) where
  workspaces id h := by
    obtain ⟨ordinal, hget⟩ := HashMap.contains_iff.mp (hr.workspaces id h)
    refine HashMap.contains_iff.mpr ⟨ordinal, ?_⟩
    rw [deleteRuns, HashMap.get_retain, hget]
    rfl
  tabs id h := by
    obtain ⟨ordinal, hget⟩ := HashMap.contains_iff.mp (hr.tabs id h)
    refine HashMap.contains_iff.mpr ⟨ordinal, ?_⟩
    rw [deleteRuns, HashMap.get_retain, hget]
    rfl
  panes id h := by
    obtain ⟨ordinal, hget⟩ := HashMap.contains_iff.mp (hr.panes id h)
    refine HashMap.contains_iff.mpr ⟨ordinal, ?_⟩
    rw [deleteRuns, HashMap.get_retain, hget]
    rfl
  ordinals entity ordinal h := by
    rw [deleteRuns, HashMap.get_retain, Option.filter_eq_some_iff] at h
    exact hr.ordinals entity ordinal h.1
  agentNodes id row h := by
    rw [deleteRuns, HashMap.get_retain, Option.filter_eq_some_iff] at h
    exact hr.agentNodes id row h.1
  publications r row h := by
    rw [deleteRuns, HashMap.get_retain, Option.filter_eq_some_iff] at h
    exact hr.publications r row h.1
  events := hr.events
  sequence := hr.sequence
  totals r totals h := by
    rw [deleteRuns, HashMap.get_retain, Option.filter_eq_some_iff] at h
    exact hr.totals r totals h.1

theorem deleteRuns_waiting {doomedRuns : List RunId} (hw : Waiting db []) :
    Waiting (db.deleteRuns doomedRuns) [] := by
  have hgets : ∀ r row, (db.deleteRuns doomedRuns).taskRuns.get r = some row →
      db.taskRuns.get r = some row ∧ db.goes doomedRuns r = false := by
    intro r row h
    rw [deleteRuns, HashMap.get_retain, Option.filter_eq_some_iff, Bool.not_eq_true'] at h
    exact h
  refine ⟨fun d r hassoc => ?_, fun r row hrow hhidden => ?_, fun event hevent r row hname hget halias => ?_,
    fun r htotals => ?_⟩
  · obtain ⟨hold, hstays⟩ := deleteRuns_associated.mp hassoc
    rw [deleteRuns_target, hstays]
    exact hw.filed d r hold
  · obtain ⟨hget, hcanonical⟩ := canonical_eq_some.mp hrow
    obtain ⟨hold, hstays⟩ := hgets r row hget
    have hblocked := (hw.hidden r row (canonical_eq_some.mpr ⟨hold, hcanonical⟩) hhidden).resolve_right
      fun hpromised => List.not_mem_nil hpromised.1
    obtain ⟨d, hassoc, hopen⟩ := blocked_iff.mp hblocked
    exact .inl (blocked_iff.mpr ⟨d, deleteRuns_associated.mpr ⟨hassoc, hstays⟩, hopen⟩)
  · exact hw.eventRuns event hevent r row hname (hgets r row hget).1 halias
  · obtain ⟨totals, hget⟩ := HashMap.contains_iff.mp htotals
    rw [deleteRuns, HashMap.get_retain, Option.filter_eq_some_iff, Bool.not_eq_true'] at hget
    rw [deleteRuns_target, hget.2]
    exact hw.totals r (HashMap.contains_iff.mpr ⟨totals, hget.1⟩)

/-- The events that stay were there. -/
theorem keptEvents_subset {cutoff : ℤ} {event : EventRow} (h : event ∈ db.keptEvents cutoff) :
    event ∈ db.events := by
  unfold keptEvents latestEvents at h
  obtain ⟨⟨kept, n⟩, hmem, rfl⟩ := List.mem_map.mp h
  exact (List.mem_filter.mp (List.fst_mem_of_mem_zipIdx (List.mem_filter.mp hmem).1)).1

theorem deleteEvents_restorable {cutoff : ℤ} (hr : Restorable db) : Restorable (db.deleteEvents cutoff) :=
  ⟨{ hr.linked with },
    { hr.readable with events := fun event h => hr.readable.events event (keptEvents_subset h) },
    { hr.waiting with eventRuns := fun event h => hr.waiting.eventRuns event (keptEvents_subset h) }⟩

theorem pruneLedger_restorable {cutoff : ℤ} (hr : Restorable db) : Restorable (db.pruneLedger cutoff) :=
  ⟨{ hr.linked with }, { hr.readable with }, { hr.waiting with }⟩

theorem pruneSessions_restorable (hr : Restorable db) : Restorable db.pruneSessions :=
  ⟨{ hr.linked with }, { hr.readable with }, { hr.waiting with }⟩

theorem deleteRuns_restorable (hr : Restorable db) (cutoff : ℤ) :
    Restorable (db.deleteRuns (db.doomedRuns cutoff)) :=
  ⟨deleteRuns_linked hr.linked cutoff, deleteRuns_readable hr.readable, deleteRuns_waiting hr.waiting⟩

theorem cleanupRetention_restorable (hr : Restorable db) (nowMs : ℤ) :
    Restorable (db.cleanupRetention nowMs).1 :=
  pruneSessions_restorable (deleteRuns_restorable (pruneLedger_restorable (deleteEvents_restorable hr)) _)

/-! ### Every database that was reached -/

theorem applyBatch_restorable {batch : PersistBatch} (h : db.applyBatch batch = .ok db')
    (hevents : EventsNameNoAlias db batch) (hfit : ∀ op ∈ batch, NumbersFit op) (hr : Restorable db) :
    Restorable db' :=
  (operations_underway h hfit hevents hr).1

/-- The databases that accepted batches, finalizations and retention lead to, where batches that are not
durable already are such as the reducer promises. -/
inductive Kept : Database → Prop
  | empty : Kept {}
  | batch {db db' : Database} {batch : PersistBatch} :
      Kept db → EventsNameNoAlias db batch → (∀ op ∈ batch, NumbersFit op) →
      db.applyBatch batch = .ok db' → Kept db'
  | v6Batch {db db' : Database} {batch : PersistV6Batch} :
      Kept db → (db.exactV6ReplayIsAlreadyDurable batch = .ok false → Promised db batch) →
      db.applyV6Batch batch = .ok db' → Kept db'
  | finalize {db db' : Database} {manifest : PersistHistoryDrain} {observedAtMs : ℤ}
      {result : HistoryDrainFinalization} :
      Kept db → db.finalizeHistoryDrain manifest observedAtMs = .ok (db', result) → Kept db'
  | cleanup {db : Database} (nowMs : ℤ) : Kept db → Kept (db.cleanupRetention nowMs).1

theorem kept_restorable (h : Kept db) : Restorable db := by
  induction h with
  | empty => exact ⟨linked_empty, readable_empty, waiting_empty⟩
  | batch _ hevents hfit happly ih => exact applyBatch_restorable happly hevents hfit ih
  | v6Batch _ hpromised happly ih =>
    rcases applyV6Batch_ok happly with ⟨-, rfl⟩ | ⟨hnew, hcommit⟩
    · exact ih
    · exact commitV6Batch_restorable hcommit (hpromised hnew) ih
  | finalize _ hfinalize ih => exact finalizeHistoryDrain_restorable hfinalize ih
  | cleanup nowMs _ ih => exact cleanupRetention_restorable ih nowMs

/-! ### Restoring places -/

theorem topologyOrdinal_ok {kind : TopologyKind} {id : String}
    (h : db.displayOrdinals.contains (.topology kind, id) = true) :
    ∃ ordinal, db.topologyOrdinal kind id = .ok ordinal := by
  obtain ⟨ordinal, hget⟩ := HashMap.contains_iff.mp h
  exact ⟨ordinal, by rw [topologyOrdinal, hget, requiredTopologyOrdinal]⟩

theorem restoreTopology_ok (hr : Readable db) (model : DomainModel) :
    ∃ model', db.restoreTopology model = .ok model' := by
  obtain ⟨placed, hworkspaces, -⟩ := foldlM_succeeds (I := fun _ : DomainModel => True)
    (f := db.restoreWorkspace) (l := HashMap.keys db.workspaces) (s := model) (fun id hid m _ => by
      obtain ⟨row, hrow⟩ := HashMap.mem_keys.mp hid
      obtain ⟨ordinal, hordinal⟩ := topologyOrdinal_ok (hr.workspaces id (HashMap.contains_iff.mpr ⟨row, hrow⟩))
      exact ⟨_, bind_eq_ok.mpr ⟨ordinal, hordinal, rfl⟩, trivial⟩) trivial
  obtain ⟨tabbed, htabs, -⟩ := foldlM_succeeds (I := fun _ : DomainModel => True)
    (f := db.restoreTab) (l := db.tabs.toList) (s := placed) (fun row hrow m _ => by
      obtain ⟨ordinal, hordinal⟩ :=
        topologyOrdinal_ok (hr.tabs row.1 (HashMap.contains_iff.mpr ⟨row.2, HashMap.mem_toList.mp hrow⟩))
      exact ⟨_, bind_eq_ok.mpr ⟨ordinal, hordinal, rfl⟩, trivial⟩) trivial
  obtain ⟨paned, hpanes, -⟩ := foldlM_succeeds (I := fun _ : DomainModel => True)
    (f := db.restorePane) (l := db.panes.toList) (s := tabbed) (fun row hrow m _ => by
      obtain ⟨ordinal, hordinal⟩ :=
        topologyOrdinal_ok (hr.panes row.1 (HashMap.contains_iff.mpr ⟨row.2, HashMap.mem_toList.mp hrow⟩))
      exact ⟨_, bind_eq_ok.mpr ⟨ordinal, hordinal, rfl⟩, trivial⟩) trivial
  exact ⟨paned, bind_eq_ok.mpr ⟨placed, hworkspaces, bind_eq_ok.mpr ⟨tabbed, htabs, hpanes⟩⟩⟩

/-! ### Restoring runs -/

/-- A run as it is read: nothing is lost between the columns and the model. -/
def readRun (runId : RunId) (row : TaskRunRow) : StoredTaskRun where
  taskRun :=
    { runId
      key := row.key
      displayOrdinal := row.displayOrdinal
      state := row.taskState
      hasControllerTaskStateEvent := row.hasControllerTaskStateEvent
      createdAtMs := some row.createdAtMs
      updatedAtMs := some row.updatedAtMs
      finishedAtMs := row.finishedAtMs
      subject := row.subject
      dismissedAtMs := row.dismissedAtMs }
  v6State := row.state
  mergedInto := row.mergedInto
  nativeBinding := row.native

theorem storedTaskRun_ok (runId : RunId) (row : TaskRunRow) :
    storedTaskRun runId row = .ok (readRun runId row) := by
  have hend : (row.state.nativeSessionEnd.mapM fun sessionEnd => do
      let status ← parseNativeSessionEndStatus (nativeSessionEndStatusText sessionEnd.status)
      return ({ sessionEnd with status } : NativeSessionEnd)) =
      (.ok row.state.nativeSessionEnd : StoreResult (Option NativeSessionEnd)) := by
    cases row.state.nativeSessionEnd with
    | none => rfl
    | some sessionEnd =>
      rw [Option.mapM_some, parseNativeSessionEndStatus_text]
      rfl
  have hnative : (row.native.mapM fun native => do
      return ({ native with provider := ← parseProvider (providerText native.provider) } :
        NativeSessionBinding)) = (.ok row.native : StoreResult (Option NativeSessionBinding)) := by
    cases row.native with
    | none => rfl
    | some native =>
      rw [Option.mapM_some, parseProvider_text]
      rfl
  refine bind_eq_ok.mpr ⟨row.key, decodeRunKey_encode row.key, bind_eq_ok.mpr ⟨_, hend, bind_eq_ok.mpr
    ⟨row.taskState, parseTaskState_text row.taskState, bind_eq_ok.mpr ⟨_, hnative, rfl⟩⟩⟩⟩

theorem mapM_storedTaskRun (rows : List (RunId × TaskRunRow)) :
    (rows.mapM fun row => storedTaskRun row.1 row.2) = .ok (rows.map fun row => readRun row.1 row.2) := by
  induction rows with
  | nil => rfl
  | cons row rows ih =>
    rw [List.mapM_cons, storedTaskRun_ok, ih]
    rfl

/-- Every canonical run is in the model. -/
def Holds (db : Database) (model : DomainModel) : Prop :=
  ∀ r, db.target r = some none → (model.taskRun r).isSome = true

theorem installCanonical_taskRun (model : DomainModel) (stored : StoredTaskRun) (r : RunId) :
    (installCanonical model stored).taskRun r =
      if r = stored.taskRun.runId then some stored.taskRun else model.taskRun r := by
  have hruns : (installCanonical model stored).taskRuns =
      model.taskRuns.insert stored.taskRun.runId stored.taskRun := by
    unfold installCanonical
    cases stored.nativeBinding <;> dsimp only [Option.elim] <;> split_ifs <;> rfl
  rw [DomainModel.taskRun, hruns, HashMap.get_insert, DomainModel.taskRun]

/-- A run that is installed, or that the model held, is in the model. -/
theorem installCanonicals_taskRun {runs : List StoredTaskRun} {model : DomainModel} {r : RunId}
    (h : (∃ stored ∈ runs, stored.taskRun.runId = r) ∨ (model.taskRun r).isSome = true) :
    ((runs.foldl installCanonical model).taskRun r).isSome = true := by
  induction runs generalizing model with
  | nil =>
    obtain ⟨_, hmem, -⟩ | h := h
    · cases hmem
    · exact h
  | cons stored runs ih =>
    apply ih
    rw [installCanonical_taskRun]
    rcases h with ⟨other, hmem, rfl⟩ | h
    · rcases List.mem_cons.mp hmem with rfl | hmem
      · exact .inr (by simp)
      · exact .inl ⟨other, hmem, rfl⟩
    · refine .inr ?_
      split_ifs
      · rfl
      · exact h

/-- The rows of the runs as they are read. -/
def readRuns (db : Database) : List StoredTaskRun := db.taskRuns.toList.map fun row => readRun row.1 row.2

theorem mem_readRuns {stored : StoredTaskRun} :
    stored ∈ db.readRuns ↔ ∃ r row, db.taskRuns.get r = some row ∧ readRun r row = stored := by
  unfold readRuns
  rw [List.mem_map]
  constructor
  · rintro ⟨⟨r, row⟩, hmem, rfl⟩
    exact ⟨r, row, HashMap.mem_toList.mp hmem, rfl⟩
  · rintro ⟨r, row, hget, rfl⟩
    exact ⟨(r, row), HashMap.mem_toList.mpr hget, rfl⟩

/-- The aliases that are read are those that are stored. -/
theorem aliasTargets_get (r : RunId) : (aliasTargets db.readRuns).get r = (db.target r).join := by
  have hmem : ∀ t, (r, t) ∈ (db.readRuns.filterMap fun stored =>
      stored.mergedInto.map fun target => (stored.taskRun.runId, target)) ↔ db.target r = some (some t) := by
    intro t
    rw [List.mem_filterMap]
    constructor
    · rintro ⟨stored, hstored, heq⟩
      obtain ⟨r', row, hget, rfl⟩ := mem_readRuns.mp hstored
      obtain ⟨t', ht, heq⟩ := Option.map_eq_some_iff.mp heq
      obtain ⟨rfl, rfl⟩ := Prod.mk.inj heq
      exact (target_of_get hget).trans (congrArg some ht)
    · intro h
      obtain ⟨row, hget, hm⟩ := Option.map_eq_some_iff.mp h
      exact ⟨readRun r row, mem_readRuns.mpr ⟨r, row, hget, rfl⟩, by simp [readRun, hm]⟩
  unfold aliasTargets HashMap.ofList
  cases htarget : db.target r with
  | none =>
    rw [HashMap.get_extend_of_notMem]
    · rfl
    · intro t ht
      rw [hmem, htarget] at ht
      cases ht
  | some target =>
    cases target with
    | none =>
      rw [HashMap.get_extend_of_notMem]
      · rfl
      · intro t ht
        rw [hmem, htarget] at ht
        cases ht
    | some t =>
      refine HashMap.get_extend_of_unique ((hmem t).mpr htarget) fun u hu => ?_
      rw [hmem, htarget] at hu
      cases hu
      rfl

/-- An alias leads to the run that it points to. -/
theorem resolveAliasRoot_ok (hl : Linked db) {r t : RunId} (h : db.target r = some (some t)) :
    resolveAliasRoot r (aliasTargets db.readRuns) = .ok t := by
  have hr : (aliasTargets db.readRuns).get r = some t := by
    rw [aliasTargets_get, h]
    rfl
  have ht : (aliasTargets db.readRuns).get t = none := by
    rw [aliasTargets_get, hl.flat r t h]
    rfl
  have hroot : aliasRoot (aliasTargets db.readRuns) r [] ((aliasTargets db.readRuns).keys.length + 1) =
      some t := by
    rw [aliasRoot.eq_def, hr]
    dsimp only
    rw [if_neg List.not_mem_nil, aliasRoot.eq_def, ht]
  unfold resolveAliasRoot
  rw [hroot]

/-- The runs are restored, and every canonical one is in the model. -/
theorem restoreTaskRuns_ok (hl : Linked db) (model : DomainModel) :
    ∃ model', db.restoreTaskRuns model = .ok model' ∧ Holds db model' := by
  have hinstalled : Holds db ((db.readRuns.filter (·.mergedInto.isNone)).foldl installCanonical model) := by
    intro r hr
    obtain ⟨row, hget, hm⟩ := Option.map_eq_some_iff.mp hr
    refine installCanonicals_taskRun (.inl ⟨readRun r row, List.mem_filter.mpr ⟨?_, ?_⟩, rfl⟩)
    · exact mem_readRuns.mpr ⟨r, row, hget, rfl⟩
    · simp [readRun, hm]
  obtain ⟨model', hmodel, hholds⟩ := foldlM_succeeds (I := Holds db)
    (f := installAlias (aliasTargets db.readRuns)) (l := db.readRuns.filter (·.mergedInto.isSome))
    (fun stored hstored m hm => by
      obtain ⟨hread, halias⟩ := List.mem_filter.mp hstored
      obtain ⟨r, row, hget, rfl⟩ := mem_readRuns.mp hread
      obtain ⟨t, ht⟩ := Option.isSome_iff_exists.mp halias
      have htarget : db.target r = some (some t) := (target_of_get hget).trans (congrArg some ht)
      have hsome := hm t (hl.flat r t htarget)
      have hroot : resolveAliasRoot (readRun r row).taskRun.runId (aliasTargets db.readRuns) = .ok t :=
        resolveAliasRoot_ok hl htarget
      unfold installAlias
      rw [hroot]
      have hnot : ¬ (m.taskRun t).isNone = true := by
        rw [Option.isNone_iff_eq_none, ← ne_eq, ← Option.isSome_iff_ne_none]
        exact hsome
      simp only [bind, Except.bind, if_neg hnot]
      split_ifs
      · exact ⟨m, rfl, hm⟩
      · exact ⟨_, rfl, hm⟩) hinstalled
  refine ⟨model', bind_eq_ok.mpr ⟨db.readRuns, mapM_storedTaskRun _, hmodel⟩, hholds⟩

/-! ### Restoring what belongs to runs -/

theorem restoreRateTotals_ok (hr : Readable db) (hw : Waiting db []) {model : DomainModel}
    (hm : Holds db model) : ∃ model', db.runRateTotals.toList.foldlM restoreRateTotals model = .ok model' := by
  obtain ⟨model', hmodel, -⟩ := foldlM_succeeds (I := Holds db) (f := restoreRateTotals)
    (l := db.runRateTotals.toList) (fun row hrow m hm => by
      have hget := HashMap.mem_toList.mp hrow
      have hsome := hm row.1 (hw.totals row.1 (HashMap.contains_iff.mpr ⟨_, hget⟩))
      have hworking := hr.totals row.1 row.2 hget
      refine ⟨m.setRunRateTotals row.1 row.2, ?_, hm⟩
      unfold restoreRateTotals
      rw [if_neg (by simpa [Option.isNone_iff_eq_none, ← Option.isSome_iff_ne_none] using hsome),
        if_neg (by omega)]) hm
  exact ⟨model', hmodel⟩

theorem restoreExecutions_ok (rows : List (String × ExecutionRow)) (model : DomainModel) :
    ∃ model', rows.foldlM restoreExecution model = .ok model' := by
  obtain ⟨model', hmodel, -⟩ := foldlM_succeeds (I := fun _ : DomainModel => True) (f := restoreExecution)
    (l := rows) (fun row _ m _ =>
      ⟨_, bind_eq_ok.mpr ⟨row.2.execState, parseExecState_encode row.2.execState, rfl⟩, trivial⟩) trivial
  exact ⟨model', hmodel⟩

theorem restoreAgentNodes_ok (hr : Readable db) (model : DomainModel) :
    ∃ model', db.agentNodes.toList.foldlM db.restoreAgentNode model = .ok model' := by
  obtain ⟨model', hmodel, -⟩ := foldlM_succeeds (I := fun _ : DomainModel => True) (f := db.restoreAgentNode)
    (l := db.agentNodes.toList) (fun row hrow m _ => by
      unfold restoreAgentNode
      cases db.displayOrdinals.get (.agentNode, row.1) with
      | none => exact ⟨m, rfl, trivial⟩
      | some ordinal =>
        obtain ⟨node, hnode⟩ := hr.agentNodes row.1 row.2 (HashMap.mem_toList.mp hrow) ordinal
        exact ⟨_, bind_eq_ok.mpr ⟨node, hnode, rfl⟩, trivial⟩) trivial
  exact ⟨model', hmodel⟩

theorem loadHistoryRunPublications_ok (hr : Readable db) :
    ∃ publications, db.loadHistoryRunPublications = .ok publications := by
  refine mapM_succeeds fun row hrow => ?_
  have hget := HashMap.mem_toList.mp ((List.mem_insertionSort _).mp hrow)
  rw [if_neg (by simpa using hr.publications row.1 row.2 hget)]
  exact ⟨_, rfl⟩

theorem restoreModel_ok (hr : Restorable db) : ∃ model, db.restoreModel = .ok model := by
  obtain ⟨placed, hplaced⟩ := restoreTopology_ok hr.readable {}
  obtain ⟨runs, hruns, hholds⟩ := restoreTaskRuns_ok hr.linked placed
  obtain ⟨rated, hrated⟩ := restoreRateTotals_ok hr.readable hr.waiting hholds
  obtain ⟨executed, hexecuted⟩ := restoreExecutions_ok db.executions.toList rated
  obtain ⟨agents, hagents⟩ := restoreAgentNodes_ok hr.readable executed
  obtain ⟨publications, hpublications⟩ := loadHistoryRunPublications_ok hr.readable
  exact ⟨_, bind_eq_ok.mpr ⟨placed, hplaced, bind_eq_ok.mpr ⟨runs, hruns, bind_eq_ok.mpr
    ⟨rated, hrated, bind_eq_ok.mpr ⟨executed, hexecuted, bind_eq_ok.mpr ⟨agents, hagents, bind_eq_ok.mpr
      ⟨publications, hpublications, rfl⟩⟩⟩⟩⟩⟩⟩

/-! ### Restoring activity -/

theorem mem_drainsWhere {selected : HistoryDrainId → HistoryDrainRow → Bool} {d : HistoryDrainId} :
    d ∈ db.drainsWhere selected ↔ ∃ row, db.historyDrains.get d = some row ∧ selected d row = true := by
  unfold drainsWhere
  rw [List.mem_map]
  constructor
  · rintro ⟨⟨d', row⟩, hmem, rfl⟩
    obtain ⟨hrow, hselected⟩ := List.mem_filter.mp ((List.mem_insertionSort _).mp hmem)
    exact ⟨row, HashMap.mem_toList.mp hrow, hselected⟩
  · rintro ⟨row, hrow, hselected⟩
    exact ⟨(d, row), (List.mem_insertionSort _).mpr
      (List.mem_filter.mpr ⟨HashMap.mem_toList.mpr hrow, hselected⟩), rfl⟩

theorem head?_of_mem {α : Type} {a : α} {l : List α} (h : a ∈ l) : ∃ b, l.head? = some b := by
  cases l with
  | nil => cases h
  | cons b _ => exact ⟨b, rfl⟩

/-- The run of an event that is not shown is canonical, and waits for a drain. -/
theorem blocked_of_eventHidden (hw : Waiting db []) {event : EventRow} (hevent : event ∈ db.events)
    (h : db.eventHidden event = true) :
    ∃ r d, event.taskRunId = some r ∧ db.associated d r = true ∧ db.openDrain d = true := by
  unfold eventHidden eventRun at h
  cases hname : event.taskRunId with
  | none =>
    rw [hname] at h
    cases h
  | some r =>
    rw [hname, Option.bind_some] at h
    cases hget : db.taskRuns.get r with
    | none =>
      rw [hget] at h
      cases h
    | some row =>
      rw [hget, Option.any_some, Bool.not_eq_true'] at h
      have hcanonical : row.mergedInto = none := by
        by_contra halias
        rw [hw.eventRuns event hevent r row hname hget halias] at h
        cases h
      have hblocked := (hw.hidden r row (canonical_eq_some.mpr ⟨hget, hcanonical⟩) h).resolve_right
        fun hpromised => List.not_mem_nil hpromised.1
      obtain ⟨d, hassoc, hopen⟩ := blocked_iff.mp hblocked
      exact ⟨r, d, rfl, hassoc, hopen⟩

/-- An event that waits for a drain is filed under one. -/
theorem deferredDrain_ok (hw : Waiting db []) {event : EventRow} (hevent : event ∈ db.events)
    (h : db.deferredEvent event = true) : ∃ d, db.deferredDrain event = some d := by
  unfold deferredDrain
  split_ifs with hhidden
  · obtain ⟨r, d, hname, hassoc, hopen⟩ := blocked_of_eventHidden hw hevent hhidden
    obtain ⟨row, hrow, hat⟩ := openDrain_iff.mp hopen
    exact head?_of_mem (mem_drainsWhere.mpr ⟨row, hrow, by simp [hat, hname, hassoc]⟩)
  · have hshown : db.eventHidden event = false := Bool.eq_false_iff.mpr hhidden
    -- where no drain of the event is open, one keeps a before-image of it
    have himage : (event.historyDrainId.any fun d => !db.finalizedDrain d || db.eventHidden event) = false →
        ∃ d, (db.imageDrains event (·.finalizedAtMs.isNone)).head? = some d := by
      intro hnone
      unfold deferredEvent at h
      rw [hnone, Bool.false_or, Bool.and_eq_true, Bool.not_eq_true', List.isEmpty_eq_false_iff_exists_mem] at h
      obtain ⟨d, hd⟩ := h.2
      simp only [hshown, Bool.or_false] at hd
      exact head?_of_mem hd
    cases hdrain : event.historyDrainId with
    | none => exact himage (by rw [hdrain]; rfl)
    | some d =>
      dsimp only
      split_ifs with hfinalized
      · exact himage (by rw [hdrain, Option.any_some, hfinalized, hshown]; rfl)
      · exact ⟨d, rfl⟩

/-- The events that are restored are events that are stored. -/
theorem mem_latestActivity {selected : EventRow → Bool} {event : EventRow}
    (h : event ∈ db.latestActivity selected) : event ∈ db.events ∧ selected event = true :=
  List.mem_filter.mp ((List.mem_insertionSort _).mp (List.mem_of_mem_take h))

theorem loadDeferredHistoryActivity_ok (hr : Readable db) (hw : Waiting db []) :
    ∃ deferred, db.loadDeferredHistoryActivity = .ok deferred := by
  obtain ⟨deferred, hdeferred, -⟩ := foldlM_succeeds
    (I := fun _ : HashMap HistoryDrainId (List ActivityItem) => True) (f := db.deferEvent)
    (l := db.latestActivity db.deferredEvent) (s := ∅) (fun event hevent deferred _ => by
      obtain ⟨hmem, hwaits⟩ := mem_latestActivity hevent
      obtain ⟨d, hd⟩ := deferredDrain_ok hw hmem hwaits
      obtain ⟨item, hitem⟩ := hr.events event hmem event.taskRunId
      unfold deferEvent
      rw [hd]
      exact ⟨_, bind_eq_ok.mpr ⟨item, hitem, rfl⟩, trivial⟩) trivial
  exact ⟨deferred, hdeferred⟩

theorem nextOrdinal_ok (hr : Readable db) : ∃ next, db.nextOrdinal = .ok next := by
  unfold nextOrdinal
  cases hmax : db.displayOrdinals.values.max? with
  | none => exact ⟨_, rfl⟩
  | some maximum =>
    obtain ⟨entity, hget⟩ := HashMap.mem_values.mp (List.max?_mem hmax)
    dsimp only
    rw [if_pos (hr.ordinals entity maximum hget)]
    exact ⟨_, rfl⟩

theorem nextIngestSeq_ok (hr : Readable db) : ∃ next, db.nextIngestSeq = .ok next := by
  unfold nextIngestSeq
  rw [if_pos (by simpa using hr.sequence)]
  exact ⟨_, rfl⟩

theorem loadRestoredState_ok (hr : Restorable db) : ∃ restored, db.loadRestoredState = .ok restored := by
  obtain ⟨model, hmodel⟩ := restoreModel_ok hr
  obtain ⟨deferred, hdeferred⟩ := loadDeferredHistoryActivity_ok hr.readable hr.waiting
  obtain ⟨next, hnext⟩ := nextOrdinal_ok hr.readable
  obtain ⟨seq, hseq⟩ := nextIngestSeq_ok hr.readable
  exact ⟨_, bind_eq_ok.mpr ⟨model, hmodel, bind_eq_ok.mpr ⟨deferred, hdeferred, bind_eq_ok.mpr
    ⟨next, hnext, bind_eq_ok.mpr ⟨seq, hseq, rfl⟩⟩⟩⟩⟩

theorem loadRestoredOperatorState_ok (hr : Readable db) :
    ∃ restored, db.loadRestoredOperatorState = .ok restored := by
  obtain ⟨activity, hactivity⟩ := mapM_succeeds (f := fun event => activityItem event (db.shownRun event))
    (l := db.latestActivity db.visibleEvent) fun event hevent =>
      hr.events event (mem_latestActivity hevent).1 (db.shownRun event)
  obtain ⟨publications, hpublications⟩ := loadHistoryRunPublications_ok hr
  exact ⟨_, bind_eq_ok.mpr ⟨activity, hactivity, bind_eq_ok.mpr ⟨publications, hpublications, rfl⟩⟩⟩

/-- Every database that was reached is restored, and every run that is hidden in it waits for a drain that
is not finalized. -/
theorem restore_succeeds (h : Kept db) :
    (∃ restored, db.loadRestoredState = .ok restored) ∧
      (∃ restored, db.loadRestoredOperatorState = .ok restored) ∧
      ∀ r row, db.canonical r = some row → row.state.historyReady = false →
        ∃ d, db.associated d r = true ∧ db.openDrain d = true := by
  have hr := kept_restorable h
  refine ⟨loadRestoredState_ok hr, loadRestoredOperatorState_ok hr.readable, fun r row hrow hhidden => ?_⟩
  exact blocked_iff.mp ((hr.waiting.hidden r row hrow hhidden).resolve_right
    fun hpromised => List.not_mem_nil hpromised.1)

/-- A run that a drain contributed to has an event. -/
def hiddenEventBatch : PersistV6Batch :=
  { twoDrainsBatch with
    operations := [.recordEvent
      (.agentStatusChanged { eventId := "e", timestampMs := 0, receiptTimeMs := 0, taskRunId := some ⟨2⟩ } "x"
        .working) 0] }

def hiddenEvent : Database := left (applyV6Batch {} hiddenEventBatch)

/-- The run with the event is absorbed. -/
def eventAbsorbed : Database := left (hiddenEvent.applyBatch [.mergeTaskRuns ⟨1⟩ ⟨2⟩])

/-- One of the two drains is finalized. -/
def oneDrainLeft : Database := left ((eventAbsorbed.finalizeHistoryDrain (readingDrain drainA 0 10) 7).map Prod.fst)

theorem hiddenEventBatch_promised : Promised {} hiddenEventBatch where
  events before event seenAtMs after r heq hr := by
    rcases before with _ | ⟨op, before⟩
    · refine ⟨?_, List.not_mem_nil⟩
      rintro ⟨t, ht⟩
      cases ht
    · have hlength := congrArg List.length heq
      simp [hiddenEventBatch] at hlength
  numbers op hop := by
    rw [List.mem_singleton.mp hop]
    exact ⟨fun _ h => (by cases h), fun _ h => (by cases h)⟩
  ordinals := by decide
  hidden run hrun _ _ := by
    revert run
    decide
  totals entry hentry := by cases hentry
  associations association _ := by
    refine ⟨?_, List.not_mem_nil⟩
    rintro ⟨t, ht⟩
    cases ht

/-- A run with a drain absorbs another one with an event and a drain, its own drain is finalized, and old rows are
cleaned up: what is left is restored, and the run still waits for the drain that it took over. -/
theorem restore_succeeds_oneDrainLeft :
    (oneDrainLeft.cleanupRetention 10).1.loadRestoredState.isOk = true ∧
      (oneDrainLeft.cleanupRetention 10).1.loadRestoredOperatorState.isOk = true ∧
      (∃ row, (oneDrainLeft.cleanupRetention 10).1.canonical ⟨1⟩ = some row ∧ row.state.historyReady = false) ∧
      ∃ d, (oneDrainLeft.cleanupRetention 10).1.associated d ⟨1⟩ = true ∧
        (oneDrainLeft.cleanupRetention 10).1.openDrain d = true := by
  have hbatch : applyV6Batch {} hiddenEventBatch = .ok hiddenEvent := rfl
  have hmerge : hiddenEvent.applyBatch [.mergeTaskRuns ⟨1⟩ ⟨2⟩] = .ok eventAbsorbed := rfl
  have hfinalize : eventAbsorbed.finalizeHistoryDrain (readingDrain drainA 0 10) 7 =
      .ok (oneDrainLeft, ⟨drainA, 7, [drainA], [⟨⟨1⟩, { historyReady := false }⟩]⟩) := rfl
  have hnone : EventsNameNoAlias hiddenEvent [.mergeTaskRuns ⟨1⟩ ⟨2⟩] := by
    intro before event seenAtMs after r heq _
    rcases before with _ | ⟨op, before⟩
    · cases heq
    · have hlength := congrArg List.length heq
      simp at hlength
  have hfit : ∀ op ∈ [PersistOp.mergeTaskRuns ⟨1⟩ ⟨2⟩], NumbersFit op := by
    intro op hop
    rw [List.mem_singleton.mp hop]
    exact ⟨fun _ h => (by cases h), fun _ h => (by cases h)⟩
  have hkept : Kept oneDrainLeft := .finalize (.batch (.v6Batch .empty (fun _ => hiddenEventBatch_promised) hbatch)
    hnone hfit hmerge) hfinalize
  obtain ⟨⟨restored, hrestored⟩, ⟨operator, hoperator⟩, hwaits⟩ := restore_succeeds (hkept.cleanup 10)
  obtain ⟨row, hrow⟩ := Option.isSome_iff_exists.mp
    (show ((oneDrainLeft.cleanupRetention 10).1.canonical ⟨1⟩).isSome = true by decide +kernel)
  have hhidden : row.state.historyReady = false := by
    have hstored : ((oneDrainLeft.cleanupRetention 10).1.canonical ⟨1⟩).map (·.state.historyReady) =
      some false := by decide +kernel
    rw [hrow] at hstored
    exact Option.some.inj hstored
  exact ⟨by rw [hrestored]; rfl, by rw [hoperator]; rfl, ⟨row, hrow, hhidden⟩, hwaits ⟨1⟩ row hrow hhidden⟩

/-- An event of a run that is hidden although no drain contributed to it. -/
def unassociatedBatch : PersistV6Batch where
  operations := [.recordEvent
    (.agentStatusChanged { eventId := "e", timestampMs := 0, receiptTimeMs := 0, taskRunId := some ⟨1⟩ } "x"
      .working) 0]
  taskRuns := [sampleRun 1 false]
  historyDrains := [sampleDrain drainA]
  historyEventDrain := some drainA

def unassociated : Database := left (applyV6Batch {} unassociatedBatch)

/-- A run with the last display ordinal. -/
def lastNumbered : Database := left (applyBatch {} [.upsertTaskRun
  { taskRun :=
      { runId := ⟨1⟩
        key := .native .claude "1"
        displayOrdinal := i64Max
        state := .running
        hasControllerTaskStateEvent := false }
    nativeSession := none
    createdAtMs := 0
    updatedAtMs := 0
    finishedAtMs := none }])

/-- Rate totals of a run that was absorbed. -/
def absorbedTotals : Database := left (absorbedRun.applyV6Batch { rateTotals := [(⟨2⟩, {})] })

/-- An event of a run that was absorbed before. -/
def absorbedNamedBatch : PersistV6Batch where
  operations := [.recordEvent
    (.agentStatusChanged { eventId := "f", timestampMs := 0, receiptTimeMs := 0, taskRunId := some ⟨2⟩ } "x"
      .working) 0]
  historyDrains := [readingDrain drainA 0 10]
  historyEventDrain := some drainA

def absorbedNamed : Database := left (eventAbsorbed.applyV6Batch absorbedNamedBatch)

/-- The store accepts a run that is hidden and that no drain contributed to, the last display ordinal, rate totals
of a run that was absorbed, and an event of one; the restore then fails. -/
theorem restore_fails_unassociated :
    (applyV6Batch {} unassociatedBatch = .ok unassociated ∧
      unassociated.loadRestoredState.isOk = false ∧
      (unassociated.canonical ⟨1⟩).map (·.state.historyReady) = some false ∧
      HashMap.keys unassociated.historyDrainRuns = []) ∧
    (lastNumbered.taskRuns.contains ⟨1⟩ = true ∧ lastNumbered.loadRestoredState.isOk = false) ∧
    (absorbedTotals.runRateTotals.contains ⟨2⟩ = true ∧ absorbedTotals.loadRestoredState.isOk = false) ∧
    (eventAbsorbed.applyV6Batch absorbedNamedBatch).isOk = true ∧
      absorbedNamed.loadRestoredState.isOk = false := by
  refine ⟨by decide, ?_, ?_, ?_⟩
  · decide +kernel
  · decide +kernel
  · decide +kernel

end Database

end HerdrTop
