import HerdrTop.Reducer.Failures
import HerdrTop.Reducer.Lineage
import HerdrTop.Reducer.Rollback
import HerdrTop.Reducer.Settling
import HerdrTop.Reducer.Staging

/-!
# Runs of the reducer

`Action` lists the entry points of the reducer with their inputs, and `Reducer.perform` does one.
A step is an action that the collector, the acceptor or the operator may take; its labels are the
merges it made. Every step is a sequence of writes and of changes to how much of a run's history is
shown, so what each of those keeps holds in every reachable state.
-/

namespace HerdrTop

/-! ### Changes -/

/-- A write, or a change to what is known and shown of the history of runs. -/
inductive Change (scope : Scope) : Core → List Merge → Core → Prop
  /-- A write. -/
  | mutation {c c' : Core} {l : List Merge} (h : Mutation scope c l c') :
      Change scope c l c'
  /-- Other states of runs, other before-images. -/
  | history {c : Core} (states : HashMap RunId TaskRunV6State)
      (publications : HashMap RunId HistoryRunPublication) :
      Change scope c [] (c.withModel
        { c.model with v6States := states, historyRunPublications := publications })

/-- A sequence of changes, with its merges. -/
abbrev Changes (scope : Scope) : Core → List Merge → Core → Prop :=
  Runs (Change scope)

section

variable {scope : Scope} {c c' : Core} {l ls : List Merge}

theorem Mutations.changes (h : Mutations scope c ls c') : Changes scope c ls c' :=
  Runs.mono .mutation h

theorem Change.mono {scope' : Scope} (h : Change scope c l c') (hsub : scope.Within scope') : Change scope' c l c' := by
  cases h with
  | mutation h => exact .mutation (h.mono hsub)
  | history states publications => exact .history states publications

theorem Change.filed (h : Change scope c l c') (hf : c.model.Filed) : c'.model.Filed := by
  cases h with
  | mutation h => exact h.filed hf
  | history => exact hf.of_runs hf.run (fun _ h => h) rfl

theorem Changes.filed (h : Changes scope c ls c') (hf : c.model.Filed) : c'.model.Filed :=
  h.invariant (I := fun c => c.model.Filed) Change.filed hf

theorem Change.identified (h : Change scope c l c') (hs : scope.strict = true) (hc : c.Identified) :
    NameIndex.Steps runKeyKinds c.model.index l c'.model.index ∧ c'.Identified := by
  cases h with
  | mutation h => exact h.identified hs hc
  | history =>
    exact ⟨NameIndex.Steps.refl _, ⟨hc.sound.filed, hc.sound.index⟩, hc.nonneg, hc.fresh, hc.numbered⟩

theorem Changes.identified (h : Changes scope c ls c') (hs : scope.strict = true)
    (hc : c.Identified) :
    NameIndex.Steps runKeyKinds c.model.index ls c'.model.index ∧ c'.Identified := by
  induction h with
  | refl => exact ⟨NameIndex.Steps.refl _, hc⟩
  | tail _ hm ih =>
    obtain ⟨hsteps, hi⟩ := hm.identified hs ih.2
    exact ⟨ih.1.trans hsteps, hi⟩

theorem Change.keeps_run (h : Change scope c l c') (hf : c.model.Filed) {id : RunId}
    {run : TaskRun} (hrun : c.model.taskRuns.get id = some run) (hl : ∀ p ∈ l, p.2 ≠ id) :
    ∃ run', c'.model.taskRuns.get id = some run' ∧
      (run.state.isSemanticTerminal = true → run'.state = run.state) := by
  cases h with
  | mutation h => exact h.keeps_run hf hrun hl
  | history => exact ⟨run, hrun, fun _ => rfl⟩

/-- A run that is not absorbed stays, and stays in a semantic end. -/
theorem Changes.keeps_run (h : Changes scope c ls c') (hf : c.model.Filed) {id : RunId}
    {run : TaskRun} (hrun : c.model.taskRuns.get id = some run) (hl : ∀ p ∈ ls, p.2 ≠ id) :
    ∃ run', c'.model.taskRuns.get id = some run' ∧
      (run.state.isSemanticTerminal = true → run'.state = run.state) := by
  induction h with
  | refl => exact ⟨run, hrun, fun _ => rfl⟩
  | tail hr hm ih =>
    obtain ⟨run', hrun', hs⟩ := ih fun p h => hl p (List.mem_append_left _ h)
    obtain ⟨run'', hrun'', hs'⟩ := hm.keeps_run (Changes.filed hr hf) hrun' fun p h =>
      hl p (List.mem_append_right _ h)
    exact ⟨run'', hrun'', fun hend => (hs' (by rw [hs hend]; exact hend)).trans (hs hend)⟩

/-- The run that stands for one is stored after a change if it was before. -/
theorem Change.stands (h : Change scope c l c') (hf : c.model.Filed) {id : RunId}
    (hrun : c.model.HasRun id) : c'.model.HasRun (l.foldl redirect id) := by
  have hkept : ∀ {l}, Change scope c l c' → (∀ p ∈ l, p.2 ≠ id) → c'.model.HasRun (l.foldl redirect id) := by
    intro l h hl
    obtain ⟨run, hstored⟩ := hrun.exists
    obtain ⟨run', hstored', -⟩ := h.keeps_run hf hstored hl
    rw [redirects_of_notMem hl]
    exact .of_get hstored'
  by_cases hl : ∀ p ∈ l, p.2 ≠ id
  · exact hkept h hl
  · -- the run is absorbed, and its survivor is there
    cases h with
    | history => exact absurd (by simp) hl
    | mutation h =>
      cases h with
      | binding applied =>
        rename_i plan timestampMs aliasRunId m persist
        have happlied := applyBindingPlanAt_applied hf.run applied
        generalize mergesOf persist = l at happlied hl
        cases happlied with
        | merged hp =>
          rename_i s a sr ar g
          have hid : a = id := by simpa using hl
          have hsurvivor := hasRun_mergedModel hf hp timestampMs hrun
          rw [substitute, if_pos hid.symm] at hsurvivor
          rwa [List.foldl_cons, List.foldl_nil, redirect, if_pos hid]
        | unchanged => exact absurd (by simp) hl
        | touched => exact absurd (by simp) hl
        | bound => exact absurd (by simp) hl
      | _ => exact absurd (by simp) hl

theorem Changes.stands (h : Changes scope c ls c') (hf : c.model.Filed) {id : RunId}
    (hrun : c.model.HasRun id) : c'.model.HasRun (ls.foldl redirect id) := by
  induction h with
  | refl => exact hrun
  | tail hr hm ih =>
    rw [List.foldl_append]
    exact hm.stands (Changes.filed hr hf) ih

theorem Change.graphs (h : Change scope c l c') (hf : c.model.Filed)
    (hg : GraphsWellFormed c.model) : GraphsWellFormed c'.model := by
  cases h with
  | mutation h => exact h.graphs hf hg
  | history => exact ⟨hg.dispatch, hg.dependency⟩

end

/-! ### Actions -/

/-- The entry points of the reducer, with their inputs. -/
inductive Action
  /-- Events of the collector. -/
  | observation (events : List (NormalizedEvent × RunId)) (nowMs : ℤ)
  /-- Events that come with the agent status of a pane. -/
  | paneObservation (events : List (NormalizedEvent × RunId))
      (observation : PaneAgentStatusObservation) (nowMs : ℤ)
  /-- The one rollout that matches a sessionless pane. -/
  | heuristicBinding (run : RunId) (sid : String) (bookkeepingTimeMs : ℤ) (aliasRunId : RunId)
      (nowMs : ℤ)
  /-- An event from the acceptor. -/
  | controllerEvent (event : ControllerEvent) (fresh : FreshRunIds) (nowMs : ℤ)
  /-- A provider log grew. -/
  | liveness (key : RunKey) (atMs observedAtMs nowMs : ℤ)
  /-- A provider log fell silent. -/
  | laneClose (key : RunKey) (atMs observedAtMs nowMs : ℤ)
  /-- A usage sample. -/
  | telemetry (key : RunKey) (sample : PendingTelemetry) (nowMs : ℤ)
  /-- A provider event, up to the answer of the store. -/
  | providerEvent (origin : ObservationOrigin) (work : Reducer.ProviderWork)
      (historyManifest : Option PersistHistoryDrain) (providerAtMs observedAtMs nowMs : ℤ)
      (outcome : RuntimeWriteOutcome)
  /-- The result of the finalization of a drain. -/
  | finalization (finalization : HistoryDrainFinalization) (nowMs : ℤ)
  /-- A snapshot of the topology. -/
  | snapshot (topology : TopologySnapshot) (draws : ℕ → PaneDraw) (nowMs : ℤ) (closeMs : String → ℤ)
      (epochMs publishMs : ℤ)
  /-- The passage of time. -/
  | sweep (nowMs publishMs : ℤ)
  /-- What the operator asks for. -/
  | operator (command : OperatorCommand) (nowMs publishMs : ℤ)
  /-- A binding conflict met outside the reducer. -/
  | bindingConflict (nowMs : ℤ)
  /-- A disagreement about the identity of a session. -/
  | identityDisagreement (nowMs : ℤ)
  /-- A stored event of the lane that is replayed. -/
  | replayed (event : ControllerEvent) (nowMs : ℤ)
  /-- A new epoch of rates. -/
  | beginEpoch
  /-- The epoch is observed from now on. -/
  | activateEpoch (observedAtMs : ℤ)
  /-- Totals are flushed. -/
  | checkpointRates (observedAtMs : ℤ)
  /-- Totals could not be flushed. -/
  | restoreTotals (totals : List (RunId × RunRateTotals))

/-- What an action may do to the topology. -/
def Action.rows : Action → RowScope
  | .observation _ _ | .paneObservation _ _ _ | .snapshot _ _ _ _ _ _ => ⟨true, true⟩
  | .providerEvent _ (.observation _) _ _ _ _ _ => ⟨true, true⟩
  | _ => ⟨false, false⟩

/-- The merges of a result that was applied. -/
def appliedMerges : Except ReducerError ApplyOutcome → List Merge
  | .ok (.applied persist) => mergesOf persist
  | _ => []

namespace Reducer

/-- Does one action: the reducer after it and the merges it made; `none` where the program stops. -/
def perform (r : Reducer) : Action → Option (Reducer × List Merge)
  | .observation events nowMs =>
    some ((r.applyObservation events nowMs).1, appliedMerges (r.applyObservation events nowMs).2)
  | .paneObservation events observation nowMs =>
    some ((r.applyPaneAgentObservation events observation nowMs).1,
      appliedMerges (r.applyPaneAgentObservation events observation nowMs).2)
  | .heuristicBinding run sid bookkeepingTimeMs aliasRunId nowMs =>
    some ((r.applyHeuristicBinding run sid bookkeepingTimeMs aliasRunId nowMs).1,
      appliedMerges (.ok (r.applyHeuristicBinding run sid bookkeepingTimeMs aliasRunId nowMs).2))
  | .controllerEvent event fresh nowMs =>
    some ((r.applyControllerEvent event fresh nowMs).1,
      mergesOf ((r.applyControllerEvent event fresh nowMs).2.getD []))
  | .liveness key atMs observedAtMs nowMs =>
    some ((r.touchRunLivenessObserved key atMs observedAtMs nowMs).1,
      mergesOf (r.touchRunLivenessObserved key atMs observedAtMs nowMs).2)
  | .laneClose key atMs observedAtMs nowMs =>
    some ((r.applyLaneCloseObserved key atMs observedAtMs nowMs).1,
      mergesOf (r.applyLaneCloseObserved key atMs observedAtMs nowMs).2)
  | .telemetry key sample nowMs => some (r.applyTelemetryWithBreakdown key sample nowMs, [])
  | .providerEvent origin work historyManifest providerAtMs observedAtMs nowMs outcome =>
    (r.applyProviderEvent origin work historyManifest providerAtMs observedAtMs nowMs outcome).map
      fun result => (result.1, mergesOf result.2)
  | .finalization finalization nowMs => some ((r.applyHistoryFinalization finalization nowMs).1, [])
  | .snapshot topology draws nowMs closeMs epochMs publishMs =>
    some ((r.reconcileSnapshot topology draws nowMs closeMs epochMs publishMs).1,
      mergesOf ((r.reconcileSnapshot topology draws nowMs closeMs epochMs publishMs).2.toOption.getD []))
  | .sweep nowMs publishMs =>
    some ((r.sweepStale nowMs publishMs).1, mergesOf (r.sweepStale nowMs publishMs).2)
  | .operator command nowMs publishMs =>
    some ((r.applyOperatorCommand command nowMs publishMs).1,
      mergesOf (r.applyOperatorCommand command nowMs publishMs).2)
  | .bindingConflict nowMs => some (r.recordBindingConflict nowMs, [])
  | .identityDisagreement nowMs => some (r.recordProviderIdentityDisagreement nowMs, [])
  | .replayed event nowMs => some (r.restoreReplayedControllerTransients event nowMs, [])
  | .beginEpoch => some (r.beginRateEpoch, [])
  | .activateEpoch observedAtMs => some (r.activateRateEpoch observedAtMs, [])
  | .checkpointRates observedAtMs => some ((r.checkpointRunRates observedAtMs).1, [])
  | .restoreTotals totals => some (r.restoreDirtyRateTotals totals, [])

/-- What may be given to an action: events of an observation state nothing only a Controller may
state, and the identities drawn for panes are new. -/
def Admissible (strict : Bool) (r : Reducer) : Action → Prop
  | .observation events _ => ∀ e ∈ events, Tx.Observed strict e.1
  | .paneObservation events _ _ => ∀ e ∈ events, Tx.Observed strict e.1
  | .providerEvent _ (.observation events) _ _ _ _ _ => ∀ e ∈ events, Tx.Observed strict e.1
  | .snapshot topology draws _ _ _ _ => Tx.FreshDraws strict r.model topology.panes draws
  | _ => True

/-- One admissible action, with its merges. -/
def Step (strict : Bool) (r : Reducer) (l : List Merge) (r' : Reducer) : Prop :=
  ∃ action, Admissible strict r action ∧ r.perform action = some (r', l)

end Reducer

/-! ### Every action is a sequence of changes -/

theorem mergesOf_normalizeLineage (batch : PersistBatch) (mergedInto : HashMap RunId RunId) :
    mergesOf (normalizeLineage batch mergedInto) = mergesOf batch := by
  induction batch generalizing mergedInto with
  | nil => rfl
  | cons op rest ih =>
    cases op <;> simp only [normalizeLineage, mergesOf, List.filterMap_cons] <;>
      first
        | exact ih _
        | exact congrArg _ (ih _)

@[simp] theorem mergesOf_normalize (batch : PersistBatch) :
    mergesOf (normalizePersistBatchLineage batch) = mergesOf batch := mergesOf_normalizeLineage batch ∅

@[simp] theorem mergesOf_stampIngestSeq (batch : PersistBatch) (ingestSeq : ℤ) :
    mergesOf (stampIngestSeq batch ingestSeq) = mergesOf batch := by
  unfold mergesOf stampIngestSeq
  rw [List.filterMap_map]
  refine List.filterMap_congr fun op _ => ?_
  cases op <;> rfl

/-- Changes to what is measured and counted. -/
theorem Changes.of_unmeasured {scope : Scope} {c c' : Core}
    (h : c'.unmeasured = c.unmeasured) : Changes scope c [] c' := by
  have hrows : c'.unmeasured.model.rows = c.unmeasured.model.rows := by rw [h]
  have htopology : c'.unmeasured.model.topology = c.unmeasured.model.topology := by rw [h]
  have hordinal : c'.unmeasured.nextOrdinal = c.unmeasured.nextOrdinal := by rw [h]
  exact .one (.mutation (.quiet hrows (fun _ _ => htopology) hordinal.ge))

theorem Changes.measure {scope : Scope} {c c' c'' : Core} {ls : List Merge}
    (h : Changes scope c ls c') (hu : c''.unmeasured = c'.unmeasured) :
    Changes scope c ls c'' := by
  simpa using h.trans (Changes.of_unmeasured hu)

theorem Tx.Writes.changes {scope : Scope} {tx tx' : Tx}
    (h : tx.Writes scope tx') (hf : tx.model.Filed) :
    Changes scope tx.toCore [] tx'.toCore := (h hf).1.changes

namespace Reducer

section

variable {strict bare : Bool} {rows : RowScope} {r : Reducer}

/-- A transaction without a merge hands none to the store. -/
theorem mergesOf_begin {tx : Tx} (hf : r.model.Filed) (h : r.begin.Writes (.wide strict rows bare) tx) :
    mergesOf tx.persist = [] := (h hf).2

theorem install_changes {tx : Tx} {publish : Bool} {nowMs : ℤ} (hf : r.model.Filed)
    (h : r.begin.Writes (.wide strict rows bare) tx) :
    Changes (.wide strict rows bare) r.toCore (mergesOf tx.persist) (r.install tx publish nowMs).toCore := by
  rw [mergesOf_begin hf h]
  exact (h.changes hf).measure (unmeasured_install r tx publish nowMs)

/-- The reducer with the agent status that comes with an observation. -/
def noted (r : Reducer) (observation : Option PaneAgentStatusObservation) : Reducer :=
  (observation.filter r.paneAgentStatusChanged).elim r r.notePaneAgentStatus

/-- A status changes nothing that carries identities. -/
theorem noted_rows (r : Reducer) (observation : Option PaneAgentStatusObservation) :
    (r.noted observation).model.rows = r.model.rows ∧
      (∀ kind id, (r.noted observation).model.HasRow kind id ↔ r.model.HasRow kind id) ∧
      (r.noted observation).nextOrdinal = r.nextOrdinal := by
  unfold noted
  cases observation.filter r.paneAgentStatusChanged with
  | none => exact ⟨rfl, fun _ _ => Iff.rfl, rfl⟩
  | some changed => exact ⟨rfl, fun kind _ => by cases kind <;> exact Iff.rfl, rfl⟩

/-- The status of a pane is noted where rows of the topology may be stored. -/
theorem noted_changes {observation : Option PaneAgentStatusObservation}
    (hnote : observation = none ∨ rows.opens = true) :
    Changes (.wide strict rows bare) r.toCore [] (r.noted observation).toCore := by
  obtain ⟨hkept, -, hordinal⟩ := r.noted_rows observation
  rcases hnote with rfl | hopens
  · exact .refl _
  · refine .one (.mutation (.quiet hkept (fun hclosed => ?_) hordinal.ge))
    have hclosed' : rows.opens = false := hclosed
    simp [hopens] at hclosed'

/-- The events of an observation are applied, or nothing is. -/
theorem applyObservationInner_cases (r : Reducer) (events : List (NormalizedEvent × RunId))
    (observation : Option PaneAgentStatusObservation) (nowMs : ℤ) :
    ((r.applyObservationInner events observation nowMs).1.toCore = r.toCore ∧
      appliedMerges (r.applyObservationInner events observation nowMs).2 = []) ∨
    ∃ tx, applyEvents (r.noted observation).toCore events = .ok tx ∧
      (r.applyObservationInner events observation nowMs).1.toCore.unmeasured = tx.toCore.unmeasured ∧
      appliedMerges (r.applyObservationInner events observation nowMs).2 = mergesOf tx.persist := by
  unfold applyObservationInner
  dsimp only
  split_ifs
  · exact .inl ⟨rfl, rfl⟩
  · split
    · rename_i tx happ
      exact .inr ⟨tx, happ, by simp [withCore], mergesOf_normalize _⟩
    · exact .inl ⟨rfl, rfl⟩
    · exact .inl ⟨rfl, rfl⟩

theorem applyObservationInner_changes {events : List (NormalizedEvent × RunId)}
    {observation : Option PaneAgentStatusObservation} {nowMs : ℤ} (hf : r.model.Filed)
    (hnote : observation = none ∨ rows.opens = true)
    (hobs : ∀ e ∈ events, Tx.Observed strict e.1) (hrows : ∀ e ∈ events, Tx.Allowed rows e.1) :
    Changes (.wide strict rows) r.toCore
      (appliedMerges (r.applyObservationInner events observation nowMs).2)
      (r.applyObservationInner events observation nowMs).1.toCore := by
  rcases r.applyObservationInner_cases events observation nowMs with ⟨hcore, hmerges⟩ |
    ⟨tx, happ, hcore, hmerges⟩
  · rw [hcore, hmerges]
    exact .refl _
  · have hnoted : Changes (.wide strict rows) r.toCore [] (r.noted observation).toCore :=
      noted_changes hnote
    have hevents : Changes (.wide strict rows) (r.noted observation).toCore (mergesOf tx.persist)
        tx.toCore := (Tx.applyEvents_mutations hobs hrows (hnoted.filed hf) happ).changes
    rw [hmerges]
    exact Changes.measure (Runs.before hnoted hevents) hcore

theorem applyHeuristicBinding_changes {run : RunId} {sid : String} {bookkeepingTimeMs : ℤ}
    {aliasRunId : RunId} {nowMs : ℤ} (hf : r.model.Filed) :
    Changes (.wide strict rows bare) r.toCore
      (appliedMerges (.ok (r.applyHeuristicBinding run sid bookkeepingTimeMs aliasRunId nowMs).2))
      (r.applyHeuristicBinding run sid bookkeepingTimeMs aliasRunId nowMs).1.toCore := by
  rw [applyHeuristicBinding_eq]
  split
  · rename_i tx happ
    obtain ⟨ls, hm, hp⟩ : ∃ ls, Mutations (.wide strict rows bare) _ ls _ ∧ _ := Tx.applyBinding_mutates happ hf
    simp only [appliedMerges, mergesOf_normalize]
    have hls : mergesOf tx.persist = ls := hp
    rw [hls]
    exact (Mutations.changes hm).measure (by simp [withCore])
  · exact .refl _
  · exact .refl _

theorem commitStaged_ok {r' : Reducer} {delta : MaterializedDelta} {nowMs : ℤ} {batch : PersistBatch}
    (h : r.commitStaged delta nowMs = (r', .ok batch)) :
    r'.toCore.unmeasured = delta.post.unmeasured ∧ mergesOf batch = mergesOf delta.batch := by
  unfold commitStaged at h
  split at h
  · cases h
  · cases h
    refine ⟨(unmeasured_submit _ _ _).trans rfl, ?_⟩
    rw [mergesOf_normalize]
    exact mergesOf_stampIngestSeq _ _

theorem commitStaged_error {r' : Reducer} {delta : MaterializedDelta} {nowMs : ℤ}
    {error : CommitStagedError} (h : r.commitStaged delta nowMs = (r', .error error)) :
    r'.toCore.unmeasured = r.toCore.unmeasured := by
  unfold commitStaged at h
  split at h
  · cases h
    exact (unmeasured_publish _ _).trans rfl
  · cases h

theorem applyControllerEvent_changes {event : ControllerEvent} {fresh : FreshRunIds} {nowMs : ℤ}
    (hf : r.model.Filed) (hc : strict = true → r.model.IndexSound) :
    Changes (.wide strict rows bare) r.toCore (mergesOf ((r.applyControllerEvent event fresh nowMs).2.getD []))
      (r.applyControllerEvent event fresh nowMs).1.toCore := by
  unfold applyControllerEvent
  split
  · exact .refl _
  · rename_i delta hdelta
    have hm : Changes (.wide strict rows bare) r.toCore (mergesOf delta.batch) delta.post :=
      (Tx.validateControllerEvent_mutations rfl rfl hf hc hdelta).changes
    split
    · rename_i r' batch hcommit
      obtain ⟨hpost, hmerges⟩ := commitStaged_ok hcommit
      rw [Option.getD_some, hmerges]
      exact hm.measure hpost
    · rename_i r' error hcommit
      exact Changes.of_unmeasured (commitStaged_error hcommit)

theorem touchRunLivenessObserved_changes {key : RunKey} {atMs observedAtMs nowMs : ℤ}
    (hf : r.model.Filed) : Changes (.wide strict rows bare) r.toCore
      (mergesOf (r.touchRunLivenessObserved key atMs observedAtMs nowMs).2)
      (r.touchRunLivenessObserved key atMs observedAtMs nowMs).1.toCore :=
  install_changes hf (Tx.touchRunLivenessObserved_writes _ _ _ _)

theorem applyLaneCloseObserved_changes {key : RunKey} {atMs observedAtMs nowMs : ℤ}
    (hf : r.model.Filed) (hstrands : bare = false → ¬r.begin.LaneCloseStrands key) :
    Changes (.wide strict rows bare) r.toCore
      (mergesOf (r.applyLaneCloseObserved key atMs observedAtMs nowMs).2)
      (r.applyLaneCloseObserved key atMs observedAtMs nowMs).1.toCore :=
  install_changes hf (Tx.applyLaneCloseObserved_writes _ _ _ _ hstrands)

theorem unmeasured_applyTelemetry (r : Reducer) (key : RunKey) (sample : PendingTelemetry)
    (nowMs : ℤ) : (r.applyTelemetryWithBreakdown key sample nowMs).toCore.unmeasured =
      r.toCore.unmeasured := by
  unfold applyTelemetryWithBreakdown
  split
  · rw [unmeasured_publish, unmeasured_accumulateTelemetry]
  · rw [enqueuePendingTelemetry_toCore]

theorem reconcileSnapshot_changes {topology : TopologySnapshot} {draws : ℕ → PaneDraw} {nowMs : ℤ}
    {closeMs : String → ℤ} {epochMs publishMs : ℤ} (hf : r.model.Filed)
    (hopens : rows.opens = true) (hcloses : rows.closes = true)
    (hfresh : Tx.FreshDraws strict r.model topology.panes draws) :
    Changes (.wide strict rows) r.toCore
      (mergesOf ((r.reconcileSnapshot topology draws nowMs closeMs epochMs publishMs).2.toOption.getD []))
      (r.reconcileSnapshot topology draws nowMs closeMs epochMs publishMs).1.toCore := by
  rw [reconcileSnapshot_eq]
  split
  · exact .refl _
  · rename_i tx happ
    have hw : r.begin.Writes (.wide strict rows) tx :=
      Tx.reconcileSnapshotInner_writes hopens hcloses hfresh happ
    dsimp only [Except.toOption, Option.getD_some]
    rw [mergesOf_normalize, mergesOf_begin hf hw]
    refine (hw.changes hf).measure ?_
    rw [unmeasured_publish, unmeasured_activateRateEpoch, unmeasured_beginRateEpoch,
      unmeasured_applyPendingTelemetry, unmeasured_applyOperatorSubmission]
    rfl

theorem sweepStale_changes {nowMs publishMs : ℤ} (hf : r.model.Filed) :
    Changes (.wide strict rows) r.toCore (mergesOf (r.sweepStale nowMs publishMs).2)
      (r.sweepStale nowMs publishMs).1.toCore := by
  have hw : r.begin.Writes (.wide strict rows) (r.begin.sweepStale r.headlessInactivityMs nowMs) :=
    Tx.sweepStale_writes _ _ _ rfl
  unfold sweepStale
  dsimp only
  revert hw
  generalize r.begin.sweepStale r.headlessInactivityMs nowMs = tx
  intro hw
  split_ifs
  · exact hw.changes hf
  · rw [mergesOf_begin hf hw]
    exact (hw.changes hf).measure (by simp [withCore])

theorem applyOperatorCommand_changes {command : OperatorCommand} {nowMs publishMs : ℤ}
    (hf : r.model.Filed) : Changes (.wide strict rows bare) r.toCore
      (mergesOf (r.applyOperatorCommand command nowMs publishMs).2)
      (r.applyOperatorCommand command nowMs publishMs).1.toCore := by
  cases command with
  | dismissClearable => exact install_changes hf (Tx.dismissClearable_writes _ _)

theorem restoreReplayed_changes {event : ControllerEvent} {nowMs : ℤ} :
    Changes (.wide strict rows bare) r.toCore []
      (r.restoreReplayedControllerTransients event nowMs).toCore := by
  unfold restoreReplayedControllerTransients
  split_ifs
  · split
    · exact .refl _
    · split
      · split
        · split_ifs
          · refine Runs.before ?_ (Changes.of_unmeasured (unmeasured_publish _ _))
            exact .one (.mutation (.quiet rfl (fun _ _ => rfl) le_rfl))
          · exact .refl _
        · exact .refl _
      · split
        · split_ifs
          · refine Runs.before ?_ (Changes.of_unmeasured (unmeasured_publish _ _))
            exact .one (.mutation (.quiet rfl (fun _ _ => rfl) le_rfl))
          · exact .refl _
        · exact .refl _
      all_goals exact .one (.mutation (.quiet rfl (fun _ _ => rfl) le_rfl))
  · exact .refl _

/-! ### Provider events -/

/-- The work of a provider event, whether it comes to something or not. -/
theorem work_changes {work : ProviderWork} {nowMs : ℤ} (hf : r.model.Filed)
    (hc : strict = true → r.model.IndexSound)
    (hobs : ∀ events, work = .observation events → ∀ e ∈ events,
      Tx.Observed strict e.1 ∧ Tx.Allowed rows e.1) :
    Changes (.wide strict rows) r.toCore (mergesOf ((r.work nowMs work).2.getD []))
      (r.work nowMs work).1.toCore := by
  cases work with
  | synthesized event fresh => exact applyControllerEvent_changes hf hc
  | runLiveness key atMs observedAtMs => exact touchRunLivenessObserved_changes hf
  | laneClose key atMs observedAtMs => exact applyLaneCloseObserved_changes hf fun hb => by cases hb
  | telemetry key sample => exact Changes.of_unmeasured (unmeasured_applyTelemetry _ _ _ _)
  | observation events =>
    have h : Changes (.wide strict rows) r.toCore (appliedMerges (r.applyObservation events nowMs).2)
        (r.applyObservation events nowMs).1.toCore :=
      applyObservationInner_changes hf (.inl rfl) (fun e he => (hobs events rfl e he).1)
        (fun e he => (hobs events rfl e he).2)
    dsimp only [Reducer.work]
    revert h
    generalize r.applyObservation events nowMs = result
    intro h
    split
    · exact h
    · refine Runs.before h (Changes.of_unmeasured ?_)
      exact (unmeasured_publish _ _).trans rfl
    · exact h

theorem installHistoryPublication_history (m : DomainModel) (publication : HistoryRunPublication) :
    ∃ publications, (m.installHistoryPublication publication).1 =
      { m with historyRunPublications := publications } := by
  unfold DomainModel.installHistoryPublication
  dsimp only
  split_ifs
  · exact ⟨_, rfl⟩
  · exact ⟨_, rfl⟩

theorem captureTouched_history (before : DomainModel) (operations : PersistBatch)
    (kept : DomainModel × List HistoryRunPublication) (runId : RunId) :
    ∃ publications, (captureTouched before operations kept runId).1 =
      { kept.1 with historyRunPublications := publications } := by
  unfold captureTouched
  split_ifs
  · split
    · exact ⟨_, rfl⟩
    · exact installHistoryPublication_history kept.1 _
  · exact ⟨_, rfl⟩

/-- Before-images are kept, and nothing else changes. -/
theorem keepBeforeImages_history (m : DomainModel) (prior : Option ProviderObservationPrior)
    (origin : ObservationOrigin) (operations : PersistBatch) (touched : List RunId) :
    ∃ publications, (keepBeforeImages m prior origin operations touched).1 =
      { m with historyRunPublications := publications } := by
  have hfold : ∀ (before : DomainModel) (kept : DomainModel × List HistoryRunPublication),
      ∃ publications, (touched.foldl (captureTouched before operations) kept).1 =
        { kept.1 with historyRunPublications := publications } := by
    intro before
    induction touched with
    | nil => exact fun kept => ⟨_, rfl⟩
    | cons runId touched ih =>
      intro kept
      obtain ⟨publications, h⟩ := ih (captureTouched before operations kept runId)
      obtain ⟨publications', h'⟩ := captureTouched_history before operations kept runId
      exact ⟨publications, by rw [List.foldl_cons, h, h']⟩
  unfold keepBeforeImages
  split
  · exact hfold _ _
  · exact ⟨_, rfl⟩

/-- A touched run is stored as it is, and its state is set. -/
theorem touch_changes {c : Core} {operations : PersistBatch} {historical : Bool} {providerAtMs : ℤ}
    {f : Finishing} {runId : RunId} (hf : f.model.Filed) :
    Changes (.wide strict rows bare) (c.withModel f.model) []
      (c.withModel (f.touch operations historical providerAtMs runId).model) := by
  unfold Finishing.touch
  dsimp only
  split
  · exact .refl _
  · rename_i current hcurrent
    have hrow : f.model.taskRuns.get current.runId = some current := hf.taskRun hcurrent
    have hstore : Changes (.wide strict rows bare) (c.withModel f.model) []
        (c.withModel (f.model.insertTaskRun current)) :=
      .one (.mutation (.update (c := c.withModel f.model) hrow rfl rfl (fun _ => rfl)
        ⟨rfl, id, .inl ⟨rfl, rfl, rfl⟩⟩ fun _ => .inr (.inl rfl)))
    exact Runs.before hstore (.one (.history _ _))

theorem touches_changes {c : Core} {f : Finishing} (operations : PersistBatch) (historical : Bool)
    (providerAtMs : ℤ) (touched : List RunId) (hf : f.model.Filed) :
    Changes (.wide strict rows bare) (c.withModel f.model) [] (c.withModel
      (touched.foldl (Finishing.touch operations historical providerAtMs) f).model) := by
  induction touched generalizing f with
  | nil => exact .refl _
  | cons runId touched ih =>
    have h : Changes (.wide strict rows bare) (c.withModel f.model) []
        (c.withModel (f.touch operations historical providerAtMs runId).model) := touch_changes hf
    exact Runs.before h (ih (h.filed hf))

/-- Finishing an observation only changes what is known and shown of the history of runs. -/
theorem finish_changes {prior : Option ProviderObservationPrior} {operations : PersistBatch}
    {origin : ObservationOrigin} {historyManifest : Option PersistHistoryDrain} {providerAtMs nowMs : ℤ}
    {r' : Reducer} {batch : PersistV6Batch} {receipt : ProviderSubmissionReceipt} (hf : r.model.Filed)
    (h : r.finishProviderObservation prior operations origin historyManifest providerAtMs nowMs =
      some (r', batch, receipt)) : Changes (.wide strict rows bare) r.toCore [] r'.toCore := by
  obtain ⟨publications, hkept⟩ := keepBeforeImages_history r.model prior origin operations
    (touchedRuns r.model prior operations)
  have hhistory : Changes (.wide strict rows bare) r.toCore []
      (r.toCore.withModel { r.model with historyRunPublications := publications }) :=
    .one (.history r.model.v6States publications)
  revert hkept hhistory
  generalize ({ r.model with historyRunPublications := publications } : DomainModel) = m
  intro hkept hhistory
  have hmodel : Changes (.wide strict rows bare) r.toCore [] (r.toCore.withModel
      ((touchedRuns r.model prior operations).foldl
        (Finishing.touch operations origin.isHistorical providerAtMs) { model := m }).model) :=
    Runs.before hhistory (touches_changes (f := { model := m }) operations
      origin.isHistorical providerAtMs _ (hhistory.filed hf))
  unfold finishProviderObservation at h
  dsimp only at h
  rw [hkept] at h
  revert h hmodel
  generalize List.foldl (Finishing.touch operations origin.isHistorical providerAtMs) _ _ = finishing
  intro h hmodel
  have hdone : ∀ r'' : Reducer, r''.toCore = r.toCore.withModel finishing.model →
      Changes (.wide strict rows bare) r.toCore [] r''.toCore ∧
        Changes (.wide strict rows bare) r.toCore [] (r''.publish nowMs).toCore := by
    intro r'' hr
    rw [← hr] at hmodel
    exact ⟨hmodel, hmodel.measure (unmeasured_publish _ _)⟩
  split_ifs at h
  · cases h
    exact (hdone _ rfl).1
  · cases h
    exact (hdone _ rfl).2
  · cases h
    exact (hdone _ rfl).2
  · cases h
    exact (hdone _ rfl).1

theorem begin_toCore {origin : ObservationOrigin} {observedAtMs : ℤ} {r' : Reducer}
    {prior : Option ProviderObservationPrior}
    (h : r.beginProviderObservation origin observedAtMs = some (r', prior)) :
    r'.toCore = r.toCore ∧ r'.pendingLiveProviderSubmission = none := by
  unfold beginProviderObservation at h
  split_ifs at h with hp
  have hnone : r.pendingLiveProviderSubmission = none := by simpa using hp
  split at h
  · cases h
    exact ⟨rfl, hnone⟩
  · cases h
    exact ⟨rfl, hnone⟩

theorem cancel_changes {nowMs : ℤ} :
    Changes (.wide strict rows bare) r.toCore [] (r.cancelProviderObservation nowMs).toCore := by
  unfold cancelProviderObservation
  split_ifs
  · exact Changes.of_unmeasured (unmeasured_publish _ _)
  · exact .refl _

/-- The runs that were touched are shown. -/
theorem showReadyRuns_changes {c : Core} (runIds : List RunId) (shown : DomainModel × Bool) :
    Changes (.wide strict rows bare) (c.withModel shown.1) []
      (c.withModel (runIds.foldl showReadyRun shown).1) := by
  induction runIds generalizing shown with
  | nil => exact .refl _
  | cons runId runIds ih =>
    have hone : Changes (.wide strict rows bare) (c.withModel shown.1) []
        (c.withModel (showReadyRun shown runId).1) := by
      unfold showReadyRun
      split
      · exact .refl _
      · dsimp only
        split_ifs
        · exact .one (.history (c := c.withModel shown.1) _ _)
        · exact .one (.history (c := c.withModel shown.1) _ _)
    exact Runs.before hone (ih _)

/-- An answer that takes nothing back. -/
theorem complete_changes {receipt : ProviderSubmissionReceipt} {outcome : RuntimeWriteOutcome}
    {nowMs : ℤ} (h : r.takesBack outcome = false) :
    Changes (.wide strict rows bare) r.toCore [] (r.completeProviderSubmission receipt outcome nowMs).toCore := by
  unfold completeProviderSubmission
  split
  · rename_i submissionId pending hpending
    split_ifs with hid hcommitted
    · exact .refl _
    · dsimp only
      have hshown : Changes (.wide strict rows bare) r.toCore [] (r.toCore.withModel
          (pending.readyRunIds.foldl showReadyRun (r.model, pending.checkpoint.isSome)).1) :=
        showReadyRuns_changes (c := r.toCore) pending.readyRunIds (r.model, pending.checkpoint.isSome)
      split_ifs
      · exact hshown.measure (unmeasured_publish _ _)
      · exact hshown
    · have hnone : pending.checkpoint = none := by
        unfold takesBack at h
        rw [hpending] at h
        simpa [hcommitted] using h
      rw [hnone]
      exact .refl _
  · exact .refl _

/-- An answer that takes a live submission back returns to the state at its begin. -/
theorem providerEvent_takesBack {r₁ r₂ r₃ : Reducer} {prior : Option ProviderObservationPrior}
    {origin : ObservationOrigin} {work : ProviderWork} {operations : PersistBatch}
    {historyManifest : Option PersistHistoryDrain} {providerAtMs observedAtMs nowMs : ℤ}
    {batch : PersistV6Batch} {receipt : ProviderSubmissionReceipt} {outcome : RuntimeWriteOutcome}
    (hbegin : r.beginProviderObservation origin observedAtMs = some (r₁, prior))
    (hwork : r₁.work nowMs work = (r₂, some operations))
    (hfinish : r₂.finishProviderObservation prior operations origin historyManifest providerAtMs nowMs =
      some (r₃, batch, receipt)) (hback : r₃.takesBack outcome = true) :
    (r₃.completeProviderSubmission receipt outcome nowMs).toCore = r.toCore := by
  unfold takesBack at hback
  rw [Bool.and_eq_true, Bool.not_eq_true'] at hback
  cases origin with
  | historical drain part =>
    have hpending : r₃.pendingLiveProviderSubmission = none := by
      have h₂ : r₂.pendingLiveProviderSubmission = none := by
        have := pending_work r₁ nowMs work
        rw [hwork] at this
        exact this.trans (begin_toCore hbegin).2
      unfold finishProviderObservation at hfinish
      dsimp only at hfinish
      rw [if_pos (show (ObservationOrigin.historical drain part).isHistorical = true from rfl)]
        at hfinish
      cases hfinish
      exact h₂
    rw [hpending] at hback
    simp at hback
  | live =>
    let s : LiveWork r := ⟨observedAtMs, r₁, prior, hbegin, work, nowMs, r₂, operations, hwork⟩
    obtain ⟨finished, batch', receipt', hfinished, -, hkept⟩ :=
      s.finishes historyManifest providerAtMs nowMs
    cases hfinished.symm.trans hfinish
    rw [(hkept hback.2).2 outcome nowMs hback.1]
    rfl

/-- A provider event is taken back, or what follows its work only concerns the history of runs. -/
theorem applyProviderEvent_cases {origin : ObservationOrigin} {work : ProviderWork}
    {historyManifest : Option PersistHistoryDrain} {providerAtMs observedAtMs nowMs : ℤ}
    {outcome : RuntimeWriteOutcome} {r' : Reducer} {operations : PersistBatch}
    (h : r.applyProviderEvent origin work historyManifest providerAtMs observedAtMs nowMs outcome =
      some (r', operations)) :
    ∃ r₁ : Reducer, r₁.toCore = r.toCore ∧
      ((r'.toCore = r.toCore ∧ operations = []) ∨
        (operations = (r₁.work nowMs work).2.getD [] ∧ ((r₁.work nowMs work).1.model.Filed →
          ∀ strict bare rows, Changes (.wide strict rows bare) (r₁.work nowMs work).1.toCore [] r'.toCore))) := by
  unfold applyProviderEvent at h
  obtain ⟨⟨r₁, prior⟩, hbegin, h⟩ := Option.bind_eq_some_iff.mp h
  refine ⟨r₁, (begin_toCore hbegin).1, ?_⟩
  dsimp only at h
  split at h
  · rename_i r₂ hr₂
    rw [hr₂]
    cases h
    exact .inr ⟨rfl, fun _ _ _ _ => cancel_changes⟩
  · rename_i r₂ operations' hr₂
    obtain ⟨⟨r₃, batch, receipt⟩, hfinish, h⟩ := Option.bind_eq_some_iff.mp h
    cases h
    by_cases hback : r₃.takesBack outcome = true
    · exact .inl ⟨providerEvent_takesBack hbegin hr₂ hfinish hback, if_pos hback⟩
    · rw [hr₂, if_neg hback]
      refine .inr ⟨rfl, fun hf _ _ _ => ?_⟩
      exact Runs.before (finish_changes hf hfinish) (complete_changes (by simpa using hback))

/-- A provider event from begin to the answer of the store. -/
theorem applyProviderEvent_changes {origin : ObservationOrigin} {work : ProviderWork}
    {historyManifest : Option PersistHistoryDrain} {providerAtMs observedAtMs nowMs : ℤ}
    {outcome : RuntimeWriteOutcome} {r' : Reducer} {operations : PersistBatch} (hf : r.model.Filed)
    (hc : strict = true → r.model.IndexSound)
    (hobs : ∀ events, work = .observation events → ∀ e ∈ events,
      Tx.Observed strict e.1 ∧ Tx.Allowed rows e.1)
    (h : r.applyProviderEvent origin work historyManifest providerAtMs observedAtMs nowMs outcome =
      some (r', operations)) :
    Changes (.wide strict rows) r.toCore (mergesOf operations) r'.toCore := by
  obtain ⟨r₁, hcore, ⟨hback, rfl⟩ | ⟨rfl, hafter⟩⟩ := applyProviderEvent_cases h
  · rw [hback]
    exact .refl _
  · have hmodel : r₁.model = r.model := congrArg Core.model hcore
    have hwork : Changes (.wide strict rows) r₁.toCore (mergesOf ((r₁.work nowMs work).2.getD []))
        (r₁.work nowMs work).1.toCore :=
      work_changes (hmodel ▸ hf) (fun hs => hmodel ▸ hc hs) hobs
    rw [hcore] at hwork
    simpa using hwork.trans (hafter (hwork.filed hf) strict true rows)

/-! ### Finalization -/

theorem finalizeRun_changes (r : Reducer) (finalized : FinalizedHistoryRun) :
    Changes (.wide strict rows bare) r.toCore [] (r.finalizeRun finalized).toCore := by
  unfold finalizeRun
  split_ifs
  · exact .refl _
  all_goals exact .one (.history (c := r.toCore) _ _)

theorem applyHistoryFinalization_changes {finalization : HistoryDrainFinalization} {nowMs : ℤ} :
    Changes (.wide strict rows bare) r.toCore [] (r.applyHistoryFinalization finalization nowMs).1.toCore := by
  have hfold : ∀ (runs : List FinalizedHistoryRun) (r : Reducer),
      Changes (.wide strict rows bare) r.toCore [] (runs.foldl finalizeRun r).toCore := by
    intro runs
    induction runs with
    | nil => exact fun r => .refl _
    | cons run runs ih =>
      exact fun r => Runs.before (finalizeRun_changes r run) (ih _)
  unfold applyHistoryFinalization
  split_ifs
  · exact .refl _
  · have h := hfold finalization.runs
      { r with
        publishedHistoryDrains := HashSet.extend (HashSet.insert r.publishedHistoryDrains
          finalization.drainId) finalization.completedDrains }
    exact h.measure (unmeasured_publish _ _)

/-! ### Steps -/

/-- Every action is a sequence of changes with the merges it reports. -/
theorem perform_changes {action : Action} {l : List Merge} {r' : Reducer}
    (hadmissible : Admissible strict r action) (h : r.perform action = some (r', l))
    (hf : r.model.Filed) (hc : strict = true → r.model.IndexSound) :
    Changes (.wide strict action.rows) r.toCore l r'.toCore := by
  cases action with
  | observation events nowMs =>
    cases h
    exact applyObservationInner_changes hf (.inr rfl) hadmissible fun e _ => .all e.1
  | paneObservation events observation nowMs =>
    cases h
    exact applyObservationInner_changes hf (.inr rfl) hadmissible fun e _ => .all e.1
  | heuristicBinding run sid bookkeepingTimeMs aliasRunId nowMs =>
    cases h
    exact applyHeuristicBinding_changes hf
  | controllerEvent event fresh nowMs =>
    cases h
    exact applyControllerEvent_changes hf hc
  | liveness key atMs observedAtMs nowMs =>
    cases h
    exact touchRunLivenessObserved_changes hf
  | laneClose key atMs observedAtMs nowMs =>
    cases h
    exact applyLaneCloseObserved_changes hf fun hb => by cases hb
  | telemetry key sample nowMs =>
    cases h
    exact Changes.of_unmeasured (unmeasured_applyTelemetry _ _ _ _)
  | providerEvent origin work historyManifest providerAtMs observedAtMs nowMs outcome =>
    obtain ⟨result, hresult, h⟩ := Option.map_eq_some_iff.mp h
    cases h
    refine applyProviderEvent_changes hf hc ?_ hresult
    rintro events rfl e he
    exact ⟨hadmissible e he, .all e.1⟩
  | finalization finalization nowMs =>
    cases h
    exact applyHistoryFinalization_changes
  | snapshot topology draws nowMs closeMs epochMs publishMs =>
    cases h
    exact reconcileSnapshot_changes hf rfl rfl hadmissible
  | sweep nowMs publishMs =>
    simp only [perform, Option.some.injEq, Prod.mk.injEq] at h
    obtain ⟨rfl, rfl⟩ := h
    exact sweepStale_changes hf
  | operator command nowMs publishMs =>
    simp only [perform, Option.some.injEq, Prod.mk.injEq] at h
    obtain ⟨rfl, rfl⟩ := h
    exact applyOperatorCommand_changes hf
  | bindingConflict nowMs =>
    cases h
    exact Changes.of_unmeasured ((unmeasured_publish _ _).trans rfl)
  | identityDisagreement nowMs =>
    cases h
    exact Changes.of_unmeasured ((unmeasured_publish _ _).trans rfl)
  | replayed event nowMs =>
    cases h
    exact restoreReplayed_changes
  | beginEpoch =>
    cases h
    exact Changes.of_unmeasured rfl
  | activateEpoch observedAtMs =>
    cases h
    exact Changes.of_unmeasured (unmeasured_activateRateEpoch _ _)
  | checkpointRates observedAtMs =>
    cases h
    exact Changes.of_unmeasured (unmeasured_checkpointRunRates _ _)
  | restoreTotals totals =>
    cases h
    exact .refl _

/-- Every step is a sequence of changes with the merges it reports. -/
theorem Step.changes {l : List Merge} {r' : Reducer} (h : Step strict r l r') (hf : r.model.Filed)
    (hc : strict = true → r.model.IndexSound) :
    Changes (.wide strict ⟨true, true⟩) r.toCore l r'.toCore := by
  obtain ⟨action, hadmissible, h⟩ := h
  refine Runs.mono (fun hm => hm.mono ?_) (perform_changes hadmissible h hf hc)
  exact ⟨id, subset_rfl, subset_rfl, fun _ => rfl, fun _ => rfl, id⟩

end

end Reducer

/-- After the work of a live submission a run is still there, or the one it was merged into. -/
theorem LiveWork.stands {r : Reducer} (s : LiveWork r) (hf : r.model.Filed) {runId : RunId}
    (hrun : r.model.HasRun runId)
    (hobs : ∀ events, s.work = .observation events → ∀ e ∈ events, Tx.Observed false e.1) :
    (s.worked.model.taskRun (canonicalRunAfterBatch runId s.operations)).isSome = true := by
  have hbegun : s.begun.toCore = r.toCore := (Reducer.begin_toCore s.begins).1
  have hfiled : s.begun.model.Filed := by
    rw [show s.begun.model = r.model from congrArg Core.model hbegun]
    exact hf
  have h : Changes (.wide false ⟨true, true⟩) s.begun.toCore
      (mergesOf ((s.begun.work s.workMs s.work).2.getD [])) (s.begun.work s.workMs s.work).1.toCore :=
    Reducer.work_changes hfiled (fun h => by cases h) fun events hw e he => ⟨hobs events hw e he, Tx.Allowed.all e.1⟩
  rw [s.works, hbegun] at h
  rw [canonicalRunAfterBatch_eq]
  exact h.stands hf hrun

end HerdrTop
