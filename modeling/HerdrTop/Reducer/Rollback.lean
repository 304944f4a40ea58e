import HerdrTop.Model.Changes
import HerdrTop.Reducer.Provider

/-!
# A live submission that the store did not take

While a live observation is applied, model publication is deferred: whatever the work does, the
gate through which snapshots leave the reducer does not move. After it, the unanswered submission
holds the checkpoint, and an answer that the write is not in the store returns to it.
-/

namespace HerdrTop

namespace Reducer

/-- What decides whether a snapshot is sent, with the snapshots sent so far. -/
structure Gate where
  published : List DomainModel
  deferPublication : Bool
  deferModelPublication : Bool
  pending : Option PendingLiveProviderSubmission
  privateRuns : HashSet RunId
  token : ℕ

/-- The gate of a reducer. -/
def gate (r : Reducer) : Gate where
  published := r.published
  deferPublication := r.deferProviderPublication
  deferModelPublication := r.deferProviderModelPublication
  pending := r.pendingLiveProviderSubmission
  privateRuns := r.providerObservationPrivateRunIds
  token := r.nextProviderSubmissionToken

/-- What bringing samples and rates up to date leaves alone. -/
structure Outside where
  gate : Gate
  nextIngestSeq : Option ℤ

/-- The reducer but for its core and for what it keeps about samples and rates. -/
def outside (r : Reducer) : Outside where
  gate := r.gate
  nextIngestSeq := r.nextIngestSeq

/-! ### What stays inside -/

/-- A loop of steps that stay inside does so too. -/
theorem outside_foldl {α : Type} {f : Reducer → α → Reducer} (hf : ∀ r a, (f r a).outside = r.outside)
    (l : List α) (r : Reducer) : (l.foldl f r).outside = r.outside := by
  induction l generalizing r with
  | nil => rfl
  | cons a l ih => rw [List.foldl_cons, ih, hf]

@[simp] theorem outside_setModel (r : Reducer) (m : DomainModel) :
    (r.setModel m).outside = r.outside := rfl

@[simp] theorem outside_withCore (r : Reducer) (core : Core) :
    (r.withCore core).outside = r.outside := rfl

@[simp] theorem outside_recompute (r : Reducer) :
    r.recomputeDanglingAnnouncementComponents.outside = r.outside := rfl

@[simp] theorem outside_notePaneAgentStatus (r : Reducer) (o : PaneAgentStatusObservation) :
    (r.notePaneAgentStatus o).outside = r.outside := rfl

@[simp] theorem outside_applyOperatorSubmission (r : Reducer) (persist : PersistBatch) :
    (r.applyOperatorSubmission persist).outside = r.outside :=
  outside_foldl (f := noteOperation) (fun _ _ => rfl) persist r

@[simp] theorem outside_accumulateTelemetry (r : Reducer) (key : RunKey) (sample : PendingTelemetry) :
    (r.accumulateTelemetry key sample).outside = r.outside := by
  unfold accumulateTelemetry
  split <;> rfl

@[simp] theorem outside_evictOldest (r : Reducer) (order : List RunKey) :
    (r.evictOldestPendingTelemetry order).1.outside = r.outside := by
  induction order with
  | nil => rfl
  | cons key order ih =>
    unfold evictOldestPendingTelemetry
    split
    · exact ih
    · exact ih
    · rfl

@[simp] theorem outside_makeTelemetryRoom (fuel : ℕ) (r : Reducer) :
    (makeTelemetryRoom fuel r).outside = r.outside := by
  induction fuel generalizing r with
  | zero => rfl
  | succ fuel ih =>
    unfold makeTelemetryRoom
    split
    · rfl
    · dsimp only
      split
      · rw [ih, outside_evictOldest]
      · exact outside_evictOldest r _

@[simp] theorem outside_enqueuePendingTelemetry (r : Reducer) (key : RunKey)
    (sample : PendingTelemetry) : (r.enqueuePendingTelemetry key sample).outside = r.outside :=
  outside_makeTelemetryRoom r.pendingTelemetryCount r

theorem outside_applyPendingKey (r : Reducer) (key : RunKey) :
    (r.applyPendingKey key).outside = r.outside := by
  unfold applyPendingKey
  split
  · rfl
  · exact outside_foldl (fun r sample => outside_accumulateTelemetry r key sample) _ _

@[simp] theorem outside_applyPendingTelemetry (r : Reducer) :
    r.applyPendingTelemetryForKnownRuns.outside = r.outside :=
  outside_foldl outside_applyPendingKey _ _

theorem outside_observe (r : Reducer) (observation : RateObservation) (working : Bool) :
    (r.observeRunRatesWithActivity observation working).outside = r.outside := by
  unfold observeRunRatesWithActivity
  dsimp only
  split
  · rfl
  · split
    · rfl
    · rw [outside_setModel]
      split <;> rfl

theorem outside_observeNoted (origin : RateObservationOrigin) (observedAtMs : ℤ) (r : Reducer)
    (runId : RunId) : (observeNoted origin observedAtMs r runId).outside = r.outside := by
  unfold observeNoted
  split
  · rfl
  · exact outside_observe r _ _

@[simp] theorem outside_settle (r : Reducer) (nowMs : ℤ) : (r.settle nowMs).outside = r.outside := by
  unfold settle observeNotedRuns
  dsimp only
  rw [← outside_applyPendingTelemetry r]
  split
  · exact outside_foldl (outside_observeNoted _ _) _ _
  · rfl

@[simp] theorem outside_beginRateEpoch (r : Reducer) : r.beginRateEpoch.outside = r.outside := rfl

@[simp] theorem outside_activateRateEpoch (r : Reducer) (observedAtMs : ℤ) :
    (r.activateRateEpoch observedAtMs).outside = r.outside :=
  outside_foldl (fun r _ => outside_observe r _ _) _ _

theorem nextIngestSeq_of_outside {r r' : Reducer} (h : r'.outside = r.outside) :
    r'.nextIngestSeq = r.nextIngestSeq := congrArg Outside.nextIngestSeq h

/-! ### What leaves the gate alone -/

@[simp] theorem gate_setModel (r : Reducer) (m : DomainModel) : (r.setModel m).gate = r.gate := rfl

@[simp] theorem gate_withCore (r : Reducer) (core : Core) : (r.withCore core).gate = r.gate := rfl

@[simp] theorem gate_recompute (r : Reducer) :
    r.recomputeDanglingAnnouncementComponents.gate = r.gate := rfl

@[simp] theorem gate_notePaneAgentStatus (r : Reducer) (o : PaneAgentStatusObservation) :
    (r.notePaneAgentStatus o).gate = r.gate := rfl

@[simp] theorem gate_applyOperatorSubmission (r : Reducer) (persist : PersistBatch) :
    (r.applyOperatorSubmission persist).gate = r.gate :=
  congrArg Outside.gate (outside_applyOperatorSubmission r persist)

@[simp] theorem gate_accumulateTelemetry (r : Reducer) (key : RunKey) (sample : PendingTelemetry) :
    (r.accumulateTelemetry key sample).gate = r.gate :=
  congrArg Outside.gate (outside_accumulateTelemetry r key sample)

@[simp] theorem gate_enqueuePendingTelemetry (r : Reducer) (key : RunKey) (sample : PendingTelemetry) :
    (r.enqueuePendingTelemetry key sample).gate = r.gate :=
  congrArg Outside.gate (outside_enqueuePendingTelemetry r key sample)

@[simp] theorem gate_settle (r : Reducer) (nowMs : ℤ) : (r.settle nowMs).gate = r.gate :=
  congrArg Outside.gate (outside_settle r nowMs)

/-- Nothing is sent while model publication is deferred. -/
theorem gate_publishSnapshot {r : Reducer} (h : r.gate.deferModelPublication = true) :
    r.publishSnapshot.gate = r.gate := by
  unfold publishSnapshot
  split
  · rfl
  · rw [if_pos (show r.deferProviderModelPublication = true from h)]
    rfl

theorem gate_publish {r : Reducer} (h : r.gate.deferModelPublication = true) (nowMs : ℤ) :
    (r.publish nowMs).gate = r.gate := by
  unfold publish
  rw [gate_publishSnapshot (by simpa using h), gate_settle]

theorem pending_publishSnapshot (r : Reducer) :
    r.publishSnapshot.pendingLiveProviderSubmission = r.pendingLiveProviderSubmission := by
  unfold publishSnapshot
  split
  · rfl
  · split
    · rfl
    · split <;> rfl

/-- Publishing answers no submission. -/
theorem pending_publish (r : Reducer) (nowMs : ℤ) :
    (r.publish nowMs).pendingLiveProviderSubmission = r.pendingLiveProviderSubmission :=
  (pending_publishSnapshot _).trans (congrArg Gate.pending (gate_settle r nowMs))

theorem gate_submit {r : Reducer} (h : r.gate.deferModelPublication = true) (persist : PersistBatch)
    (nowMs : ℤ) : (r.submit persist nowMs).gate = r.gate := by
  unfold submit
  rw [gate_publish (by simpa using h), gate_applyOperatorSubmission]

theorem gate_install {r : Reducer} (h : r.gate.deferModelPublication = true) (tx : Tx) (publish : Bool)
    (nowMs : ℤ) : (r.install tx publish nowMs).gate = r.gate := by
  unfold install
  split
  · rw [gate_submit (by simpa using h), gate_withCore]
  · rfl

theorem gate_commitStaged {r : Reducer} (h : r.gate.deferModelPublication = true)
    (delta : MaterializedDelta) (nowMs : ℤ) : (r.commitStaged delta nowMs).1.gate = r.gate := by
  unfold commitStaged
  split
  · exact gate_publish (by simpa using h) nowMs
  · refine (gate_submit ?_ _ nowMs).trans ?_
    · exact h
    · rfl

theorem gate_applyObservation {r : Reducer} (h : r.gate.deferModelPublication = true)
    (events : List (NormalizedEvent × RunId)) (nowMs : ℤ) :
    (r.applyObservation events nowMs).1.gate = r.gate := by
  unfold applyObservation applyObservationInner
  simp only [Option.filter_none, Option.elim_none]
  split
  · rfl
  · split
    · exact gate_submit (by simpa using h) _ nowMs
    · rfl
    · rfl

/-- No work of a provider event moves the gate while model publication is deferred. -/
theorem gate_work {r : Reducer} (h : r.gate.deferModelPublication = true) (nowMs : ℤ)
    (work : ProviderWork) : (r.work nowMs work).1.gate = r.gate := by
  cases work with
  | synthesized event fresh =>
    dsimp only [Reducer.work, applyControllerEvent]
    split
    · rfl
    · rename_i delta _
      have hg := gate_commitStaged h delta nowMs
      split <;> simp_all
  | runLiveness key atMs observedAtMs => exact gate_install h _ _ nowMs
  | laneClose key atMs observedAtMs => exact gate_install h _ _ nowMs
  | telemetry key sample =>
    show (r.applyTelemetryWithBreakdown key sample nowMs).gate = r.gate
    unfold applyTelemetryWithBreakdown
    split
    · rw [gate_publish (by simpa using h), gate_accumulateTelemetry]
    · rw [gate_enqueuePendingTelemetry]
  | observation events =>
    dsimp only [Reducer.work]
    have hg := gate_applyObservation h events nowMs
    split
    · simp_all
    · rename_i r' _ he
      have hr : r'.gate = r.gate := by simpa [he] using hg
      refine (gate_publish ?_ nowMs).trans hr
      simpa [hr] using h
    · simp_all

/-! ### What answers no submission -/

theorem pending_submit (r : Reducer) (persist : PersistBatch) (nowMs : ℤ) :
    (r.submit persist nowMs).pendingLiveProviderSubmission = r.pendingLiveProviderSubmission :=
  (pending_publish _ _).trans (congrArg Gate.pending (gate_applyOperatorSubmission r persist))

theorem pending_install (r : Reducer) (tx : Tx) (publish : Bool) (nowMs : ℤ) :
    (r.install tx publish nowMs).pendingLiveProviderSubmission = r.pendingLiveProviderSubmission := by
  unfold install
  split
  · exact pending_submit _ _ _
  · rfl

theorem pending_commitStaged (r : Reducer) (delta : MaterializedDelta) (nowMs : ℤ) :
    (r.commitStaged delta nowMs).1.pendingLiveProviderSubmission = r.pendingLiveProviderSubmission := by
  unfold commitStaged
  split
  · exact pending_publish _ _
  · exact pending_submit _ _ _

theorem pending_applyObservation (r : Reducer) (events : List (NormalizedEvent × RunId)) (nowMs : ℤ) :
    (r.applyObservation events nowMs).1.pendingLiveProviderSubmission =
      r.pendingLiveProviderSubmission := by
  unfold applyObservation applyObservationInner
  simp only [Option.filter_none, Option.elim_none]
  split
  · rfl
  · split
    · exact pending_submit _ _ _
    · rfl
    · rfl

/-- No work of a provider event answers a submission. -/
theorem pending_work (r : Reducer) (nowMs : ℤ) (work : ProviderWork) :
    (r.work nowMs work).1.pendingLiveProviderSubmission = r.pendingLiveProviderSubmission := by
  cases work with
  | synthesized event fresh =>
    dsimp only [Reducer.work, applyControllerEvent]
    split
    · rfl
    · rename_i delta _
      have hg := pending_commitStaged r delta nowMs
      split <;> simp_all
  | runLiveness key atMs observedAtMs => exact pending_install _ _ _ nowMs
  | laneClose key atMs observedAtMs => exact pending_install _ _ _ nowMs
  | telemetry key sample =>
    show (r.applyTelemetryWithBreakdown key sample nowMs).pendingLiveProviderSubmission = _
    unfold applyTelemetryWithBreakdown
    split
    · exact (pending_publish _ _).trans (congrArg Gate.pending (gate_accumulateTelemetry r key sample))
    · exact congrArg Gate.pending (gate_enqueuePendingTelemetry r key sample)
  | observation events =>
    dsimp only [Reducer.work]
    have hg := pending_applyObservation r events nowMs
    split
    · simp_all
    · rename_i r' _ he
      have hr : r'.pendingLiveProviderSubmission = r.pendingLiveProviderSubmission := by
        simpa [he] using hg
      exact (pending_publish _ _).trans hr
    · simp_all

/-! ### What an observation touched -/

theorem mem_touchedRuns {m : DomainModel} {prior : Option ProviderObservationPrior}
    {operations : PersistBatch} {runId : RunId} :
    runId ∈ touchedRuns m prior operations ↔ (∃ op ∈ operations, runId ∈ operationRuns op) ∨
      ∃ before, prior = some before ∧ runId ∈ m.changedTaskRunIdsSince before.before := by
  unfold touchedRuns
  dsimp only
  rw [List.mem_dedup, (List.perm_insertionSort _ _).mem_iff, List.mem_append, List.mem_flatMap]
  refine or_congr_right ?_
  cases prior with
  | none => simp
  | some before => simp

theorem mem_readyRuns {r : Reducer} {operations : PersistBatch} {canonical : List RunId} {runId : RunId} :
    runId ∈ r.readyRuns .live operations canonical ↔ runId ∈ canonical ∧
      ∃ privateId ∈ r.providerObservationPrivateRunIds.keys,
        canonicalRunAfterBatch privateId operations = runId := by
  unfold readyRuns sortedRuns
  rw [if_neg (by simp [ObservationOrigin.isHistorical]), List.mem_dedup,
    (List.perm_insertionSort _ _).mem_iff, List.mem_filter, decide_eq_true_iff, List.mem_map]

section

variable {operations : PersistBatch} {historical : Bool} {providerAtMs : ℤ} {f : Finishing} {id : RunId}

theorem Finishing.isSome_touch (h : (f.model.taskRun id).isSome = true) (runId : RunId) :
    ((f.touch operations historical providerAtMs runId).model.taskRun id).isSome = true := by
  unfold Finishing.touch
  dsimp only
  split
  · exact h
  · rename_i current _
    show ((f.model.taskRuns.insert current.runId current).get id).isSome = true
    rw [HashMap.get_insert]
    split_ifs
    · rfl
    · exact h

theorem Finishing.mem_canonical_touch (h : id ∈ f.canonical) (runId : RunId) :
    id ∈ (f.touch operations historical providerAtMs runId).canonical := by
  unfold Finishing.touch
  dsimp only
  split
  · exact h
  · exact List.mem_append_left _ h

theorem Finishing.mem_canonical_touch_self {runId : RunId}
    (h : (f.model.taskRun (canonicalRunAfterBatch runId operations)).isSome = true) :
    canonicalRunAfterBatch runId operations ∈
      (f.touch operations historical providerAtMs runId).canonical := by
  obtain ⟨current, hcurrent⟩ := Option.isSome_iff_exists.mp h
  unfold Finishing.touch
  simp only [hcurrent]
  exact List.mem_append_right _ List.mem_cons_self

/-- What a touched run has become is gathered as long as it is a run. -/
theorem Finishing.mem_canonical {touched : List RunId} {runId : RunId} (ht : runId ∈ touched)
    (h : (f.model.taskRun (canonicalRunAfterBatch runId operations)).isSome = true) :
    canonicalRunAfterBatch runId operations ∈
      (touched.foldl (Finishing.touch operations historical providerAtMs) f).canonical := by
  induction touched generalizing f with
  | nil => cases ht
  | cons next touched ih =>
    rw [List.foldl_cons]
    rcases List.mem_cons.mp ht with rfl | ht
    · have hkept : ∀ (l : List RunId) (f' : Finishing), canonicalRunAfterBatch runId operations ∈ f'.canonical →
          canonicalRunAfterBatch runId operations ∈
            (l.foldl (Finishing.touch operations historical providerAtMs) f').canonical := by
        intro l
        induction l with
        | nil => exact fun _ h => h
        | cons a l ihl => exact fun f' h => ihl _ (Finishing.mem_canonical_touch h a)
      exact hkept touched _ (Finishing.mem_canonical_touch_self h)
    · exact ih ht (Finishing.isSome_touch h next)

/-- A row is made for each run that is gathered. -/
theorem Finishing.length_taskRuns (operations : PersistBatch) (historical : Bool) (providerAtMs : ℤ)
    (touched : List RunId) (f : Finishing) (h : f.taskRuns.length = f.canonical.length) :
    (touched.foldl (Finishing.touch operations historical providerAtMs) f).taskRuns.length =
      (touched.foldl (Finishing.touch operations historical providerAtMs) f).canonical.length := by
  induction touched generalizing f with
  | nil => exact h
  | cons runId touched ih =>
    refine ih _ ?_
    unfold Finishing.touch
    dsimp only
    split
    · exact h
    · simp [h]

end

/-! ### Begin and finish -/

/-- What a live observation can go back to is the state at its begin. -/
theorem begin_live {r r' : Reducer} {observedAtMs : ℤ} {prior : Option ProviderObservationPrior}
    (h : r.beginProviderObservation .live observedAtMs = some (r', prior)) :
    r'.published = r.published ∧ r'.deferProviderModelPublication = true ∧
      r'.pendingLiveProviderSubmission = none ∧
      r'.providerObservationPrivateRunIds = privateRuns r.model ∧
      prior = if (privateRuns r.model).keys.isEmpty then none else some (.live (.capture r)) := by
  unfold beginProviderObservation at h
  split at h
  · cases h
  · rename_i hp
    simp only [Option.some.injEq, Prod.mk.injEq] at h
    obtain ⟨rfl, rfl⟩ := h
    exact ⟨rfl, rfl, by simpa using hp, rfl, rfl⟩

/-- Finishing a live observation stops at no assertion. The reducer keeps a checkpoint when a private
run was touched that still stands for a run, and the checkpoint kept is the one from the begin;
nothing was sent then. -/
theorem finish_live {r : Reducer} {prior : Option ProviderObservationPrior}
    {checkpoint : LiveProviderObservationCheckpoint}
    (hprior : prior = if r.providerObservationPrivateRunIds.keys.isEmpty then none
      else some (.live checkpoint))
    (hpending : r.pendingLiveProviderSubmission = none) (operations : PersistBatch)
    (historyManifest : Option PersistHistoryDrain) (providerAtMs nowMs : ℤ) :
    ∃ r' batch receipt, r.finishProviderObservation prior operations .live historyManifest providerAtMs
        nowMs = some (r', batch, receipt) ∧
      (∀ runId ∈ r.providerObservationPrivateRunIds.keys, runId ∈ touchedRuns r.model prior operations →
        (r.model.taskRun (canonicalRunAfterBatch runId operations)).isSome = true →
          r'.pendingLiveProviderSubmission.any (·.checkpoint.isSome) = true) ∧
      (r'.pendingLiveProviderSubmission.any (·.checkpoint.isSome) = true →
        r'.published = r.published ∧
          ∃ id readyRunIds, receipt = .live (some id) ∧
            r'.pendingLiveProviderSubmission = some ⟨id, some checkpoint, readyRunIds⟩) := by
  unfold finishProviderObservation
  dsimp only [keepBeforeImages]
  -- a private run that was touched is ready to be shown, and what it has become is stored
  have htouched : ∀ runId ∈ r.providerObservationPrivateRunIds.keys,
      runId ∈ touchedRuns r.model prior operations →
      (r.model.taskRun (canonicalRunAfterBatch runId operations)).isSome = true →
      canonicalRunAfterBatch runId operations ∈ ((touchedRuns r.model prior operations).foldl
        (Finishing.touch operations (ObservationOrigin.isHistorical .live) providerAtMs)
          { model := r.model }).canonical :=
    fun runId _ ht hstands => Finishing.mem_canonical ht hstands
  have hlength := Finishing.length_taskRuns operations (ObservationOrigin.isHistorical .live) providerAtMs
    (touchedRuns r.model prior operations) { model := r.model } rfl
  revert htouched hlength
  generalize hf : List.foldl (Finishing.touch operations _ providerAtMs) _ _ = finishing
  intro htouched hlength
  have hbatch : finishing.canonical ≠ [] →
      providerV6BatchIsEmpty (finishBatch operations .live historyManifest [] finishing) = false := by
    intro hne
    have hrows : finishing.taskRuns ≠ [] := fun h => by
      rw [h, List.length_nil, eq_comm, List.length_eq_zero_iff] at hlength
      exact hne hlength
    have hsorted : (finishBatch operations .live historyManifest [] finishing).taskRuns.isEmpty = false := by
      rw [finishBatch, sortedRows, List.isEmpty_eq_false_iff, ne_eq, List.destutter_eq_nil]
      exact fun h => hrows (h ▸ (List.perm_insertionSort _ finishing.taskRuns).symm).eq_nil
    unfold providerV6BatchIsEmpty
    simp only [hsorted, Bool.and_false, Bool.false_and]
  revert hbatch
  generalize finishBatch operations .live historyManifest _ finishing = batch
  intro hbatch
  generalize hready : r.readyRuns .live operations finishing.canonical = readyRunIds
  generalize hr : r.endDeferral.setModel finishing.model = r'
  have hpublished : r'.published = r.published := by rw [← hr]; rfl
  have hpending' : r'.pendingLiveProviderSubmission = none := by rw [← hr]; exact hpending
  have hnonempty : ∀ runId ∈ r.providerObservationPrivateRunIds.keys,
      runId ∈ touchedRuns r.model prior operations →
      (r.model.taskRun (canonicalRunAfterBatch runId operations)).isSome = true →
        readyRunIds ≠ [] ∧ finishing.canonical ≠ [] := by
    intro runId hprivate ht hstands
    have hmem := htouched runId hprivate ht hstands
    refine ⟨List.ne_nil_of_mem (a := canonicalRunAfterBatch runId operations) ?_, List.ne_nil_of_mem hmem⟩
    rw [← hready]
    exact mem_readyRuns.mpr ⟨hmem, runId, hprivate, rfl⟩
  -- a run that is ready to be shown was private, so there is a checkpoint
  have hcheckpoint : readyRunIds ≠ [] → prior = some (.live checkpoint) := by
    intro hne
    have hkeys : r.providerObservationPrivateRunIds.keys ≠ [] := by
      obtain ⟨runId, hmem⟩ := List.exists_mem_of_ne_nil _ hne
      rw [← hready] at hmem
      obtain ⟨-, private', hprivate, -⟩ := mem_readyRuns.mp hmem
      exact List.ne_nil_of_mem hprivate
    rw [hprior, if_neg (by simpa using hkeys)]
  have hhistorical : prior.any (·.isHistorical) = false := by
    rw [hprior]
    split_ifs <;> rfl
  rw [if_neg (by simp [ObservationOrigin.isHistorical])]
  split
  · rename_i hempty
    refine ⟨_, _, _, rfl, fun runId hprivate ht hstands => ?_, fun h => ?_⟩
    · rw [hbatch (hnonempty runId hprivate ht hstands).2] at hempty
      cases hempty
    · rw [pending_publish, hpending'] at h
      cases h
  · by_cases hne : readyRunIds = []
    · have hnone : submissionCheckpoint prior false = none := by
        unfold submissionCheckpoint
        split <;> rfl
      simp only [hne, hnone, hhistorical, hpending', List.isEmpty_nil, Bool.not_true, Bool.false_and,
        Bool.or_false, Option.isSome_none, Bool.false_eq_true, if_false, if_true]
      refine ⟨_, _, _, rfl, fun runId hprivate ht hstands => ?_, fun h => ?_⟩
      · exact absurd hne (hnonempty runId hprivate ht hstands).1
      · rw [pending_publish] at h
        simp [submitLive] at h
    · have hempty : readyRunIds.isEmpty = false := by simpa using hne
      have hsome : submissionCheckpoint prior true = some checkpoint := by
        rw [hcheckpoint hne]
        rfl
      simp only [hempty, hsome, hhistorical, hpending', Bool.not_false, Option.isNone_some,
        Bool.and_false, Bool.or_false, Option.isSome_none, Bool.false_eq_true, if_false]
      exact ⟨_, _, _, rfl, fun _ _ _ _ => rfl, fun _ => ⟨hpublished, _, _, rfl, rfl⟩⟩

end Reducer

/-! ### A submission -/

/-- A live provider event as the collector runs it, up to the end of its work. -/
structure LiveWork (r : Reducer) where
  /-- When it begins. -/
  observedAtMs : ℤ
  /-- The reducer after begin. -/
  begun : Reducer
  /-- What it kept. -/
  prior : Option ProviderObservationPrior
  begins : r.beginProviderObservation .live observedAtMs = some (begun, prior)
  /-- What is done. -/
  work : Reducer.ProviderWork
  /-- When it is done. -/
  workMs : ℤ
  /-- The reducer after the work. -/
  worked : Reducer
  /-- What the work hands to the store. -/
  operations : PersistBatch
  works : begun.work workMs work = (worked, some operations)

/-- The work touches a run whose history was not ready when it began: an operation names the run or
the model has other rows, edges or keys of it than before. The run, or the one it was merged into, is
still there; see `LiveWork.stands`. -/
structure LiveWork.TouchesUnready {r : Reducer} (s : LiveWork r) (runId : RunId) : Prop where
  /-- A run of the model at the begin. -/
  known : ∃ run ∈ r.model.taskRuns.values, run.runId = runId
  /-- Its history is not ready. -/
  unready : ∃ state, r.model.v6State runId = some state ∧ state.historyReady = false
  /-- It is touched. -/
  touched : (∃ op ∈ s.operations, runId ∈ operationRuns op) ∨
    s.worked.model.projection runId ≠ r.model.projection runId
  /-- A run stands for it. -/
  stands : (s.worked.model.taskRun (canonicalRunAfterBatch runId s.operations)).isSome = true

theorem LiveWork.TouchesUnready.mem_privateRuns {r : Reducer} {s : LiveWork r} {runId : RunId}
    (h : s.TouchesUnready runId) : runId ∈ (Reducer.privateRuns r.model).keys := by
  obtain ⟨run, hrun, rfl⟩ := h.known
  obtain ⟨state, hstate, hready⟩ := h.unready
  refine HashSet.mem_keys_ofList.mpr (List.mem_map.mpr ⟨run, List.mem_filter.mpr ⟨hrun, ?_⟩, rfl⟩)
  simp [hstate, hready]

theorem LiveWork.gate_worked {r : Reducer} (s : LiveWork r) : s.worked.gate = s.begun.gate := by
  have h := Reducer.gate_work (r := s.begun) (Reducer.begin_live s.begins).2.1 s.workMs s.work
  rwa [s.works] at h

/-- The work shows nothing. -/
theorem LiveWork.published_worked {r : Reducer} (s : LiveWork r) : s.worked.published = r.published :=
  (congrArg Reducer.Gate.published s.gate_worked).trans (Reducer.begin_live s.begins).1

/-- Finishing keeps a checkpoint when a run whose history is not ready was touched; with a checkpoint, the
answer that the write is not in the store leads back to the begin. -/
theorem LiveWork.finishes {r : Reducer} (s : LiveWork r) (historyManifest : Option PersistHistoryDrain)
    (providerAtMs finishMs : ℤ) :
    ∃ finished batch receipt, s.worked.finishProviderObservation s.prior s.operations .live
        historyManifest providerAtMs finishMs = some (finished, batch, receipt) ∧
      ((∃ runId, s.TouchesUnready runId) →
        finished.pendingLiveProviderSubmission.any (·.checkpoint.isSome) = true) ∧
      (finished.pendingLiveProviderSubmission.any (·.checkpoint.isSome) = true →
        finished.published = r.published ∧
        ∀ (outcome : RuntimeWriteOutcome) (completeMs : ℤ), outcome.isCommitted = false →
          finished.completeProviderSubmission receipt outcome completeMs =
            (LiveProviderObservationCheckpoint.capture r).restore
              { finished with pendingLiveProviderSubmission := none }) := by
  obtain ⟨-, -, hpend, hprivate, hprior⟩ := Reducer.begin_live s.begins
  have hkeys : s.worked.providerObservationPrivateRunIds = Reducer.privateRuns r.model :=
    (congrArg Reducer.Gate.privateRuns s.gate_worked).trans hprivate
  have hprior' : s.prior = if s.worked.providerObservationPrivateRunIds.keys.isEmpty then none
      else some (.live (.capture r)) := by rw [hkeys, hprior]
  obtain ⟨finished, batch, receipt, hfinish, hkeeps, hkept⟩ := Reducer.finish_live hprior'
    ((congrArg Reducer.Gate.pending s.gate_worked).trans hpend) s.operations historyManifest providerAtMs
    finishMs
  refine ⟨finished, batch, receipt, hfinish, ?_, fun h => ?_⟩
  · rintro ⟨runId, htouches⟩
    have hmem : runId ∈ s.worked.providerObservationPrivateRunIds.keys := by
      rw [hkeys]
      exact htouches.mem_privateRuns
    -- the runs of the model at the begin are compared with
    have hlive : s.prior = some (.live (.capture r)) := by
      rw [hprior', if_neg]
      simpa using List.ne_nil_of_mem hmem
    refine hkeeps runId hmem (Reducer.mem_touchedRuns.mpr ?_) htouches.stands
    refine htouches.touched.imp_right fun hrows => ⟨_, hlive, ?_⟩
    exact not_not.mp (mt notMem_changedTaskRunIdsSince.mp hrows)
  · obtain ⟨hpublished, id, readyRunIds, rfl, hpending⟩ := hkept h
    refine ⟨hpublished.trans s.published_worked, fun outcome completeMs ho => ?_⟩
    unfold Reducer.completeProviderSubmission
    simp [hpending, ho]

/-- A live submission that touches a run whose history is not ready keeps a checkpoint. One that keeps a
checkpoint shows nothing before the store has answered, and is undone by an answer that the write is not
in the store. -/
theorem LiveWork.rolls_back {r : Reducer} (s : LiveWork r) (historyManifest : Option PersistHistoryDrain)
    (providerAtMs finishMs : ℤ) :
    s.worked.published = r.published ∧
    ∃ finished batch receipt, s.worked.finishProviderObservation s.prior s.operations .live
        historyManifest providerAtMs finishMs = some (finished, batch, receipt) ∧
      ((∃ runId, s.TouchesUnready runId) →
        finished.pendingLiveProviderSubmission.any (·.checkpoint.isSome) = true) ∧
      (finished.pendingLiveProviderSubmission.any (·.checkpoint.isSome) = true →
        finished.published = r.published ∧
        ∀ (outcome : RuntimeWriteOutcome) (completeMs : ℤ), outcome.isCommitted = false →
          let rolledBack := finished.completeProviderSubmission receipt outcome completeMs
          rolledBack.published = r.published ∧ rolledBack.model = r.model ∧
            rolledBack.nextOrdinal = r.nextOrdinal ∧ rolledBack.nextIngestSeq = r.nextIngestSeq ∧
            rolledBack.terminalEventSources = r.terminalEventSources ∧
            rolledBack.nonLaneTaskStateRuns = r.nonLaneTaskStateRuns ∧
            rolledBack.pendingTelemetry = r.pendingTelemetry ∧
            rolledBack.pendingTelemetryOrder = r.pendingTelemetryOrder ∧
            rolledBack.pendingTelemetryCount = r.pendingTelemetryCount ∧
            rolledBack.dirtyRateTotals = r.dirtyRateTotals ∧
            rolledBack.pendingRateObservationRuns = r.pendingRateObservationRuns) := by
  refine ⟨s.published_worked, ?_⟩
  obtain ⟨finished, batch, receipt, hfinish, hkeeps, hkept⟩ :=
    s.finishes historyManifest providerAtMs finishMs
  refine ⟨finished, batch, receipt, hfinish, hkeeps, fun h => ⟨(hkept h).1, fun outcome completeMs ho => ?_⟩⟩
  simp only [(hkept h).2 outcome completeMs ho]
  exact ⟨(hkept h).1, rfl, rfl, rfl, rfl, rfl, rfl, rfl, rfl, rfl, rfl⟩

/-- A reducer with one run whose history is incomplete. -/
def historyPending : Reducer :=
  { model := (({} : DomainModel).insertTaskRun
      { runId := ⟨1⟩, key := .native .codex "s", displayOrdinal := 1, state := .running,
        hasControllerTaskStateEvent := false }).setV6State ⟨1⟩ { historyReady := false } }

/-- A sample of its usage is taken up while the store is asked: no operation names the run. -/
def historyPendingSampled : LiveWork historyPending where
  observedAtMs := 50
  begun := { historyPending with
    rateObservationContext := some (.live 0, 50)
    deferProviderModelPublication := true
    providerObservationPrivateRunIds := Reducer.privateRuns historyPending.model }
  prior := some (.live (.capture historyPending))
  begins := rfl
  work := .telemetry (.native .codex "s") ⟨45, 7, {}, {}⟩
  workMs := 50
  worked := _
  operations := _
  works := rfl

theorem historyPendingSampled_rolls_back : historyPendingSampled.operations = [] ∧
    ∃ finished batch receipt, historyPendingSampled.worked.finishProviderObservation
        historyPendingSampled.prior historyPendingSampled.operations .live none 40 50 =
          some (finished, batch, receipt) ∧
      finished.model ≠ historyPending.model ∧
      (finished.completeProviderSubmission receipt .notCommitted 60).model = historyPending.model := by
  obtain ⟨-, finished, batch, receipt, hfinish, hkeeps, hkept⟩ :=
    historyPendingSampled.rolls_back none 40 50
  have htouches : historyPendingSampled.TouchesUnready ⟨1⟩ :=
    ⟨by decide, ⟨{ historyReady := false }, by decide⟩,
      .inr fun h => absurd (congrArg RunProjection.telemetry h) (by decide), by decide⟩
  have hdiffers : ((historyPendingSampled.worked.finishProviderObservation historyPendingSampled.prior
      historyPendingSampled.operations .live none 40 50).any fun result =>
        result.1.model ≠ historyPending.model) = true := by decide
  rw [hfinish] at hdiffers
  simp only [Option.any_some, decide_eq_true_eq] at hdiffers
  exact ⟨by decide, finished, batch, receipt, hfinish, hdiffers,
    ((hkept (hkeeps ⟨_, htouches⟩)).2 .notCommitted 60 rfl).2.1⟩

end HerdrTop
