import HerdrTop.Reducer.Safety

/-!
# Refused work changes nothing, and committed events are numbered upwards

An observation, a heuristic binding or a snapshot that is refused leaves the reducer as it was,
whichever of its steps failed. A staged event is refused exactly when no ingest sequence is left; that
is counted in the diagnostics and published.

## What is proved

`refused_work_changes_nothing`: this for every reducer, and that the events committed along any run
carry strictly increasing ingest sequences. An event counts as committed when its submission was not
taken back: taking it back returns to the sequence before it, which the next event then gets.
-/

namespace HerdrTop

/-! ### The sequence of a batch -/

/-- A committed batch reserves a sequence and its events carry it. -/
structure Carries (ingestSeq : ℤ) (batch : PersistBatch) : Prop where
  reserves : batch.head? = some (.advanceIngestSequence ingestSeq)
  events : ∀ event t, .recordEvent event t ∈ batch → event.metadata.ingestSeq = some ingestSeq.toNat

theorem metadata_mapMetadata (event : NormalizedEvent) (f : EventMetadata → EventMetadata) :
    (event.mapMetadata f).metadata = f event.metadata := by
  cases event <;> rfl

theorem stampIngestSeq_events {batch : PersistBatch} {ingestSeq : ℤ} {event : NormalizedEvent} {t : ℤ}
    (h : .recordEvent event t ∈ stampIngestSeq batch ingestSeq) :
    event.metadata.ingestSeq = some ingestSeq.toNat := by
  obtain ⟨op, -, hop⟩ := List.mem_map.mp h
  cases op with
  | recordEvent event' t' =>
    simp only [PersistOp.recordEvent.injEq] at hop
    rw [← hop.1, metadata_mapMetadata]
  | _ => cases hop

/-- Redirecting events to survivors keeps their sequences. -/
theorem normalizeLineage_events {n : ℕ} {batch : PersistBatch} {mergedInto : HashMap RunId RunId}
    (h : ∀ event t, .recordEvent event t ∈ batch → event.metadata.ingestSeq = some n)
    {event : NormalizedEvent} {t : ℤ} (hmem : .recordEvent event t ∈ normalizeLineage batch mergedInto) :
    event.metadata.ingestSeq = some n := by
  induction batch generalizing mergedInto with
  | nil => cases hmem
  | cons op rest ih =>
    have hrest : ∀ event t, .recordEvent event t ∈ rest → event.metadata.ingestSeq = some n :=
      fun event t hm => h event t (List.mem_cons_of_mem _ hm)
    cases op with
    | recordEvent event' t' =>
      rcases List.mem_cons.mp hmem with heq | hmem
      · simp only [PersistOp.recordEvent.injEq] at heq
        rw [heq.1, metadata_mapMetadata]
        exact h event' t' List.mem_cons_self
      · exact ih hrest hmem
    | _ =>
      rcases List.mem_cons.mp hmem with heq | hmem
      · cases heq
      · exact ih hrest hmem

namespace Reducer

theorem carries_staged (batch : PersistBatch) (ingestSeq : ℤ) :
    Carries ingestSeq (normalizePersistBatchLineage
      (.advanceIngestSequence ingestSeq :: stampIngestSeq batch ingestSeq)) := by
  refine ⟨rfl, fun event t hmem => normalizeLineage_events (fun event t hm => ?_) hmem⟩
  rcases List.mem_cons.mp hm with heq | hm
  · cases heq
  · exact stampIngestSeq_events hm

/-! ### What keeps the next sequence -/

@[simp] theorem nextIngestSeq_publishSnapshot (r : Reducer) :
    r.publishSnapshot.nextIngestSeq = r.nextIngestSeq := by
  unfold publishSnapshot
  split_ifs <;> rfl

@[simp] theorem nextIngestSeq_publish (r : Reducer) (nowMs : ℤ) :
    (r.publish nowMs).nextIngestSeq = r.nextIngestSeq :=
  (nextIngestSeq_publishSnapshot _).trans (nextIngestSeq_of_outside (outside_settle r nowMs))

@[simp] theorem nextIngestSeq_submit (r : Reducer) (persist : PersistBatch) (nowMs : ℤ) :
    (r.submit persist nowMs).nextIngestSeq = r.nextIngestSeq :=
  (nextIngestSeq_publish _ _).trans
    (nextIngestSeq_of_outside (outside_applyOperatorSubmission r persist))

@[simp] theorem nextIngestSeq_install (r : Reducer) (tx : Tx) (publish : Bool) (nowMs : ℤ) :
    (r.install tx publish nowMs).nextIngestSeq = r.nextIngestSeq := by
  unfold install
  split
  · exact nextIngestSeq_submit _ _ _
  · rfl

theorem nextIngestSeq_applyObservationInner (r : Reducer) (events : List (NormalizedEvent × RunId))
    (observation : Option PaneAgentStatusObservation) (nowMs : ℤ) :
    (r.applyObservationInner events observation nowMs).1.nextIngestSeq = r.nextIngestSeq := by
  have hnote : ((observation.filter r.paneAgentStatusChanged).elim r
      r.notePaneAgentStatus).nextIngestSeq = r.nextIngestSeq := by
    cases observation.filter r.paneAgentStatusChanged <;> rfl
  unfold applyObservationInner
  dsimp only
  split
  · rfl
  · split
    · exact (nextIngestSeq_submit _ _ _).trans hnote
    · exact hnote
    · exact hnote

theorem nextIngestSeq_applyTelemetry (r : Reducer) (key : RunKey) (sample : PendingTelemetry)
    (nowMs : ℤ) : (r.applyTelemetryWithBreakdown key sample nowMs).nextIngestSeq = r.nextIngestSeq := by
  unfold applyTelemetryWithBreakdown
  split
  · exact (nextIngestSeq_publish _ _).trans
      (nextIngestSeq_of_outside (outside_accumulateTelemetry r key sample))
  · exact nextIngestSeq_of_outside (outside_enqueuePendingTelemetry r key sample)

theorem nextIngestSeq_heuristicBinding (r : Reducer) (run : RunId) (sid : String)
    (bookkeepingTimeMs : ℤ) (aliasRunId : RunId) (nowMs : ℤ) :
    (r.applyHeuristicBinding run sid bookkeepingTimeMs aliasRunId nowMs).1.nextIngestSeq =
      r.nextIngestSeq := by
  rw [applyHeuristicBinding_eq]
  split
  · exact nextIngestSeq_submit _ _ _
  · rfl
  · rfl

theorem nextIngestSeq_reconcile (r : Reducer) (topology : TopologySnapshot) (draws : ℕ → PaneDraw)
    (nowMs : ℤ) (closeMs : String → ℤ) (epochMs publishMs : ℤ) :
    (r.reconcileSnapshot topology draws nowMs closeMs epochMs publishMs).1.nextIngestSeq =
      r.nextIngestSeq := by
  rw [reconcileSnapshot_eq]
  split
  · rfl
  · rw [nextIngestSeq_publish]
    apply nextIngestSeq_of_outside
    rw [outside_activateRateEpoch, outside_beginRateEpoch, outside_applyPendingTelemetry,
      outside_applyOperatorSubmission, outside_recompute, outside_withCore]

theorem nextIngestSeq_sweepStale (r : Reducer) (nowMs publishMs : ℤ) :
    (r.sweepStale nowMs publishMs).1.nextIngestSeq = r.nextIngestSeq := by
  unfold sweepStale
  generalize r.begin.sweepStale r.headlessInactivityMs nowMs = tx
  dsimp only
  split
  · exact nextIngestSeq_of_outside (outside_withCore r tx.toCore)
  · rw [nextIngestSeq_submit]
    exact nextIngestSeq_of_outside (outside_withCore r tx.toCore)

theorem nextIngestSeq_applyOperatorCommand (r : Reducer) (command : OperatorCommand)
    (nowMs publishMs : ℤ) :
    (r.applyOperatorCommand command nowMs publishMs).1.nextIngestSeq = r.nextIngestSeq := by
  cases command with
  | dismissClearable => exact nextIngestSeq_install _ _ _ _

theorem nextIngestSeq_replayed (r : Reducer) (event : ControllerEvent) (nowMs : ℤ) :
    (r.restoreReplayedControllerTransients event nowMs).nextIngestSeq = r.nextIngestSeq := by
  unfold restoreReplayedControllerTransients
  split
  · split
    · rfl
    · split
      · split
        · split
          · exact nextIngestSeq_publish _ _
          · rfl
        · rfl
      · split
        · split
          · exact nextIngestSeq_publish _ _
          · rfl
        · rfl
      all_goals rfl
  · rfl

theorem nextIngestSeq_finalization (r : Reducer) (finalization : HistoryDrainFinalization)
    (nowMs : ℤ) :
    (r.applyHistoryFinalization finalization nowMs).1.nextIngestSeq = r.nextIngestSeq := by
  have hrun : ∀ (r : Reducer) run, (r.finalizeRun run).outside = r.outside := fun r run => by
    unfold finalizeRun
    split <;> rfl
  unfold applyHistoryFinalization
  split
  · rfl
  · refine (nextIngestSeq_publish _ nowMs).trans ?_
    exact nextIngestSeq_of_outside (outside_foldl hrun finalization.runs _)

theorem nextIngestSeq_checkpointRunRates (r : Reducer) (observedAtMs : ℤ) :
    (r.checkpointRunRates observedAtMs).1.nextIngestSeq = r.nextIngestSeq := by
  have hfold : ∀ runIds : List RunId, (runIds.foldl (fun r runId =>
      r.observeRunRatesWithActivity ⟨runId, .live r.rateEpoch, observedAtMs⟩ true)
      r).outside = r.outside :=
    fun runIds => outside_foldl (fun r _ => outside_observe r _ _) runIds r
  unfold checkpointRunRates
  dsimp only
  split_ifs
  · exact (nextIngestSeq_publishSnapshot _).trans (nextIngestSeq_of_outside (hfold _))
  · exact nextIngestSeq_of_outside (hfold _)
  · exact nextIngestSeq_publishSnapshot r
  · rfl

/-! ### Staged events -/

/-- The sequence after one that was given out. -/
def followingSeq (ingestSeq : ℤ) : Option ℤ :=
  if i64Max < ingestSeq + 1 then none else some (ingestSeq + 1)

/-- A staged event takes the next sequence, or there is none. -/
theorem commitStaged_cases (r : Reducer) (delta : MaterializedDelta) (nowMs : ℤ) :
    (∃ n batch, (r.commitStaged delta nowMs).2 = .ok batch ∧ r.nextIngestSeq = some n ∧ 0 < n ∧
      Carries n batch ∧ (r.commitStaged delta nowMs).1.nextIngestSeq = followingSeq n) ∨
    ((∀ n, r.nextIngestSeq = some n → n ≤ 0) ∧
      r.commitStaged delta nowMs = ((r.setModel (r.model.updateDiagnostics
        (·.recordIngestSequenceExhaustion))).publish nowMs, .error .ingestSequenceExhausted)) := by
  unfold commitStaged
  split
  · rename_i hnone
    refine .inr ⟨fun n hn => ?_, rfl⟩
    have hpos := Option.filter_eq_none_iff.mp hnone n hn
    exact not_lt.mp (of_decide_eq_false (Bool.eq_false_iff.mpr hpos))
  · rename_i n hn
    obtain ⟨hseq, hpos⟩ := Option.filter_eq_some_iff.mp hn
    refine .inl ⟨n, _, rfl, hseq, of_decide_eq_true hpos, carries_staged _ _, ?_⟩
    exact nextIngestSeq_submit _ _ _

/-- What an action says about sequences: it took the next one, or it left it. -/
inductive Sequenced (r r' : Reducer) : List PersistBatch → Prop
  /-- No event was committed. -/
  | kept : r'.nextIngestSeq = r.nextIngestSeq → Sequenced r r' []
  /-- One event was committed. -/
  | taken {n : ℤ} {batch : PersistBatch} : r.nextIngestSeq = some n → 0 < n → Carries n batch →
    r'.nextIngestSeq = followingSeq n → Sequenced r r' [batch]

theorem sequenced_applyControllerEvent (r : Reducer) (event : ControllerEvent) (fresh : FreshRunIds)
    (nowMs : ℤ) : Sequenced r (r.applyControllerEvent event fresh nowMs).1
      (r.applyControllerEvent event fresh nowMs).2.toList := by
  unfold applyControllerEvent
  split
  · exact .kept rfl
  · rename_i delta _
    rcases r.commitStaged_cases delta nowMs with ⟨n, batch, hbatch, hn, hpos, hcarries, hnext⟩ | ⟨-, heq⟩
    · cases hc : r.commitStaged delta nowMs with
      | mk r' result =>
        rw [hc] at hbatch hnext
        subst hbatch
        exact .taken hn hpos hcarries hnext
    · rw [heq]
      exact .kept (nextIngestSeq_publish _ _)

/-- Everything else a provider event may do leaves the sequence alone. -/
theorem nextIngestSeq_work (r : Reducer) (nowMs : ℤ) {work : ProviderWork}
    (h : ∀ event fresh, work ≠ .synthesized event fresh) :
    (r.work nowMs work).1.nextIngestSeq = r.nextIngestSeq := by
  cases work with
  | synthesized event fresh => exact absurd rfl (h event fresh)
  | runLiveness key atMs observedAtMs => exact nextIngestSeq_install _ _ _ _
  | laneClose key atMs observedAtMs => exact nextIngestSeq_install _ _ _ _
  | telemetry key sample => exact nextIngestSeq_applyTelemetry r key sample nowMs
  | observation events =>
    have hevents := r.nextIngestSeq_applyObservationInner events none nowMs
    dsimp only [Reducer.work, applyObservation]
    split
    · rename_i heq
      rwa [heq] at hevents
    · rename_i heq
      rw [heq] at hevents
      exact (nextIngestSeq_publish _ _).trans hevents
    · rename_i heq
      rwa [heq] at hevents

/-! ### Provider events -/

theorem begin_sequence {r r' : Reducer} {origin : ObservationOrigin} {observedAtMs : ℤ}
    {prior : Option ProviderObservationPrior}
    (h : r.beginProviderObservation origin observedAtMs = some (r', prior)) :
    r'.nextIngestSeq = r.nextIngestSeq ∧ r'.pendingLiveProviderSubmission = none ∧
      ∀ checkpoint, prior = some (.live checkpoint) → checkpoint.nextIngestSeq = r.nextIngestSeq := by
  unfold beginProviderObservation at h
  split at h
  · cases h
  · rename_i hp
    have hnone : r.pendingLiveProviderSubmission = none := by simpa using hp
    split at h
    · cases h
      exact ⟨rfl, hnone, fun _ hc => by cases hc⟩
    · simp only [Option.some.injEq, Prod.mk.injEq] at h
      obtain ⟨rfl, rfl⟩ := h
      refine ⟨rfl, hnone, fun checkpoint hc => ?_⟩
      split at hc
      · cases hc
      · cases hc
        rfl

/-- A finished observation awaits no answer, or one that goes with a checkpoint from its begin. -/
theorem finish_sequence {r r' : Reducer} {prior : Option ProviderObservationPrior}
    {operations : PersistBatch} {origin : ObservationOrigin}
    {historyManifest : Option PersistHistoryDrain} {providerAtMs nowMs : ℤ} {batch : PersistV6Batch}
    {receipt : ProviderSubmissionReceipt} (hpending : r.pendingLiveProviderSubmission = none)
    (h : r.finishProviderObservation prior operations origin historyManifest providerAtMs nowMs =
      some (r', batch, receipt)) :
    r'.nextIngestSeq = r.nextIngestSeq ∧
      (r'.pendingLiveProviderSubmission = none ∨ ∃ id checkpoint readyRunIds,
        receipt = .live (some id) ∧
        r'.pendingLiveProviderSubmission = some ⟨id, checkpoint, readyRunIds⟩ ∧
        ∀ c, checkpoint = some c → prior = some (.live c)) := by
  unfold finishProviderObservation at h
  dsimp only at h
  generalize List.foldl (Finishing.touch operations _ providerAtMs) _ _ = finishing at h
  generalize finishBatch operations origin historyManifest _ finishing = submitted at h
  generalize r.readyRuns origin operations finishing.canonical = readyRunIds at h
  split at h
  · cases h
    exact ⟨rfl, .inl hpending⟩
  · split at h
    · cases h
      exact ⟨nextIngestSeq_publish _ _, .inl ((pending_publish _ _).trans hpending)⟩
    · split at h
      · cases h
      · cases h
        have hcheckpoint : ∀ hasReadyRuns c, submissionCheckpoint prior hasReadyRuns = some c →
            prior = some (.live c) := by
          intro hasReadyRuns c hc
          unfold submissionCheckpoint at hc
          split at hc
          · split at hc
            · cases hc
              rfl
            · cases hc
          · cases hc
        constructor
        · split
          · exact nextIngestSeq_publish _ _
          · rfl
        · refine .inr ⟨_, submissionCheckpoint prior !readyRunIds.isEmpty, readyRunIds, rfl, ?_,
            hcheckpoint _⟩
          split
          · exact pending_publish _ _
          · rfl

theorem nextIngestSeq_committed {r : Reducer} {receipt : ProviderSubmissionReceipt}
    {outcome : RuntimeWriteOutcome} {nowMs : ℤ} (h : r.takesBack outcome = false) :
    (r.completeProviderSubmission receipt outcome nowMs).nextIngestSeq = r.nextIngestSeq := by
  unfold completeProviderSubmission
  split
  · rename_i submissionId pending hp
    split
    · rfl
    · dsimp only
      split
      · split
        · exact nextIngestSeq_publish _ _
        · rfl
      · rename_i hout
        cases hc : pending.checkpoint with
        | none => rfl
        | some checkpoint => simp [takesBack, hp, hc, hout] at h
  · rfl

/-- A provider event as a whole. -/
theorem applyProviderEvent_sequence {r r' : Reducer} {origin : ObservationOrigin} {work : ProviderWork}
    {historyManifest : Option PersistHistoryDrain} {providerAtMs observedAtMs nowMs : ℤ}
    {outcome : RuntimeWriteOutcome} {operations : PersistBatch}
    (h : r.applyProviderEvent origin work historyManifest providerAtMs observedAtMs nowMs outcome =
      some (r', operations)) :
    ∃ r₁ prior, r.beginProviderObservation origin observedAtMs = some (r₁, prior) ∧
      r₁.nextIngestSeq = r.nextIngestSeq ∧
      ((operations = [] ∧ (r'.nextIngestSeq = r.nextIngestSeq ∨
          ((r₁.work nowMs work).2.getD [] = [] ∧
            r'.nextIngestSeq = (r₁.work nowMs work).1.nextIngestSeq))) ∨
        ((r₁.work nowMs work).2 = some operations ∧
          r'.nextIngestSeq = (r₁.work nowMs work).1.nextIngestSeq)) := by
  unfold applyProviderEvent at h
  obtain ⟨⟨r₁, prior⟩, hbegin, h⟩ := Option.bind_eq_some_iff.mp h
  obtain ⟨hseq, hpending, hprior⟩ := begin_sequence hbegin
  have hwork : (r₁.work nowMs work).1.pendingLiveProviderSubmission = none :=
    (pending_work r₁ nowMs work).trans hpending
  refine ⟨r₁, prior, hbegin, hseq, ?_⟩
  dsimp only at h
  cases hw : r₁.work nowMs work with
  | mk r₂ result =>
    rw [hw] at h hwork
    cases result with
    | none =>
      cases h
      refine .inl ⟨rfl, .inr ⟨rfl, ?_⟩⟩
      unfold cancelProviderObservation
      split
      · exact nextIngestSeq_publish _ _
      · rfl
    | some committed =>
      obtain ⟨⟨r₃, batch, receipt⟩, hfinish, h⟩ := Option.bind_eq_some_iff.mp h
      obtain ⟨hfinished, hanswer⟩ := finish_sequence hwork hfinish
      simp only [Option.some.injEq, Prod.mk.injEq] at h
      obtain ⟨rfl, rfl⟩ := h
      by_cases hback : r₃.takesBack outcome = true
      · -- the answer takes the submission back, to the sequence of the begin
        rw [if_pos hback]
        refine .inl ⟨rfl, .inl ?_⟩
        obtain ⟨hout, hsome⟩ : outcome.isCommitted = false ∧
            r₃.pendingLiveProviderSubmission.any (·.checkpoint.isSome) = true := by
          simpa [takesBack] using hback
        rcases hanswer with hnone | ⟨id, checkpoint, readyRunIds, rfl, hp, hlive⟩
        · rw [hnone] at hsome
          cases hsome
        · rw [hp] at hsome
          obtain ⟨c, rfl⟩ := Option.isSome_iff_exists.mp hsome
          simp only [completeProviderSubmission, hp, ne_eq, not_true, if_false, hout,
            Bool.false_eq_true, Option.elim_some]
          exact hprior c (hlive c rfl)
      · rw [if_neg hback]
        refine .inr ⟨rfl, ?_⟩
        exact (nextIngestSeq_committed (Bool.eq_false_iff.mpr hback)).trans hfinished

/-! ### Runs -/

/-- The batches of the events that an action commits through staging, unless they are taken back. -/
def committed (r : Reducer) : Action → List PersistBatch
  | .controllerEvent event fresh nowMs => (r.applyControllerEvent event fresh nowMs).2.toList
  | .providerEvent origin (.synthesized event fresh) historyManifest providerAtMs observedAtMs nowMs
      outcome =>
    match r.applyProviderEvent origin (.synthesized event fresh) historyManifest providerAtMs
      observedAtMs nowMs outcome with
    | some (_, batch) => if batch = [] then [] else [batch]
    | none => []
  | _ => []

/-- One action, with the batches it commits. -/
def CommitStep (r : Reducer) (batches : List PersistBatch) (r' : Reducer) : Prop :=
  ∃ action l, r.perform action = some (r', l) ∧ batches = r.committed action

theorem sequenced_synthesized {r r' : Reducer} {origin : ObservationOrigin} {event : ControllerEvent}
    {fresh : FreshRunIds} {historyManifest : Option PersistHistoryDrain}
    {providerAtMs observedAtMs nowMs : ℤ} {outcome : RuntimeWriteOutcome} {operations : PersistBatch}
    (h : r.applyProviderEvent origin (.synthesized event fresh) historyManifest providerAtMs
      observedAtMs nowMs outcome = some (r', operations)) :
    Sequenced r r' (if operations = [] then [] else [operations]) := by
  obtain ⟨r₁, prior, -, hseq, hcases⟩ := applyProviderEvent_sequence h
  have hwork : Sequenced r₁ (r₁.work nowMs (.synthesized event fresh)).1
      (r₁.work nowMs (.synthesized event fresh)).2.toList :=
    sequenced_applyControllerEvent r₁ event fresh nowMs
  generalize r₁.work nowMs (.synthesized event fresh) = result at hwork hcases
  obtain ⟨r₂, batch⟩ := result
  rcases hcases with ⟨rfl, hkept | ⟨hnone, hnext⟩⟩ | ⟨hbatch, hnext⟩
  · rw [if_pos rfl]
    exact .kept hkept
  · rw [if_pos rfl]
    refine .kept (hnext.trans (Eq.trans ?_ hseq))
    cases batch with
    | none =>
      cases hwork with
      | kept hkept => exact hkept
    | some batch =>
      cases hwork with
      | taken _ _ hcarries _ =>
        have hreserves := hcarries.reserves
        rw [show batch = [] from hnone] at hreserves
        cases hreserves
  · dsimp only at hbatch hnext
    subst hbatch
    cases hwork with
    | taken hn hpos hcarries hfollowing =>
      have hne : operations ≠ [] := fun hnil => by
        have hreserves := hcarries.reserves
        rw [hnil] at hreserves
        cases hreserves
      rw [if_neg hne]
      exact .taken (hseq ▸ hn) hpos hcarries (hnext.trans hfollowing)

/-- A provider event that commits no staged event leaves the sequence alone. -/
theorem nextIngestSeq_applyProviderEvent {r r' : Reducer} {origin : ObservationOrigin}
    {work : ProviderWork} {historyManifest : Option PersistHistoryDrain}
    {providerAtMs observedAtMs nowMs : ℤ} {outcome : RuntimeWriteOutcome} {operations : PersistBatch}
    (h : r.applyProviderEvent origin work historyManifest providerAtMs observedAtMs nowMs outcome =
      some (r', operations)) (hwork : ∀ event fresh, work ≠ .synthesized event fresh) :
    r'.nextIngestSeq = r.nextIngestSeq := by
  obtain ⟨r₁, prior, -, hseq, hcases⟩ := applyProviderEvent_sequence h
  have hkeeps := (nextIngestSeq_work r₁ nowMs hwork).trans hseq
  rcases hcases with ⟨-, hkept | ⟨-, hnext⟩⟩ | ⟨-, hnext⟩
  · exact hkept
  · exact hnext.trans hkeeps
  · exact hnext.trans hkeeps

/-- One action takes the next sequence, or leaves it. -/
theorem CommitStep.sequenced {r r' : Reducer} {batches : List PersistBatch}
    (h : CommitStep r batches r') : Sequenced r r' batches := by
  obtain ⟨action, l, hperform, rfl⟩ := h
  cases action with
  | controllerEvent event fresh nowMs =>
    cases hperform
    exact sequenced_applyControllerEvent r event fresh nowMs
  | providerEvent origin work historyManifest providerAtMs observedAtMs nowMs outcome =>
    obtain ⟨⟨r₁, operations⟩, happly, heq⟩ := Option.map_eq_some_iff.mp hperform
    cases heq
    cases work with
    | synthesized event fresh =>
      simp only [committed, happly]
      exact sequenced_synthesized happly
    | _ => exact .kept (nextIngestSeq_applyProviderEvent happly fun _ _ heq => by cases heq)
  | observation events nowMs =>
    cases hperform
    exact .kept (nextIngestSeq_applyObservationInner r events none nowMs)
  | paneObservation events observation nowMs =>
    cases hperform
    exact .kept (nextIngestSeq_applyObservationInner r events (some observation) nowMs)
  | heuristicBinding run sid bookkeepingTimeMs aliasRunId nowMs =>
    cases hperform
    exact .kept (nextIngestSeq_heuristicBinding r run sid bookkeepingTimeMs aliasRunId nowMs)
  | liveness key atMs observedAtMs nowMs =>
    cases hperform
    exact .kept (nextIngestSeq_install _ _ _ _)
  | laneClose key atMs observedAtMs nowMs =>
    cases hperform
    exact .kept (nextIngestSeq_install _ _ _ _)
  | telemetry key sample nowMs =>
    cases hperform
    exact .kept (nextIngestSeq_applyTelemetry r key sample nowMs)
  | finalization finalization nowMs =>
    cases hperform
    exact .kept (nextIngestSeq_finalization r finalization nowMs)
  | snapshot topology draws nowMs closeMs epochMs publishMs =>
    cases hperform
    exact .kept (nextIngestSeq_reconcile r topology draws nowMs closeMs epochMs publishMs)
  | sweep nowMs publishMs =>
    simp only [perform, Option.some.injEq, Prod.mk.injEq] at hperform
    rw [← hperform.1]
    exact .kept (nextIngestSeq_sweepStale r nowMs publishMs)
  | operator command nowMs publishMs =>
    cases hperform
    exact .kept (nextIngestSeq_applyOperatorCommand r command nowMs publishMs)
  | bindingConflict nowMs =>
    cases hperform
    exact .kept (nextIngestSeq_publish _ _)
  | identityDisagreement nowMs =>
    cases hperform
    exact .kept (nextIngestSeq_publish _ _)
  | replayed event nowMs =>
    cases hperform
    exact .kept (nextIngestSeq_replayed r event nowMs)
  | beginEpoch =>
    cases hperform
    exact .kept rfl
  | activateEpoch observedAtMs =>
    cases hperform
    exact .kept (nextIngestSeq_of_outside (outside_activateRateEpoch r observedAtMs))
  | checkpointRates observedAtMs =>
    cases hperform
    exact .kept (nextIngestSeq_checkpointRunRates r observedAtMs)
  | restoreTotals totals =>
    cases hperform
    exact .kept rfl

/-- The sequences given out so far grow, and the next one is above them. -/
structure Ascending (ns : List ℤ) (next : Option ℤ) : Prop where
  positive : ∀ n ∈ ns, 0 < n
  pairwise : ns.Pairwise (· < ·)
  below : ∀ n ∈ ns, ∀ m, next = some m → n < m

theorem Ascending.take {ns : List ℤ} {n : ℤ} (h : Ascending ns (some n)) (hpos : 0 < n) :
    Ascending (ns ++ [n]) (followingSeq n) := by
  have hlt : ∀ k ∈ ns, k < n := fun k hk => h.below k hk n rfl
  refine ⟨fun k hk => ?_, List.pairwise_append.mpr ⟨h.pairwise, List.pairwise_singleton _ _, ?_⟩,
    fun k hk m hm => ?_⟩
  · rcases List.mem_append.mp hk with hk | hk
    · exact h.positive k hk
    · rwa [List.mem_singleton.mp hk]
  · intro k hk j hj
    rw [List.mem_singleton.mp hj]
    exact hlt k hk
  · have hm : m = n + 1 := by
      unfold followingSeq at hm
      split at hm
      · cases hm
      · exact (Option.some.inj hm).symm
    rcases List.mem_append.mp hk with hk | hk
    · have := hlt k hk
      omega
    · rw [List.mem_singleton.mp hk]
      omega

/-- The events committed along a run are numbered upwards. -/
theorem run_ascending {r r' : Reducer} {batches : List PersistBatch}
    (h : Runs CommitStep r batches r') :
    ∃ ns, List.Forall₂ Carries ns batches ∧ Ascending ns r'.nextIngestSeq := by
  induction h with
  | refl => exact ⟨[], .nil, by simp, .nil, by simp⟩
  | tail _ hstep ih =>
    obtain ⟨ns, hcarried, hascending⟩ := ih
    cases hstep.sequenced with
    | kept hkept => exact ⟨ns, by simpa using hcarried, hkept ▸ hascending⟩
    | @taken n batch hn hpos hcarries hnext =>
      rw [hn] at hascending
      exact ⟨ns ++ [n], List.rel_append hcarried (.cons hcarries .nil), hnext ▸ hascending.take hpos⟩

/-! ### Refusals -/

/-- An observation that was not applied. -/
def Refused (result : Except ReducerError ApplyOutcome) : Prop :=
  (∃ error, result = .error error) ∨ ∃ conflict, result = .ok (.droppedBindingConflict conflict)

/-- The model, the next ordinal, the provenance maps, the next sequence and the snapshots sent are
the same. -/
structure Unchanged (r r' : Reducer) : Prop where
  core : r'.toCore = r.toCore
  nextIngestSeq : r'.nextIngestSeq = r.nextIngestSeq
  published : r'.published = r.published

theorem unchanged_applyObservationInner (r : Reducer) (events : List (NormalizedEvent × RunId))
    (observation : Option PaneAgentStatusObservation) (nowMs : ℤ)
    (h : Refused (r.applyObservationInner events observation nowMs).2) :
    Unchanged r (r.applyObservationInner events observation nowMs).1 := by
  refine ⟨?_, nextIngestSeq_applyObservationInner r events observation nowMs, ?_⟩ <;>
    revert h <;> unfold applyObservationInner <;> dsimp only <;> split
  all_goals intro h
  · rfl
  · split at h
    · obtain ⟨_, h⟩ | ⟨_, h⟩ := h <;> cases h
    · rfl
    · rfl
  · rfl
  · split at h
    · obtain ⟨_, h⟩ | ⟨_, h⟩ := h <;> cases h
    · cases observation.filter r.paneAgentStatusChanged <;> rfl
    · cases observation.filter r.paneAgentStatusChanged <;> rfl

theorem unchanged_heuristicBinding (r : Reducer) (run : RunId) (sid : String)
    (bookkeepingTimeMs : ℤ) (aliasRunId : RunId) (nowMs : ℤ) {conflict : MergeConflict}
    (h : (r.applyHeuristicBinding run sid bookkeepingTimeMs aliasRunId nowMs).2 =
      .droppedBindingConflict conflict) :
    Unchanged r (r.applyHeuristicBinding run sid bookkeepingTimeMs aliasRunId nowMs).1 := by
  rw [applyHeuristicBinding_eq] at h ⊢
  split at h
  · cases h
  · exact ⟨rfl, rfl, rfl⟩
  · cases h

theorem unchanged_reconcile (r : Reducer) (topology : TopologySnapshot) (draws : ℕ → PaneDraw)
    (nowMs : ℤ) (closeMs : String → ℤ) (epochMs publishMs : ℤ) {error : ReducerError}
    (h : (r.reconcileSnapshot topology draws nowMs closeMs epochMs publishMs).2 = .error error) :
    Unchanged r (r.reconcileSnapshot topology draws nowMs closeMs epochMs publishMs).1 := by
  rw [reconcileSnapshot_eq] at h ⊢
  split at h
  · exact ⟨rfl, rfl, rfl⟩
  · cases h

/-- A staged event is refused when no sequence is left, and only then. -/
theorem commitStaged_refused_iff (r : Reducer) {delta : MaterializedDelta} {nowMs : ℤ} :
    (∃ error, (r.commitStaged delta nowMs).2 = .error error) ↔ ∀ n, r.nextIngestSeq = some n → n ≤ 0 := by
  rcases r.commitStaged_cases delta nowMs with ⟨n, batch, hok, hn, hpos, -⟩ | ⟨hspent, heq⟩
  · rw [hok]
    constructor
    · rintro ⟨error, herror⟩
      cases herror
    · intro hspent
      exact absurd hpos (not_lt.mpr (hspent n hn))
  · rw [heq]
    exact ⟨fun _ => hspent, fun _ => ⟨_, rfl⟩⟩

/-- Refused work leaves the reducer as it was, however far it got. A staged event is refused when no sequence
is left, and only then; that is counted and published, which brings samples and rates up to date and changes
nothing else. The events committed along a run carry increasing sequences. -/
theorem refused_work_changes_nothing (r : Reducer) :
    (∀ events observation nowMs, Refused (r.applyObservationInner events observation nowMs).2 →
      Unchanged r (r.applyObservationInner events observation nowMs).1) ∧
    (∀ run sid bookkeepingTimeMs aliasRunId nowMs conflict,
      (r.applyHeuristicBinding run sid bookkeepingTimeMs aliasRunId nowMs).2 =
        .droppedBindingConflict conflict →
      Unchanged r (r.applyHeuristicBinding run sid bookkeepingTimeMs aliasRunId nowMs).1) ∧
    (∀ topology draws nowMs closeMs epochMs publishMs error,
      (r.reconcileSnapshot topology draws nowMs closeMs epochMs publishMs).2 = .error error →
      Unchanged r (r.reconcileSnapshot topology draws nowMs closeMs epochMs publishMs).1) ∧
    (∀ delta nowMs,
      ((∃ error, (r.commitStaged delta nowMs).2 = .error error) ↔ ∀ n, r.nextIngestSeq = some n → n ≤ 0) ∧
      ∀ error, (r.commitStaged delta nowMs).2 = .error error →
        (r.commitStaged delta nowMs).1 = (r.setModel (r.model.updateDiagnostics
          (·.recordIngestSequenceExhaustion))).publish nowMs ∧
        (r.commitStaged delta nowMs).1.nextIngestSeq = r.nextIngestSeq ∧
        (r.commitStaged delta nowMs).1.toCore.unmeasured = r.toCore.unmeasured) ∧
    (∀ r' batches, Runs CommitStep r batches r' →
      ∃ ns, List.Forall₂ Carries ns batches ∧ ns.Pairwise (· < ·) ∧ ∀ n ∈ ns, 0 < n) := by
  refine ⟨unchanged_applyObservationInner r, fun _ _ _ _ _ _ => unchanged_heuristicBinding r _ _ _ _ _,
    fun _ _ _ _ _ _ _ => unchanged_reconcile r _ _ _ _ _ _,
    fun delta nowMs => ⟨r.commitStaged_refused_iff, fun error h => ?_⟩, fun r' batches h => ?_⟩
  · rcases r.commitStaged_cases delta nowMs with ⟨n, batch, hok, -⟩ | ⟨-, heq⟩
    · rw [hok] at h
      cases h
    · rw [heq]
      exact ⟨rfl, nextIngestSeq_publish _ _, (unmeasured_publish _ _).trans rfl⟩
  · obtain ⟨ns, hcarried, hascending⟩ := run_ascending h
    exact ⟨ns, hcarried, hascending.pairwise, hascending.positive⟩

/-- One display ordinal is left. -/
def oneOrdinalLeft : Reducer := { fresh 0 with nextOrdinal := i64Max - 1 }

/-- Executions of two unknown runs begin in one observation. -/
def twoExecutions : List (NormalizedEvent × RunId) :=
  [("a", ⟨1⟩), ("b", ⟨2⟩)].map fun begun =>
    (.executionBegin { eventId := begun.1, timestampMs := 1, receiptTimeMs := 1 }
      ⟨begun.1, "pane", "terminal", begun.2, .working⟩, ⟨9⟩)

/-- A snapshot of two unknown workspaces. -/
def twoWorkspaces : TopologySnapshot where
  workspaces := [⟨"one"⟩, ⟨"two"⟩]

/-- An observation and a snapshot run out of ordinals when they have changed the model already, a binding
conflicts, an event finds no sequence, and two events of one job follow each other. -/
theorem refused_work_changes_nothing_jobDone :
    (∃ failure, applyEvents oneOrdinalLeft.toCore twoExecutions = .error failure ∧
      failure.core.model ≠ oneOrdinalLeft.model ∧ failure.core.nextOrdinal ≠ oneOrdinalLeft.nextOrdinal) ∧
    Unchanged oneOrdinalLeft (oneOrdinalLeft.applyObservationInner twoExecutions none 1).1 ∧
    (∃ failure, oneOrdinalLeft.begin.reconcileSnapshotInner twoWorkspaces (fun _ => ⟨⟨5⟩, ⟨6⟩⟩) 1 (fun _ => 1) =
      .error failure ∧ failure.core.model ≠ oneOrdinalLeft.model) ∧
    Unchanged oneOrdinalLeft
      (oneOrdinalLeft.reconcileSnapshot twoWorkspaces (fun _ => ⟨⟨5⟩, ⟨6⟩⟩) 1 (fun _ => 1) 1 1).1 ∧
    Unchanged jobDone (jobDone.applyHeuristicBinding ⟨1⟩ "session" 2 ⟨9⟩ 2).1 ∧
    (∃ error, (({ fresh 0 with nextIngestSeq := none } : Reducer).commitStaged ⟨(fresh 0).toCore, {}, []⟩ 0).2 =
      .error error) ∧
    ∃ ns, List.Forall₂ Carries ns
      ((fresh 0).committed (jobEvent "a" .complete) ++ jobDone.committed (jobEvent "b" .progress)) ∧
      ns.Pairwise (· < ·) ∧ ns.length = 2 := by
  obtain ⟨hobservation, -, hsnapshot, -⟩ := refused_work_changes_nothing oneOrdinalLeft
  obtain ⟨-, hbinding, -⟩ := refused_work_changes_nothing jobDone
  obtain ⟨-, -, -, hcommit, -⟩ := refused_work_changes_nothing { fresh 0 with nextIngestSeq := none }
  have hrun : Runs CommitStep (fresh 0)
      ((fresh 0).committed (jobEvent "a" .complete) ++ jobDone.committed (jobEvent "b" .progress))
      (jobDone.next (jobEvent "b" .progress)).1 :=
    (Runs.one ⟨jobEvent "a" .complete, _, rfl, rfl⟩).tail ⟨jobEvent "b" .progress, _, rfl, rfl⟩
  obtain ⟨ns, hcarried, hpairwise, -⟩ :=
    (refused_work_changes_nothing (fresh 0)).2.2.2.2 _ _ hrun
  refine ⟨⟨_, rfl, by decide, by decide⟩, ?_, ⟨_, rfl, by decide⟩, ?_, ?_, ?_, ns, hcarried, hpairwise, ?_⟩
  · exact hobservation _ _ _ (.inl ⟨.ordinalExhausted, rfl⟩)
  · exact hsnapshot _ _ _ _ _ _ .ordinalExhausted rfl
  · exact hbinding _ _ _ _ _ (.evidenceMismatch ⟨1⟩) rfl
  · exact (hcommit _ _).1.mpr fun n hn => by cases hn
  · exact hcarried.length_eq.trans (by decide)

/-- When the sequences are used up, a refused event changes the diagnostics and sends a snapshot. -/
theorem exhaustion_is_published : ∃ (r : Reducer) (delta : MaterializedDelta),
    (r.commitStaged delta 0).2 = .error .ingestSequenceExhausted ∧
      (r.commitStaged delta 0).1.model ≠ r.model ∧
      (r.commitStaged delta 0).1.published ≠ r.published := by
  refine ⟨{ fresh 0 with nextIngestSeq := none }, ⟨(fresh 0).toCore, {}, []⟩, rfl, by decide, by decide⟩

end Reducer

end HerdrTop
