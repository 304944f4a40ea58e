import HerdrTop.Reducer.Rollback
import HerdrTop.Reducer.TopologySafety

/-!
# What the reducer sends

Snapshots leave the reducer in the course of an action, and more than one place of an action may ask for one to be
sent. Still no action sends two, and what it sends is the snapshot of the model that it leaves behind: whoever listens
is never behind an action that has sent something.

## What is proved

* `perform_sends`: what one action sends.
* `published_between_actions`: in every run, what has been sent are states between two actions.
-/

namespace HerdrTop.Reducer

variable {r r' r'' : Reducer}

/-- At most one snapshot is sent, at the end, and none while publication is withheld. -/
structure Sends (r r' : Reducer) : Prop where
  deferPublication : r'.deferProviderPublication = r.deferProviderPublication
  deferModelPublication : r'.deferProviderModelPublication = r.deferProviderModelPublication
  sent : r'.published = r.published ∨
    (r'.published = r'.model.publicationSnapshot :: r.published ∧ r.deferProviderPublication = false ∧
      r.deferProviderModelPublication = false)

/-- At most one snapshot is sent, at the end. -/
def SendsCurrent (r r' : Reducer) : Prop :=
  r'.published = r.published ∨ r'.published = r'.model.publicationSnapshot :: r.published

namespace Sends

theorem of_gate (h : r'.gate = r.gate) : Sends r r' :=
  ⟨congrArg Gate.deferPublication h, congrArg Gate.deferModelPublication h, .inl (congrArg Gate.published h)⟩

theorem after (h : r'.gate = r.gate) (hlater : Sends r' r'') : Sends r r'' := by
  have hpublished : r'.published = r.published := congrArg Gate.published h
  have hdefer : r'.deferProviderPublication = r.deferProviderPublication := congrArg Gate.deferPublication h
  have hdeferModel : r'.deferProviderModelPublication = r.deferProviderModelPublication :=
    congrArg Gate.deferModelPublication h
  refine ⟨hlater.deferPublication.trans hdefer, hlater.deferModelPublication.trans hdeferModel, ?_⟩
  rw [← hpublished, ← hdefer, ← hdeferModel]
  exact hlater.sent

theorem current (h : Sends r r') : SendsCurrent r r' := h.sent.imp_right And.left

/-- Nothing is sent while publication is withheld. -/
theorem withheld (h : Sends r r')
    (hdefer : r.deferProviderPublication = true ∨ r.deferProviderModelPublication = true) :
    r'.published = r.published := by
  rcases h.sent with hsame | ⟨-, hopen, hopenModel⟩
  · exact hsame
  · simp [hopen, hopenModel] at hdefer

end Sends

namespace SendsCurrent

theorem of_published (h : r'.published = r.published) (hlater : SendsCurrent r' r'') : SendsCurrent r r'' := by
  unfold SendsCurrent
  rw [← h]
  exact hlater

end SendsCurrent

/-! ### The operations -/

theorem sends_publishSnapshot (r : Reducer) : Sends r r.publishSnapshot := by
  unfold publishSnapshot
  split_ifs with hdefer hmodel hpending
  · exact .of_gate rfl
  · exact .of_gate rfl
  · exact .of_gate rfl
  · exact ⟨rfl, rfl, .inr ⟨rfl, by simpa using hdefer, by simpa using hmodel⟩⟩

theorem sends_publish (r : Reducer) (nowMs : ℤ) : Sends r (r.publish nowMs) :=
  .after (gate_settle r nowMs) (sends_publishSnapshot _)

theorem sends_submit (r : Reducer) (persist : PersistBatch) (nowMs : ℤ) : Sends r (r.submit persist nowMs) :=
  .after (gate_applyOperatorSubmission r persist) (sends_publish _ nowMs)

theorem sends_install (r : Reducer) (tx : Tx) (publish : Bool) (nowMs : ℤ) : Sends r (r.install tx publish nowMs) := by
  unfold install
  split_ifs
  · exact .after (gate_withCore r _) (sends_submit _ _ nowMs)
  · exact .of_gate rfl

theorem sends_commitStaged (r : Reducer) (delta : MaterializedDelta) (nowMs : ℤ) :
    Sends r (r.commitStaged delta nowMs).1 := by
  unfold commitStaged
  split
  · exact .after (gate_setModel r _) (sends_publish _ nowMs)
  · refine .after ?_ (sends_submit _ _ nowMs)
    rfl

theorem sends_applyControllerEvent (r : Reducer) (event : ControllerEvent) (fresh : FreshRunIds) (nowMs : ℤ) :
    Sends r (r.applyControllerEvent event fresh nowMs).1 := by
  unfold applyControllerEvent
  split
  · exact .of_gate rfl
  · rename_i delta _
    have hsends := sends_commitStaged r delta nowMs
    split
    all_goals simp_all

theorem sends_applyObservationInner (r : Reducer) (events : List (NormalizedEvent × RunId))
    (observation : Option PaneAgentStatusObservation) (nowMs : ℤ) :
    Sends r (r.applyObservationInner events observation nowMs).1 := by
  unfold applyObservationInner
  dsimp only
  split
  · exact .of_gate rfl
  · have hnoted : ((observation.filter r.paneAgentStatusChanged).elim r r.notePaneAgentStatus).gate = r.gate := by
      cases observation.filter r.paneAgentStatusChanged <;> rfl
    generalize (observation.filter r.paneAgentStatusChanged).elim r r.notePaneAgentStatus = noted at hnoted
    split
    · refine .after ?_ (sends_submit _ _ nowMs)
      exact hnoted
    · exact .of_gate hnoted
    · exact .of_gate hnoted

theorem sends_applyHeuristicBinding (r : Reducer) (run : RunId) (sid : String) (bookkeepingTimeMs : ℤ)
    (aliasRunId : RunId) (nowMs : ℤ) :
    Sends r (r.applyHeuristicBinding run sid bookkeepingTimeMs aliasRunId nowMs).1 := by
  rw [applyHeuristicBinding_eq]
  split
  · refine .after ?_ (sends_submit _ _ nowMs)
    rfl
  · exact .of_gate rfl
  · exact .of_gate rfl

theorem sends_applyTelemetry (r : Reducer) (key : RunKey) (sample : PendingTelemetry) (nowMs : ℤ) :
    Sends r (r.applyTelemetryWithBreakdown key sample nowMs) := by
  unfold applyTelemetryWithBreakdown
  split
  · exact .after (gate_accumulateTelemetry r key sample) (sends_publish _ nowMs)
  · exact .of_gate (gate_enqueuePendingTelemetry r key sample)

theorem sends_recordBindingConflict (r : Reducer) (nowMs : ℤ) : Sends r (r.recordBindingConflict nowMs) :=
  .after (gate_setModel r _) (sends_publish _ nowMs)

theorem sends_restoreReplayed (r : Reducer) (event : ControllerEvent) (nowMs : ℤ) :
    Sends r (r.restoreReplayedControllerTransients event nowMs) := by
  unfold restoreReplayedControllerTransients
  split
  · split
    · exact .of_gate rfl
    · split
      · split
        · split
          · exact .after (gate_setModel r _) (sends_publish _ nowMs)
          · exact .of_gate rfl
        · exact .of_gate rfl
      · split
        · split
          · exact .after (gate_setModel r _) (sends_publish _ nowMs)
          · exact .of_gate rfl
        · exact .of_gate rfl
      all_goals exact .of_gate rfl
  · exact .of_gate rfl

theorem sends_reconcileSnapshot (r : Reducer) (topology : TopologySnapshot) (draws : ℕ → PaneDraw) (nowMs : ℤ)
    (closeMs : String → ℤ) (epochMs publishMs : ℤ) :
    Sends r (r.reconcileSnapshot topology draws nowMs closeMs epochMs publishMs).1 := by
  rw [reconcileSnapshot_eq]
  split
  · exact .of_gate rfl
  · rename_i tx _
    dsimp only
    generalize hepoch : (Reducer.applyOperatorSubmission _
      _).applyPendingTelemetryForKnownRuns.beginRateEpoch.activateRateEpoch epochMs = later
    have houtside : later.outside = r.outside := by
      rw [← hepoch, outside_activateRateEpoch, outside_beginRateEpoch, outside_applyPendingTelemetry,
        outside_applyOperatorSubmission, outside_recompute, outside_withCore]
    exact .after (congrArg Outside.gate houtside) (sends_publish later publishMs)

theorem sends_sweepStale (r : Reducer) (nowMs publishMs : ℤ) : Sends r (r.sweepStale nowMs publishMs).1 := by
  unfold sweepStale
  generalize r.begin.sweepStale r.headlessInactivityMs nowMs = tx
  dsimp only
  split_ifs
  · exact .of_gate (gate_withCore r _)
  · have hgate : (r.withCore tx.toCore).recomputeDanglingAnnouncementComponents.gate = r.gate := by
      rw [gate_recompute, gate_withCore]
    exact .after hgate (sends_submit _ tx.persist publishMs)

theorem gate_finalizeRun (r : Reducer) (finalized : FinalizedHistoryRun) : (r.finalizeRun finalized).gate = r.gate := by
  unfold finalizeRun
  split <;> rfl

theorem gate_finalizeRuns (runs : List FinalizedHistoryRun) (r : Reducer) :
    (runs.foldl finalizeRun r).gate = r.gate := by
  induction runs generalizing r with
  | nil => rfl
  | cons run runs ih => rw [List.foldl_cons, ih, gate_finalizeRun]

theorem sends_applyHistoryFinalization (r : Reducer) (finalization : HistoryDrainFinalization) (nowMs : ℤ) :
    SendsCurrent r (r.applyHistoryFinalization finalization nowMs).1 := by
  unfold applyHistoryFinalization
  split
  · exact .inl rfl
  · dsimp only
    generalize hfinalized : List.foldl finalizeRun _ finalization.runs = finalized
    have hgate : finalized.gate = r.gate := by
      rw [← hfinalized, gate_finalizeRuns]
      rfl
    generalize hnoted : ({ finalized with
      rateObservationContext := some (.historical, finalization.finalizedAtMs) } : Reducer) = noted
    have hgate' : noted.gate = r.gate := by
      rw [← hnoted]
      exact hgate
    exact (Sends.after hgate' (sends_publish noted nowMs)).current

theorem sends_checkpointRunRates (r : Reducer) (observedAtMs : ℤ) :
    SendsCurrent r (r.checkpointRunRates observedAtMs).1 := by
  unfold checkpointRunRates
  dsimp only
  generalize ((r.model.rateCursors.toList.filter (·.2.working)).map Prod.fst).insertionSort (· ≤ ·) = runIds
  generalize hobserved : (if r.rateEpochActive = true then List.foldl _ r runIds else r) = observed
  have hgate : observed.gate = r.gate := by
    rw [← hobserved]
    split
    · exact congrArg Outside.gate (outside_foldl (fun r runId => outside_observe r _ _) runIds r)
    · rfl
  split
  · exact (Sends.after hgate (sends_publishSnapshot observed)).current
  · exact .inl (congrArg Gate.published hgate)

theorem sends_work (r : Reducer) (nowMs : ℤ) (work : ProviderWork) : Sends r (r.work nowMs work).1 := by
  cases work with
  | synthesized event fresh => exact sends_applyControllerEvent r event fresh nowMs
  | runLiveness key atMs observedAtMs => exact sends_install r _ _ nowMs
  | laneClose key atMs observedAtMs => exact sends_install r _ _ nowMs
  | telemetry key sample => exact sends_applyTelemetry r key sample nowMs
  | observation events =>
    dsimp only [Reducer.work]
    have hsends : Sends r (r.applyObservation events nowMs).1 := sends_applyObservationInner r events none nowMs
    have hdropped : ∀ r' conflict, r.applyObservation events nowMs = (r', .ok (.droppedBindingConflict conflict)) →
        r'.gate = r.gate := by
      intro r' conflict hresult
      unfold applyObservation applyObservationInner at hresult
      simp only [Option.filter_none, Option.elim_none] at hresult
      split at hresult
      · cases hresult
      · split at hresult
        · cases hresult
        · cases hresult
          rfl
        · cases hresult
    generalize hresult : r.applyObservation events nowMs = result at hsends
    obtain ⟨r', outcome⟩ := result
    cases outcome with
    | error error => exact hsends
    | ok outcome => cases outcome with
      | applied operations => exact hsends
      | droppedBindingConflict conflict =>
        exact .after (hdropped r' conflict hresult) (sends_recordBindingConflict r' nowMs)

theorem sends_cancel (r : Reducer) (nowMs : ℤ) : SendsCurrent r (r.cancelProviderObservation nowMs) := by
  unfold cancelProviderObservation
  split_ifs
  · exact .of_published rfl (sends_publish r.endDeferral nowMs).current
  · exact .inl rfl

theorem sends_complete (r : Reducer) (receipt : ProviderSubmissionReceipt) (outcome : RuntimeWriteOutcome)
    (nowMs : ℤ) : SendsCurrent r (r.completeProviderSubmission receipt outcome nowMs) := by
  unfold completeProviderSubmission
  split
  · rename_i submissionId pending _
    split
    · exact .inl rfl
    · dsimp only
      split
      · split
        · exact .of_published rfl (sends_publish _ nowMs).current
        · exact .inl rfl
      · cases pending.checkpoint <;> exact .inl rfl
  · exact .inl rfl

/-- The answer to a submission that waits for nothing changes nothing that is sent. -/
theorem complete_idle {receipt : ProviderSubmissionReceipt} {id : ℕ}
    (hpending : r.pendingLiveProviderSubmission = some ⟨id, none, []⟩) (outcome : RuntimeWriteOutcome) (nowMs : ℤ) :
    (r.completeProviderSubmission receipt outcome nowMs).published = r.published ∧
      (r.completeProviderSubmission receipt outcome nowMs).model = r.model := by
  unfold completeProviderSubmission
  rw [hpending]
  split
  · rename_i submissionId pending hsome
    obtain rfl := Option.some.inj hsome
    split
    · exact ⟨rfl, rfl⟩
    · dsimp only
      split
      · exact ⟨rfl, rfl⟩
      · exact ⟨rfl, rfl⟩
  · exact ⟨rfl, rfl⟩

/-- A provider event sends nothing before its work is done, and afterwards at its end or with the answer. -/
theorem sends_finish {prior : Option ProviderObservationPrior} {operations : PersistBatch} {origin : ObservationOrigin}
    {historyManifest : Option PersistHistoryDrain} {providerAtMs nowMs : ℤ} {batch : PersistV6Batch}
    {receipt : ProviderSubmissionReceipt}
    (h : r.finishProviderObservation prior operations origin historyManifest providerAtMs nowMs =
      some (r', batch, receipt)) (outcome : RuntimeWriteOutcome) :
    SendsCurrent r (r'.completeProviderSubmission receipt outcome nowMs) := by
  unfold finishProviderObservation at h
  dsimp only at h
  generalize List.foldl (Finishing.touch operations _ providerAtMs) _ _ = finishing at h
  generalize finishBatch operations origin historyManifest _ finishing = built at h
  generalize hready : r.readyRuns origin operations finishing.canonical = readyRunIds at h
  generalize hbegun : r.endDeferral.setModel finishing.model = begun at h
  have hpublished : begun.published = r.published := by
    rw [← hbegun]
    rfl
  refine .of_published hpublished ?_
  split_ifs at h with hhistorical hempty hbad hnone
  · obtain ⟨rfl, -, rfl⟩ := by simpa using h
    exact .inl rfl
  · obtain ⟨rfl, -, rfl⟩ := by simpa using h
    exact (sends_publish begun nowMs).current
  · -- no run is to be shown, so the snapshot has been sent and the answer adds nothing
    have hnil : readyRunIds = [] := List.isEmpty_iff.mp hnone
    obtain ⟨rfl, -, rfl⟩ := by simpa using h
    have hnocheckpoint : submissionCheckpoint prior false = none := by
      unfold submissionCheckpoint
      split <;> rfl
    generalize hsubmitted : begun.submitLive (submissionCheckpoint prior !readyRunIds.isEmpty) readyRunIds = submitted
    have hpending : (submitted.1.publish nowMs).pendingLiveProviderSubmission =
        some ⟨begun.nextProviderSubmissionToken, none, []⟩ := by
      rw [pending_publish, ← hsubmitted, hnil]
      simp [submitLive, hnocheckpoint]
    have hsame : submitted.1.published = begun.published := by
      rw [← hsubmitted]
      rfl
    obtain ⟨hsent, hmodel⟩ := @complete_idle _ submitted.2 _ hpending outcome nowMs
    refine .of_published hsame ?_
    unfold SendsCurrent
    rw [hsent, hmodel]
    exact (sends_publish submitted.1 nowMs).current
  · obtain ⟨rfl, -, rfl⟩ := by simpa using h
    exact .of_published rfl (sends_complete _ _ outcome nowMs)

theorem sends_applyProviderEvent {origin : ObservationOrigin} {work : ProviderWork}
    {historyManifest : Option PersistHistoryDrain} {providerAtMs observedAtMs nowMs : ℤ} {outcome : RuntimeWriteOutcome}
    {operations : PersistBatch}
    (h : r.applyProviderEvent origin work historyManifest providerAtMs observedAtMs nowMs outcome =
      some (r', operations)) : SendsCurrent r r' := by
  unfold applyProviderEvent at h
  obtain ⟨⟨begun, prior⟩, hbegin, h⟩ := Option.bind_eq_some_iff.mp h
  have hdeferred : begun.published = r.published ∧
      (begun.deferProviderPublication = true ∨ begun.deferProviderModelPublication = true) := by
    unfold beginProviderObservation at hbegin
    split at hbegin
    · cases hbegin
    · split at hbegin
      · cases hbegin
        exact ⟨rfl, .inl rfl⟩
      · cases hbegin
        exact ⟨rfl, .inr rfl⟩
  have hwork := sends_work begun nowMs work
  dsimp only at h
  generalize begun.work nowMs work = worked at h hwork
  obtain ⟨worked, done⟩ := worked
  have hpublished : worked.published = r.published := (hwork.withheld hdeferred.2).trans hdeferred.1
  cases done with
  | none =>
    obtain ⟨rfl, -⟩ := Prod.mk.inj (Option.some.inj h)
    exact .of_published hpublished (sends_cancel worked nowMs)
  | some operations' =>
    obtain ⟨⟨finished, batch, receipt⟩, hfinish, h⟩ := Option.bind_eq_some_iff.mp h
    obtain ⟨rfl, -⟩ := Prod.mk.inj (Option.some.inj h)
    exact .of_published hpublished (sends_finish hfinish outcome)

/-- No action sends two snapshots, and what it sends is the snapshot of the model that it leaves behind. -/
theorem perform_sends {action : Action} {merges : List Merge} (h : r.perform action = some (r', merges)) :
    SendsCurrent r r' := by
  cases action with
  | providerEvent origin work historyManifest providerAtMs observedAtMs nowMs outcome =>
    obtain ⟨⟨done, operations⟩, hdone, h⟩ := Option.map_eq_some_iff.mp h
    obtain ⟨rfl, -⟩ := Prod.mk.inj h
    exact sends_applyProviderEvent hdone
  | observation events nowMs =>
    obtain ⟨rfl, -⟩ := Prod.mk.inj (Option.some.inj h)
    exact (sends_applyObservationInner r events none nowMs).current
  | paneObservation events observation nowMs =>
    obtain ⟨rfl, -⟩ := Prod.mk.inj (Option.some.inj h)
    exact (sends_applyObservationInner r events (some observation) nowMs).current
  | heuristicBinding run sid bookkeepingTimeMs aliasRunId nowMs =>
    obtain ⟨rfl, -⟩ := Prod.mk.inj (Option.some.inj h)
    exact (sends_applyHeuristicBinding r run sid bookkeepingTimeMs aliasRunId nowMs).current
  | controllerEvent event fresh nowMs =>
    obtain ⟨rfl, -⟩ := Prod.mk.inj (Option.some.inj h)
    exact (sends_applyControllerEvent r event fresh nowMs).current
  | liveness key atMs observedAtMs nowMs =>
    obtain ⟨rfl, -⟩ := Prod.mk.inj (Option.some.inj h)
    exact (sends_install r _ _ nowMs).current
  | laneClose key atMs observedAtMs nowMs =>
    obtain ⟨rfl, -⟩ := Prod.mk.inj (Option.some.inj h)
    exact (sends_install r _ _ nowMs).current
  | telemetry key sample nowMs =>
    obtain ⟨rfl, -⟩ := Prod.mk.inj (Option.some.inj h)
    exact (sends_applyTelemetry r key sample nowMs).current
  | finalization finalization nowMs =>
    obtain ⟨rfl, -⟩ := Prod.mk.inj (Option.some.inj h)
    exact sends_applyHistoryFinalization r finalization nowMs
  | snapshot topology draws nowMs closeMs epochMs publishMs =>
    obtain ⟨rfl, -⟩ := Prod.mk.inj (Option.some.inj h)
    exact (sends_reconcileSnapshot r topology draws nowMs closeMs epochMs publishMs).current
  | sweep nowMs publishMs =>
    obtain ⟨rfl, -⟩ := Prod.mk.inj (Option.some.inj h)
    exact (sends_sweepStale r nowMs publishMs).current
  | operator command nowMs publishMs =>
    obtain ⟨rfl, -⟩ := Prod.mk.inj (Option.some.inj h)
    cases command
    exact (sends_install r _ _ publishMs).current
  | bindingConflict nowMs =>
    obtain ⟨rfl, -⟩ := Prod.mk.inj (Option.some.inj h)
    exact (sends_recordBindingConflict r nowMs).current
  | identityDisagreement nowMs =>
    obtain ⟨rfl, -⟩ := Prod.mk.inj (Option.some.inj h)
    exact (Sends.after (gate_setModel r _) (sends_publish _ nowMs)).current
  | replayed event nowMs =>
    obtain ⟨rfl, -⟩ := Prod.mk.inj (Option.some.inj h)
    exact (sends_restoreReplayed r event nowMs).current
  | beginEpoch =>
    obtain ⟨rfl, -⟩ := Prod.mk.inj (Option.some.inj h)
    exact .inl rfl
  | activateEpoch observedAtMs =>
    obtain ⟨rfl, -⟩ := Prod.mk.inj (Option.some.inj h)
    exact .inl (congrArg (fun outside => outside.gate.published) (outside_activateRateEpoch r observedAtMs))
  | checkpointRates observedAtMs =>
    obtain ⟨rfl, -⟩ := Prod.mk.inj (Option.some.inj h)
    exact sends_checkpointRunRates r observedAtMs
  | restoreTotals totals =>
    obtain ⟨rfl, -⟩ := Prod.mk.inj (Option.some.inj h)
    exact .inl rfl

/-! ### Every run -/

/-- Whoever listens sees states between actions only: in every run, whatever has been sent is the snapshot of the model
at a time when no action was under way. -/
theorem published_between_actions {strict : Bool} {headlessInactivityMs : ℤ} {ls : List Merge}
    (h : Runs (Step strict) (fresh headlessInactivityMs) ls r) {model : DomainModel} (hsent : model ∈ r.published) :
    ∃ before after between, Runs (Step strict) (fresh headlessInactivityMs) before between ∧
      Runs (Step strict) between after r ∧ ls = before ++ after ∧ model = between.model.publicationSnapshot := by
  induction h with
  | refl =>
    obtain rfl := List.mem_singleton.mp hsent
    exact ⟨[], [], _, .refl _, .refl _, rfl, rfl⟩
  | @tail middle last ls l hrun hstep ih =>
    obtain ⟨action, hadmissible, hdone⟩ := hstep
    have hlast : Step strict middle l last := ⟨action, hadmissible, hdone⟩
    have hearlier : model ∈ middle.published → ∃ before after between,
        Runs (Step strict) (fresh headlessInactivityMs) before between ∧ Runs (Step strict) between after last ∧
          ls ++ l = before ++ after ∧ model = between.model.publicationSnapshot := by
      intro hmem
      obtain ⟨before, after, between, hbefore, hafter, hls, hmodel⟩ := ih hmem
      exact ⟨before, after ++ l, between, hbefore, .tail hafter hlast, by rw [hls, List.append_assoc], hmodel⟩
    rcases perform_sends hdone with hsame | hnew
    · exact hearlier (hsame ▸ hsent)
    · rw [hnew] at hsent
      rcases List.mem_cons.mp hsent with rfl | hmem
      · exact ⟨ls ++ l, [], last, .tail hrun hlast, .refl _, (List.append_nil _).symm, rfl⟩
      · exact hearlier hmem

theorem published_between_actions_jobDone : ∃ model after, ∃ between : Reducer, model ∈ jobDone.published ∧
    (model.taskRunByKey (.controller "job")).isSome = true ∧ Runs (Step true) between after jobDone ∧
    model = between.model.publicationSnapshot := by
  obtain ⟨headlessInactivityMs, hruns⟩ := reached_jobDone
  have hjob : (jobDone.published.any fun model => (model.taskRunByKey (.controller "job")).isSome) = true := by
    decide +kernel
  obtain ⟨model, hsent, hshown⟩ := List.any_eq_true.mp hjob
  obtain ⟨before, after, between, -, hafter, -, hmodel⟩ := published_between_actions hruns hsent
  exact ⟨model, after, between, hsent, hshown, hafter, hmodel⟩

end HerdrTop.Reducer
