import HerdrTop.Reducer.Publishing
import HerdrTop.Reducer.Safety

/-!
# What is shown of an unfinished history

While the history of a run is read, its row changes with every piece, and a run that was shown before keeps the row it
had then: its before-image. Before-images pass through merges, rollbacks and finalizations, yet none of them ever holds
a row that was not the run's own while its history was complete.

## What is proved

* `DomainModel.taskRun_publicationSnapshot`: where the rows of a snapshot come from.
* `Reducer.perform_images`: which before-images an action adds.
* `Reducer.unfinished_history_hidden`: in every run, what is shown of a run is a row from a time when its history was
  complete.
-/

namespace HerdrTop

namespace DomainModel

/-- The rows of runs that before-images hold. -/
def images (m : DomainModel) : Set TaskRun :=
  {run | ∃ key publication, m.historyRunPublications.get key = some publication ∧ publication.taskRun = run}

/-- The row of a run whose history is complete. -/
def Complete (m : DomainModel) (run : TaskRun) : Prop :=
  m.taskRun run.runId = some run ∧ run.runId ∉ m.blockedRuns

variable {m m' : DomainModel}

theorem images_congr (h : m'.historyRunPublications = m.historyRunPublications) : m'.images = m.images := by
  unfold images
  rw [h]

theorem images_release (runId : RunId) : (m.releaseHistoryPublications runId).1.images ⊆ m.images := by
  rintro run ⟨key, publication, hget, rfl⟩
  rw [releaseHistoryPublications, HashMap.get_retain] at hget
  exact ⟨key, publication, (Option.filter_eq_some_iff.mp hget).1, rfl⟩

theorem images_install (publication : HistoryRunPublication) :
    (m.installHistoryPublication publication).1.images ⊆ insert publication.taskRun m.images := by
  unfold installHistoryPublication
  dsimp only
  split_ifs
  · exact Set.subset_insert _ _
  · rintro run ⟨key, found, hget, rfl⟩
    rw [HashMap.get_insert] at hget
    split_ifs at hget
    · obtain rfl := Option.some.inj hget
      exact .inl rfl
    · exact .inr ⟨key, found, hget, rfl⟩

theorem not_mem_blockedRuns {runId : RunId} (h : (m.v6State runId).any (·.historyReady) = true) :
    runId ∉ m.blockedRuns := by
  intro hmem
  obtain ⟨⟨id, state⟩, hentry, rfl⟩ := List.mem_map.mp hmem
  obtain ⟨hentry, hblocked⟩ := List.mem_filter.mp hentry
  rw [v6State, HashMap.mem_toList.mp hentry, Option.any_some] at h
  rw [h] at hblocked
  cases hblocked

/-! ### Where the rows of a snapshot come from -/

theorem taskRun_removed (runIds : List RunId) (m : DomainModel) (id : RunId) :
    (runIds.foldl removeTaskRunProjection m).taskRun id = if id ∈ runIds then none else m.taskRun id := by
  induction runIds generalizing m with
  | nil => rfl
  | cons runId runIds ih =>
    have hone : (m.removeTaskRunProjection runId).taskRun id = if id = runId then none else m.taskRun id :=
      HashMap.get_remove _ _ _
    rw [List.foldl_cons, ih, hone]
    by_cases hid : id = runId
    · simp [hid]
    · simp [hid]

theorem taskRuns_foldl {α : Type} {f : DomainModel → α → DomainModel} (hf : ∀ m a, (f m a).taskRuns = m.taskRuns)
    (l : List α) (m : DomainModel) : (l.foldl f m).taskRuns = m.taskRuns := by
  induction l generalizing m with
  | nil => rfl
  | cons a l ih => rw [List.foldl_cons, ih, hf]

theorem taskRuns_restoreHistoryPublication (publication : HistoryRunPublication) :
    (m.restoreHistoryPublication publication).taskRuns =
      m.taskRuns.insert publication.taskRun.runId publication.taskRun := by
  unfold restoreHistoryPublication
  dsimp only
  rw [taskRuns_foldl (f := insertAgentNode) (fun _ _ => rfl), taskRuns_foldl (f := insertExecution) (fun _ _ => rfl)]
  have haliases := taskRuns_foldl (f := fun m key => m.insertTaskRunAlias key publication.taskRun.runId)
    (fun _ _ => rfl) publication.aliases
    ((m.insertTaskRun publication.taskRun).setV6State publication.taskRun.runId publication.state)
  cases publication.rateTotals <;> cases publication.rateCursor <;> cases publication.telemetry <;>
    cases publication.runKind <;> exact haliases

theorem taskRun_restored {publications : List HistoryRunPublication} {id : RunId} {run : TaskRun}
    (h : (publications.foldl restoreHistoryPublication m).taskRun id = some run) :
    m.taskRun id = some run ∨ ∃ publication ∈ publications, publication.taskRun = run ∧ run.runId = id := by
  induction publications generalizing m with
  | nil => exact .inl h
  | cons publication publications ih =>
    rcases ih h with hearlier | ⟨found, hfound, hrun⟩
    · rw [taskRun, taskRuns_restoreHistoryPublication, HashMap.get_insert] at hearlier
      split_ifs at hearlier with hid
      · obtain rfl := Option.some.inj hearlier
        exact .inr ⟨publication, List.mem_cons_self, rfl, hid.symm⟩
      · exact .inl hearlier
    · exact .inr ⟨found, List.mem_cons_of_mem _ hfound, hrun⟩

/-- A row of a snapshot is that of a run whose history is complete, or a before-image holds it. -/
theorem taskRun_publicationSnapshot {id : RunId} {run : TaskRun} (h : m.publicationSnapshot.taskRun id = some run) :
    (m.taskRun id = some run ∧ id ∉ m.blockedRuns) ∨ run ∈ m.images ∧ run.runId = id := by
  unfold publicationSnapshot at h
  split_ifs at h with hempty
  · refine .inl ⟨h, ?_⟩
    rw [List.isEmpty_iff.mp hempty]
    exact List.not_mem_nil
  · rcases taskRun_restored h with hremoved | ⟨publication, hmem, hrun⟩
    · rw [taskRun_removed] at hremoved
      split_ifs at hremoved with hblocked
      exact .inl ⟨hremoved, hblocked⟩
    · obtain ⟨key, hkey⟩ := HashMap.mem_values.mp (List.mem_of_mem_filter hmem)
      exact .inr ⟨⟨key, publication, hkey, hrun.1⟩, hrun.2⟩

end DomainModel

/-! ### Writes add no before-image -/

theorem Applied.images {m m' : DomainModel} {t : ℤ} {l : List Merge} (h : Applied m t l m') :
    m'.images ⊆ m.images := by
  cases h with
  | unchanged => exact subset_rfl
  | touched run exist => exact subset_rfl
  | bound run provider sid exist =>
    unfold boundModel
    split_ifs
    · exact subset_rfl
    · exact subset_rfl
  | @merged s a sr ar graphs permitted =>
    rintro run ⟨key, publication, hget, rfl⟩
    rw [(rows_mergedModel m s a sr graphs t).2.2.2.2.1, HashMap.get_mapValues] at hget
    obtain ⟨old, hold, rfl⟩ := Option.map_eq_some_iff.mp hget
    exact ⟨key, old, hold, (HistoryRunPublication.repoint_taskRun s a old).symm⟩

section

variable {scope : Scope} {c c' : Core} {l ls : List Merge}

theorem Mutation.images (h : Mutation scope c l c') (hf : c.model.Filed) : c'.model.images ⊆ c.model.images := by
  cases h with
  | quiet rows topology ordinal =>
    simp only [DomainModel.rows, Prod.mk.injEq] at rows
    exact (DomainModel.images_congr rows.2.2.2.2.2.2.2.1).subset
  | binding applied => exact (applyBindingPlanAt_applied hf.run applied).images
  | create | update | execution | agentNode | createAgentNode | openRow | closeRows | executionEdge | dependencyEdge
  | lifecycle => exact subset_rfl

theorem Mutations.images (h : Mutations scope c ls c') (hf : c.model.Filed) : c'.model.images ⊆ c.model.images := by
  refine (h.invariant (I := fun c' => c'.model.Filed ∧ c'.model.images ⊆ c.model.images) ?_ ⟨hf, subset_rfl⟩).2
  rintro s l t hstep ⟨hs, hkept⟩
  exact ⟨hstep.filed hs, (hstep.images hs).trans hkept⟩

theorem images_unmeasured (h : c'.unmeasured = c.unmeasured) : c'.model.images = c.model.images := by
  have hsame : c'.unmeasured.model.historyRunPublications = c.unmeasured.model.historyRunPublications := by rw [h]
  exact DomainModel.images_congr hsame

end

namespace Reducer

/-! ### Which before-images an action adds -/

variable {r r' : Reducer}

/-- Every scope that an action may need. -/
def everything : Scope := .wide false ⟨true, true⟩

theorem images_publish (r : Reducer) (nowMs : ℤ) : (r.publish nowMs).model.images = r.model.images :=
  images_unmeasured (unmeasured_publish r nowMs)

theorem images_installed {tx : Tx} {publish : Bool} {nowMs : ℤ} (hf : r.model.Filed)
    (h : r.begin.Writes everything tx) : (r.install tx publish nowMs).model.images ⊆ r.model.images := by
  rw [images_unmeasured (unmeasured_install r tx publish nowMs)]
  exact (h hf).1.images hf

theorem images_applyObservationInner {events : List (NormalizedEvent × RunId)}
    (observation : Option PaneAgentStatusObservation) (nowMs : ℤ) (hf : r.model.Filed)
    (hobs : ∀ e ∈ events, Tx.Observed false e.1) :
    (r.applyObservationInner events observation nowMs).1.model.images ⊆ r.model.images := by
  rcases r.applyObservationInner_cases events observation nowMs with ⟨hcore, -⟩ | ⟨tx, happ, hcore, -⟩
  · rw [hcore]
  · have hnoted : Changes everything r.toCore [] (r.noted observation).toCore := noted_changes (.inr rfl)
    have hrows : (r.noted observation).model.images = r.model.images := by
      have hkept := (r.noted_rows observation).1
      simp only [DomainModel.rows, Prod.mk.injEq] at hkept
      exact DomainModel.images_congr hkept.2.2.2.2.2.2.2.1
    have hevents : Mutations everything (r.noted observation).toCore (mergesOf tx.persist) tx.toCore :=
      Tx.applyEvents_mutations hobs (fun e _ => .all e.1) (hnoted.filed hf) happ
    rw [images_unmeasured hcore, ← hrows]
    exact hevents.images (hnoted.filed hf)

theorem images_applyHeuristicBinding (run : RunId) (sid : String) (bookkeepingTimeMs : ℤ) (aliasRunId : RunId)
    (nowMs : ℤ) (hf : r.model.Filed) :
    (r.applyHeuristicBinding run sid bookkeepingTimeMs aliasRunId nowMs).1.model.images ⊆ r.model.images := by
  rw [applyHeuristicBinding_eq]
  split
  · rename_i tx happ
    obtain ⟨ls, hm, -⟩ : ∃ ls, Mutations everything _ ls _ ∧ _ := Tx.applyBinding_mutates happ hf
    refine subset_trans (images_unmeasured (c := tx.toCore) ?_).subset (hm.images hf)
    simp [withCore]
  · exact subset_rfl
  · exact subset_rfl

theorem images_applyControllerEvent (event : ControllerEvent) (fresh : FreshRunIds) (nowMs : ℤ) (hf : r.model.Filed) :
    (r.applyControllerEvent event fresh nowMs).1.model.images ⊆ r.model.images := by
  unfold applyControllerEvent
  split
  · exact subset_rfl
  · rename_i delta hdelta
    have hm : Mutations everything r.toCore (mergesOf delta.batch) delta.post :=
      Tx.validateControllerEvent_mutations rfl rfl hf (fun h => by cases h) hdelta
    split
    · rename_i committed batch hcommit
      rw [images_unmeasured (commitStaged_ok hcommit).1]
      exact hm.images hf
    · rename_i committed error hcommit
      rw [images_unmeasured (commitStaged_error hcommit)]

theorem images_applyTelemetry (key : RunKey) (sample : PendingTelemetry) (nowMs : ℤ) :
    (r.applyTelemetryWithBreakdown key sample nowMs).model.images = r.model.images :=
  images_unmeasured (unmeasured_applyTelemetry r key sample nowMs)

theorem images_recordBindingConflict (r : Reducer) (nowMs : ℤ) :
    (r.recordBindingConflict nowMs).model.images = r.model.images :=
  (images_publish _ nowMs).trans (DomainModel.images_congr rfl)

theorem images_recordProviderIdentityDisagreement (r : Reducer) (nowMs : ℤ) :
    (r.recordProviderIdentityDisagreement nowMs).model.images = r.model.images :=
  (images_publish _ nowMs).trans (DomainModel.images_congr rfl)

theorem images_reconcileSnapshot {topology : TopologySnapshot} {draws : ℕ → PaneDraw} (nowMs : ℤ)
    (closeMs : String → ℤ) (epochMs publishMs : ℤ) (hf : r.model.Filed)
    (hfresh : Tx.FreshDraws false r.model topology.panes draws) :
    (r.reconcileSnapshot topology draws nowMs closeMs epochMs publishMs).1.model.images ⊆ r.model.images := by
  rw [reconcileSnapshot_eq]
  split
  · exact subset_rfl
  · rename_i tx happ
    have hw : r.begin.Writes everything tx := Tx.reconcileSnapshotInner_writes rfl rfl hfresh happ
    refine subset_trans (images_unmeasured (c := tx.toCore) ?_).subset ((hw hf).1.images hf)
    rw [unmeasured_publish, unmeasured_activateRateEpoch, unmeasured_beginRateEpoch,
      unmeasured_applyPendingTelemetry, unmeasured_applyOperatorSubmission]
    rfl

theorem images_sweepStale (nowMs publishMs : ℤ) (hf : r.model.Filed) :
    (r.sweepStale nowMs publishMs).1.model.images ⊆ r.model.images := by
  have hw : r.begin.Writes everything (r.begin.sweepStale r.headlessInactivityMs nowMs) :=
    Tx.sweepStale_writes _ _ _ rfl
  unfold sweepStale
  dsimp only
  generalize r.begin.sweepStale r.headlessInactivityMs nowMs = tx at hw
  split_ifs
  · exact (hw hf).1.images hf
  · refine subset_trans (images_unmeasured (c := tx.toCore) ?_).subset ((hw hf).1.images hf)
    simp [withCore]

theorem images_restoreReplayed (r : Reducer) (event : ControllerEvent) (nowMs : ℤ) :
    (r.restoreReplayedControllerTransients event nowMs).model.images = r.model.images := by
  unfold restoreReplayedControllerTransients
  split_ifs
  · split
    · rfl
    · split
      · split
        · split_ifs
          · exact (images_publish _ nowMs).trans (DomainModel.images_congr rfl)
          · rfl
        · rfl
      · split
        · split_ifs
          · exact (images_publish _ nowMs).trans (DomainModel.images_congr rfl)
          · rfl
        · rfl
      all_goals exact DomainModel.images_congr rfl
  · rfl

/-! ### Provider events -/

theorem images_work (work : ProviderWork) (nowMs : ℤ) (hf : r.model.Filed)
    (hobs : ∀ events, work = .observation events → ∀ e ∈ events, Tx.Observed false e.1) :
    (r.work nowMs work).1.model.images ⊆ r.model.images := by
  cases work with
  | synthesized event fresh => exact images_applyControllerEvent event fresh nowMs hf
  | runLiveness key atMs observedAtMs => exact images_installed hf (Tx.touchRunLivenessObserved_writes _ _ _ _)
  | laneClose key atMs observedAtMs =>
    exact images_installed hf (Tx.applyLaneCloseObserved_writes _ _ _ _ fun hb => by cases hb)
  | telemetry key sample => exact (images_applyTelemetry key sample nowMs).subset
  | observation events =>
    have hkept : (r.applyObservation events nowMs).1.model.images ⊆ r.model.images :=
      images_applyObservationInner none nowMs hf (hobs events rfl)
    dsimp only [Reducer.work]
    generalize r.applyObservation events nowMs = result at hkept
    split
    · exact hkept
    · exact (images_recordBindingConflict _ nowMs).subset.trans hkept
    · exact hkept

theorem images_captureTouched {before : DomainModel} {operations : PersistBatch}
    {kept : DomainModel × List HistoryRunPublication} {runId : RunId} (hf : before.Filed) :
    (captureTouched before operations kept runId).1.images ⊆ kept.1.images ∪ {run | before.Complete run} := by
  unfold captureTouched
  split_ifs with hready
  · split
    · exact Set.subset_union_left
    · rename_i publication hcapture
      obtain ⟨run, hrun, rfl⟩ := Option.map_eq_some_iff.mp hcapture
      have hid : run.runId = runId := hf.run runId run hrun
      have hcomplete : before.Complete run := by
        subst hid
        exact ⟨hrun, DomainModel.not_mem_blockedRuns hready⟩
      refine (DomainModel.images_install _).trans (Set.insert_subset (.inr hcomplete) Set.subset_union_left)
  · exact Set.subset_union_left

theorem images_keepBeforeImages {m before : DomainModel} {prior : Option ProviderObservationPrior}
    (hprior : ∀ found, prior = some (.historical found) → found = before) (hf : before.Filed)
    (origin : ObservationOrigin) (operations : PersistBatch) (touched : List RunId) :
    (keepBeforeImages m prior origin operations touched).1.images ⊆ m.images ∪ {run | before.Complete run} := by
  unfold keepBeforeImages
  split
  · rename_i found
    obtain rfl := hprior found rfl
    refine List.foldlRecOn (motive := fun kept : DomainModel × List HistoryRunPublication =>
      kept.1.images ⊆ m.images ∪ {run | found.Complete run}) touched _ Set.subset_union_left fun kept hkept runId _ => ?_
    exact (images_captureTouched hf).trans (Set.union_subset hkept Set.subset_union_right)
  · exact Set.subset_union_left

theorem images_touches (operations : PersistBatch) (historical : Bool) (providerAtMs : ℤ) (touched : List RunId)
    (f : Finishing) :
    (touched.foldl (Finishing.touch operations historical providerAtMs) f).model.images = f.model.images := by
  induction touched generalizing f with
  | nil => rfl
  | cons runId touched ih =>
    rw [List.foldl_cons, ih]
    unfold Finishing.touch
    dsimp only
    split <;> rfl

theorem images_finish {before : DomainModel} {prior : Option ProviderObservationPrior} {operations : PersistBatch}
    {origin : ObservationOrigin} {historyManifest : Option PersistHistoryDrain} {providerAtMs nowMs : ℤ}
    {batch : PersistV6Batch} {receipt : ProviderSubmissionReceipt}
    (hprior : ∀ found, prior = some (.historical found) → found = before) (hf : before.Filed)
    (h : r.finishProviderObservation prior operations origin historyManifest providerAtMs nowMs =
      some (r', batch, receipt)) : r'.model.images ⊆ r.model.images ∪ {run | before.Complete run} := by
  have hkept := images_keepBeforeImages (m := r.model) hprior hf origin operations
    (touchedRuns r.model prior operations)
  unfold finishProviderObservation at h
  dsimp only at h
  have htouched := images_touches operations origin.isHistorical providerAtMs (touchedRuns r.model prior operations)
    { model := (keepBeforeImages r.model prior origin operations (touchedRuns r.model prior operations)).1 }
  generalize List.foldl (Finishing.touch operations origin.isHistorical providerAtMs) _ _ = finishing at h htouched
  have hdone : ∀ last : Reducer, last.model.images = finishing.model.images →
      last.model.images ⊆ r.model.images ∪ {run | before.Complete run} := by
    intro last hlast
    rw [hlast, htouched]
    exact hkept
  split_ifs at h
  · cases h
    exact hdone _ rfl
  · cases h
    exact hdone _ (images_publish _ nowMs)
  · cases h
    exact hdone _ (images_publish _ nowMs)
  · cases h
    exact hdone _ rfl

theorem images_showReadyRuns (runIds : List RunId) (shown : DomainModel × Bool) :
    (runIds.foldl showReadyRun shown).1.images ⊆ shown.1.images := by
  refine List.foldlRecOn (motive := fun last : DomainModel × Bool => last.1.images ⊆ shown.1.images) runIds _ subset_rfl
    fun last hlast runId _ => ?_
  refine subset_trans ?_ hlast
  unfold showReadyRun
  split
  · exact subset_rfl
  · dsimp only
    split_ifs
    · exact DomainModel.images_release runId
    · exact DomainModel.images_release (m := last.1.setV6State runId _) runId

/-- An answer that takes nothing back. -/
theorem images_complete {receipt : ProviderSubmissionReceipt} {outcome : RuntimeWriteOutcome} {nowMs : ℤ}
    (h : r.takesBack outcome = false) :
    (r.completeProviderSubmission receipt outcome nowMs).model.images ⊆ r.model.images := by
  unfold completeProviderSubmission
  split
  · rename_i submissionId pending hpending
    split_ifs with hid hcommitted
    · exact subset_rfl
    · dsimp only
      have hshown := images_showReadyRuns pending.readyRunIds (r.model, pending.checkpoint.isSome)
      split_ifs
      · exact (images_publish _ nowMs).subset.trans hshown
      · exact hshown
    · have hnone : pending.checkpoint = none := by
        unfold takesBack at h
        rw [hpending] at h
        simpa [hcommitted] using h
      rw [hnone]
      exact subset_rfl
  · exact subset_rfl

theorem images_applyProviderEvent {origin : ObservationOrigin} {work : ProviderWork}
    {historyManifest : Option PersistHistoryDrain} {providerAtMs observedAtMs nowMs : ℤ} {outcome : RuntimeWriteOutcome}
    {operations : PersistBatch} (hf : r.model.Filed)
    (hobs : ∀ events, work = .observation events → ∀ e ∈ events, Tx.Observed false e.1)
    (h : r.applyProviderEvent origin work historyManifest providerAtMs observedAtMs nowMs outcome =
      some (r', operations)) : r'.model.images ⊆ r.model.images ∪ {run | r.model.Complete run} := by
  unfold applyProviderEvent at h
  obtain ⟨⟨begun, prior⟩, hbegin, h⟩ := Option.bind_eq_some_iff.mp h
  have hmodel : begun.model = r.model := congrArg Core.model (begin_toCore hbegin).1
  have hprior : ∀ found, prior = some (.historical found) → found = r.model := by
    intro found hfound
    unfold beginProviderObservation at hbegin
    split_ifs at hbegin
    split at hbegin
    · cases hbegin
      cases hfound
      rfl
    · cases hbegin
      split_ifs at hfound
      cases hfound
  have hwork : (begun.work nowMs work).1.model.images ⊆ r.model.images :=
    hmodel ▸ images_work work nowMs (hmodel.symm ▸ hf) hobs
  dsimp only at h
  split at h
  · rename_i worked hworked
    cases h
    rw [hworked] at hwork
    refine subset_trans ?_ (hwork.trans Set.subset_union_left)
    unfold cancelProviderObservation
    split_ifs
    · exact (images_publish _ nowMs).subset
    · exact subset_rfl
  · rename_i worked operations' hworked
    obtain ⟨⟨finished, batch, receipt⟩, hfinish, h⟩ := Option.bind_eq_some_iff.mp h
    cases h
    by_cases hback : finished.takesBack outcome = true
    · rw [providerEvent_takesBack hbegin hworked hfinish hback]
      exact Set.subset_union_left
    · rw [hworked] at hwork
      exact (images_complete (by simpa using hback)).trans ((images_finish hprior hf hfinish).trans
        (Set.union_subset_union_left _ hwork))

/-! ### Finalization -/

theorem images_finalizeRun (r : Reducer) (finalized : FinalizedHistoryRun) :
    (r.finalizeRun finalized).model.images ⊆ r.model.images := by
  unfold finalizeRun
  split_ifs
  · exact subset_rfl
  · exact DomainModel.images_release _
  · exact subset_rfl
  · exact DomainModel.images_release (m := r.model.setV6State finalized.runId finalized.state) _
  · exact subset_rfl

theorem images_applyHistoryFinalization (finalization : HistoryDrainFinalization) (nowMs : ℤ) :
    (r.applyHistoryFinalization finalization nowMs).1.model.images ⊆ r.model.images := by
  unfold applyHistoryFinalization
  split_ifs
  · exact subset_rfl
  · refine (images_publish _ nowMs).subset.trans ?_
    refine List.foldlRecOn (motive := fun last : Reducer => last.model.images ⊆ r.model.images) finalization.runs _
      subset_rfl fun last hlast run _ => ?_
    exact (images_finalizeRun last run).trans hlast

/-! ### Every run -/

/-- A before-image that an action adds holds the row of a run whose history was complete when the action began. -/
theorem perform_images {action : Action} {merges : List Merge} (hf : r.model.Filed)
    (hadmissible : Admissible false r action) (h : r.perform action = some (r', merges)) :
    r'.model.images ⊆ r.model.images ∪ {run | r.model.Complete run} := by
  have hkeep : ∀ {images : Set TaskRun}, images ⊆ r.model.images →
      images ⊆ r.model.images ∪ {run | r.model.Complete run} := fun hsub => hsub.trans Set.subset_union_left
  cases action with
  | providerEvent origin work historyManifest providerAtMs observedAtMs nowMs outcome =>
    obtain ⟨result, hresult, h⟩ := Option.map_eq_some_iff.mp h
    cases h
    refine images_applyProviderEvent hf ?_ hresult
    rintro events rfl e he
    exact hadmissible e he
  | observation events nowMs =>
    cases h
    exact hkeep (images_applyObservationInner none nowMs hf hadmissible)
  | paneObservation events observation nowMs =>
    cases h
    exact hkeep (images_applyObservationInner (some observation) nowMs hf hadmissible)
  | heuristicBinding run sid bookkeepingTimeMs aliasRunId nowMs =>
    cases h
    exact hkeep (images_applyHeuristicBinding run sid bookkeepingTimeMs aliasRunId nowMs hf)
  | controllerEvent event fresh nowMs =>
    cases h
    exact hkeep (images_applyControllerEvent event fresh nowMs hf)
  | liveness key atMs observedAtMs nowMs =>
    cases h
    exact hkeep (images_installed hf (Tx.touchRunLivenessObserved_writes _ _ _ _))
  | laneClose key atMs observedAtMs nowMs =>
    cases h
    exact hkeep (images_installed hf (Tx.applyLaneCloseObserved_writes _ _ _ _ fun hb => by cases hb))
  | telemetry key sample nowMs =>
    cases h
    exact hkeep ((images_applyTelemetry key sample nowMs).subset)
  | finalization finalization nowMs =>
    cases h
    exact hkeep (images_applyHistoryFinalization finalization nowMs)
  | snapshot topology draws nowMs closeMs epochMs publishMs =>
    cases h
    exact hkeep (images_reconcileSnapshot nowMs closeMs epochMs publishMs hf hadmissible)
  | sweep nowMs publishMs =>
    simp only [perform, Option.some.injEq, Prod.mk.injEq] at h
    obtain ⟨rfl, -⟩ := h
    exact hkeep (images_sweepStale nowMs publishMs hf)
  | operator command nowMs publishMs =>
    simp only [perform, Option.some.injEq, Prod.mk.injEq] at h
    obtain ⟨rfl, -⟩ := h
    cases command with
    | dismissClearable => exact hkeep (images_installed hf (Tx.dismissClearable_writes _ _))
  | bindingConflict nowMs =>
    cases h
    exact hkeep ((images_recordBindingConflict r nowMs).subset)
  | identityDisagreement nowMs =>
    cases h
    exact hkeep ((images_recordProviderIdentityDisagreement r nowMs).subset)
  | replayed event nowMs =>
    cases h
    exact hkeep ((images_restoreReplayed r event nowMs).subset)
  | beginEpoch =>
    cases h
    exact hkeep subset_rfl
  | activateEpoch observedAtMs =>
    cases h
    exact hkeep ((images_unmeasured (unmeasured_activateRateEpoch r observedAtMs)).subset)
  | checkpointRates observedAtMs =>
    cases h
    exact hkeep ((images_unmeasured (unmeasured_checkpointRunRates r observedAtMs)).subset)
  | restoreTotals totals =>
    cases h
    exact hkeep subset_rfl

/-- The run had this row at a time between two actions when its history was complete. -/
def WasComplete (start r : Reducer) (run : TaskRun) : Prop :=
  ∃ before after between, Runs (Step false) start before between ∧ Runs (Step false) between after r ∧
    between.model.Complete run

theorem WasComplete.later {start : Reducer} {run : TaskRun} {l : List Merge} (h : WasComplete start r run)
    (hstep : Step false r l r') : WasComplete start r' run := by
  obtain ⟨before, after, between, hbefore, hafter, hcomplete⟩ := h
  exact ⟨before, after ++ l, between, hbefore, .tail hafter hstep, hcomplete⟩

/-- Every before-image holds a row that the run had while its history was complete. -/
theorem images_wasComplete {headlessInactivityMs : ℤ} {ls : List Merge}
    (h : Runs (Step false) (fresh headlessInactivityMs) ls r) :
    ∀ run ∈ r.model.images, WasComplete (fresh headlessInactivityMs) r run := by
  induction h with
  | refl =>
    rintro run ⟨key, publication, hget, -⟩
    cases hget
  | @tail middle last ls l hrun hstep ih =>
    intro run himage
    have hf := (run_changes hrun (start_fresh headlessInactivityMs)).1.filed
    have hbegin := hstep
    obtain ⟨action, hadmissible, hdone⟩ := hbegin
    rcases perform_images hf hadmissible hdone himage with hkept | hcomplete
    · exact (ih run hkept).later hstep
    · exact ⟨ls, l, middle, hrun, .one hstep, hcomplete⟩

/-- Nothing of an unfinished history is ever shown: in every run, the row of a run in whatever has been sent is one that
the run had at a time between two actions when its history was complete. -/
theorem unfinished_history_hidden {headlessInactivityMs : ℤ} {ls : List Merge}
    (h : Runs (Step false) (fresh headlessInactivityMs) ls r) {model : DomainModel} (hsent : model ∈ r.published)
    {id : RunId} {run : TaskRun} (hrun : model.taskRun id = some run) :
    run.runId = id ∧ WasComplete (fresh headlessInactivityMs) r run := by
  induction h with
  | refl =>
    obtain rfl := List.mem_singleton.mp hsent
    cases hrun
  | @tail middle last ls l hruns hstep ih =>
    have hbegin := hstep
    obtain ⟨action, hadmissible, hdone⟩ := hbegin
    have hearlier : model ∈ middle.published → run.runId = id ∧ WasComplete (fresh headlessInactivityMs) last run :=
      fun hmem => (ih hmem).imp_right fun hwas => hwas.later hstep
    rcases perform_sends hdone with hsame | hnew
    · exact hearlier (hsame ▸ hsent)
    · rw [hnew] at hsent
      rcases List.mem_cons.mp hsent with rfl | hmem
      · have hlast : Runs (Step false) (fresh headlessInactivityMs) (ls ++ l) last := .tail hruns hstep
        rcases DomainModel.taskRun_publicationSnapshot hrun with ⟨hnow, hready⟩ | ⟨himage, hid⟩
        · have hf := (run_changes hlast (start_fresh headlessInactivityMs)).1.filed
          obtain rfl := hf.run id run hnow
          exact ⟨rfl, ls ++ l, [], last, hlast, .refl _, hnow, hready⟩
        · exact ⟨hid, images_wasComplete hlast run himage⟩
      · exact hearlier hmem

/-- A job that has made progress. -/
def jobBegun : Reducer := ((fresh 0).next (jobEvent "a" .progress)).1

/-- One piece of its history. -/
def jobPiece : Action :=
  .providerEvent (.historical { value := "job" } "artifact") (.runLiveness (.controller "job") 5 5) none 5 5 5
    .durable

/-- The piece has been read, and something else is told. -/
def jobRead : Reducer := ((jobBegun.next jobPiece).1.next (.bindingConflict 7)).1

theorem reached_jobRead : ∃ merges, Runs (Step false) (fresh 0) merges jobRead := by
  have hbegun : Runs (Step false) (fresh 0) _ jobBegun := .one (step_jobEvent (fresh 0) "a" .progress)
  have hpiece : Step false jobBegun _ (jobBegun.next jobPiece).1 := step_next trivial (by decide +kernel)
  have htold : Step false (jobBegun.next jobPiece).1 _ jobRead := step_next trivial rfl
  exact ⟨_, (hbegun.tail hpiece).tail htold⟩

theorem unfinished_history_hidden_jobRead : ∃ model run, jobRead.published.head? = some model ∧
    model.taskRun ⟨1⟩ = some run ∧ jobRead.model.taskRun ⟨1⟩ ≠ some run ∧ WasComplete (fresh 0) jobRead run := by
  obtain ⟨merges, hruns⟩ := reached_jobRead
  have hshown : (jobRead.published.head?.any fun model => (model.taskRun ⟨1⟩).any fun run =>
      decide (jobRead.model.taskRun ⟨1⟩ ≠ some run)) = true := by decide +kernel
  obtain ⟨model, hhead, hmodel⟩ := (Option.any_eq_true _ _).mp hshown
  obtain ⟨run, hrun, hother⟩ := (Option.any_eq_true _ _).mp hmodel
  have hwas := (unfinished_history_hidden hruns (List.mem_of_head? hhead) hrun).2
  exact ⟨model, run, hhead, hrun, of_decide_eq_true hother, hwas⟩

end Reducer

end HerdrTop
