import HerdrTop.Library.Checked
import HerdrTop.Reducer.Reconcile

/-!
# What a failed action leaves

An observation, a binding or a snapshot may fail half-way, when it has changed the core already. After an
observation every field of the core is put back. After a binding nothing is, and after a snapshot only the
model and the next ordinal; it makes no difference there, and this module proves why: a heuristic binding that
conflicts has changed nothing, and no step of a snapshot changes who spoke for which run.

## What is proved

* `Tx.reconcileSnapshotInner_failed`: a failed snapshot has the provenance maps it started with.
* `applyHeuristicBinding_eq`, `reconcileSnapshot_eq`: a failure leaves the reducer as it was.
-/

namespace HerdrTop

/-! ### Bindings -/

theorem applyBind_error {m : DomainModel} {run : RunId} {key : RunKey} {t : ℤ} {aliasRunId : RunId}
    {conflict : MergeConflict} (h : (applyBind m run key t aliasRunId).2 = .error conflict) :
    (applyBind m run key t aliasRunId).1 = m := by
  unfold applyBind at h ⊢
  split at h
  · split at h
    · rfl
    · split at h
      · split_ifs at h ⊢
        rfl
      · split at h
        · rfl
        · split_ifs at h ⊢
          · rfl
          · split at h
            · cases h
            · split_ifs at h ⊢
              rfl
            · cases h
            · cases h
  · rfl

theorem planNativeSession_merge {m : DomainModel} {run survivor absorbed : RunId} {provider : Provider} {sid : String}
    (hfree : m.taskRunByKey (.native provider sid) = none) :
    planNativeSession m run provider sid ≠ .merge survivor absorbed := by
  unfold planNativeSession
  rw [hfree]
  split
  · simp
  · dsimp only
    split_ifs <;> simp

/-- A rollout that matches a pane is bound, never merged. -/
theorem planHeuristicNativeSession_merge {m : DomainModel} {run survivor absorbed : RunId} {sid : String} :
    planHeuristicNativeSession m run sid ≠ .merge survivor absorbed := by
  unfold planHeuristicNativeSession
  split
  · simp
  · split
    · split
      · simp
      · rename_i hfree
        exact planNativeSession_merge hfree
    · split_ifs <;> simp
    · simp
    · simp

/-- A heuristic binding that conflicts leaves the model as it was. -/
theorem applyHeuristicPlan_error {m : DomainModel} {run : RunId} {sid : String} {t : ℤ} {aliasRunId : RunId}
    {conflict : MergeConflict}
    (h : (applyBindingPlanAt m (planHeuristicNativeSession m run sid) t aliasRunId).2 = .error conflict) :
    (applyBindingPlanAt m (planHeuristicNativeSession m run sid) t aliasRunId).1 = m := by
  cases hplan : planHeuristicNativeSession m run sid with
  | noChange => rfl
  | conflict conflict => rfl
  | bind run' key =>
    rw [hplan] at h
    exact applyBind_error h
  | merge survivor absorbed => exact absurd hplan planHeuristicNativeSession_merge

/-! ### Snapshots -/

/-- Who ended which run, and for which runs a Controller spoke. -/
def Core.provenance (core : Core) : HashMap RunId String × HashSet RunId :=
  (core.terminalEventSources, core.nonLaneTaskStateRuns)

namespace Tx

@[simp] theorem provenance_withModel (tx : Tx) (model : DomainModel) :
    (tx.withModel model).provenance = tx.provenance := rfl

@[simp] theorem provenance_push (tx : Tx) (op : PersistOp) : (tx.push op).provenance = tx.provenance := rfl

@[simp] theorem provenance_storeRun (tx : Tx) (taskRun : TaskRun) (timestampMs : ℤ) :
    (tx.storeRun taskRun timestampMs).provenance = tx.provenance := rfl

@[simp] theorem provenance_storeAgentNode (tx : Tx) (node : AgentNode) :
    (tx.storeAgentNode node).provenance = tx.provenance := rfl

theorem provenance_foldl {ι : Type*} {f : Tx → ι → Tx} (h : ∀ tx a, (f tx a).provenance = tx.provenance) (l : List ι)
    (tx : Tx) : (l.foldl f tx).provenance = tx.provenance := by
  induction l generalizing tx with
  | nil => rfl
  | cons a l ih => exact (ih _).trans (h tx a)

@[simp] theorem provenance_applyNativeLifecycle (tx : Tx) (runId : RunId) (endStatus : Option NativeSessionEndStatus)
    (watermark : NativeLifecycleWatermark) :
    (tx.applyNativeLifecycle runId endStatus watermark).provenance = tx.provenance := by
  unfold applyNativeLifecycle
  dsimp only
  split_ifs
  · rfl
  · rfl
  · split <;> rfl

@[simp] theorem provenance_closeRun (tx : Tx) (runId : RunId) (timestampMs : ℤ) :
    (tx.closeRunWithoutLiveExecution runId timestampMs).provenance = tx.provenance := by
  unfold closeRunWithoutLiveExecution
  split_ifs
  · rfl
  · split
    · rfl
    · split_ifs <;> rfl

@[simp] theorem provenance_activate (tx : Tx) (runId : RunId) (timestampMs : ℤ) :
    (tx.activateForLiveExecution runId timestampMs).provenance = tx.provenance := by
  unfold activateForLiveExecution
  split
  · rfl
  · split_ifs <;> rfl

@[simp] theorem provenance_reopen (tx : Tx) (runId : RunId) (executionId : String) (timestampMs : ℤ) :
    (tx.reopenNativeLifecycleForLiveExecution runId executionId timestampMs).provenance = tx.provenance := by
  unfold reopenNativeLifecycleForLiveExecution
  split
  · rfl
  · split_ifs
    · rfl
    · exact provenance_applyNativeLifecycle _ _ _ _

@[simp] theorem provenance_endExecution (tx : Tx) (executionId : String) (timestampMs : ℤ) :
    (tx.endExecution executionId timestampMs).provenance = tx.provenance := by
  unfold endExecution
  split
  · rfl
  · exact provenance_closeRun _ _ _

@[simp] theorem provenance_closePane (tx : Tx) (paneId : String) (timestampMs : ℤ) :
    (tx.closePane paneId timestampMs).provenance = tx.provenance := by
  have hdrop : ∀ tx : Tx, (tx.dropPane paneId).provenance = tx.provenance := by
    intro tx
    unfold dropPane
    split_ifs <;> rfl
  exact (hdrop _).trans (provenance_foldl (fun tx executionId => provenance_endExecution tx executionId _) _ tx)

@[simp] theorem provenance_clearTopology (tx : Tx) (closeMs : String → ℤ) :
    (tx.clearTopology closeMs).provenance = tx.provenance := by
  have htab : ∀ (tx : Tx) tabId, (tx.dropTab tabId).provenance = tx.provenance := by
    intro tx tabId
    unfold dropTab
    split_ifs <;> rfl
  have hworkspace : ∀ (tx : Tx) workspaceId, (tx.dropWorkspace workspaceId).provenance = tx.provenance := by
    intro tx workspaceId
    unfold dropWorkspace
    split_ifs <;> rfl
  unfold clearTopology
  dsimp only
  rw [provenance_foldl hworkspace, provenance_foldl htab,
    provenance_foldl fun tx paneId => provenance_closePane tx paneId (closeMs paneId)]

@[simp] theorem provenance_restoreOrdinals (tx : Tx) (kind : TopologyKind)
    (ordinals : List (String × DisplayOrdinal)) : (tx.restoreOrdinals kind ordinals).provenance = tx.provenance := by
  unfold restoreOrdinals
  refine provenance_foldl (fun tx entry => ?_) ordinals tx
  rfl

@[simp] theorem provenance_beginExecution (tx : Tx) (pane : PaneSnapshot) (agent : SnapshotAgent) (runId token : RunId)
    (resolvedOwner : Bool) (nowMs : ℤ) :
    (tx.beginSnapshotExecution pane agent runId token resolvedOwner nowMs).provenance = tx.provenance := by
  unfold beginSnapshotExecution
  dsimp only
  split_ifs
  · rfl
  · rw [provenance_reopen, provenance_activate]
    rfl
  · rw [provenance_activate]
    rfl

variable {tx : Tx} {provenance : HashMap RunId String × HashSet RunId}

/-- Whatever becomes of a step, these are the provenance maps. -/
abbrev LeavesProvenance {α : Type} (provenance : HashMap RunId String × HashSet RunId) (after : α → Tx)
    (result : Except ReducerFailure α) : Prop :=
  Leaves (fun a => (after a).provenance = provenance) (fun failure => failure.core.provenance = provenance) result

theorem allocateOrdinal_leaves (h : tx.provenance = provenance) :
    LeavesProvenance provenance Prod.snd tx.allocateOrdinal := by
  unfold allocateOrdinal
  split_ifs
  · exact h
  · exact h

theorem topologyOrdinalOrAllocate_leaves (h : tx.provenance = provenance) (kind : TopologyKind) (id : String) :
    LeavesProvenance provenance Prod.snd (tx.topologyOrdinalOrAllocate kind id) := by
  unfold topologyOrdinalOrAllocate
  split
  · exact h
  · exact (allocateOrdinal_leaves h).bind fun _ hdrawn => hdrawn

theorem storeWorkspace_leaves (h : tx.provenance = provenance) (workspace : Workspace) :
    LeavesProvenance provenance id (tx.storeWorkspace workspace) :=
  (topologyOrdinalOrAllocate_leaves h _ _).bind fun _ hdrawn => hdrawn

theorem storeTab_leaves (h : tx.provenance = provenance) (tab : Tab) (clear : Bool) :
    LeavesProvenance provenance id (tx.storeTab tab clear) := by
  refine (topologyOrdinalOrAllocate_leaves h _ _).bind fun drawn hdrawn => ?_
  show Core.provenance (ite _ _ _ : Tx).toCore = provenance
  split_ifs <;> exact hdrawn

theorem storePane_leaves (h : tx.provenance = provenance) (pane : Pane) (clear : Bool) :
    LeavesProvenance provenance id (tx.storePane pane clear) := by
  refine (topologyOrdinalOrAllocate_leaves h _ _).bind fun drawn hdrawn => ?_
  show Core.provenance (ite _ _ _ : Tx).toCore = provenance
  split_ifs <;> exact hdrawn

theorem replaceTopology_leaves (h : tx.provenance = provenance) (topology : TopologySnapshot) (closeMs : String → ℤ) :
    LeavesProvenance provenance id (tx.replaceTopology topology closeMs) := by
  unfold replaceTopology
  dsimp only
  generalize hcleared : ((Tx.restoreOrdinals _ _ _).restoreOrdinals _ _).restoreOrdinals _ _ = cleared
  have hstart : cleared.provenance = provenance := by
    rw [← hcleared, provenance_restoreOrdinals, provenance_restoreOrdinals, provenance_restoreOrdinals,
      provenance_clearTopology, h]
  refine Leaves.bind (P := fun tx : Tx => tx.provenance = provenance) ?_ fun tx htx => ?_
  · exact Leaves.foldlM (fun tx workspace htx => storeWorkspace_leaves htx workspace) hstart _
  · refine Leaves.bind (P := fun tx : Tx => tx.provenance = provenance) ?_ fun tx htx => ?_
    · exact Leaves.foldlM (fun tx tab htx => storeTab_leaves htx _ true) htx _
    · exact Leaves.foldlM (fun tx pane htx => storePane_leaves htx _ true) htx _

theorem insertSnapshotRun_leaves (h : tx.provenance = provenance) (session : SnapshotSession) (terminalId : String)
    (runId : RunId) (timestampMs : ℤ) :
    LeavesProvenance provenance id (tx.insertSnapshotRun session terminalId runId timestampMs) :=
  (allocateOrdinal_leaves h).bind fun _ hdrawn => hdrawn

theorem ensureSnapshotAgent_leaves (h : tx.provenance = provenance) (runId : RunId) (session : SnapshotSession)
    (token : RunId) : LeavesProvenance provenance id (tx.ensureSnapshotAgent runId session token) := by
  unfold ensureSnapshotAgent
  split
  · exact h
  · split
    · exact h
    · exact (allocateOrdinal_leaves h).bind fun _ hdrawn => hdrawn

theorem reconcilePane_leaves (h : tx.provenance = provenance) (nowMs : ℤ) (entry : PaneSnapshot × PaneDraw) :
    LeavesProvenance provenance id (reconcilePane nowMs tx entry) := by
  unfold reconcilePane
  dsimp only
  split
  · exact h
  · refine Leaves.bind (P := fun p : RunId × Tx => p.2.provenance = provenance) ?_ fun p hp => ?_
    · unfold snapshotRun
      split
      · exact h
      · exact (insertSnapshotRun_leaves h _ _ _ _).bind fun _ hrun => hrun
    · exact ensureSnapshotAgent_leaves ((provenance_beginExecution _ _ _ _ _ _ _).trans hp) _ _ _

/-- A snapshot that fails has changed neither who ended which run nor for which runs a Controller spoke. -/
theorem reconcileSnapshotInner_failed {topology : TopologySnapshot} {draws : ℕ → PaneDraw} {nowMs : ℤ}
    {closeMs : String → ℤ} {failure : ReducerFailure}
    (h : tx.reconcileSnapshotInner topology draws nowMs closeMs = .error failure) :
    failure.core.provenance = tx.provenance := by
  have hended : ∀ (tx : Tx) execution, (endPreGapExecution nowMs tx execution).provenance = tx.provenance := by
    intro tx execution
    unfold endPreGapExecution
    split_ifs <;> rfl
  have hleaves : Leaves (fun _ => True) (fun failure : ReducerFailure => failure.core.provenance = tx.provenance)
      (tx.reconcileSnapshotInner topology draws nowMs closeMs) := by
    unfold reconcileSnapshotInner
    dsimp only
    refine (replaceTopology_leaves (provenance_foldl hended _ tx) topology closeMs).bind fun replaced hreplaced => ?_
    refine Leaves.bind (P := fun settled : Tx => settled.provenance = tx.provenance) ?_ fun settled _ => ?_
    · have hpanes : ∀ (tx' : Tx) entry, tx'.provenance = tx.provenance →
          Leaves (fun tx' : Tx => tx'.provenance = tx.provenance)
            (fun failure : ReducerFailure => failure.core.provenance = tx.provenance) (reconcilePane nowMs tx' entry) :=
        fun _ entry htx' => reconcilePane_leaves htx' nowMs entry
      have hstart : (replaced.replacePaneAgentStatuses topology.panes).provenance = tx.provenance := hreplaced
      exact Leaves.foldlM hpanes hstart _
    · trivial
  rw [h] at hleaves
  exact hleaves

end Tx

namespace Reducer

variable {r : Reducer}

theorem applyHeuristicBinding_eq (r : Reducer) (run : RunId) (sid : String) (bookkeepingTimeMs : ℤ)
    (aliasRunId : RunId) (nowMs : ℤ) : r.applyHeuristicBinding run sid bookkeepingTimeMs aliasRunId nowMs =
      match r.begin.applyBinding (.heuristicNativeSession run sid) bookkeepingTimeMs aliasRunId with
      | .ok tx =>
        ((r.withCore tx.toCore).recomputeDanglingAnnouncementComponents.submit
          (normalizePersistBatchLineage tx.persist) nowMs, .applied (normalizePersistBatchLineage tx.persist))
      | .error ⟨.bindingConflict conflict, _⟩ => (r, .droppedBindingConflict conflict)
      | .error ⟨.ordinalExhausted, _⟩ => (r, .applied []) := by
  unfold applyHeuristicBinding
  cases hbinding : r.begin.applyBinding (.heuristicNativeSession run sid) bookkeepingTimeMs aliasRunId with
  | ok tx => rfl
  | error failure =>
    have hcore : failure.core = r.toCore := by
      unfold Tx.applyBinding at hbinding
      split at hbinding
      · cases hbinding
      · rename_i model conflict happlied
        cases hbinding
        have hmodel : model = r.model := by
          have hkept := @applyHeuristicPlan_error r.model run sid bookkeepingTimeMs aliasRunId conflict
            (congrArg Prod.snd happlied)
          rw [← hkept]
          exact (congrArg Prod.fst happlied).symm
        rw [hmodel]
        rfl
    obtain ⟨error, core⟩ := failure
    subst hcore
    cases error <;> rfl

theorem reconcileSnapshot_eq (r : Reducer) (topology : TopologySnapshot) (draws : ℕ → PaneDraw) (nowMs : ℤ)
    (closeMs : String → ℤ) (epochMs publishMs : ℤ) :
    r.reconcileSnapshot topology draws nowMs closeMs epochMs publishMs =
      match r.begin.reconcileSnapshotInner topology draws nowMs closeMs with
      | .error failure => (r, .error failure.error)
      | .ok tx =>
        let persist := normalizePersistBatchLineage tx.persist
        let installed := (r.withCore tx.toCore).recomputeDanglingAnnouncementComponents
        let drained := (installed.applyOperatorSubmission persist).applyPendingTelemetryForKnownRuns
        ((drained.beginRateEpoch.activateRateEpoch epochMs).publish publishMs, .ok persist) := by
  unfold reconcileSnapshot
  cases hinner : r.begin.reconcileSnapshotInner topology draws nowMs closeMs with
  | ok tx => rfl
  | error failure =>
    have hprovenance : failure.core.provenance = r.toCore.provenance := Tx.reconcileSnapshotInner_failed hinner
    obtain ⟨hsources, hruns⟩ := Prod.mk.inj hprovenance
    dsimp only [withCore]
    rw [hsources, hruns]

end Reducer

end HerdrTop
