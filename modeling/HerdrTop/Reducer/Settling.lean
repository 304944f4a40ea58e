import HerdrTop.Reducer.Provider
import HerdrTop.Reducer.Sweeps
import HerdrTop.Reducer.Reconcile

/-!
# What publishing leaves alone

Between an observation and its publication the reducer brings samples, rates and diagnostics up to
date. Everything else in the core stays as the observation left it.
-/

namespace HerdrTop

/-- The model without what is measured and counted. -/
def DomainModel.unmeasured (m : DomainModel) : DomainModel :=
  { m with rateTotals := ∅, rateCursors := ∅, telemetry := ∅, diagnostics := {} }

/-- The core without what is measured and counted. -/
def Core.unmeasured (c : Core) : Core := { c with model := c.model.unmeasured }

namespace Reducer

/-- A loop of steps that leave the core alone does so too. -/
theorem unmeasured_foldl {α : Type} {f : Reducer → α → Reducer}
    (hf : ∀ r a, (f r a).toCore.unmeasured = r.toCore.unmeasured) (l : List α) (r : Reducer) :
    (l.foldl f r).toCore.unmeasured = r.toCore.unmeasured := by
  induction l generalizing r with
  | nil => rfl
  | cons a l ih => rw [List.foldl_cons, ih, hf]

@[simp] theorem unmeasured_recompute (r : Reducer) :
    r.recomputeDanglingAnnouncementComponents.toCore.unmeasured = r.toCore.unmeasured := rfl

@[simp] theorem unmeasured_applyOperatorSubmission (r : Reducer) (persist : PersistBatch) :
    (r.applyOperatorSubmission persist).toCore.unmeasured = r.toCore.unmeasured :=
  unmeasured_foldl (f := noteOperation) (fun _ _ => rfl) persist r

@[simp] theorem unmeasured_accumulateTelemetry (r : Reducer) (key : RunKey)
    (sample : PendingTelemetry) :
    (r.accumulateTelemetry key sample).toCore.unmeasured = r.toCore.unmeasured := by
  unfold accumulateTelemetry
  split <;> rfl

theorem evictOldest_toCore (r : Reducer) (order : List RunKey) :
    (r.evictOldestPendingTelemetry order).1.toCore = r.toCore := by
  induction order with
  | nil => rfl
  | cons key order ih =>
    unfold evictOldestPendingTelemetry
    split
    · exact ih
    · exact ih
    · rfl

theorem makeTelemetryRoom_toCore (fuel : ℕ) (r : Reducer) :
    (makeTelemetryRoom fuel r).toCore = r.toCore := by
  induction fuel generalizing r with
  | zero => rfl
  | succ fuel ih =>
    unfold makeTelemetryRoom
    split
    · rfl
    · dsimp only
      split
      · rw [ih, evictOldest_toCore]
      · exact evictOldest_toCore r _

theorem enqueuePendingTelemetry_toCore (r : Reducer) (key : RunKey) (sample : PendingTelemetry) :
    (r.enqueuePendingTelemetry key sample).toCore = r.toCore :=
  makeTelemetryRoom_toCore r.pendingTelemetryCount r

theorem unmeasured_applyPendingKey (r : Reducer) (key : RunKey) :
    (r.applyPendingKey key).toCore.unmeasured = r.toCore.unmeasured := by
  unfold applyPendingKey
  split
  · rfl
  · exact unmeasured_foldl (fun r sample => unmeasured_accumulateTelemetry r key sample) _ _

@[simp] theorem unmeasured_applyPendingTelemetry (r : Reducer) :
    r.applyPendingTelemetryForKnownRuns.toCore.unmeasured = r.toCore.unmeasured :=
  unmeasured_foldl unmeasured_applyPendingKey _ _

theorem unmeasured_observe (r : Reducer) (observation : RateObservation) (working : Bool) :
    (r.observeRunRatesWithActivity observation working).toCore.unmeasured = r.toCore.unmeasured := by
  unfold observeRunRatesWithActivity
  dsimp only
  split
  · rfl
  · split
    · rfl
    · split <;> rfl

theorem unmeasured_observeNoted (origin : RateObservationOrigin) (observedAtMs : ℤ) (r : Reducer)
    (runId : RunId) :
    (observeNoted origin observedAtMs r runId).toCore.unmeasured = r.toCore.unmeasured := by
  unfold observeNoted
  split
  · rfl
  · exact unmeasured_observe r _ _

@[simp] theorem publishSnapshot_toCore (r : Reducer) : r.publishSnapshot.toCore = r.toCore := by
  unfold publishSnapshot
  split_ifs <;> rfl

@[simp] theorem unmeasured_settle (r : Reducer) (nowMs : ℤ) :
    (r.settle nowMs).toCore.unmeasured = r.toCore.unmeasured := by
  unfold settle observeNotedRuns
  dsimp only
  rw [← unmeasured_applyPendingTelemetry r]
  split
  · exact unmeasured_foldl (unmeasured_observeNoted _ _) _ _
  · rfl

@[simp] theorem unmeasured_publish (r : Reducer) (nowMs : ℤ) :
    (r.publish nowMs).toCore.unmeasured = r.toCore.unmeasured := by
  unfold publish
  rw [publishSnapshot_toCore, unmeasured_settle]

@[simp] theorem unmeasured_submit (r : Reducer) (persist : PersistBatch) (nowMs : ℤ) :
    (r.submit persist nowMs).toCore.unmeasured = r.toCore.unmeasured := by
  unfold submit
  rw [unmeasured_publish, unmeasured_applyOperatorSubmission]

/-- What a transaction leaves is taken over. -/
@[simp] theorem unmeasured_install (r : Reducer) (tx : Tx) (publish : Bool) (nowMs : ℤ) :
    (r.install tx publish nowMs).toCore.unmeasured = tx.toCore.unmeasured := by
  unfold install
  split
  · exact unmeasured_submit _ _ _
  · rfl

theorem unmeasured_beginRateEpoch (r : Reducer) :
    r.beginRateEpoch.toCore.unmeasured = r.toCore.unmeasured := rfl

theorem unmeasured_activateRateEpoch (r : Reducer) (observedAtMs : ℤ) :
    (r.activateRateEpoch observedAtMs).toCore.unmeasured = r.toCore.unmeasured :=
  unmeasured_foldl (fun r _ => unmeasured_observe r _ _) _ _

theorem unmeasured_checkpointRunRates (r : Reducer) (observedAtMs : ℤ) :
    (r.checkpointRunRates observedAtMs).1.toCore.unmeasured = r.toCore.unmeasured := by
  unfold checkpointRunRates
  dsimp only
  have hfold : ∀ runIds : List RunId, (runIds.foldl (fun r runId =>
      r.observeRunRatesWithActivity ⟨runId, .live r.rateEpoch, observedAtMs⟩ true)
      r).toCore.unmeasured = r.toCore.unmeasured :=
    fun runIds => unmeasured_foldl (fun r _ => unmeasured_observe r _ _) runIds r
  split_ifs
  · exact (congrArg Core.unmeasured (publishSnapshot_toCore _)).trans (hfold _)
  · exact hfold _
  · exact congrArg Core.unmeasured (publishSnapshot_toCore r)
  · rfl

end Reducer

end HerdrTop
