import HerdrTop.Operator.Projection

/-!
# Unfinished history stays private

The items that only a history drain recorded wait until it is complete; each is filed under the drain that
it waits for as long as the private copy has it.

## What is proved

`history_isolated`: in every run, the published copy has no item that only drains recorded that are not
complete; it is a shortlist; catching up shows no item of a blocked run that was not shown, a live batch
shows at most the items that it records, and nothing else shows anything new; and once no drain is open
and no run blocked, the copies agree.
-/

namespace HerdrTop

/-! ### What a batch does to a copy -/

/-- The list is as `normalizeActivity` leaves it. -/
abbrev IsNormal (activity : List ActivityItem) : Prop :=
  Shortlist.IsShortlist ActivityItem.rank ActivityItem.eventId activityLimit activity

/-- The names of the items that an operation records. -/
def recordedName : PersistOp → Option String
  | .recordEvent event seenAtMs => (projectEvent event seenAtMs).map (·.eventId)
  | _ => none

/-- The names of the items that a batch records. -/
def recordedNames (batch : PersistBatch) : List String := batch.filterMap recordedName

/-- A part of a batch that records these names was folded into a copy. -/
structure Folded (names : List String) (p p' : Projected) : Prop where
  /-- No item comes from anywhere else. -/
  items : ∀ item ∈ p'.activity, (∃ old ∈ p.activity, old.eventId = item.eventId) ∨ item.eventId ∈ names
  /-- Without a change the items are the same. -/
  unchanged : p'.changed = false → p.changed = false ∧ p'.activity = p.activity
  /-- What was touched is pending. -/
  pending : ∀ name, name ∈ names ∨ name ∈ p.pending → name ∈ p'.pending

theorem Folded.refl (p : Projected) : Folded [] p p :=
  ⟨fun item h => .inl ⟨item, h, rfl⟩, fun h => ⟨h, rfl⟩, fun _ h => h.resolve_left List.not_mem_nil⟩

theorem Folded.trans {names names' : List String} {p p' p'' : Projected} (h : Folded names p p')
    (h' : Folded names' p' p'') : Folded (names ++ names') p p'' where
  items item hitem := by
    rcases h'.items item hitem with ⟨old, hold, heq⟩ | hnew
    · rcases h.items old hold with ⟨older, holder, heq'⟩ | hnew
      · exact .inl ⟨older, holder, heq'.trans heq⟩
      · exact .inr (List.mem_append_left _ (heq ▸ hnew))
    · exact .inr (List.mem_append_right _ hnew)
  unchanged hchanged := by
    obtain ⟨hp', hactivity'⟩ := h'.unchanged hchanged
    obtain ⟨hp, hactivity⟩ := h.unchanged hp'
    exact ⟨hp, hactivity'.trans hactivity⟩
  pending name hname := by
    apply h'.pending
    rcases hname with hname | hname
    · exact (List.mem_append.mp hname).symm.imp_right fun hname => h.pending name (.inl hname)
    · exact .inr (h.pending name (.inr hname))

theorem recordEvent_folded (p : Projected) (op : PersistOp) :
    Folded (recordedName op).toList p (p.recordEvent op) := by
  cases op with
  | recordEvent event seenAtMs =>
    dsimp only [Projected.recordEvent, recordedName]
    cases projectEvent event seenAtMs with
    | none => exact .refl p
    | some item =>
      refine ⟨fun other hother => ?_, fun hchanged => (by cases hchanged), fun name hname => ?_⟩
      · rcases List.mem_append.mp hother with hold | hnew
        · exact .inl ⟨other, List.mem_of_mem_filter hold, rfl⟩
        · rw [List.mem_singleton.mp hnew]
          exact .inr List.mem_cons_self
      · exact List.mem_cons.mpr (hname.imp_left List.mem_singleton.mp)
  | _ => exact .refl p

@[simp] theorem reparent_eventId (item : ActivityItem) (survivor absorbed : RunId) :
    (item.reparent survivor absorbed).eventId = item.eventId := by
  unfold ActivityItem.reparent
  split_ifs <;> rfl

/-- Where nothing is moved, a merge leaves the items. -/
theorem map_reparent_eq_self {activity : List ActivityItem} {survivor absorbed : RunId}
    (h : activity.filter (·.taskRunId = some absorbed) = []) :
    activity.map (·.reparent survivor absorbed) = activity := by
  conv_rhs => rw [← List.map_id activity]
  refine List.map_congr_left fun item hitem => ?_
  have hother : ¬ item.taskRunId = some absorbed := by
    simpa using List.filter_eq_nil_iff.mp h item hitem
  exact if_neg hother

theorem applyTerminalTime_folded (p : Projected) (run : PersistTaskRun) : Folded [] p (p.applyTerminalTime run) := by
  refine ⟨(Folded.refl p).items, fun hchanged => ?_, (Folded.refl p).pending⟩
  exact ⟨(Bool.or_eq_false_iff.mp hchanged).1, rfl⟩

theorem followRuns_folded (p : Projected) (op : PersistOp) : Folded [] p (p.followRuns op) := by
  cases op with
  | mergeTaskRuns survivor absorbed =>
    refine ⟨fun item hitem => ?_, fun hchanged => ?_, fun name hname => ?_⟩
    · obtain ⟨old, hold, rfl⟩ := List.mem_map.mp hitem
      exact .inl ⟨old, hold, (reparent_eventId ..).symm⟩
    · obtain ⟨hmoved, -⟩ := Bool.or_eq_false_iff.mp hchanged
      obtain ⟨hp, hempty⟩ := Bool.or_eq_false_iff.mp hmoved
      refine ⟨hp, map_reparent_eq_self ?_⟩
      rw [Bool.not_eq_false', List.isEmpty_iff, List.map_eq_nil_iff] at hempty
      exact hempty
    · exact List.mem_append_right _ (hname.resolve_left List.not_mem_nil)
  | upsertTaskRun run => exact applyTerminalTime_folded p run
  | promoteTaskRunKey promoted _ _ => exact applyTerminalTime_folded p promoted
  | _ => exact .refl p

theorem foldl_recordEvent (batch : PersistBatch) (p : Projected) :
    Folded (recordedNames batch) p (batch.foldl Projected.recordEvent p) := by
  induction batch generalizing p with
  | nil => exact .refl p
  | cons op batch ih =>
    have h := (recordEvent_folded p op).trans (ih (p.recordEvent op))
    rw [recordedNames, List.filterMap_cons]
    cases hname : recordedName op with
    | none =>
      rw [hname] at h
      exact h
    | some name =>
      rw [hname] at h
      exact h

theorem foldl_followRuns (batch : PersistBatch) (p : Projected) :
    Folded [] p (batch.foldl Projected.followRuns p) := by
  induction batch generalizing p with
  | nil => exact .refl p
  | cons op batch ih => exact (followRuns_folded p op).trans (ih (p.followRuns op))

/-- What a whole batch does to a copy. -/
theorem applySubmissionTo_folded (activity : List ActivityItem) (terminalTimes : HashMap RunId ℤ)
    (batch : PersistBatch) :
    Folded (recordedNames batch) { activity, terminalTimes } (applySubmissionTo activity terminalTimes batch) := by
  have h := (foldl_recordEvent batch { activity, terminalTimes }).trans (foldl_followRuns batch _)
  rwa [List.append_nil] at h

theorem settledActivity_items {names : List String} {p p' : Projected} (h : Folded names p p') {item : ActivityItem}
    (hitem : item ∈ p'.settledActivity) :
    (∃ old ∈ p.activity, old.eventId = item.eventId) ∨ item.eventId ∈ names := by
  unfold Projected.settledActivity at hitem
  split_ifs at hitem
  · exact h.items item (Shortlist.mem_of_shortlist hitem)
  · exact h.items item hitem

theorem settledActivity_normal {names : List String} {p p' : Projected} (h : Folded names p p')
    (hp : IsNormal p.activity) : IsNormal p'.settledActivity := by
  unfold Projected.settledActivity
  split_ifs with hchanged
  · exact Shortlist.isShortlist_shortlist
  · rw [(h.unchanged (Bool.eq_false_iff.mpr hchanged)).2]
    exact hp

@[simp] theorem reclassify_eventId (item : ActivityItem) (pending : List String) (durability : ActivityDurability) :
    (item.reclassify pending durability).eventId = item.eventId := by
  unfold ActivityItem.reclassify
  split_ifs <;> rfl

theorem reclassify_rank (item : ActivityItem) (pending : List String) (durability : ActivityDurability) :
    (item.reclassify pending durability).rank = item.rank := by
  unfold ActivityItem.reclassify
  split_ifs <;> rfl

theorem reclassifyPending_normal {activity : List ActivityItem} (h : IsNormal activity) (pending : List String)
    (durability : ActivityDurability) : IsNormal (reclassifyPending activity pending durability).1 :=
  h.map (fun item => reclassify_rank item pending durability) fun item =>
    reclassify_eventId item pending durability

theorem mem_reclassifyPending {activity : List ActivityItem} {pending : List String}
    {durability : ActivityDurability} {item : ActivityItem}
    (h : item ∈ (reclassifyPending activity pending durability).1) :
    ∃ old ∈ activity, old.eventId = item.eventId := by
  obtain ⟨old, hold, rfl⟩ := List.mem_map.mp h
  exact ⟨old, hold, (reclassify_eventId ..).symm⟩

/-- Items that have their durability keep it. -/
theorem reclassifyPending_unchanged {activity : List ActivityItem} {pending : List String}
    {durability : ActivityDurability} (h : (reclassifyPending activity pending durability).2 = false) :
    (reclassifyPending activity pending durability).1 = activity := by
  show activity.map _ = activity
  conv_rhs => rw [← List.map_id activity]
  refine List.map_congr_left fun item hitem => ?_
  have hsame := List.any_eq_false.mp h item hitem
  unfold ActivityItem.reclassify
  split_ifs with hpending
  · have hdurability : item.durability = durability := by simpa [hpending] using hsame
    rw [← hdurability]
    rfl
  · rfl

/-! ### Who recorded what -/

/-- What an operator's projection is asked to do. -/
inductive ProjectionCommand
  /-- A live batch. -/
  | live (batch : PersistBatch)
  /-- A batch of a drain. -/
  | historical (drainId : HistoryDrainId) (batch : PersistBatch)
  /-- The store answered the last live batch. -/
  | complete (outcome : RuntimeWriteOutcome)
  /-- The store answered the last batch of a drain. -/
  | completeHistorical (outcome : RuntimeWriteOutcome)
  /-- Drains were completed. -/
  | catchUp (completedDrains : List HistoryDrainId) (finalizedRuns : List FinalizedHistoryRun)
      (publishedModel : DomainModel)

namespace OperatorProjection

/-- Does what is asked. -/
def perform (op : OperatorProjection) : ProjectionCommand → OperatorProjection
  | .live batch => op.applySubmission batch
  | .historical drainId batch => op.applySubmissionWithoutPublishing drainId batch
  | .complete outcome => op.completeSubmission outcome
  | .completeHistorical outcome => op.completeSubmissionWithoutPublishing outcome
  | .catchUp completedDrains finalizedRuns publishedModel =>
    op.publishAccumulated completedDrains finalizedRuns publishedModel

/-- The projection of a process that starts. -/
def start (restored : RestoredOperatorState) (deferred : HashMap HistoryDrainId (List ActivityItem))
    (model : DomainModel) : OperatorProjection :=
  (new restored).restoreDeferredHistory deferred model

end OperatorProjection

/-- Which items were recorded by whom, and what is not complete. -/
structure Recordings where
  /-- Restored, recorded live, or by a drain that was completed since. -/
  released : List String
  /-- Recorded by a drain that was not completed since. -/
  waiting : List (HistoryDrainId × String)
  /-- The drains that were restored or sent a batch, and were not completed since. -/
  openDrains : List HistoryDrainId
  /-- Whether the history of a run is not complete: as it was finalized last, or else as it was restored. -/
  blocked : RunId → Bool

namespace Recordings

/-- What is recorded before the first command. -/
def start (restored : RestoredOperatorState) (deferred : HashMap HistoryDrainId (List ActivityItem))
    (model : DomainModel) : Recordings where
  released := restored.activity.map (·.eventId)
  waiting := deferred.toList.flatMap fun entry => entry.2.map fun item => (entry.1, item.eventId)
  openDrains := deferred.keys
  blocked run := model.taskRuns.values.any fun taskRun =>
    taskRun.runId = run && (model.v6State run).any fun state => !state.historyReady

/-- What is recorded after a command. -/
def after (rec : Recordings) : ProjectionCommand → Recordings
  | .live batch => { rec with released := rec.released ++ recordedNames batch }
  | .historical drainId batch =>
    { rec with
      waiting := rec.waiting ++ (recordedNames batch).map fun name => (drainId, name)
      openDrains := drainId :: rec.openDrains }
  | .catchUp completedDrains finalizedRuns _ =>
    { released := rec.released ++ (rec.waiting.filter (·.1 ∈ completedDrains)).map Prod.snd
      waiting := rec.waiting.filter (·.1 ∉ completedDrains)
      openDrains := rec.openDrains.filter (· ∉ completedDrains)
      blocked := fun run =>
        ((finalizedRuns.reverse.find? (·.runId = run)).map fun finalized => !finalized.state.historyReady).getD
          (rec.blocked run) }
  | _ => rec

end Recordings

namespace OperatorProjection

/-- An item may be in the private copy: it is released, or filed under a drain that recorded it. -/
def Filed (op : OperatorProjection) (rec : Recordings) (name : String) : Prop :=
  name ∈ rec.released ∨ ∃ drainId identities, (drainId, name) ∈ rec.waiting ∧
    op.deferredActivity.get drainId = some identities ∧ name ∈ identities

/-- What holds of the projection along a run. -/
structure Isolated (op : OperatorProjection) (rec : Recordings) : Prop where
  filed : ∀ item ∈ op.activity, Filed op rec item.eventId
  released : ∀ item ∈ op.publishedActivity, item.eventId ∈ rec.released
  normal : IsNormal op.activity
  publishedNormal : IsNormal op.publishedActivity
  sent : op.publisher.activity = op.publishedActivity

variable {op : OperatorProjection} {rec : Recordings}

/-! ### The start -/

/-- The drains that were restored so far file their items. -/
structure Restoring (rec : Recordings) (op : OperatorProjection)
    (todo : List (HistoryDrainId × List ActivityItem)) : Prop where
  filed : ∀ item ∈ op.activity, Filed op rec item.eventId
  todo : ∀ entry ∈ todo, op.deferredActivity.get entry.1 = none ∧
    ∀ item ∈ entry.2, (entry.1, item.eventId) ∈ rec.waiting

theorem Restoring.step {entry : HistoryDrainId × List ActivityItem}
    {todo : List (HistoryDrainId × List ActivityItem)} (h : Restoring rec op (entry :: todo))
    (hnew : entry.1 ∉ todo.map Prod.fst) : Restoring rec (op.restoreDrain entry) todo where
  filed item hitem := by
    obtain ⟨hfree, hwaiting⟩ := h.todo entry List.mem_cons_self
    rcases List.mem_append.mp hitem with hold | hnew
    · rcases h.filed item (List.mem_of_mem_filter hold) with hreleased | ⟨drainId, ids, hrec, hget, hmem⟩
      · exact .inl hreleased
      · refine .inr ⟨drainId, ids, hrec, ?_, hmem⟩
        refine (HashMap.get_insert_ne _ _ ?_).trans hget
        rintro rfl
        rw [hfree] at hget
        cases hget
    · exact .inr ⟨entry.1, _, hwaiting item hnew, HashMap.get_insert_self .., List.mem_map_of_mem hnew⟩
  todo other hother := by
    obtain ⟨hfree, hwaiting⟩ := h.todo other (List.mem_cons_of_mem _ hother)
    refine ⟨(HashMap.get_insert_ne _ _ ?_).trans hfree, hwaiting⟩
    rintro heq
    exact hnew (List.mem_map.mpr ⟨other, hother, heq⟩)

theorem Restoring.foldl {todo : List (HistoryDrainId × List ActivityItem)} (h : Restoring rec op todo)
    (hnodup : (todo.map Prod.fst).Nodup) : Restoring rec (todo.foldl restoreDrain op) [] := by
  induction todo generalizing op with
  | nil => exact h
  | cons entry todo ih =>
    rw [List.map_cons, List.nodup_cons] at hnodup
    exact ih (h.step hnodup.1) hnodup.2

/-- Restoring drains leaves the published copy alone. -/
theorem foldl_restoreDrain_published (todo : List (HistoryDrainId × List ActivityItem)) :
    (todo.foldl restoreDrain op).publishedActivity = op.publishedActivity ∧
      (todo.foldl restoreDrain op).publisher = op.publisher := by
  induction todo generalizing op with
  | nil => exact ⟨rfl, rfl⟩
  | cons entry todo ih => exact ih

/-- Restoring drains in a projection whose copies agree. -/
theorem isolated_restored {restored : RestoredOperatorState}
    {deferred : HashMap HistoryDrainId (List ActivityItem)} {model : DomainModel}
    (hactivity : op.activity = normalizeActivity restored.activity) (hempty : op.deferredActivity = ∅)
    (hpublished : op.publishedActivity = op.activity) (hsent : op.publisher.activity = op.activity) :
    Isolated { deferred.toList.foldl restoreDrain op with
      activity := normalizeActivity (deferred.toList.foldl restoreDrain op).activity }
      (.start restored deferred model) := by
  have hreleased : ∀ item ∈ op.activity, item.eventId ∈ (Recordings.start restored deferred model).released := by
    intro item hitem
    rw [hactivity] at hitem
    exact List.mem_map_of_mem (Shortlist.mem_of_shortlist hitem)
  have hnormal : IsNormal op.activity := by
    rw [hactivity]
    exact Shortlist.isShortlist_shortlist
  have hstart : Restoring (.start restored deferred model) op deferred.toList := by
    refine ⟨fun item hitem => .inl (hreleased item hitem), fun entry hentry => ⟨?_, fun item hitem => ?_⟩⟩
    · rw [hempty]
      rfl
    · exact List.mem_flatMap.mpr ⟨entry, hentry, List.mem_map.mpr ⟨item, hitem, rfl⟩⟩
  have hnodup : (deferred.toList.map Prod.fst).Nodup := by
    rw [← HashMap.keys_eq_map_toList]
    exact deferred.keys_nodup
  obtain ⟨hcopy, hpublisher⟩ := @foldl_restoreDrain_published op deferred.toList
  constructor
  · exact fun item hitem => (hstart.foldl hnodup).filed item (Shortlist.mem_of_shortlist hitem)
  · intro item hitem
    rw [hcopy, hpublished] at hitem
    exact hreleased item hitem
  · exact Shortlist.isShortlist_shortlist
  · rw [hcopy, hpublished]
    exact hnormal
  · rw [hcopy, hpublisher, hsent, hpublished]

theorem isolated_start (restored : RestoredOperatorState) (deferred : HashMap HistoryDrainId (List ActivityItem))
    (model : DomainModel) : Isolated (start restored deferred model) (.start restored deferred model) :=
  isolated_restored rfl rfl rfl rfl

/-! ### Commands keep the isolation -/

theorem applySubmission_activity (op : OperatorProjection) (batch : PersistBatch) :
    (op.applySubmission batch).activity =
      (applySubmissionTo op.activity op.terminalTimes batch).settledActivity ∧
    (op.applySubmission batch).publishedActivity =
      (applySubmissionTo op.publishedActivity op.publishedTerminalTimes batch).settledActivity ∧
    (op.applySubmission batch).deferredActivity = op.deferredActivity := by
  unfold applySubmission
  dsimp only
  split_ifs <;> exact ⟨rfl, rfl, rfl⟩

/-- What is sent after a live batch is the published copy. -/
theorem applySubmission_sent (op : OperatorProjection) (batch : PersistBatch)
    (h : op.publisher.activity = op.publishedActivity) :
    (op.applySubmission batch).publisher.activity = (op.applySubmission batch).publishedActivity := by
  have hfolded := applySubmissionTo_folded op.publishedActivity op.publishedTerminalTimes batch
  unfold applySubmission
  dsimp only
  split_ifs with hchanged
  · rfl
  · refine h.trans ?_
    show op.publishedActivity = Projected.settledActivity _
    rw [Projected.settledActivity, if_neg hchanged]
    exact (hfolded.unchanged (Bool.eq_false_iff.mpr hchanged)).2.symm

theorem Isolated.live (h : Isolated op rec) (batch : PersistBatch) :
    Isolated (op.applySubmission batch) (rec.after (.live batch)) := by
  obtain ⟨hactivity, hpublished, hdeferred⟩ := applySubmission_activity op batch
  have hprivate := applySubmissionTo_folded op.activity op.terminalTimes batch
  have hshown := applySubmissionTo_folded op.publishedActivity op.publishedTerminalTimes batch
  constructor
  · intro item hitem
    rw [hactivity] at hitem
    rcases settledActivity_items hprivate hitem with ⟨old, hold, heq⟩ | hnew
    · rw [← heq]
      rcases h.filed old hold with hreleased | ⟨drainId, ids, hrec, hget, hmem⟩
      · exact .inl (List.mem_append_left _ hreleased)
      · exact .inr ⟨drainId, ids, hrec, by rw [hdeferred, hget], hmem⟩
    · exact .inl (List.mem_append_right _ hnew)
  · intro item hitem
    rw [hpublished] at hitem
    rcases settledActivity_items hshown hitem with ⟨old, hold, heq⟩ | hnew
    · rw [← heq]
      exact List.mem_append_left _ (h.released old hold)
    · exact List.mem_append_right _ hnew
  · rw [hactivity]
    exact settledActivity_normal hprivate h.normal
  · rw [hpublished]
    exact settledActivity_normal hshown h.publishedNormal
  · exact applySubmission_sent op batch h.sent

/-- The names filed under a drain after a batch of a drain, as far as the private copy has them. -/
theorem applySubmissionWithoutPublishing_filed {drainId other : HistoryDrainId} {batch : PersistBatch}
    {ids : List String} {name : String}
    (hget : (op.deferredActivity.insert drainId ((op.deferredActivity.get drainId).getD [] ++
      (applySubmissionTo op.activity op.terminalTimes batch).pending)).get other = some ids)
    (hname : name ∈ ids)
    (hkept : name ∈ (op.applySubmissionWithoutPublishing drainId batch).activity.map (·.eventId)) :
    ∃ kept, (op.applySubmissionWithoutPublishing drainId batch).deferredActivity.get other = some kept ∧
      name ∈ kept := by
  unfold applySubmissionWithoutPublishing at hkept ⊢
  dsimp only at hkept ⊢
  split_ifs at hkept ⊢
  · refine ⟨ids.filter (· ∈ (applySubmissionTo op.activity op.terminalTimes batch).settledActivity.map
      (·.eventId)), ?_, List.mem_filter.mpr ⟨hname, decide_eq_true hkept⟩⟩
    rw [HashMap.get_mapValues, hget]
    rfl
  · exact ⟨ids, hget, hname⟩

theorem Isolated.historical (h : Isolated op rec) (drainId : HistoryDrainId) (batch : PersistBatch) :
    Isolated (op.applySubmissionWithoutPublishing drainId batch) (rec.after (.historical drainId batch)) := by
  have hfolded := applySubmissionTo_folded op.activity op.terminalTimes batch
  refine ⟨fun item hitem => ?_, h.released, settledActivity_normal hfolded h.normal, h.publishedNormal, h.sent⟩
  have hkept := List.mem_map_of_mem (f := (·.eventId)) hitem
  rcases settledActivity_items hfolded hitem with ⟨old, hold, heq⟩ | hnew
  · rw [← heq] at hkept ⊢
    rcases h.filed old hold with hreleased | ⟨other, ids, hrec, hget, hmem⟩
    · exact .inl hreleased
    · have hfiled : ∃ ids', (op.deferredActivity.insert drainId ((op.deferredActivity.get drainId).getD [] ++
          (applySubmissionTo op.activity op.terminalTimes batch).pending)).get other = some ids' ∧
          old.eventId ∈ ids' := by
        by_cases hsame : other = drainId
        · refine ⟨_, by rw [hsame, HashMap.get_insert_self], ?_⟩
          rw [← hsame, hget]
          exact List.mem_append_left _ hmem
        · exact ⟨ids, by rw [HashMap.get_insert_ne _ _ hsame, hget], hmem⟩
      obtain ⟨ids', hget', hmem'⟩ := hfiled
      obtain ⟨kept, hkeptGet, hkeptMem⟩ := applySubmissionWithoutPublishing_filed hget' hmem' hkept
      exact .inr ⟨other, kept, List.mem_append_left _ hrec, hkeptGet, hkeptMem⟩
  · have hpending := hfolded.pending _ (.inl hnew)
    obtain ⟨kept, hkeptGet, hkeptMem⟩ := applySubmissionWithoutPublishing_filed
      (HashMap.get_insert_self ..) (List.mem_append_right _ hpending) hkept
    exact .inr ⟨drainId, kept, List.mem_append_right _ (List.mem_map_of_mem hnew), hkeptGet, hkeptMem⟩

theorem completeSubmission_activity (op : OperatorProjection) (outcome : RuntimeWriteOutcome) :
    (op.completeSubmission outcome).activity =
      (reclassifyPending op.activity op.pendingIdentities (activityDurability outcome)).1 ∧
    (op.completeSubmission outcome).publishedActivity =
      (reclassifyPending op.publishedActivity op.publishedPendingIdentities (activityDurability outcome)).1 ∧
    (op.completeSubmission outcome).deferredActivity = op.deferredActivity := by
  unfold completeSubmission
  dsimp only
  split_ifs <;> exact ⟨rfl, rfl, rfl⟩

theorem completeSubmission_sent (op : OperatorProjection) (outcome : RuntimeWriteOutcome)
    (h : op.publisher.activity = op.publishedActivity) :
    (op.completeSubmission outcome).publisher.activity = (op.completeSubmission outcome).publishedActivity := by
  unfold completeSubmission
  dsimp only
  split_ifs with hchanged
  · rfl
  · exact h.trans (reclassifyPending_unchanged (Bool.eq_false_iff.mpr hchanged)).symm

theorem Isolated.complete (h : Isolated op rec) (outcome : RuntimeWriteOutcome) :
    Isolated (op.completeSubmission outcome) rec := by
  obtain ⟨hactivity, hpublished, hdeferred⟩ := completeSubmission_activity op outcome
  constructor
  · intro item hitem
    rw [hactivity] at hitem
    obtain ⟨old, hold, heq⟩ := mem_reclassifyPending hitem
    rw [← heq, Filed, hdeferred]
    exact h.filed old hold
  · intro item hitem
    rw [hpublished] at hitem
    obtain ⟨old, hold, heq⟩ := mem_reclassifyPending hitem
    rw [← heq]
    exact h.released old hold
  · rw [hactivity]
    exact reclassifyPending_normal h.normal _ _
  · rw [hpublished]
    exact reclassifyPending_normal h.publishedNormal _ _
  · exact completeSubmission_sent op outcome h.sent

theorem Isolated.completeHistorical (h : Isolated op rec) (outcome : RuntimeWriteOutcome) :
    Isolated (op.completeSubmissionWithoutPublishing outcome) rec := by
  refine ⟨fun item hitem => ?_, h.released, reclassifyPending_normal h.normal _ _, h.publishedNormal, h.sent⟩
  obtain ⟨old, hold, heq⟩ := mem_reclassifyPending hitem
  rw [← heq]
  exact h.filed old hold

/-- The items of drains that were not completed stay filed. -/
theorem get_foldl_remove (drains : List HistoryDrainId) (m : HashMap HistoryDrainId (List String))
    (drainId : HistoryDrainId) :
    (drains.foldl HashMap.remove m).get drainId = if drainId ∈ drains then none else m.get drainId := by
  induction drains generalizing m with
  | nil => rfl
  | cons completed drains ih =>
    rw [List.foldl_cons, ih, HashMap.get_remove]
    by_cases hrest : drainId ∈ drains
    · rw [if_pos hrest, if_pos (List.mem_cons_of_mem _ hrest)]
    · rw [if_neg hrest]
      by_cases hsame : drainId = completed
      · rw [if_pos hsame, if_pos (hsame ▸ List.mem_cons_self)]
      · rw [if_neg hsame, if_neg fun hmem => (List.mem_cons.mp hmem).elim hsame hrest]

theorem Filed.after {name : String} (h : Filed op rec name) (completedDrains : List HistoryDrainId)
    (finalizedRuns : List FinalizedHistoryRun) (publishedModel : DomainModel) :
    Filed (op.publishAccumulated completedDrains finalizedRuns publishedModel)
      (rec.after (.catchUp completedDrains finalizedRuns publishedModel)) name := by
  rcases h with hreleased | ⟨drainId, ids, hrec, hget, hmem⟩
  · exact .inl (List.mem_append_left _ hreleased)
  · by_cases hcompleted : drainId ∈ completedDrains
    · refine .inl (List.mem_append_right _ (List.mem_map.mpr ⟨(drainId, name), ?_, rfl⟩))
      exact List.mem_filter.mpr ⟨hrec, decide_eq_true hcompleted⟩
    · refine .inr ⟨drainId, ids, List.mem_filter.mpr ⟨hrec, decide_eq_true hcompleted⟩, ?_, hmem⟩
      exact (get_foldl_remove ..).trans ((if_neg hcompleted).trans hget)

/-- What catching up shows was shown, or is in the private copy and not hidden. -/
theorem mem_publishAccumulated {completedDrains : List HistoryDrainId}
    {finalizedRuns : List FinalizedHistoryRun} {publishedModel : DomainModel} {item : ActivityItem}
    (h : item ∈ (op.publishAccumulated completedDrains finalizedRuns publishedModel).publishedActivity) :
    item ∈ op.publishedActivity ∨ (item ∈ op.activity ∧
      item.eventId ∉ (op.publishAccumulated completedDrains finalizedRuns publishedModel).hiddenActivity) := by
  rcases List.mem_append.mp (Shortlist.mem_of_shortlist h) with hprivate | hshown
  · obtain ⟨hitem, hfree⟩ := List.mem_filter.mp hprivate
    exact .inr ⟨hitem, of_decide_eq_true hfree⟩
  · exact .inl (List.mem_of_mem_filter hshown)

theorem Isolated.catchUp (h : Isolated op rec) (completedDrains : List HistoryDrainId)
    (finalizedRuns : List FinalizedHistoryRun) (publishedModel : DomainModel) :
    Isolated (op.publishAccumulated completedDrains finalizedRuns publishedModel)
      (rec.after (.catchUp completedDrains finalizedRuns publishedModel)) := by
  have hfiled : ∀ item ∈ op.activity, Filed (op.publishAccumulated completedDrains finalizedRuns publishedModel)
      (rec.after (.catchUp completedDrains finalizedRuns publishedModel)) item.eventId :=
    fun item hitem => Filed.after (h.filed item hitem) completedDrains finalizedRuns publishedModel
  refine ⟨hfiled, fun item hitem => ?_, h.normal, Shortlist.isShortlist_shortlist, rfl⟩
  rcases mem_publishAccumulated hitem with hshown | ⟨hprivate, hfree⟩
  · exact List.mem_append_left _ (h.released item hshown)
  · rcases hfiled item hprivate with hreleased | ⟨drainId, ids, -, hget, hmem⟩
    · exact hreleased
    · refine absurd (List.mem_append_left _ ?_) hfree
      exact List.mem_flatten.mpr ⟨ids, HashMap.mem_values.mpr ⟨drainId, hget⟩, hmem⟩

theorem Isolated.perform (h : Isolated op rec) (command : ProjectionCommand) :
    Isolated (op.perform command) (rec.after command) := by
  cases command with
  | live batch => exact h.live batch
  | historical drainId batch => exact h.historical drainId batch
  | complete outcome => exact h.complete outcome
  | completeHistorical outcome => exact h.completeHistorical outcome
  | catchUp completedDrains finalizedRuns publishedModel =>
    exact h.catchUp completedDrains finalizedRuns publishedModel

theorem Isolated.run (h : Isolated op rec) (commands : List ProjectionCommand) :
    Isolated (commands.foldl OperatorProjection.perform op) (commands.foldl Recordings.after rec) := by
  induction commands generalizing op rec with
  | nil => exact h
  | cons command commands ih => exact ih (h.perform command)

/-! ### What is not complete -/

/-- The projection files items under open drains only, and knows which runs are blocked. -/
structure Followed (op : OperatorProjection) (rec : Recordings) : Prop where
  filed : ∀ drainId ids, op.deferredActivity.get drainId = some ids → drainId ∈ rec.openDrains
  blocked : ∀ run, run ∈ op.blockedHistoryRuns ↔ rec.blocked run = true

theorem foldl_restoreDrain_filed (todo : List (HistoryDrainId × List ActivityItem)) :
    (todo.foldl restoreDrain op).blockedHistoryRuns = op.blockedHistoryRuns ∧
      ∀ drainId ids, (todo.foldl restoreDrain op).deferredActivity.get drainId = some ids →
        drainId ∈ todo.map Prod.fst ∨ ∃ old, op.deferredActivity.get drainId = some old := by
  induction todo generalizing op with
  | nil => exact ⟨rfl, fun drainId ids hget => .inr ⟨ids, hget⟩⟩
  | cons entry todo ih =>
    obtain ⟨hblocked, hfiled⟩ := @ih (op.restoreDrain entry)
    refine ⟨hblocked, fun drainId ids hget => ?_⟩
    rcases hfiled drainId ids hget with hmem | ⟨old, hold⟩
    · exact .inl (List.mem_cons_of_mem _ hmem)
    · rw [restoreDrain, HashMap.get_insert] at hold
      split_ifs at hold with hsame
      · exact .inl (hsame ▸ List.mem_cons_self)
      · exact .inr ⟨old, hold⟩

theorem followed_start (restored : RestoredOperatorState) (deferred : HashMap HistoryDrainId (List ActivityItem))
    (model : DomainModel) : Followed (start restored deferred model) (.start restored deferred model) := by
  obtain ⟨hblocked, hfiled⟩ := @foldl_restoreDrain_filed
    { new restored with
      blockedHistoryRuns := (model.taskRuns.values.map (·.runId)).filter fun runId =>
        (model.v6State runId).any fun state => !state.historyReady
      terminalTimes := modelTerminalTimes model } deferred.toList
  constructor
  · intro drainId ids hget
    rcases hfiled drainId ids hget with hmem | ⟨old, hold⟩
    · rw [← HashMap.keys_eq_map_toList] at hmem
      exact hmem
    · cases hold
  · intro run
    rw [start, restoreDeferredHistory]
    dsimp only
    rw [hblocked]
    simp only [List.mem_filter, List.mem_map, Recordings.start, List.any_eq_true, Bool.and_eq_true,
      decide_eq_true_eq, ← exists_and_right, and_assoc]

/-- A run is blocked after some were finalized as the last of them says, if it is one of them. -/
theorem mem_foldl_finalizeBlocked (finalizedRuns : List FinalizedHistoryRun) (blocked : List RunId) (run : RunId) :
    run ∈ finalizedRuns.foldl finalizeBlocked blocked ↔
      ((finalizedRuns.reverse.find? (·.runId = run)).map fun finalized => !finalized.state.historyReady).getD
        (decide (run ∈ blocked)) = true := by
  induction finalizedRuns using List.reverseRecOn with
  | nil => simp
  | append_singleton finalizedRuns finalized ih =>
    rw [List.foldl_append, List.foldl_cons, List.foldl_nil, List.reverse_append, List.reverse_singleton,
      List.singleton_append, List.find?_cons, finalizeBlocked]
    by_cases hrun : finalized.runId = run
    · subst hrun
      cases hready : finalized.state.historyReady <;> simp [hready]
    · rw [decide_eq_false hrun]
      dsimp only
      rw [← ih]
      split_ifs
      · exact List.mem_filter.trans (and_iff_left (decide_eq_true (Ne.symm hrun)))
      · exact List.mem_cons.trans (or_iff_right (Ne.symm hrun))

theorem Followed.historical (h : Followed op rec) (drainId : HistoryDrainId) (batch : PersistBatch) :
    Followed (op.applySubmissionWithoutPublishing drainId batch) (rec.after (.historical drainId batch)) := by
  refine ⟨fun other ids hget => ?_, h.blocked⟩
  have hinserted : ∃ old, (op.deferredActivity.insert drainId ((op.deferredActivity.get drainId).getD [] ++
      (applySubmissionTo op.activity op.terminalTimes batch).pending)).get other = some old := by
    unfold applySubmissionWithoutPublishing at hget
    dsimp only at hget
    split_ifs at hget
    · rw [HashMap.get_mapValues, Option.map_eq_some_iff] at hget
      obtain ⟨old, hold, -⟩ := hget
      exact ⟨old, hold⟩
    · exact ⟨ids, hget⟩
  obtain ⟨old, hold⟩ := hinserted
  rw [HashMap.get_insert] at hold
  split_ifs at hold with hsame
  · exact hsame ▸ List.mem_cons_self
  · exact List.mem_cons_of_mem _ (h.filed other old hold)

theorem Followed.catchUp (h : Followed op rec) (completedDrains : List HistoryDrainId)
    (finalizedRuns : List FinalizedHistoryRun) (publishedModel : DomainModel) :
    Followed (op.publishAccumulated completedDrains finalizedRuns publishedModel)
      (rec.after (.catchUp completedDrains finalizedRuns publishedModel)) := by
  constructor
  · intro drainId ids hget
    change (completedDrains.foldl HashMap.remove op.deferredActivity).get drainId = some ids at hget
    rw [get_foldl_remove] at hget
    split_ifs at hget with hcompleted
    exact List.mem_filter.mpr ⟨h.filed drainId ids hget, decide_eq_true hcompleted⟩
  · intro run
    refine (mem_foldl_finalizeBlocked finalizedRuns op.blockedHistoryRuns run).trans ?_
    have hbefore : decide (run ∈ op.blockedHistoryRuns) = rec.blocked run := by
      rw [Bool.eq_iff_iff, decide_eq_true_iff]
      exact h.blocked run
    rw [hbefore]
    rfl

theorem Followed.perform (h : Followed op rec) (command : ProjectionCommand) :
    Followed (op.perform command) (rec.after command) := by
  cases command with
  | live batch =>
    have hblocked : (op.applySubmission batch).blockedHistoryRuns = op.blockedHistoryRuns := by
      unfold applySubmission
      dsimp only
      split_ifs <;> rfl
    have hdeferred := (applySubmission_activity op batch).2.2
    exact ⟨fun drainId ids hget => h.filed drainId ids (hdeferred ▸ hget), fun run => by
      rw [OperatorProjection.perform, hblocked]
      exact h.blocked run⟩
  | historical drainId batch => exact h.historical drainId batch
  | complete outcome =>
    have hblocked : (op.completeSubmission outcome).blockedHistoryRuns = op.blockedHistoryRuns := by
      unfold completeSubmission
      dsimp only
      split_ifs <;> rfl
    have hdeferred := (completeSubmission_activity op outcome).2.2
    exact ⟨fun drainId ids hget => h.filed drainId ids (hdeferred ▸ hget), fun run => by
      rw [OperatorProjection.perform, hblocked]
      exact h.blocked run⟩
  | completeHistorical outcome => exact ⟨h.filed, h.blocked⟩
  | catchUp completedDrains finalizedRuns publishedModel =>
    exact h.catchUp completedDrains finalizedRuns publishedModel

theorem Followed.run (h : Followed op rec) (commands : List ProjectionCommand) :
    Followed (commands.foldl OperatorProjection.perform op) (commands.foldl Recordings.after rec) := by
  induction commands generalizing op rec with
  | nil => exact h
  | cons command commands ih => exact ih (h.perform command)

/-! ### What a command shows -/

/-- What a command may show that was not shown: the items of a live batch, and, when drains are completed,
items of runs that are not blocked then. -/
def MayShow (rec : Recordings) : ProjectionCommand → ActivityItem → Prop
  | .live batch, item => item.eventId ∈ recordedNames batch
  | .catchUp completedDrains finalizedRuns publishedModel, item =>
    ∀ run ∈ item.taskRunId, (rec.after (.catchUp completedDrains finalizedRuns publishedModel)).blocked run = false
  | _, _ => False

theorem shown_mayShow (h : Isolated op rec) (hf : Followed op rec) (command : ProjectionCommand) {item : ActivityItem}
    (hitem : item ∈ (op.perform command).publisher.activity)
    (hnew : ∀ old ∈ op.publisher.activity, old.eventId ≠ item.eventId) : MayShow rec command item := by
  rw [(h.perform command).sent] at hitem
  rw [h.sent] at hnew
  cases command with
  | live batch =>
    have hitem' := hitem
    rw [perform, (applySubmission_activity op batch).2.1] at hitem'
    rcases settledActivity_items (applySubmissionTo_folded ..) hitem' with ⟨old, hold, heq⟩ | hrecorded
    · exact absurd heq (hnew old hold)
    · exact hrecorded
  | historical drainId batch => exact absurd rfl (hnew item hitem)
  | complete outcome =>
    rw [perform, (completeSubmission_activity op outcome).2.1] at hitem
    obtain ⟨old, hold, heq⟩ := mem_reclassifyPending hitem
    exact absurd heq (hnew old hold)
  | completeHistorical outcome => exact absurd rfl (hnew item hitem)
  | catchUp completedDrains finalizedRuns publishedModel =>
    rcases mem_publishAccumulated hitem with hshown | ⟨hprivate, hfree⟩
    · exact absurd rfl (hnew item hshown)
    · intro run hrun
      refine Bool.eq_false_iff.mpr fun hblocked => hfree (List.mem_append_right _ ?_)
      refine List.mem_map_of_mem (List.mem_filter.mpr ⟨hprivate, ?_⟩)
      have hmem := ((hf.catchUp completedDrains finalizedRuns publishedModel).blocked run).mpr hblocked
      exact (Option.any_eq_true _ _).mpr ⟨run, hrun, decide_eq_true hmem⟩

/-- With nothing hidden, catching up makes the copies agree. -/
theorem publishAccumulated_agrees (h : IsNormal op.activity) {completedDrains : List HistoryDrainId}
    {finalizedRuns : List FinalizedHistoryRun} {publishedModel : DomainModel}
    (hopen : (op.publishAccumulated completedDrains finalizedRuns publishedModel).deferredActivity.keys = [])
    (hblocked : (op.publishAccumulated completedDrains finalizedRuns publishedModel).blockedHistoryRuns = []) :
    (op.publishAccumulated completedDrains finalizedRuns publishedModel).publisher.activity =
      (op.publishAccumulated completedDrains finalizedRuns publishedModel).activity := by
  have hvalues : (op.publishAccumulated completedDrains finalizedRuns publishedModel).deferredActivity.values =
      [] := by
    refine List.eq_nil_iff_forall_not_mem.mpr fun ids hids => ?_
    obtain ⟨drainId, hget⟩ := HashMap.mem_values.mp hids
    have hkey := HashMap.mem_keys.mpr ⟨ids, hget⟩
    rw [hopen] at hkey
    cases hkey
  have hhidden : (op.publishAccumulated completedDrains finalizedRuns publishedModel).hiddenActivity = [] := by
    rw [hiddenActivity, hvalues, List.flatten_nil, List.nil_append, List.map_eq_nil_iff, List.filter_eq_nil_iff]
    intro item _
    rw [isBlocked, hblocked]
    cases item.taskRunId <;> simp
  have hpublished : (op.publishAccumulated completedDrains finalizedRuns publishedModel).publisher.activity =
      normalizeActivity (op.activity.filter (fun item => item.eventId ∉
          (op.publishAccumulated completedDrains finalizedRuns publishedModel).hiddenActivity) ++
        op.publishedActivity.filter fun item => item.eventId ∈
          (op.publishAccumulated completedDrains finalizedRuns publishedModel).hiddenActivity) := rfl
  rw [hpublished, hhidden]
  simp only [List.not_mem_nil, not_false_eq_true, decide_true, List.filter_true, decide_false, List.filter_false,
    List.append_nil]
  exact Shortlist.shortlist_eq_self h

/-- The projection after commands. -/
def after (op : OperatorProjection) (commands : List ProjectionCommand) : OperatorProjection :=
  commands.foldl perform op

/-- In every run of the projection: what is published was restored, recorded live, or recorded by a drain
that was completed since; it is a shortlist; a command shows nothing new but the items of a live batch and,
when drains are completed, items of runs that are not blocked; and when then every drain is completed and no
run blocked, the published copy is the private one. -/
theorem history_isolated (restored : RestoredOperatorState)
    (deferred : HashMap HistoryDrainId (List ActivityItem)) (model : DomainModel)
    (commands : List ProjectionCommand) :
    (∀ item ∈ ((start restored deferred model).after commands).publisher.activity,
      item.eventId ∈ (commands.foldl Recordings.after (.start restored deferred model)).released) ∧
    IsNormal ((start restored deferred model).after commands).publisher.activity ∧
    (∀ command, ∀ item ∈ (((start restored deferred model).after commands).perform command).publisher.activity,
      (∀ old ∈ ((start restored deferred model).after commands).publisher.activity, old.eventId ≠ item.eventId) →
      MayShow (commands.foldl Recordings.after (.start restored deferred model)) command item) ∧
    (∀ completedDrains finalizedRuns publishedModel rec',
      (commands.foldl Recordings.after (.start restored deferred model)).after
        (.catchUp completedDrains finalizedRuns publishedModel) = rec' →
      rec'.openDrains = [] → (∀ run, rec'.blocked run = false) →
      (((start restored deferred model).after commands).publishAccumulated completedDrains finalizedRuns
          publishedModel).publisher.activity =
        (((start restored deferred model).after commands).publishAccumulated completedDrains finalizedRuns
          publishedModel).activity) := by
  have h := (isolated_start restored deferred model).run commands
  have hf := (followed_start restored deferred model).run commands
  refine ⟨fun item hitem => ?_, ?_, fun command item hitem hnew => shown_mayShow h hf command hitem hnew, ?_⟩
  · rw [after, h.sent] at hitem
    exact h.released item hitem
  · rw [after, h.sent]
    exact h.publishedNormal
  · rintro completedDrains finalizedRuns publishedModel rec' rfl hopen hblocked
    have hf' := hf.catchUp completedDrains finalizedRuns publishedModel
    refine publishAccumulated_agrees h.normal ?_ ?_
    · refine List.eq_nil_iff_forall_not_mem.mpr fun drainId hkey => ?_
      obtain ⟨ids, hget⟩ := HashMap.mem_keys.mp hkey
      have hmem := hf'.filed drainId ids hget
      rw [hopen] at hmem
      cases hmem
    · refine List.eq_nil_iff_forall_not_mem.mpr fun run hmem => ?_
      exact Bool.eq_false_iff.mp (hblocked run) ((hf'.blocked run).mp hmem)

/-! ### One run with history -/

/-- A projection without history. -/
def blank : OperatorProjection := start ⟨[], ∅⟩ ∅ {}

/-- An event of a run. -/
def runEvent (name : String) (run : RunId) : PersistOp :=
  .recordEvent (.executionEnd { eventId := name, timestampMs := 1, receiptTimeMs := 1, source := "provider"
                                sourceEventType := "end", taskRunId := some run } "execution") 1

/-- A drain recorded an event and is completed; the run waits for another drain. -/
def waitingRun : List ProjectionCommand :=
  [.historical { value := "d" } [runEvent "old" ⟨1⟩], .catchUp [{ value := "d" }] [⟨⟨1⟩, { historyReady := false }⟩] {}]

/-- The names that are published. -/
def publishedNames (op : OperatorProjection) : List String := op.publisher.activity.map (·.eventId)

/-- Two drains record events while live ones come, and one of them leaves its run incomplete. -/
def twoDrains : List ProjectionCommand :=
  [.historical { value := "d" } [runEvent "first" ⟨1⟩], .live [runEvent "live" ⟨3⟩],
    .historical { value := "e" } [runEvent "second" ⟨2⟩], .completeHistorical .durable,
    .catchUp [{ value := "d" }] [⟨⟨1⟩, { historyReady := false }⟩] {},
    .historical { value := "d" } [runEvent "third" ⟨1⟩]]

/-- Both drains are open until they are completed together, with the run: then all that they recorded is shown,
as in the private copy. -/
theorem history_isolated_twoDrains :
    (blank.after twoDrains).publishedNames = ["live"] ∧
    ((blank.after twoDrains).publishAccumulated [{ value := "e" }, { value := "d" }]
        [⟨⟨1⟩, { historyReady := true }⟩] {}).publisher.activity =
      ((blank.after twoDrains).publishAccumulated [{ value := "e" }, { value := "d" }]
        [⟨⟨1⟩, { historyReady := true }⟩] {}).activity ∧
    ((blank.after twoDrains).publishAccumulated [{ value := "e" }, { value := "d" }]
      [⟨⟨1⟩, { historyReady := true }⟩] {}).publishedNames = ["third", "second", "live", "first"] := by
  refine ⟨by decide, ?_, by decide⟩
  refine (history_isolated ⟨[], ∅⟩ ∅ {} twoDrains).2.2.2 [{ value := "e" }, { value := "d" }]
    [⟨⟨1⟩, { historyReady := true }⟩] {} _ rfl (by decide) fun run => ?_
  by_cases hrun : (⟨1⟩ : RunId) = run
  · subst hrun
    decide
  · have hnone : (twoDrains.foldl Recordings.after (.start ⟨[], ∅⟩ ∅ {})).blocked run = false := by
      show ((List.find? _ [_]).map _).getD false = false
      rw [List.find?_cons_of_neg (by simpa using hrun)]
      rfl
    show ((List.find? _ [_]).map _).getD _ = false
    rw [List.find?_cons_of_neg (by simpa using hrun)]
    exact hnone

/-- A live event of a blocked run is shown at once, and so is what a drain recorded of a blocked run once
another run absorbed it and any drain is completed. -/
theorem blocked_runs_are_shown :
    (blank.after waitingRun).blockedHistoryRuns = [⟨1⟩] ∧ (blank.after waitingRun).publishedNames = [] ∧
    ((blank.after waitingRun).perform (.live [runEvent "new" ⟨1⟩])).publishedNames = ["new"] ∧
    ((blank.after waitingRun).perform (.live [.mergeTaskRuns ⟨2⟩ ⟨1⟩])).publishedNames = [] ∧
    (((blank.after waitingRun).perform (.live [.mergeTaskRuns ⟨2⟩ ⟨1⟩])).perform
      (.catchUp [{ value := "e" }] [] {})).publishedNames = ["old"] ∧
    (((blank.after waitingRun).perform (.live [.mergeTaskRuns ⟨2⟩ ⟨1⟩])).perform
      (.catchUp [{ value := "e" }] [] {})).blockedHistoryRuns = [⟨1⟩] := by
  decide

end OperatorProjection

end HerdrTop
