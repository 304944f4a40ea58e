import HerdrTop.Store.Recognition
import HerdrTop.Store.Restorable

/-!
# Applying a batch again

After a commit whose outcome is unknown the batch is applied again. An operation that advances the ingest
sequence, merges or promotes is accepted once: it leaves the database such that it is refused from then
on. The replay check skips a batch only where such an operation of it would be refused.

## What is proved

- `commitV6Batch_spends`: what a batch that is stored spends was there before and is spent afterwards.
- `replay_law`: a batch with such an operation is never applied twice, and a batch that begins with an
  ingest sequence is skipped exactly when the events of the sequence are its own; whatever the batch,
  nothing is recorded twice; in every database a batch is skipped exactly when what it asks for is there,
  and never one that the store would accept.
-/

namespace HerdrTop

namespace Database

variable {db db' : Database}

/-! ### What is accepted once -/

/-- Whether an operation is accepted at most once. -/
def isGuarded : PersistOp → Bool
  | .advanceIngestSequence _ | .mergeTaskRuns _ _ | .promoteTaskRunKey _ _ _ => true
  | _ => false

/-- Whether an operation that is accepted at most once is refused from now on. -/
def Spent (db : Database) : PersistOp → Prop
  | .advanceIngestSequence ingestSeq => ingestSeq ≤ db.ingestSeqHighWater
  | .mergeTaskRuns survivor absorbed => survivor = absorbed ∨ db.IsAlias survivor ∨ db.IsAlias absorbed
  | .promoteTaskRunKey _ _ aliasRunId => db.target aliasRunId ≠ none
  | _ => False

/-- What only grows: the sequence, the aliases and the runs that are known. -/
structure Later (db db' : Database) : Prop where
  sequence : db.ingestSeqHighWater ≤ db'.ingestSeqHighWater
  aliases : ∀ r, db.IsAlias r → db'.IsAlias r
  known : ∀ r, db.target r ≠ none → db'.target r ≠ none

theorem Later.refl (db : Database) : Later db db := ⟨le_rfl, fun _ h => h, fun _ h => h⟩

theorem Later.trans {db'' : Database} (h : Later db db') (h' : Later db' db'') : Later db db'' :=
  ⟨h.sequence.trans h'.sequence, fun r hr => h'.aliases r (h.aliases r hr), fun r hr => h'.known r (h.known r hr)⟩

/-- What is spent stays spent. -/
theorem Later.spent (h : Later db db') {op : PersistOp} (hop : Spent db op) : Spent db' op := by
  cases op with
  | advanceIngestSequence ingestSeq => exact le_trans hop h.sequence
  | mergeTaskRuns survivor absorbed => exact hop.imp_right (Or.imp (h.aliases _) (h.aliases _))
  | promoteTaskRunKey promoted oldKey aliasRunId => exact h.known _ hop
  | _ => exact hop

/-- An alias stays one. -/
theorem TargetStep.alias {f : RunId → RunId} (h : TargetStep db db' f) {r : RunId} (hr : db.IsAlias r) :
    db'.IsAlias r := by
  obtain ⟨t, ht⟩ := hr
  cases h with
  | same _ targets => exact ⟨t, by rwa [targets]⟩
  | stored runId _ notAlias targets =>
    refine ⟨t, ?_⟩
    rw [targets, if_neg]
    · exact ht
    · rintro rfl
      exact notAlias t ht
  | aliased runId aliasRunId _ _ fresh targets =>
    refine ⟨t, ?_⟩
    rw [targets, if_neg]
    · exact ht
    · rintro rfl
      rw [fresh] at ht
      cases ht
  | merged survivor absorbed _ _ _ _ _ _ targets =>
    rw [IsAlias, targets]
    split_ifs
    · exact ⟨survivor, rfl⟩
    · exact ⟨survivor, rfl⟩
    · exact ⟨t, ht⟩

theorem TargetStep.later {f : RunId → RunId} (h : TargetStep db db' f)
    (hsequence : db'.ingestSeqHighWater = db.ingestSeqHighWater) : Later db db' :=
  ⟨hsequence.ge, fun _ hr => h.alias hr, fun _ hr => h.known hr⟩

/-- Where runs point as before, and the sequence did not move. -/
theorem later_of_targets (htargets : ∀ r, db'.target r = db.target r)
    (hsequence : db'.ingestSeqHighWater = db.ingestSeqHighWater) : Later db db' :=
  ⟨hsequence.ge, fun r ⟨t, ht⟩ => ⟨t, by rwa [htargets]⟩, fun r hr => by rwa [htargets]⟩

theorem applyOperation_sequence {drainId : Option HistoryDrainId} {op : PersistOp}
    (h : applyOperation drainId db op = .ok db') (hop : ∀ s, op ≠ .advanceIngestSequence s) :
    db'.ingestSeqHighWater = db.ingestSeqHighWater := by
  cases op with
  | upsertWorkspace workspace ordinal =>
    obtain ⟨_, -, rfl⟩ := upsertWorkspace_ok h
    rfl
  | upsertTab tab ordinal =>
    obtain ⟨_, _, -, rfl⟩ := upsertTab_ok h
    rfl
  | upsertPane pane ordinal =>
    obtain ⟨_, _, -, rfl⟩ := upsertPane_ok h
    rfl
  | deleteWorkspace | deleteTab | clearTabLabel | clearPaneDisplayName | deletePane =>
    cases h
    rfl
  | upsertTaskRun run =>
    obtain ⟨-, -, -, _, _, -, rfl⟩ := upsertTaskRun_ok h
    rfl
  | promoteTaskRunKey promoted oldKey aliasRunId =>
    obtain ⟨_, ⟨-, -, -, _, _, -, rfl⟩, -, -, rfl⟩ := (promoteTaskRunKey_ok h).stored
    rfl
  | mergeTaskRuns survivor absorbed =>
    obtain ⟨_, _, hmerged⟩ := mergeTaskRuns_ok h
    exact hmerged.ingestSeqHighWater
  | upsertExecution execution =>
    obtain ⟨-, _, -, rfl⟩ := upsertExecution_ok h
    rfl
  | upsertAgentNode node =>
    obtain ⟨_, _, _, -, -, -, rfl⟩ := upsertAgentNode_ok h
    rfl
  | upsertExecutionEdge edge createdAtMs => rw [upsertExecutionEdge_ok h]
  | upsertDependencyEdge edge createdAtMs => rw [upsertDependencyEdge_ok h]
  | recordEvent event seenAtMs =>
    obtain ⟨-, rfl⟩ | ⟨-, -, _, -, rfl⟩ := recordEvent_ok h <;> rfl
  | recordCollectorGap gap =>
    obtain ⟨-, rfl⟩ | ⟨-, _, -, -, -, -, -, -, -, rfl⟩ := recordGap_ok h <;> rfl
  | advanceIngestSequence ingestSeq => exact absurd rfl (hop ingestSeq)

theorem applyOperation_later {drainId : Option HistoryDrainId} {op : PersistOp}
    (h : applyOperation drainId db op = .ok db') : Later db db' := by
  have hruns := applyOperation_runs h
  by_cases hop : ∃ s, op = .advanceIngestSequence s
  · obtain ⟨s, rfl⟩ := hop
    obtain ⟨hlt, rfl⟩ := advanceIngestSequence_ok h
    exact ⟨hlt.le, fun _ hr => hr, fun _ hr => hr⟩
  · have hsequence := applyOperation_sequence h fun s hs => hop ⟨s, hs⟩
    cases hruns with
    | same hsame => exact (sameRuns_targetStep hsame).later hsequence
    | stored hstored => exact hstored.targetStep.later hsequence
    | promoted hpromoted =>
      obtain ⟨next, hstored, haliased⟩ := hpromoted.targetSteps
      exact ⟨hsequence.ge, fun _ hr => haliased.alias (hstored.alias hr),
        fun _ hr => haliased.known (hstored.known hr)⟩
    | merged hmerged => exact hmerged.targetStep.later hsequence

/-- An operation that is accepted at most once was not spent, and is. -/
theorem applyOperation_spends {drainId : Option HistoryDrainId} {op : PersistOp}
    (h : applyOperation drainId db op = .ok db') (hop : isGuarded op = true) :
    ¬ Spent db op ∧ Spent db' op := by
  cases op with
  | advanceIngestSequence ingestSeq =>
    obtain ⟨hlt, rfl⟩ := advanceIngestSequence_ok h
    exact ⟨not_le.mpr hlt, le_rfl⟩
  | mergeTaskRuns survivor absorbed =>
    obtain ⟨_, absorbedRow, hmerged⟩ := mergeTaskRuns_ok h
    refine ⟨?_, .inr (.inr ⟨survivor, by rw [hmerged.target, if_pos rfl]⟩)⟩
    rintro (heq | ⟨t, ht⟩ | ⟨t, ht⟩)
    · exact hmerged.distinct heq
    · rw [hmerged.survivorTarget] at ht
      cases ht
    · rw [target, hmerged.absorbedGet, Option.map_some, hmerged.absorbedCanonical] at ht
      cases ht
  | promoteTaskRunKey promoted oldKey aliasRunId =>
    obtain ⟨next, hstored, hfresh, -, rfl⟩ := (promoteTaskRunKey_ok h).stored
    refine ⟨fun hknown => hstored.targetStep.known hknown ?_, ?_⟩
    · rw [target, hfresh]
      rfl
    · rw [Spent, target, HashMap.get_insert_self]
      simp
  | _ => cases hop

/-- What a sequence of operations spends. -/
theorem operations_spend {drainId : Option HistoryDrainId} {operations : PersistBatch}
    (h : operations.foldlM (applyOperation drainId) db = .ok db') :
    Later db db' ∧ ∀ op ∈ operations, isGuarded op = true → ¬ Spent db op ∧ Spent db' op := by
  induction operations generalizing db with
  | nil =>
    rw [← foldlM_nil_ok.mp h]
    exact ⟨.refl db, fun _ hop => by cases hop⟩
  | cons first operations ih =>
    obtain ⟨next, hfirst, hrest⟩ := foldlM_cons_ok.mp h
    obtain ⟨hlater, hspends⟩ := ih hrest
    have hnext := applyOperation_later hfirst
    refine ⟨hnext.trans hlater, fun op hop hguarded => ?_⟩
    rcases List.mem_cons.mp hop with rfl | hop
    · obtain ⟨hbefore, hafter⟩ := applyOperation_spends hfirst hguarded
      exact ⟨hbefore, hlater.spent hafter⟩
    · obtain ⟨hbefore, hafter⟩ := hspends op hop hguarded
      exact ⟨fun hspent => hbefore (hnext.spent hspent), hafter⟩

/-- What a batch that is stored comes to around its operations. -/
theorem commitV6Batch_around {batch : PersistV6Batch} (h : db.commitV6Batch batch = .ok db') :
    ∃ before after, Later db before ∧
      batch.operations.foldlM (applyOperation batch.historyEventDrain) before = .ok after ∧
      Later after db' := by
  obtain ⟨seeded, hseed, h⟩ := bind_eq_ok.mp h
  obtain ⟨drained, hdrains, h⟩ := bind_eq_ok.mp h
  obtain ⟨_, -, h⟩ := bind_eq_ok.mp h
  obtain ⟨published, hpublications, h⟩ := bind_eq_ok.mp h
  obtain ⟨operated, hoperations, h⟩ := bind_eq_ok.mp h
  obtain ⟨stored, hruns, h⟩ := bind_eq_ok.mp h
  obtain ⟨totalled, htotals, h⟩ := bind_eq_ok.mp h
  obtain ⟨associated, hassociations, h⟩ := bind_eq_ok.mp h
  cases h
  have hrun : ∀ {s t : Database} {run : PersistTaskRunV6}, s.upsertTaskRunV6 run = .ok t → Later s t := by
    intro s t run hstep
    have hstored := upsertTaskRunV6_ok hstep
    refine hstored.targetStep.later ?_
    obtain ⟨-, -, -, _, _, _, -, -, rfl⟩ := hstored
    rfl
  refine ⟨published, operated, ?_, hoperations, ?_⟩
  · have h₁ : Later db seeded := foldlM_relates (fun s => Later.refl s) Later.trans (fun run _ s t hstep => by
      unfold seedTaskRun at hstep
      split_ifs at hstep
      · cases hstep
        exact .refl s
      · exact hrun hstep) hseed
    have h₂ : Later seeded drained := foldlM_relates (fun s => Later.refl s) Later.trans (fun _ _ s t hstep => by
      refine later_of_targets (upsertHistoryDrain_target hstep) ?_
      obtain ⟨_, -, ⟨rfl, -⟩ | ⟨-, rfl⟩⟩ := upsertHistoryDrain_ok hstep <;> rfl) hdrains
    have h₃ : Later drained published := foldlM_relates (fun s => Later.refl s) Later.trans (fun _ _ s t hstep => by
      rw [insertPublication_ok hstep]
      exact later_of_targets (fun _ => rfl) rfl) hpublications
    exact (h₁.trans h₂).trans h₃
  · have h₄ : Later operated stored := foldlM_relates (fun s => Later.refl s) Later.trans
      (fun _ _ _ _ hstep => hrun hstep) hruns
    have h₅ : Later (stored.releasePublications (liveReadyRuns batch)) totalled :=
      foldlM_relates (fun s => Later.refl s) Later.trans (fun _ _ s t hstep => by
        obtain ⟨-, rfl⟩ := upsertRunRateTotals_ok hstep
        exact later_of_targets (fun _ => rfl) rfl) htotals
    have h₆ : Later totalled associated := foldlM_relates (fun s => Later.refl s) Later.trans
      (fun _ _ s t hstep => by
        refine later_of_targets (insertAssociation_target hstep) ?_
        obtain ⟨-, rfl⟩ | ⟨-, -, -, rfl⟩ := insertAssociation_ok hstep <;> rfl) hassociations
    have h₇ : Later associated (associated.hideBlockedRuns batch.historyEventDrain.isSome) :=
      later_of_targets (hideBlockedRuns_target _) rfl
    have hrelease : Later stored (stored.releasePublications (liveReadyRuns batch)) :=
      later_of_targets (fun _ => rfl) rfl
    exact (h₄.trans hrelease).trans ((h₅.trans h₆).trans h₇)

/-- What a batch that is stored spends was not spent before, and is afterwards. -/
theorem commitV6Batch_spends {batch : PersistV6Batch} (h : db.commitV6Batch batch = .ok db')
    {op : PersistOp} (hop : op ∈ batch.operations) (hguarded : isGuarded op = true) :
    ¬ Spent db op ∧ Spent db' op := by
  obtain ⟨before, after, hbefore, hoperations, hafter⟩ := commitV6Batch_around h
  obtain ⟨hfresh, hspent⟩ := (operations_spend hoperations).2 op hop hguarded
  exact ⟨fun hspent => hfresh (hbefore.spent hspent), hafter.spent hspent⟩

/-! ### What is skipped -/

/-- A run that is read with a target is an alias. -/
theorem isAlias_of_durable {r t : RunId} {durable : Option (RunKey × Option RunId)}
    (h : db.durableRunKeyAndTarget r = .ok durable) (ht : durable.map (·.2) = some (some t)) : db.IsAlias r := by
  unfold durableRunKeyAndTarget at h
  cases hget : db.taskRuns.get r with
  | none =>
    rw [hget] at h
    cases h
    cases ht
  | some row =>
    rw [hget] at h
    obtain ⟨key, -, h⟩ := bind_eq_ok.mp h
    cases h
    exact ⟨t, (target_of_get hget).trans ht⟩

/-- A merge that passes the scan is one whose parties are not canonical any more. -/
theorem scanOperation_merge {batch : PersistV6Batch} {scan next : ReplayScan} {survivor absorbed : RunId}
    (h : db.scanOperation batch scan (.mergeTaskRuns survivor absorbed) = .ok (some next)) :
    Spent db (.mergeTaskRuns survivor absorbed) := by
  unfold scanOperation at h
  dsimp only at h
  split_ifs at h with hout hsurvivor hfinal hfinal
  · cases h
  -- in the first three cases one of the parties is expected to be an alias
  case pos | neg | pos =>
    obtain ⟨durableSurvivor, hs, h⟩ := bind_eq_ok.mp h
    obtain ⟨durableAbsorbed, ha, h⟩ := bind_eq_ok.mp h
    split_ifs at h with hboth
    · rw [Bool.and_eq_true, decide_eq_true_eq, decide_eq_true_eq] at hboth
      first
        | exact .inr (.inr (isAlias_of_durable ha hboth.2))
        | exact .inr (.inl (isAlias_of_durable hs hboth.1))
    · cases h
  · rw [not_not] at hsurvivor hfinal
    exact .inl (hsurvivor.trans hfinal.symm)

/-- A batch whose scan found a merge or a promotion has one that is spent. -/
theorem scanOperations_spent {batch : PersistV6Batch} {operations : PersistBatch} {scan final : ReplayScan}
    (h : db.scanOperations batch scan operations = .ok (some final))
    (hidentity : final.hasIdentityOperation = true) :
    scan.hasIdentityOperation = true ∨ ∃ op ∈ operations, isGuarded op = true ∧ Spent db op := by
  induction operations generalizing scan with
  | nil =>
    cases h
    exact .inl hidentity
  | cons op operations ih =>
    obtain ⟨found, hfound, h⟩ := bind_eq_ok.mp h
    cases found with
    | none => cases h
    | some next =>
      rcases ih h with hnext | ⟨later, hmem, hlater⟩
      · cases op with
        | mergeTaskRuns survivor absorbed =>
          refine .inr ⟨_, List.mem_cons_self, rfl, ?_⟩
          exact scanOperation_merge hfound
        | promoteTaskRunKey promoted oldKey aliasRunId =>
          refine .inr ⟨_, List.mem_cons_self, rfl, ?_⟩
          unfold scanOperation at hfound
          dsimp only at hfound
          split_ifs at hfound with hout
          · obtain ⟨canonical, hc, hfound⟩ := bind_eq_ok.mp hfound
            obtain ⟨aliased, ha, hfound⟩ := bind_eq_ok.mp hfound
            split_ifs at hfound with hboth
            · rw [Bool.and_eq_true, decide_eq_true_eq, decide_eq_true_eq] at hboth
              obtain ⟨t, ht⟩ := isAlias_of_durable ha (by rw [hboth.2]; rfl)
              rw [Spent, ht]
              simp
            · cases hfound
          · cases hfound
        | recordEvent event seenAtMs =>
          unfold scanOperation at hfound
          dsimp only at hfound
          split_ifs at hfound
          · cases hfound
          · obtain ⟨row, -, hfound⟩ := bind_eq_ok.mp hfound
            cases hfound
            exact .inl hnext
        | upsertAgentNode node =>
          cases hfound
          exact .inl hnext
        | upsertTaskRun run =>
          unfold scanOperation at hfound
          dsimp only at hfound
          split_ifs at hfound
          · cases hfound
            exact .inl hnext
          · cases hfound
        | _ => cases hfound
      · exact .inr ⟨later, List.mem_cons_of_mem _ hmem, hlater⟩

/-- A batch that is skipped has an operation that would be refused. -/
theorem recognized_spent {batch : PersistV6Batch} (h : db.exactV6ReplayIsAlreadyDurable batch = .ok true) :
    ∃ op ∈ batch.operations, isGuarded op = true ∧ Spent db op := by
  unfold exactV6ReplayIsAlreadyDurable at h
  split at h
  · rename_i ingestSeq operations heq
    have hseq := Except.ok.inj h
    simp only [Bool.and_eq_true, decide_eq_true_eq] at hseq
    refine ⟨.advanceIngestSequence ingestSeq, by rw [heq]; exact List.mem_cons_self, rfl, ?_⟩
    exact hseq.1.1.1.1.1.2
  · unfold exactNonIngestIdentityReplayIsAlreadyDurable at h
    split at h
    · cases h
    split at h
    · cases h
    obtain ⟨found, hfound, h⟩ := bind_eq_ok.mp h
    cases found with
    | none => cases h
    | some scan =>
      dsimp only at h
      split at h
      · cases h
      · rename_i hidentity
        rw [Bool.not_eq_true, Bool.not_eq_false'] at hidentity
        exact (scanOperations_spent hfound hidentity).resolve_left (by simp)

/-- A batch that the store would accept is not skipped. -/
theorem not_skipped {batch : PersistV6Batch} (h : db.commitV6Batch batch = .ok db') :
    db.exactV6ReplayIsAlreadyDurable batch ≠ .ok true := by
  intro hskipped
  obtain ⟨op, hop, hguarded, hspent⟩ := recognized_spent hskipped
  exact (commitV6Batch_spends h hop hguarded).1 hspent

/-! ### What is recorded -/

/-- The name that an operation records and its ingest sequence; a gap has none. -/
def opKey : PersistOp → Option (String × Option ℤ)
  | .recordCollectorGap gap => some (gap.eventId, none)
  | op => recordedEvent op

/-- What operations record, where some names are known. -/
def newKeys (known : String → Bool) : PersistBatch → List (String × Option ℤ)
  | [] => []
  | op :: operations =>
    match opKey op with
    | none => newKeys known operations
    | some key =>
      if known key.1 then newKeys known operations
      else key :: newKeys (fun name => known name || decide (name = key.1)) operations

/-- What one operation does to the rows of events and to the ledger. -/
structure Logged (db db' : Database) (op : PersistOp) : Prop where
  keys : db'.eventKeys = db.eventKeys ++ newKeys db.eventLedger.contains [op]
  ledger : ∀ name, db'.eventLedger.contains name =
    (db.eventLedger.contains name || (opKey op).any fun key => decide (name = key.1))

/-- An operation that records nothing. -/
theorem Logged.quiet {op : PersistOp} (hop : opKey op = none) (hevents : db'.eventKeys = db.eventKeys)
    (hledger : db'.eventLedger = db.eventLedger) : Logged db db' op := by
  refine ⟨?_, fun name => ?_⟩
  · rw [hevents, newKeys, hop]
    simp [newKeys]
  · rw [hledger, hop, Option.any_none, Bool.or_false]

/-- An operation whose name is known records nothing. -/
theorem Logged.known {op : PersistOp} {key : String × Option ℤ} (hop : opKey op = some key)
    (hknown : db.eventLedger.contains key.1 = true) : Logged db db op := by
  refine ⟨?_, fun name => ?_⟩
  · rw [newKeys, hop]
    simp [hknown, newKeys]
  · rw [hop, Option.any_some]
    by_cases hname : name = key.1
    · simp [hname, hknown]
    · simp [hname]

/-- An operation whose name is new records it. -/
theorem Logged.new {op : PersistOp} {key : String × Option ℤ} {row : EventRow} {atMs : ℤ}
    (hop : opKey op = some key) (hnew : db.eventLedger.contains key.1 = false)
    (hrow : (row.eventId, row.ingestSeq) = key) :
    Logged db { db with eventLedger := db.eventLedger.insert key.1 atMs, events := db.events ++ [row] } op := by
  refine ⟨?_, fun name => ?_⟩
  · rw [newKeys, hop]
    simp [hnew, newKeys, eventKeys, hrow]
  · rw [hop, Option.any_some, Bool.eq_iff_iff, HashMap.contains_insert]
    simp [or_comm]

theorem relationalEventProjection_key {event : NormalizedEvent} {seenAtMs : ℤ} {drainId : Option HistoryDrainId}
    {runId : Option RunId} {row : EventRow}
    (h : relationalEventProjection event seenAtMs drainId runId = .ok row) :
    opKey (.recordEvent event seenAtMs) = some (row.eventId, row.ingestSeq) := by
  obtain ⟨itemCount, -, h⟩ := bind_eq_ok.mp h
  obtain ⟨byteCount, -, h⟩ := bind_eq_ok.mp h
  obtain ⟨ingestSeq, hseq, h⟩ := bind_eq_ok.mp h
  cases h
  change (eventMetadata event).1.ingestSeq.mapM (signedCount "event.ingest_seq") = .ok ingestSeq at hseq
  show some ((eventMetadata event).1.eventId, (eventMetadata event).1.ingestSeq.bind fun value =>
    if (value : ℤ) ≤ i64Max then some (value : ℤ) else none) = some ((eventMetadata event).1.eventId, ingestSeq)
  cases hmeta : (eventMetadata event).1.ingestSeq with
  | none =>
    rw [hmeta] at hseq
    cases hseq
    rfl
  | some value =>
    rw [hmeta] at hseq
    obtain ⟨count, hcount, heq⟩ := bind_eq_ok.mp hseq
    cases heq
    unfold signedCount at hcount
    split_ifs at hcount with hle
    cases hcount
    rw [Option.bind_some, if_pos hle]

theorem applyOperation_logged {drainId : Option HistoryDrainId} {op : PersistOp}
    (h : applyOperation drainId db op = .ok db') : Logged db db' op := by
  cases op with
  | upsertWorkspace workspace ordinal =>
    obtain ⟨_, -, rfl⟩ := upsertWorkspace_ok h
    exact .quiet rfl rfl rfl
  | upsertTab tab ordinal =>
    obtain ⟨_, _, -, rfl⟩ := upsertTab_ok h
    exact .quiet rfl rfl rfl
  | upsertPane pane ordinal =>
    obtain ⟨_, _, -, rfl⟩ := upsertPane_ok h
    exact .quiet rfl rfl rfl
  | deleteWorkspace | deleteTab | clearTabLabel | clearPaneDisplayName | deletePane =>
    cases h
    exact .quiet rfl rfl rfl
  | upsertTaskRun run =>
    obtain ⟨-, -, -, _, _, -, rfl⟩ := upsertTaskRun_ok h
    exact .quiet rfl rfl rfl
  | promoteTaskRunKey promoted oldKey aliasRunId =>
    obtain ⟨_, ⟨-, -, -, _, _, -, rfl⟩, -, -, rfl⟩ := (promoteTaskRunKey_ok h).stored
    exact .quiet rfl rfl rfl
  | mergeTaskRuns survivor absorbed =>
    obtain ⟨_, _, hmerged⟩ := mergeTaskRuns_ok h
    refine .quiet rfl ?_ hmerged.eventLedger
    rw [eventKeys, hmerged.events, List.map_map]
    rfl
  | upsertExecution execution =>
    obtain ⟨-, _, -, rfl⟩ := upsertExecution_ok h
    exact .quiet rfl rfl rfl
  | upsertAgentNode node =>
    obtain ⟨_, _, _, -, -, -, rfl⟩ := upsertAgentNode_ok h
    exact .quiet rfl rfl rfl
  | upsertExecutionEdge edge createdAtMs =>
    rw [upsertExecutionEdge_ok h]
    exact .quiet rfl rfl rfl
  | upsertDependencyEdge edge createdAtMs =>
    rw [upsertDependencyEdge_ok h]
    exact .quiet rfl rfl rfl
  | recordEvent event seenAtMs =>
    obtain ⟨hknown, rfl⟩ | ⟨hnew, -, row, hrow, rfl⟩ := recordEvent_ok h
    · exact .known rfl hknown
    · exact .new rfl hnew (Option.some.inj (relationalEventProjection_key hrow)).symm
  | recordCollectorGap gap =>
    obtain ⟨hknown, rfl⟩ | ⟨hnew, row, hid, -, -, -, hseq, -, -, rfl⟩ := recordGap_ok h
    · exact .known rfl hknown
    · have hop : opKey (.recordCollectorGap gap) = some (gap.eventId, none) := rfl
      exact .new hop hnew (by rw [hid, hseq])
  | advanceIngestSequence ingestSeq =>
    obtain ⟨-, rfl⟩ := advanceIngestSequence_ok h
    exact .quiet rfl rfl rfl

theorem newKeys_cons {known known' : String → Bool} {op : PersistOp} {operations : PersistBatch}
    (h : ∀ name, known' name = (known name || (opKey op).any fun key => decide (name = key.1))) :
    newKeys known (op :: operations) = newKeys known [op] ++ newKeys known' operations := by
  have hknown : known' = fun name => known name || (opKey op).any fun key => decide (name = key.1) := funext h
  subst hknown
  cases hop : opKey op with
  | none => simp [newKeys, hop]
  | some key =>
    by_cases hkey : known key.1 = true
    · have hsame : (fun name => known name || decide (name = key.1)) = known := by
        funext name
        by_cases hname : name = key.1
        · simp [hname, hkey]
        · simp [hname]
      simp [newKeys, hop, hkey, hsame]
    · simp [newKeys, hop, hkey]

/-- What is new is recorded by one of the operations. -/
theorem mem_newKeys {known : String → Bool} {operations : PersistBatch} {key : String × Option ℤ}
    (h : key ∈ newKeys known operations) : ∃ op ∈ operations, opKey op = some key := by
  induction operations generalizing known with
  | nil => cases h
  | cons op operations ih =>
    rw [newKeys] at h
    split at h
    · obtain ⟨later, hmem, hkey⟩ := ih h
      exact ⟨later, List.mem_cons_of_mem _ hmem, hkey⟩
    · rename_i found hfound
      split_ifs at h
      · obtain ⟨later, hmem, hkey⟩ := ih h
        exact ⟨later, List.mem_cons_of_mem _ hmem, hkey⟩
      · rcases List.mem_cons.mp h with rfl | h
        · exact ⟨op, List.mem_cons_self, hfound⟩
        · obtain ⟨later, hmem, hkey⟩ := ih h
          exact ⟨later, List.mem_cons_of_mem _ hmem, hkey⟩

/-- The rows of events after a sequence of operations. -/
theorem operations_logged {drainId : Option HistoryDrainId} {operations : PersistBatch}
    (h : operations.foldlM (applyOperation drainId) db = .ok db') :
    db'.eventKeys = db.eventKeys ++ newKeys db.eventLedger.contains operations ∧
      ∀ name, db'.eventLedger.contains name = true ↔
        db.eventLedger.contains name = true ∨ ∃ op ∈ operations, ∃ key, opKey op = some key ∧ key.1 = name := by
  induction operations generalizing db with
  | nil =>
    rw [← foldlM_nil_ok.mp h]
    exact ⟨by simp [newKeys], fun name => by simp⟩
  | cons op operations ih =>
    obtain ⟨next, hfirst, hrest⟩ := foldlM_cons_ok.mp h
    obtain ⟨hkeys, hledger⟩ := applyOperation_logged hfirst
    obtain ⟨hkeys', hledger'⟩ := ih hrest
    refine ⟨?_, fun name => ?_⟩
    · rw [hkeys', hkeys, List.append_assoc]
      exact congrArg _ (newKeys_cons hledger).symm
    · rw [hledger', hledger, Bool.or_eq_true, Option.any_eq_true]
      simp only [decide_eq_true_eq, List.exists_mem_cons_iff]
      constructor
      · rintro ((hold | ⟨key, hop, rfl⟩) | hlater)
        · exact .inl hold
        · exact .inr (.inl ⟨key, hop, rfl⟩)
        · exact .inr (.inr hlater)
      · rintro (hold | ⟨key, hop, rfl⟩ | hlater)
        · exact .inl (.inl hold)
        · exact .inl (.inr ⟨key, hop, rfl⟩)
        · exact .inr hlater

/-! ### What a batch that is applied again leaves -/

/-- The tables in which things are recorded: what is recorded again is not added. -/
structure SameRecords (db db' : Database) : Prop where
  events : db'.events = db.events
  eventLedger : db'.eventLedger = db.eventLedger
  sequence : db'.ingestSeqHighWater = db.ingestSeqHighWater
  historyDrains : db'.historyDrains = db.historyDrains
  artifacts : db'.historyDrainArtifacts = db.historyDrainArtifacts
  associations : db'.historyDrainRuns = db.historyDrainRuns

theorem SameRecords.refl (db : Database) : SameRecords db db := ⟨rfl, rfl, rfl, rfl, rfl, rfl⟩

theorem SameRecords.trans {db'' : Database} (h : SameRecords db db') (h' : SameRecords db' db'') :
    SameRecords db db'' :=
  ⟨h'.events.trans h.events, h'.eventLedger.trans h.eventLedger, h'.sequence.trans h.sequence,
    h'.historyDrains.trans h.historyDrains, h'.artifacts.trans h.artifacts, h'.associations.trans h.associations⟩

/-- What a batch records is there: its names, its drains and its associations. -/
structure Recorded (db : Database) (batch : PersistV6Batch) : Prop where
  names : ∀ op ∈ batch.operations, ∀ key, opKey op = some key → db.eventLedger.contains key.1 = true
  drains : ∀ drain ∈ batch.historyDrains, db.historyDrains.get drain.drainId ≠ none
  associations : ∀ association ∈ batch.historyAssociations,
    db.associated association.drainId association.runId = true

theorem Recorded.of_same {batch : PersistV6Batch} (hr : Recorded db batch) (h : SameRecords db db') :
    Recorded db' batch where
  names op hop key hkey := by
    rw [h.eventLedger]
    exact hr.names op hop key hkey
  drains drain hdrain := by
    rw [h.historyDrains]
    exact hr.drains drain hdrain
  associations association hassociation := by
    rw [associated_congr h.associations]
    exact hr.associations association hassociation

theorem upsertTaskRunV6_records {run : PersistTaskRunV6} (h : db.upsertTaskRunV6 run = .ok db') :
    SameRecords db db' := by
  obtain ⟨-, -, -, _, _, _, -, -, rfl⟩ := upsertTaskRunV6_ok h
  exact ⟨rfl, rfl, rfl, rfl, rfl, rfl⟩

theorem seedTaskRun_records {operations : PersistBatch} {run : PersistTaskRunV6}
    (h : seedTaskRun operations db run = .ok db') : SameRecords db db' := by
  unfold seedTaskRun at h
  split_ifs at h
  · cases h
    exact .refl db
  · exact upsertTaskRunV6_records h

/-- An operation that is accepted more than once and whose name is known records nothing. -/
theorem applyOperation_records {drainId : Option HistoryDrainId} {op : PersistOp}
    (h : applyOperation drainId db op = .ok db') (hop : isGuarded op = false)
    (hname : ∀ key, opKey op = some key → db.eventLedger.contains key.1 = true) : SameRecords db db' := by
  cases op with
  | upsertWorkspace workspace ordinal =>
    obtain ⟨_, -, rfl⟩ := upsertWorkspace_ok h
    exact ⟨rfl, rfl, rfl, rfl, rfl, rfl⟩
  | upsertTab tab ordinal =>
    obtain ⟨_, _, -, rfl⟩ := upsertTab_ok h
    exact ⟨rfl, rfl, rfl, rfl, rfl, rfl⟩
  | upsertPane pane ordinal =>
    obtain ⟨_, _, -, rfl⟩ := upsertPane_ok h
    exact ⟨rfl, rfl, rfl, rfl, rfl, rfl⟩
  | deleteWorkspace | deleteTab | clearTabLabel | clearPaneDisplayName | deletePane =>
    cases h
    exact ⟨rfl, rfl, rfl, rfl, rfl, rfl⟩
  | upsertTaskRun run =>
    obtain ⟨-, -, -, _, _, -, rfl⟩ := upsertTaskRun_ok h
    exact ⟨rfl, rfl, rfl, rfl, rfl, rfl⟩
  | promoteTaskRunKey | mergeTaskRuns | advanceIngestSequence => cases hop
  | upsertExecution execution =>
    obtain ⟨-, _, -, rfl⟩ := upsertExecution_ok h
    exact ⟨rfl, rfl, rfl, rfl, rfl, rfl⟩
  | upsertAgentNode node =>
    obtain ⟨_, _, _, -, -, -, rfl⟩ := upsertAgentNode_ok h
    exact ⟨rfl, rfl, rfl, rfl, rfl, rfl⟩
  | upsertExecutionEdge edge createdAtMs =>
    rw [upsertExecutionEdge_ok h]
    exact ⟨rfl, rfl, rfl, rfl, rfl, rfl⟩
  | upsertDependencyEdge edge createdAtMs =>
    rw [upsertDependencyEdge_ok h]
    exact ⟨rfl, rfl, rfl, rfl, rfl, rfl⟩
  | recordEvent event seenAtMs =>
    obtain ⟨-, rfl⟩ | ⟨hnew, -, row, hrow, -⟩ := recordEvent_ok h
    · exact .refl _
    · have hknown := hname _ (relationalEventProjection_key hrow)
      have hid : row.eventId = (eventMetadata event).1.eventId := (Prod.mk.inj (Option.some.inj
        (relationalEventProjection_key hrow))).1.symm
      rw [hid, hnew] at hknown
      cases hknown
  | recordCollectorGap gap =>
    obtain ⟨-, rfl⟩ | ⟨hnew, -⟩ := recordGap_ok h
    · exact .refl _
    · have hknown := hname (gap.eventId, none) rfl
      rw [hnew] at hknown
      cases hknown

/-- A sequence of such operations records nothing. -/
theorem operations_records {drainId : Option HistoryDrainId} {operations : PersistBatch}
    (h : operations.foldlM (applyOperation drainId) db = .ok db')
    (hguarded : ∀ op ∈ operations, isGuarded op = false)
    (hnames : ∀ op ∈ operations, ∀ key, opKey op = some key → db.eventLedger.contains key.1 = true) :
    SameRecords db db' := by
  induction operations generalizing db with
  | nil =>
    rw [← foldlM_nil_ok.mp h]
    exact .refl db
  | cons op operations ih =>
    obtain ⟨next, hfirst, hrest⟩ := foldlM_cons_ok.mp h
    have hnext := applyOperation_records hfirst (hguarded op List.mem_cons_self) (hnames op List.mem_cons_self)
    refine hnext.trans (ih hrest (fun other hother => hguarded other (List.mem_cons_of_mem _ hother)) ?_)
    intro other hother key hkey
    rw [hnext.eventLedger]
    exact hnames other (List.mem_cons_of_mem _ hother) key hkey

theorem insertPublication_records {publication : HistoryRunPublication}
    (h : db.insertPublication publication = .ok db') : SameRecords db db' := by
  rw [insertPublication_ok h]
  exact ⟨rfl, rfl, rfl, rfl, rfl, rfl⟩

theorem upsertRunRateTotals_records {entry : RunId × RunRateTotals} (h : db.upsertRunRateTotals entry = .ok db') :
    SameRecords db db' := by
  obtain ⟨-, rfl⟩ := upsertRunRateTotals_ok h
  exact ⟨rfl, rfl, rfl, rfl, rfl, rfl⟩

/-- What was recorded stays. -/
structure Keeps (db db' : Database) : Prop where
  names : ∀ name, db.eventLedger.contains name = true → db'.eventLedger.contains name = true
  drains : ∀ d, db.historyDrains.get d ≠ none → db'.historyDrains.get d ≠ none

theorem SameRecords.keeps (h : SameRecords db db') : Keeps db db' :=
  ⟨fun _ hname => by rwa [h.eventLedger], fun _ hdrain => by rwa [h.historyDrains]⟩

theorem Keeps.trans {db'' : Database} (h : Keeps db db') (h' : Keeps db' db'') : Keeps db db'' :=
  ⟨fun name hname => h'.names name (h.names name hname), fun d hd => h'.drains d (h.drains d hd)⟩

theorem Keeps.refl (db : Database) : Keeps db db := ⟨fun _ h => h, fun _ h => h⟩

/-- Drains that are stored stay stored. -/
theorem upsertHistoryDrain_keeps {drain : PersistHistoryDrain} (h : db.upsertHistoryDrain drain = .ok db') :
    Keeps db db' ∧ db'.historyDrains.get drain.drainId ≠ none := by
  obtain ⟨incoming, -, ⟨rfl, ⟨row, hrow, -⟩, -⟩ | ⟨-, rfl⟩⟩ := upsertHistoryDrain_ok h
  · exact ⟨.refl _, by rw [hrow]; simp⟩
  · refine ⟨⟨fun _ hname => hname, fun d hd => ?_⟩, by simp⟩
    rw [HashMap.get_insert]
    split_ifs
    · simp
    · exact hd

theorem historyDrains_stored {drains : List PersistHistoryDrain}
    (h : drains.foldlM upsertHistoryDrain db = .ok db') :
    Keeps db db' ∧ ∀ drain ∈ drains, db'.historyDrains.get drain.drainId ≠ none := by
  induction drains generalizing db with
  | nil =>
    rw [← foldlM_nil_ok.mp h]
    exact ⟨.refl db, fun _ hmem => by cases hmem⟩
  | cons drain drains ih =>
    obtain ⟨next, hfirst, hrest⟩ := foldlM_cons_ok.mp h
    obtain ⟨hkeeps, hstored⟩ := upsertHistoryDrain_keeps hfirst
    obtain ⟨hkeeps', hstored'⟩ := ih hrest
    refine ⟨hkeeps.trans hkeeps', fun other hother => ?_⟩
    rcases List.mem_cons.mp hother with rfl | hother
    · exact hkeeps'.drains _ hstored
    · exact hstored' other hother

theorem associations_stored {historical : Bool} {associations : List PersistHistoryDrainRun}
    (h : associations.foldlM (insertAssociation historical) db = .ok db') :
    Keeps db db' ∧ (∀ d r, db.associated d r = true → db'.associated d r = true) ∧
      ∀ association ∈ associations, db'.associated association.drainId association.runId = true := by
  induction associations generalizing db with
  | nil =>
    rw [← foldlM_nil_ok.mp h]
    exact ⟨.refl db, fun _ _ hold => hold, fun _ hmem => by cases hmem⟩
  | cons association associations ih =>
    obtain ⟨next, hfirst, hrest⟩ := foldlM_cons_ok.mp h
    have hassoc := insertAssociation_associated hfirst
    have hnext : Keeps db next := by
      obtain ⟨-, rfl⟩ | ⟨-, -, -, rfl⟩ := insertAssociation_ok hfirst <;> exact ⟨fun _ h => h, fun _ h => h⟩
    obtain ⟨hkeeps, hkept, hall⟩ := ih hrest
    refine ⟨hnext.trans hkeeps, fun d r hold => hkept d r ((hassoc d r).mpr (.inr hold)), fun other hother => ?_⟩
    rcases List.mem_cons.mp hother with rfl | hother
    · exact hkept _ _ ((hassoc _ _).mpr (.inl ⟨rfl, rfl⟩))
    · exact hall other hother

/-- The log: the rows of events and the ledger. -/
def log (db : Database) : List EventRow × HashMap String ℤ := (db.events, db.eventLedger)

theorem SameRecords.log (h : SameRecords db db') : db'.log = db.log := Prod.ext h.events h.eventLedger

theorem foldlM_log {ι : Type} {f : Database → ι → StoreResult Database} {l : List ι}
    (step : ∀ a ∈ l, ∀ {s t}, f s a = .ok t → t.log = s.log) (h : l.foldlM f db = .ok db') :
    db'.log = db.log :=
  foldlM_relates (R := fun s t : Database => t.log = s.log) (fun _ => rfl) (fun h h' => h'.trans h) step h

/-- Only the operations of a batch write the log. -/
theorem commitV6Batch_log {batch : PersistV6Batch} (h : db.commitV6Batch batch = .ok db') :
    ∃ before after : Database, batch.operations.foldlM (applyOperation batch.historyEventDrain) before = .ok after ∧
      before.log = db.log ∧ db'.log = after.log := by
  obtain ⟨seeded, hseed, h⟩ := bind_eq_ok.mp h
  obtain ⟨drained, hdrains, h⟩ := bind_eq_ok.mp h
  obtain ⟨_, -, h⟩ := bind_eq_ok.mp h
  obtain ⟨published, hpublications, h⟩ := bind_eq_ok.mp h
  obtain ⟨operated, hoperations, h⟩ := bind_eq_ok.mp h
  obtain ⟨stored, hruns, h⟩ := bind_eq_ok.mp h
  obtain ⟨totalled, htotals, h⟩ := bind_eq_ok.mp h
  obtain ⟨associated, hassociations, h⟩ := bind_eq_ok.mp h
  cases h
  have hseeded : seeded.log = db.log := foldlM_log (fun _ _ _ _ hstep => (seedTaskRun_records hstep).log) hseed
  have hdrained : drained.log = seeded.log := foldlM_log (fun _ _ _ _ hstep => by
    obtain ⟨_, -, ⟨rfl, -⟩ | ⟨-, rfl⟩⟩ := upsertHistoryDrain_ok hstep <;> rfl) hdrains
  have hpublished : published.log = drained.log :=
    foldlM_log (fun _ _ _ _ hstep => (insertPublication_records hstep).log) hpublications
  have hstored : stored.log = operated.log :=
    foldlM_log (fun _ _ _ _ hstep => (upsertTaskRunV6_records hstep).log) hruns
  have htotalled : totalled.log = stored.log :=
    (foldlM_log (fun _ _ _ _ hstep => (upsertRunRateTotals_records hstep).log) htotals).trans rfl
  have hassociated : associated.log = totalled.log := foldlM_log (fun _ _ _ _ hstep => by
    obtain ⟨-, rfl⟩ | ⟨-, -, -, rfl⟩ := insertAssociation_ok hstep <;> rfl) hassociations
  exact ⟨published, operated, hoperations, hpublished.trans (hdrained.trans hseeded),
    hassociated.trans (htotalled.trans hstored)⟩

/-- A name that is known after a commit was known, or is one of the batch. -/
theorem commitV6Batch_names {batch : PersistV6Batch} (h : db.commitV6Batch batch = .ok db') {name : String}
    (hname : db'.eventLedger.contains name = true) :
    db.eventLedger.contains name = true ∨
      ∃ op ∈ batch.operations, ∃ key, opKey op = some key ∧ key.1 = name := by
  obtain ⟨before, after, hoperations, hbefore, hafter⟩ := commitV6Batch_log h
  rw [(Prod.mk.inj hafter).2] at hname
  rw [← (Prod.mk.inj hbefore).2]
  exact ((operations_logged hoperations).2 name).mp hname

/-- What a batch records is there afterwards, and the events are those of before and its own. -/
theorem commitV6Batch_recorded {batch : PersistV6Batch} (h : db.commitV6Batch batch = .ok db') :
    Recorded db' batch ∧
      db'.eventKeys = db.eventKeys ++ newKeys db.eventLedger.contains batch.operations := by
  have hcommit := h
  obtain ⟨seeded, hseed, h⟩ := bind_eq_ok.mp h
  obtain ⟨drained, hdrains, h⟩ := bind_eq_ok.mp h
  obtain ⟨_, -, h⟩ := bind_eq_ok.mp h
  obtain ⟨published, hpublications, h⟩ := bind_eq_ok.mp h
  obtain ⟨operated, hoperations, h⟩ := bind_eq_ok.mp h
  obtain ⟨stored, hruns, h⟩ := bind_eq_ok.mp h
  obtain ⟨totalled, htotals, h⟩ := bind_eq_ok.mp h
  obtain ⟨associated, hassociations, h⟩ := bind_eq_ok.mp h
  cases h
  have hseeded : SameRecords db seeded :=
    foldlM_relates SameRecords.refl SameRecords.trans (fun _ _ _ _ hstep => seedTaskRun_records hstep) hseed
  have hpublished : SameRecords drained published :=
    foldlM_relates SameRecords.refl SameRecords.trans (fun _ _ _ _ hstep => insertPublication_records hstep)
      hpublications
  have hstored : SameRecords operated stored :=
    foldlM_relates SameRecords.refl SameRecords.trans (fun _ _ _ _ hstep => upsertTaskRunV6_records hstep) hruns
  have htotalled : SameRecords (stored.releasePublications (liveReadyRuns batch)) totalled :=
    foldlM_relates SameRecords.refl SameRecords.trans (fun _ _ _ _ hstep => upsertRunRateTotals_records hstep)
      htotals
  obtain ⟨-, hledger⟩ := operations_logged hoperations
  obtain ⟨hkept, -, hall⟩ := associations_stored hassociations
  have hreleased : SameRecords stored (stored.releasePublications (liveReadyRuns batch)) :=
    ⟨rfl, rfl, rfl, rfl, rfl, rfl⟩
  have hlater : Keeps operated associated :=
    ((hstored.trans hreleased).trans htotalled).keeps.trans hkept
  refine ⟨⟨fun op hop key hkey => ?_, fun drain hdrain => ?_, fun association hassociation => ?_⟩, ?_⟩
  · exact hlater.names _ ((hledger key.1).mpr (.inr ⟨op, hop, key, hkey, rfl⟩))
  · have hafter := hpublished.keeps.drains _ ((historyDrains_stored hdrains).2 drain hdrain)
    have hsame : operated.historyDrains = published.historyDrains :=
      foldlM_relates (R := fun s t : Database => t.historyDrains = s.historyDrains) (fun _ => rfl)
        (fun h h' => h'.trans h) (fun _ _ _ _ hstep => by
          cases applyOperation_runs hstep with
          | same h => exact h.historyDrains
          | stored h => exact h.targetStep.historyDrains
          | promoted h =>
            obtain ⟨next, hstored, haliased⟩ := h.targetSteps
            exact haliased.historyDrains.trans hstored.historyDrains
          | merged h => exact h.historyDrains) hoperations
    exact hlater.drains _ (by rwa [hsame])
  · exact (associated_congr rfl ..).trans (hall association hassociation)
  · obtain ⟨before, after, hall, hbefore, hafter⟩ := commitV6Batch_log hcommit
    have hstart : before.eventKeys = db.eventKeys := by rw [eventKeys, (Prod.mk.inj hbefore).1, eventKeys]
    have hend : eventKeys (associated.hideBlockedRuns batch.historyEventDrain.isSome) = after.eventKeys := by
      rw [eventKeys, (Prod.mk.inj hafter).1, eventKeys]
    rw [hend, (operations_logged hall).1, hstart, (Prod.mk.inj hbefore).2]

/-- A batch whose records are there and that may be accepted more than once records nothing. -/
theorem commitV6Batch_again {batch : PersistV6Batch} (h : db.commitV6Batch batch = .ok db')
    (hguarded : ∀ op ∈ batch.operations, isGuarded op = false) (hr : Recorded db batch) : SameRecords db db' := by
  obtain ⟨seeded, hseed, h⟩ := bind_eq_ok.mp h
  obtain ⟨drained, hdrains, h⟩ := bind_eq_ok.mp h
  obtain ⟨_, -, h⟩ := bind_eq_ok.mp h
  obtain ⟨published, hpublications, h⟩ := bind_eq_ok.mp h
  obtain ⟨operated, hoperations, h⟩ := bind_eq_ok.mp h
  obtain ⟨stored, hruns, h⟩ := bind_eq_ok.mp h
  obtain ⟨totalled, htotals, h⟩ := bind_eq_ok.mp h
  obtain ⟨associated, hassociations, h⟩ := bind_eq_ok.mp h
  cases h
  have h₁ : SameRecords db seeded :=
    foldlM_relates SameRecords.refl SameRecords.trans (fun _ _ _ _ hstep => seedTaskRun_records hstep) hseed
  have h₂ : SameRecords db drained :=
    foldlM_keeps (I := SameRecords db) (fun drain hdrain s t hstep hs => by
      obtain ⟨_, -, ⟨rfl, -⟩ | ⟨hnew, -⟩⟩ := upsertHistoryDrain_ok hstep
      · exact hs
      · exact absurd hnew ((hr.of_same hs).drains drain hdrain)) hdrains h₁
  have h₃ : SameRecords drained published :=
    foldlM_relates SameRecords.refl SameRecords.trans (fun _ _ _ _ hstep => insertPublication_records hstep)
      hpublications
  have h₄ : SameRecords published operated :=
    operations_records hoperations hguarded (hr.of_same (h₂.trans h₃)).names
  have h₅ : SameRecords operated stored :=
    foldlM_relates SameRecords.refl SameRecords.trans (fun _ _ _ _ hstep => upsertTaskRunV6_records hstep) hruns
  have h₆ : SameRecords stored (stored.releasePublications (liveReadyRuns batch)) := ⟨rfl, rfl, rfl, rfl, rfl, rfl⟩
  have h₇ : SameRecords (stored.releasePublications (liveReadyRuns batch)) totalled :=
    foldlM_relates SameRecords.refl SameRecords.trans (fun _ _ _ _ hstep => upsertRunRateTotals_records hstep)
      htotals
  have h₈ : SameRecords db totalled := (h₂.trans h₃).trans ((h₄.trans h₅).trans (h₆.trans h₇))
  have h₉ : SameRecords db associated :=
    foldlM_keeps (I := SameRecords db) (fun association hassociation s t hstep hs => by
      obtain ⟨-, rfl⟩ | ⟨hnew, -⟩ := insertAssociation_ok hstep
      · exact hs
      · have hknown := (hr.of_same hs).associations association hassociation
        rw [hnew] at hknown
        cases hknown) hassociations h₈
  exact h₉.trans ⟨rfl, rfl, rfl, rfl, rfl, rfl⟩

/-! ### The law -/

/-- Whether a batch that begins with an ingest sequence is known by its events: it advances the sequence
once, records events, all of the sequence and each once, and nothing else was recorded under it. -/
structure SequenceDurable (db : Database) (ingestSeq : ℤ) (operations : PersistBatch) : Prop where
  once : operations.any (fun operation => operation matches .advanceIngestSequence _) = false
  sequenced : ∀ key ∈ operations.filterMap recordedEvent, key.2 = some ingestSeq
  nodup : ((operations.filterMap recordedEvent).map Prod.fst).Nodup
  nonempty : operations.filterMap recordedEvent ≠ []
  same : ∀ name, (name, some ingestSeq) ∈ db.eventKeys ++ newKeys db.eventLedger.contains operations ↔
    name ∈ (operations.filterMap recordedEvent).map Prod.fst

/-- Where a batch was skipped, the events of its sequence are those it records. -/
theorem sequenceDurable_of_skipped {batch : PersistV6Batch} {ingestSeq : ℤ} {operations : PersistBatch}
    (heq : batch.operations = .advanceIngestSequence ingestSeq :: operations)
    (h : db.exactV6ReplayIsAlreadyDurable batch = .ok true) : SequenceDurable db ingestSeq operations := by
  obtain ⟨honce, -, hseq, hnodup, hsome, hsame⟩ := (sequenceRecorded_iff heq).mp h
  refine ⟨honce, hseq, hnodup, hsome, fun name => ?_⟩
  rw [List.mem_append, hsame]
  refine ⟨fun hmem => hmem.elim id fun hnew => ?_, .inl⟩
  obtain ⟨op, hop, hkey⟩ := mem_newKeys hnew
  cases op with
  | recordEvent event seenAtMs =>
    exact List.mem_map.mpr ⟨_, List.mem_filterMap.mpr ⟨_, hop, hkey⟩, rfl⟩
  | _ => cases hkey

/-- Applying a batch again: with an operation that is accepted once it is skipped or refused, and one that
begins with an ingest sequence is skipped exactly when the events of the sequence are its own. Nothing is
recorded twice. In every database a batch is recognised exactly when what it asks for is there, and then one of
its operations is refused, so that a batch that the store would accept is not skipped. -/
theorem replay_law {batch : PersistV6Batch} (h : db.applyV6Batch batch = .ok db') :
    ((∃ op ∈ batch.operations, isGuarded op = true) →
      ∀ again, db'.applyV6Batch batch = .ok again ↔ db'.Durable batch ∧ again = db') ∧
    (∀ ingestSeq operations, batch.operations = .advanceIngestSequence ingestSeq :: operations →
      (db'.applyV6Batch batch = .ok db' ↔ SequenceDurable db ingestSeq operations)) ∧
    (∀ again, db'.applyV6Batch batch = .ok again → SameRecords db' again) ∧
    ∀ other : Database,
      (other.exactV6ReplayIsAlreadyDurable batch = .ok true ↔ other.Durable batch) ∧
      (other.Durable batch → (∃ op ∈ batch.operations, isGuarded op = true ∧ Spent other op) ∧
        ∀ after, other.commitV6Batch batch ≠ .ok after) := by
  have honce : ∀ op ∈ batch.operations, isGuarded op = true → ∀ again, db'.applyV6Batch batch = .ok again →
      db'.exactV6ReplayIsAlreadyDurable batch = .ok true ∧ again = db' := by
    intro op hop hguarded again hagain
    rcases applyV6Batch_ok hagain with hskipped | ⟨hnew, hcommit⟩
    · exact hskipped
    · exfalso
      rcases applyV6Batch_ok h with ⟨hskipped, rfl⟩ | ⟨-, hcommitted⟩
      · rw [hnew] at hskipped
        cases hskipped
      · exact (commitV6Batch_spends hcommit hop hguarded).1 (commitV6Batch_spends hcommitted hop hguarded).2
  refine ⟨?_, ?_, ?_, fun other => ⟨recognized_iff, fun hdurable => ?_⟩⟩
  · rintro ⟨op, hop, hguarded⟩ again
    rw [← recognized_iff]
    refine ⟨honce op hop hguarded again, ?_⟩
    rintro ⟨hskipped, rfl⟩
    exact bind_eq_ok.mpr ⟨true, hskipped, rfl⟩
  · intro ingestSeq operations heq
    have hop : .advanceIngestSequence ingestSeq ∈ batch.operations := by
      rw [heq]
      exact List.mem_cons_self
    have hiff : db'.applyV6Batch batch = .ok db' ↔ db'.exactV6ReplayIsAlreadyDurable batch = .ok true :=
      ⟨fun hagain => (honce _ hop rfl db' hagain).1, fun hskipped => bind_eq_ok.mpr ⟨true, hskipped, rfl⟩⟩
    rw [hiff]
    rcases applyV6Batch_ok h with ⟨hskipped, rfl⟩ | ⟨-, hcommitted⟩
    · exact ⟨fun hskipped => sequenceDurable_of_skipped heq hskipped, fun _ => hskipped⟩
    · have hkeys := (commitV6Batch_recorded hcommitted).2
      have hnew : newKeys db.eventLedger.contains batch.operations =
          newKeys db.eventLedger.contains operations := by
        rw [heq, newKeys]
        rfl
      have hspent : ingestSeq ≤ db'.ingestSeqHighWater := (commitV6Batch_spends hcommitted hop rfl).2
      rw [hnew] at hkeys
      rw [sequenceRecorded_iff heq]
      constructor
      · rintro ⟨h₁, -, h₂, h₃, h₄, h₅⟩
        exact ⟨h₁, h₂, h₃, h₄, hkeys ▸ h₅⟩
      · rintro ⟨h₁, h₂, h₃, h₄, h₅⟩
        exact ⟨h₁, hspent, h₂, h₃, h₄, hkeys ▸ h₅⟩
  · intro again hagain
    by_cases hguarded : ∃ op ∈ batch.operations, isGuarded op = true
    · obtain ⟨op, hop, hguarded⟩ := hguarded
      rw [(honce op hop hguarded again hagain).2]
      exact .refl db'
    · rcases applyV6Batch_ok hagain with ⟨-, rfl⟩ | ⟨hnew, hcommit⟩
      · exact .refl _
      · rcases applyV6Batch_ok h with ⟨hskipped, rfl⟩ | ⟨-, hcommitted⟩
        · rw [hnew] at hskipped
          cases hskipped
        · refine commitV6Batch_again hcommit (fun op hop => ?_) (commitV6Batch_recorded hcommitted).1
          exact Bool.eq_false_iff.mpr fun hop' => hguarded ⟨op, hop, hop'⟩
  · have hrecognized := recognized_iff.mpr hdurable
    exact ⟨recognized_spent hrecognized, fun after hcommit => not_skipped hcommit hrecognized⟩

/-! ### Batches that are applied again -/

/-- An event of the sequence 7. -/
def sequencedBatch : PersistV6Batch where
  operations := [.advanceIngestSequence 7, .recordEvent (.agentStatusChanged
    { eventId := "e", timestampMs := 0, receiptTimeMs := 0, ingestSeq := some 7 } "x" .working) 0]

def sequenced : Database := left (applyV6Batch {} sequencedBatch)

/-- An event of a run that is absorbed then. -/
def mergedEventBatch (eventId : String) : PersistV6Batch where
  operations := [.recordEvent (.agentStatusChanged
    { eventId, timestampMs := 0, receiptTimeMs := 0, taskRunId := some ⟨2⟩ } "x" .working) 0,
    .mergeTaskRuns ⟨1⟩ ⟨2⟩]
  taskRuns := [sampleRun 1 true]

def mergedEvent (eventId : String) : Database := left (separateRuns.applyV6Batch (mergedEventBatch eventId))

/-- A merge is recognised with its event and not with another one; a batch of a sequence is stored once. -/
theorem replay_law_mergedEvent :
    ((mergedEvent "e").applyV6Batch (mergedEventBatch "e") = .ok (mergedEvent "e") ∧
      (mergedEvent "e").Durable (mergedEventBatch "e") ∧ ¬ (mergedEvent "e").Durable (mergedEventBatch "lost") ∧
      ((mergedEvent "e").applyV6Batch (mergedEventBatch "lost")).isOk = false) ∧
    sequenced.applyV6Batch sequencedBatch = .ok sequenced := by
  have hmerged : ∀ eventId ∈ ["e", "lost"],
      separateRuns.applyV6Batch (mergedEventBatch eventId) = .ok (mergedEvent eventId) := by decide
  have happly : applyV6Batch {} sequencedBatch = .ok sequenced := rfl
  obtain ⟨hagain, -, -, hrecognized⟩ := replay_law (hmerged "e" List.mem_cons_self)
  obtain ⟨-, -, -, hlost⟩ := replay_law (hmerged "lost" (List.mem_cons_of_mem _ List.mem_cons_self))
  obtain ⟨-, hsequenced, -, -⟩ := replay_law happly
  have hdurable : (mergedEvent "e").Durable (mergedEventBatch "e") := (hrecognized _).1.mp (by decide)
  refine ⟨⟨(hagain ⟨.mergeTaskRuns ⟨1⟩ ⟨2⟩, by decide, rfl⟩ _).mpr ⟨hdurable, rfl⟩, hdurable, fun h => ?_, by decide⟩, ?_⟩
  · exact absurd ((hlost _).1.mpr h) (by decide)
  · refine (hsequenced _ _ rfl).mpr ⟨rfl, by decide, by decide, by decide, fun name => ?_⟩
    show (name, some 7) ∈ [("e", some (7 : ℤ))] ↔ name ∈ ["e"]
    simp

/-- A merge with an execution of the survivor. -/
def mergedExecutionBatch : PersistV6Batch where
  operations := [.mergeTaskRuns ⟨1⟩ ⟨2⟩, .upsertExecution
    { execution := { executionId := "x", paneId := "p", terminalId := "t", taskRunId := ⟨1⟩, state := .working }
      startedAtMs := 0
      updatedAtMs := 0
      endedAtMs := none }]
  taskRuns := [sampleRun 1 true]

def mergedExecution : Database := left (separateRuns.applyV6Batch mergedExecutionBatch)

/-- A run that is shown, stored with a later time while a drain hides it. -/
def hiddenAgainBatch : PersistV6Batch where
  taskRuns := [{ sampleRun 1 false with taskRun := { (sampleRun 1 false).taskRun with updatedAtMs := 5 } }]
  historyDrains := [sampleDrain drainA]
  historyAssociations := [⟨drainA, ⟨1⟩⟩]
  historyEventDrain := some drainA

def hiddenAgain : Database := left (separateRuns.applyV6Batch hiddenAgainBatch)

/-- A merge beside an execution is refused when it is applied again, and a batch that hides a run which was
shown changes the run when it is applied again. -/
theorem replay_not_idempotent :
    (separateRuns.applyV6Batch mergedExecutionBatch = .ok mergedExecution ∧
      (mergedExecution.applyV6Batch mergedExecutionBatch).isOk = false) ∧
    separateRuns.applyV6Batch hiddenAgainBatch = .ok hiddenAgain ∧
      (hiddenAgain.applyV6Batch hiddenAgainBatch).isOk = true ∧
      hiddenAgain.applyV6Batch hiddenAgainBatch ≠ .ok hiddenAgain := by
  decide

end Database

end HerdrTop
