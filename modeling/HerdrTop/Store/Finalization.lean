import HerdrTop.Store.Lineage

/-!
# Finalizing a history drain

Whatever batches, merges and finalizations the store accepted before, finalizing a drain shows a run
exactly when everything that was recorded for it is finalized.

## What is proved

- `reached_history`: in every database that was reached, what is filed under a canonical run is what was
  recorded for the runs that it stands for.
- `finalizeHistoryDrain_law`: which runs a finalization shows, which drains it finalizes, which sessions
  it ends, and that finalizing again changes nothing.
-/

namespace HerdrTop

namespace Database

variable {db db' : Database} {claims : List (HistoryDrainId × RunId)}

/-! ### Drains -/

theorem openDrain_iff {d : HistoryDrainId} :
    db.openDrain d = true ↔ ∃ row, db.historyDrains.get d = some row ∧ row.finalizedAtMs = none := by
  unfold openDrain
  cases db.historyDrains.get d <;> simp

theorem finalizedDrain_iff {d : HistoryDrainId} :
    db.finalizedDrain d = true ↔ ∃ row, db.historyDrains.get d = some row ∧ row.finalizedAtMs ≠ none := by
  unfold finalizedDrain
  cases db.historyDrains.get d <;> simp [Option.isSome_iff_ne_none]

/-- A drain that is known is open or finalized. -/
theorem open_or_finalized {d : HistoryDrainId} (h : db.historyDrains.contains d = true) :
    db.openDrain d = !db.finalizedDrain d := by
  obtain ⟨row, hrow⟩ := HashMap.contains_iff.mp h
  unfold openDrain finalizedDrain
  rw [hrow]
  cases hat : row.finalizedAtMs <;> simp [hat]

theorem blocked_iff {r : RunId} :
    db.blocked r = true ↔ ∃ d, db.associated d r = true ∧ db.openDrain d = true := by
  unfold blocked
  rw [List.any_eq_true]
  constructor
  · rintro ⟨⟨d, r'⟩, hmem, h⟩
    obtain ⟨hr, hopen⟩ := Bool.and_eq_true_iff.mp h
    rw [decide_eq_true_eq] at hr
    exact ⟨d, associated_iff.mpr (by rwa [← hr]), hopen⟩
  · rintro ⟨d, hassoc, hopen⟩
    exact ⟨(d, r), associated_iff.mp hassoc, by simpa using hopen⟩

theorem manifestRows_nodup {drain : PersistHistoryDrain} {incoming : List (String × ArtifactRow)}
    (h : manifestRows drain = .ok incoming) : (incoming.map Prod.fst).Nodup := by
  refine foldlM_keeps (I := fun rows : List (String × ArtifactRow) => (rows.map Prod.fst).Nodup)
    (fun artifact _ rows next hstep hrows => ?_) h List.nodup_nil
  split_ifs at hstep with hempty hduplicate
  obtain ⟨goalpost, -, hstep⟩ := bind_eq_ok.mp hstep
  cases hstep
  rw [List.map_append, List.nodup_append]
  refine ⟨hrows, by simp, fun a ha b hb heq => ?_⟩
  rw [List.map_cons, List.map_nil, List.mem_singleton] at hb
  rw [heq, hb] at ha
  exact hduplicate ha

theorem mem_storedManifest {d : HistoryDrainId} {entry : String × ArtifactRow} :
    entry ∈ db.storedManifest d ↔ db.historyDrainArtifacts.get (d, entry.1) = some entry.2 := by
  unfold storedManifest
  rw [← HashMap.mem_toList, List.mem_map]
  constructor
  · rintro ⟨⟨⟨d', a⟩, row⟩, hkept, rfl⟩
    obtain ⟨hmem, hd⟩ := List.mem_filter.mp hkept
    have hdrain : d' = d := by simpa using hd
    subst hdrain
    exact hmem
  · intro hmem
    exact ⟨_, List.mem_filter.mpr ⟨hmem, by simp⟩, rfl⟩

theorem storedManifest_nodup {d : HistoryDrainId} : (db.storedManifest d).Nodup := by
  unfold storedManifest
  refine List.Nodup.map_on ?_ (List.Nodup.filter _ (HashMap.toList_nodup _))
  rintro ⟨⟨d₁, a₁⟩, row₁⟩ h₁ ⟨⟨d₂, a₂⟩, row₂⟩ h₂ heq
  obtain ⟨-, hd₁⟩ := List.mem_filter.mp h₁
  obtain ⟨-, hd₂⟩ := List.mem_filter.mp h₂
  rw [decide_eq_true_eq] at hd₁ hd₂
  cases hd₁
  cases hd₂
  cases heq
  rfl

/-- Once a manifest was accepted, the store holds it. -/
theorem upsertHistoryDrain_again {drain : PersistHistoryDrain} (hl : Linked db)
    (h : db.upsertHistoryDrain drain = .ok db') :
    ∃ incoming, manifestRows drain = .ok incoming ∧ (db'.storedManifest drain.drainId).isPerm incoming ∧
      ∃ row, db'.historyDrains.get drain.drainId = some row ∧ row.provider = drain.provider := by
  obtain ⟨incoming, hrows, ⟨rfl, hrow, hperm⟩ | ⟨hnew, rfl⟩⟩ := upsertHistoryDrain_ok h
  · exact ⟨incoming, hrows, hperm, hrow⟩
  · refine ⟨incoming, hrows, ?_, _, HashMap.get_insert_self .., rfl⟩
    have hkeys := manifestRows_nodup hrows
    rw [List.isPerm_iff, List.perm_ext_iff_of_nodup storedManifest_nodup (hkeys.of_map _)]
    rintro ⟨a, row⟩
    rw [mem_storedManifest]
    have hpairs := hkeys.map (f := fun a => (drain.drainId, a)) fun x y hxy => by simpa using hxy
    have hnodup : ((incoming.map fun entry => ((drain.drainId, entry.1), entry.2)).map Prod.fst).Nodup := by
      rw [List.map_map] at hpairs ⊢
      exact hpairs
    constructor
    · intro hget
      rcases HashMap.get_extend_cases hget with hmem | ⟨hold, -⟩
      · obtain ⟨entry, hentry, heq⟩ := List.mem_map.mp hmem
        cases heq
        exact hentry
      · have hknown := hl.artifactKnown drain.drainId a (HashMap.contains_iff.mpr ⟨_, hold⟩)
        rw [HashMap.contains_eq_false.mpr hnew] at hknown
        cases hknown
    · intro hmem
      exact HashMap.get_extend_of_mem hnodup (List.mem_map.mpr ⟨_, hmem, rfl⟩)

/-! ### Databases that were reached -/

/-- What holds of the rows about drains once claims were recorded. -/
structure History (db : Database) (claims : List (HistoryDrainId × RunId)) : Prop where
  linked : Linked db
  accounted : Accounted db claims

theorem TargetStep.history {f : RunId → RunId} (h : TargetStep db db' f) (hh : History db claims) :
    History db' claims :=
  ⟨h.linked hh.linked, h.accounted hh.linked hh.accounted⟩

/-- Pointers and rows about drains are all that the history depends on. -/
theorem History.of_same (hh : History db claims) (drains : SameDrains db db')
    (targets : ∀ r, db'.target r = db.target r) : History db' claims :=
  (TargetStep.same drains targets).history hh

theorem RunStep.history {op : PersistOp} (h : RunStep db db' op) (hh : History db claims) :
    History db' claims := by
  cases h with
  | same h => exact (sameRuns_targetStep h).history hh
  | stored h => exact h.targetStep.history hh
  | promoted h =>
    obtain ⟨next, hstored, haliased⟩ := h.targetSteps
    exact haliased.history (hstored.history hh)
  | merged h => exact h.targetStep.history hh

theorem operations_history {drainId : Option HistoryDrainId} {batch : PersistBatch}
    (h : batch.foldlM (applyOperation drainId) db = .ok db') (hh : History db claims) :
    History db' claims :=
  foldlM_keeps (I := fun db => History db claims)
    (fun _ _ _ _ hstep hs => (applyOperation_runs hstep).history hs) h hh

theorem seedTaskRun_history {operations : PersistBatch} {run : PersistTaskRunV6}
    (h : seedTaskRun operations db run = .ok db') (hh : History db claims) : History db' claims := by
  unfold seedTaskRun at h
  split_ifs at h
  · cases h
    exact hh
  · exact (upsertTaskRunV6_ok h).targetStep.history hh

/-- A drain that is new has contributed to nothing. -/
theorem Linked.not_associated_of_new (hl : Linked db) {drainId : HistoryDrainId}
    (hnew : db.historyDrains.get drainId = none) {d : HistoryDrainId} {r : RunId}
    (hassoc : db.associated d r = true) : d ≠ drainId := by
  rintro rfl
  have hknown := hl.drainKnown d r hassoc
  rw [HashMap.contains_eq_false.mpr hnew] at hknown
  cases hknown

theorem upsertHistoryDrain_linked {drain : PersistHistoryDrain} (h : db.upsertHistoryDrain drain = .ok db')
    (hl : Linked db) : Linked db' := by
  obtain ⟨incoming, -, ⟨rfl, -⟩ | ⟨hnew, rfl⟩⟩ := upsertHistoryDrain_ok h
  · exact hl
  · refine ⟨hl.flat, fun d r hassoc => ?_, hl.runKnown, fun d a hartifact => ?_⟩
    · exact HashMap.contains_insert.mpr (.inr (hl.drainKnown d r hassoc))
    · obtain ⟨row, hrow⟩ := HashMap.contains_iff.mp hartifact
      refine HashMap.contains_insert.mpr ?_
      rcases HashMap.get_extend_cases hrow with hmem | ⟨hold, -⟩
      · obtain ⟨_, -, heq⟩ := List.mem_map.mp hmem
        cases heq
        exact .inl rfl
      · exact .inr (hl.artifactKnown d a (HashMap.contains_iff.mpr ⟨_, hold⟩))

theorem upsertHistoryDrain_history {drain : PersistHistoryDrain} (h : db.upsertHistoryDrain drain = .ok db')
    (hh : History db claims) : History db' claims := by
  refine ⟨upsertHistoryDrain_linked h hh.linked, ?_⟩
  obtain ⟨incoming, -, ⟨rfl, -⟩ | ⟨hnew, rfl⟩⟩ := upsertHistoryDrain_ok h
  · exact hh.accounted
  · refine ⟨hh.accounted.kept, fun d r hr hassoc => ?_⟩
    rcases hh.accounted.claimed d r hr hassoc with hclaim | hfinalized
    · exact .inl hclaim
    · refine .inr ?_
      rw [finalizedDrain, HashMap.get_insert_ne _ _ (hh.linked.not_associated_of_new hnew hassoc)]
      exact hfinalized

theorem hideRun_mergedInto {historical : Bool} {r : RunId} {row : TaskRunRow} :
    (db.hideRun historical r row).mergedInto = row.mergedInto := by
  unfold hideRun
  split_ifs <;> rfl

theorem target_modify {r : RunId} {f : TaskRunRow → TaskRunRow} (hf : ∀ row, (f row).mergedInto = row.mergedInto)
    (a : RunId) : (db.modifyRun r f).target a = db.target a := by
  unfold target modifyRun
  rw [HashMap.get_modify]
  split_ifs with ha
  · subst ha
    cases db.taskRuns.get a with
    | none => rfl
    | some row => simp [hf]
  · rfl

theorem target_mapValues {f : RunId → TaskRunRow → TaskRunRow}
    (hf : ∀ r row, (f r row).mergedInto = row.mergedInto) (hruns : db'.taskRuns = db.taskRuns.mapValues f)
    (a : RunId) : db'.target a = db.target a := by
  unfold target
  rw [hruns, HashMap.get_mapValues]
  cases db.taskRuns.get a with
  | none => rfl
  | some row => simp [hf]

/-- The claim of an association, if its run is canonical. -/
def claimOf (db : Database) (association : PersistHistoryDrainRun) : Option (HistoryDrainId × RunId) :=
  if (db.canonical association.runId).isSome then some (association.drainId, association.runId) else none

theorem claimOf_congr (htargets : ∀ r, db'.target r = db.target r) (association : PersistHistoryDrainRun) :
    db'.claimOf association = db.claimOf association := by
  unfold claimOf
  have hiff : (db'.canonical association.runId).isSome = (db.canonical association.runId).isSome := by
    rw [Bool.eq_iff_iff, canonical_isSome_iff, canonical_isSome_iff, htargets]
  rw [hiff]

theorem insertAssociation_target {historical : Bool} {association : PersistHistoryDrainRun}
    (h : insertAssociation historical db association = .ok db') (r : RunId) : db'.target r = db.target r := by
  obtain ⟨-, rfl⟩ | ⟨-, -, -, rfl⟩ := insertAssociation_ok h
  · rfl
  · exact target_modify (fun _ => hideRun_mergedInto) r

/-- What is filed after an association was. -/
theorem insertAssociation_associated {historical : Bool} {association : PersistHistoryDrainRun}
    (h : insertAssociation historical db association = .ok db') (d : HistoryDrainId) (r : RunId) :
    db'.associated d r = true ↔
      (d = association.drainId ∧ r = association.runId) ∨ db.associated d r = true := by
  obtain ⟨hknown, rfl⟩ | ⟨-, -, -, rfl⟩ := insertAssociation_ok h
  · refine ⟨.inr, ?_⟩
    rintro (⟨rfl, rfl⟩ | hold)
    · exact hknown
    · exact hold
  · rw [associated_iff, associated_iff, HashSet.mem_keys_insert, Prod.mk.injEq]

theorem insertAssociation_linked {historical : Bool} {association : PersistHistoryDrainRun}
    (h : insertAssociation historical db association = .ok db') (hl : Linked db) : Linked db' := by
  have htarget := insertAssociation_target h
  have hassoc := insertAssociation_associated h
  obtain ⟨-, rfl⟩ | ⟨-, hopen, hrun, hnext⟩ := insertAssociation_ok h
  · exact hl
  · have hdrains : db'.historyDrains = db.historyDrains := by rw [hnext]
    have hartifacts : db'.historyDrainArtifacts = db.historyDrainArtifacts := by rw [hnext]
    obtain ⟨drain, hdrain, -⟩ := openDrain_iff.mp hopen
    obtain ⟨row, hrow⟩ := HashMap.contains_iff.mp hrun
    refine ⟨fun r t => ?_, fun d r hdr => ?_, fun d r hdr => ?_, fun d a ha => ?_⟩
    · rw [htarget, htarget]
      exact hl.flat r t
    · rw [hdrains]
      rcases (hassoc d r).mp hdr with ⟨rfl, rfl⟩ | hold
      · exact HashMap.contains_iff.mpr ⟨drain, hdrain⟩
      · exact hl.drainKnown d r hold
    · rw [htarget]
      rcases (hassoc d r).mp hdr with ⟨rfl, rfl⟩ | hold
      · rw [target, hrow]
        simp
      · exact hl.runKnown d r hold
    · rw [hartifacts] at ha
      rw [hdrains]
      exact hl.artifactKnown d a ha

/-- An association is filed, and recorded if its run is canonical. -/
theorem insertAssociation_history {historical : Bool} {association : PersistHistoryDrainRun}
    (h : insertAssociation historical db association = .ok db') (hh : History db claims) :
    History db' (claims ++ (db.claimOf association).toList) := by
  have htarget := insertAssociation_target h
  have hassoc := insertAssociation_associated h
  have hsurvivor : ∀ a, db'.survivor a = db.survivor a := fun a => by rw [survivor, htarget, survivor]
  have hdrains : db'.historyDrains = db.historyDrains := by
    obtain ⟨-, rfl⟩ | ⟨-, -, -, rfl⟩ := insertAssociation_ok h <;> rfl
  have hclaim : ∀ claim ∈ (db.claimOf association).toList,
      claim = (association.drainId, association.runId) ∧ db.target association.runId = some none := by
    intro claim hmem
    unfold claimOf at hmem
    split_ifs at hmem with hcanonical
    · exact ⟨by simpa using hmem, canonical_isSome_iff.mp hcanonical⟩
    · simp at hmem
  refine ⟨insertAssociation_linked h hh.linked, fun claim hmem => ?_, fun d r hr hdr => ?_⟩
  · rcases List.mem_append.mp hmem with hold | hnew
    · obtain ⟨s, hs, hfiled⟩ := hh.accounted.kept claim hold
      exact ⟨s, by rwa [hsurvivor], (hassoc claim.1 s).mpr (.inr hfiled)⟩
    · obtain ⟨rfl, hcanonical⟩ := hclaim claim hnew
      refine ⟨_, ?_, (hassoc _ _).mpr (.inl ⟨rfl, rfl⟩)⟩
      rw [hsurvivor]
      exact survivor_of_canonical hcanonical
  · rw [htarget] at hr
    rcases (hassoc d r).mp hdr with ⟨rfl, rfl⟩ | hold
    · refine .inl ⟨(association.drainId, association.runId), List.mem_append_right _ ?_, rfl, ?_⟩
      · rw [claimOf, if_pos (canonical_isSome_iff.mpr hr)]
        exact List.mem_singleton_self _
      · rw [hsurvivor]
        exact survivor_of_canonical hr
    · rcases hh.accounted.claimed d r hr hold with ⟨claim, hmem, hd, hs⟩ | hfinalized
      · exact .inl ⟨claim, List.mem_append_left _ hmem, hd, by rwa [hsurvivor]⟩
      · exact .inr (by rwa [finalizedDrain, hdrains])

theorem associations_history {historical : Bool} {associations : List PersistHistoryDrainRun}
    (h : associations.foldlM (insertAssociation historical) db = .ok db') (hh : History db claims) :
    (∀ r, db'.target r = db.target r) ∧ History db' (claims ++ associations.filterMap db.claimOf) := by
  induction associations generalizing db claims with
  | nil =>
    rw [← foldlM_nil_ok.mp h]
    exact ⟨fun _ => rfl, by simpa using hh⟩
  | cons association associations ih =>
    obtain ⟨next, hfirst, hrest⟩ := foldlM_cons_ok.mp h
    have htargets := insertAssociation_target hfirst
    obtain ⟨htargets', hfinal⟩ := ih hrest (insertAssociation_history hfirst hh)
    refine ⟨fun r => by rw [htargets', htargets], ?_⟩
    have hclaims : associations.filterMap next.claimOf = associations.filterMap db.claimOf :=
      List.filterMap_congr fun a _ => claimOf_congr htargets a
    rw [hclaims, List.append_assoc] at hfinal
    have hcons : (association :: associations).filterMap db.claimOf =
        (db.claimOf association).toList ++ associations.filterMap db.claimOf := by
      cases hclaim : db.claimOf association with
      | none => rw [List.filterMap_cons_none hclaim]; rfl
      | some claim => rw [List.filterMap_cons_some hclaim]; rfl
    rw [hcons]
    exact hfinal

theorem hideBlockedRuns_target (historical : Bool) (r : RunId) :
    (db.hideBlockedRuns historical).target r = db.target r := by
  refine target_mapValues (fun r row => ?_) rfl r
  split_ifs
  · exact hideRun_mergedInto
  · rfl

/-- What a batch records is filed. -/
theorem commitV6Batch_history {batch : PersistV6Batch} (h : db.commitV6Batch batch = .ok db')
    (hh : History db claims) : History db' (claims ++ batch.historyAssociations.filterMap db'.claimOf) := by
  obtain ⟨seeded, hseed, h⟩ := bind_eq_ok.mp h
  obtain ⟨drained, hdrains, h⟩ := bind_eq_ok.mp h
  obtain ⟨_, -, h⟩ := bind_eq_ok.mp h
  obtain ⟨published, hpublications, h⟩ := bind_eq_ok.mp h
  obtain ⟨operated, hoperations, h⟩ := bind_eq_ok.mp h
  obtain ⟨stored, hruns, h⟩ := bind_eq_ok.mp h
  obtain ⟨totalled, htotals, h⟩ := bind_eq_ok.mp h
  obtain ⟨associated, hassociations, h⟩ := bind_eq_ok.mp h
  cases h
  have h₁ : History seeded claims :=
    foldlM_keeps (I := fun db => History db claims) (fun _ _ _ _ hstep => seedTaskRun_history hstep) hseed hh
  have h₂ : History drained claims :=
    foldlM_keeps (I := fun db => History db claims)
      (fun _ _ _ _ hstep => upsertHistoryDrain_history hstep) hdrains h₁
  have h₃ : History published claims :=
    foldlM_keeps (I := fun db => History db claims) (fun _ _ _ _ hstep hs => by
      rw [insertPublication_ok hstep]
      exact hs.of_same ⟨rfl, rfl, rfl⟩ fun _ => rfl) hpublications h₂
  have h₄ := operations_history hoperations h₃
  have h₅ : History stored claims :=
    foldlM_keeps (I := fun db => History db claims)
      (fun _ _ _ _ hstep hs => (upsertTaskRunV6_ok hstep).targetStep.history hs) hruns h₄
  have h₆ : History (stored.releasePublications (liveReadyRuns batch)) claims :=
    h₅.of_same ⟨rfl, rfl, rfl⟩ fun _ => rfl
  have h₇ : History totalled claims :=
    foldlM_keeps (I := fun db => History db claims) (fun _ _ _ _ hstep hs => by
      obtain ⟨-, rfl⟩ := upsertRunRateTotals_ok hstep
      exact hs.of_same ⟨rfl, rfl, rfl⟩ fun _ => rfl) htotals h₆
  obtain ⟨htargets, h₈⟩ := associations_history hassociations h₇
  have hhidden := @hideBlockedRuns_target associated batch.historyEventDrain.isSome
  have hclaims : batch.historyAssociations.filterMap
      (associated.hideBlockedRuns batch.historyEventDrain.isSome).claimOf =
      batch.historyAssociations.filterMap totalled.claimOf :=
    List.filterMap_congr fun a _ => by rw [claimOf_congr hhidden, claimOf_congr htargets]
  rw [hclaims]
  exact h₈.of_same ⟨rfl, rfl, rfl⟩ hhidden

/-! ### Completing a drain -/

/-- Whether completing a drain finalizes a drain. -/
def completes (db : Database) (drainId : HistoryDrainId) (row : HistoryDrainRow) (d : HistoryDrainId) : Bool :=
  d = drainId || (db.historyDrains.get d).any (db.supersedes drainId row d)

/-- What is left, table by table, once a drain was completed. -/
structure Completed (db db' : Database) (drainId : HistoryDrainId) (row : HistoryDrainRow)
    (observedAtMs : ℤ) : Prop where
  historyDrains : ∀ d, db'.historyDrains.get d = (db.historyDrains.get d).map fun older =>
    if db.completes drainId row d then
      { older with finalizedAtMs := some observedAtMs, completedByDrainId := some drainId }
    else older
  artifacts : db'.historyDrainArtifacts = db.historyDrainArtifacts
  associated : ∀ d r, db'.associated d r = true ↔ db.associated d r = true ∨
    (d = drainId ∧ ∃ older, db.associated older r = true ∧ older ≠ drainId ∧
      db.completes drainId row older = true)
  /-- A canonical run of the drain is shown when it waits for nothing. -/
  taskRuns : ∀ r, ∃ state : TaskRunRow → TaskRunV6State,
    db'.taskRuns.get r = (db.taskRuns.get r).map (fun row => { row with state := state row }) ∧
    ∀ row, (state row).historyReady = (row.state.historyReady ||
        (row.mergedInto.isNone && db'.associated drainId r && !db'.blocked r)) ∧
      ((state row).nativeSessionEnd = row.state.nativeSessionEnd ∨
        (db.live r = false ∧ row.taskState.isTerminal = false ∧ row.state.nativeSessionEnd = none))

theorem supersedes_ne {drainId older : HistoryDrainId} {row olderRow : HistoryDrainRow}
    (h : db.supersedes drainId row older olderRow = true) : older ≠ drainId := by
  unfold supersedes at h
  simp only [Bool.and_eq_true, decide_eq_true_eq] at h
  exact h.1.1.2

theorem closedState_ready {drainId : HistoryDrainId} {observedAtMs : ℤ} {r : RunId} {row : TaskRunRow} :
    (db.closedState drainId observedAtMs r row).historyReady = row.state.historyReady := by
  unfold closedState
  split
  · rfl
  · dsimp only
    split_ifs <;> rfl

/-- A session is ended only if nobody ended it and nothing keeps it alive. -/
theorem closedState_end {drainId : HistoryDrainId} {observedAtMs : ℤ} {r : RunId} {row : TaskRunRow} :
    (db.closedState drainId observedAtMs r row).nativeSessionEnd = row.state.nativeSessionEnd ∨
      (db.live r = false ∧ row.taskState.isTerminal = false ∧ row.state.nativeSessionEnd = none) := by
  unfold closedState
  split
  · exact .inl rfl
  · dsimp only
    split_ifs with hclose
    · simp only [Bool.and_eq_true, Bool.not_eq_true', Option.isNone_iff_eq_none] at hclose
      exact .inr ⟨hclose.1.2, hclose.1.1.1.2, hclose.1.1.2⟩
    · exact .inl rfl

theorem associated_congr (h : db'.historyDrainRuns = db.historyDrainRuns) (d : HistoryDrainId) (r : RunId) :
    db'.associated d r = db.associated d r := by
  unfold associated
  rw [h]

theorem blocked_congr (h : db'.historyDrainRuns = db.historyDrainRuns)
    (h' : db'.historyDrains = db.historyDrains) (r : RunId) : db'.blocked r = db.blocked r := by
  unfold blocked openDrain
  rw [h, h']

theorem supersedes_congr (h : db'.historyDrainArtifacts = db.historyDrainArtifacts)
    {drainId older : HistoryDrainId} {row olderRow : HistoryDrainRow} :
    db'.supersedes drainId row older olderRow = db.supersedes drainId row older olderRow := by
  unfold supersedes covers
  rw [h]

section Completing

variable (db : Database) (drainId : HistoryDrainId) (row : HistoryDrainRow) (observedAtMs : ℤ)

/-- The tables once the drains are finalized, before runs are looked at. -/
def finalizedTables : Database :=
  (db.inheritAssociations drainId row).finalizeDrains drainId row observedAtMs

theorem finalizedTables_historyDrains (d : HistoryDrainId) :
    (db.finalizedTables drainId row observedAtMs).historyDrains.get d =
      (db.historyDrains.get d).map fun older =>
        if db.completes drainId row d then
          { older with finalizedAtMs := some observedAtMs, completedByDrainId := some drainId }
        else older := by
  unfold finalizedTables finalizeDrains
  rw [HashMap.get_mapValues]
  have hdrains : (db.inheritAssociations drainId row).historyDrains = db.historyDrains := rfl
  rw [hdrains]
  cases hget : db.historyDrains.get d with
  | none => rfl
  | some older =>
    have hsupersedes : (db.inheritAssociations drainId row).supersedes drainId row d older =
        db.supersedes drainId row d older := supersedes_congr rfl
    rw [Option.map_some, Option.map_some, hsupersedes, completes, hget, Option.any_some]

theorem finalizedTables_associated (d : HistoryDrainId) (r : RunId) :
    (db.finalizedTables drainId row observedAtMs).associated d r = true ↔ db.associated d r = true ∨
      (d = drainId ∧ ∃ older, db.associated older r = true ∧ older ≠ drainId ∧
        db.completes drainId row older = true) := by
  have hruns : (db.finalizedTables drainId row observedAtMs).historyDrainRuns =
      (db.inheritAssociations drainId row).historyDrainRuns := rfl
  rw [associated_congr hruns, associated_iff, associated_iff]
  unfold inheritAssociations
  rw [HashSet.mem_keys_extend]
  simp only [List.mem_map, List.mem_filter, Prod.mk.injEq]
  constructor
  · rintro (⟨⟨older, r'⟩, ⟨hmem, hsupersedes⟩, rfl, rfl⟩ | hmem)
    · refine .inr ⟨rfl, older, associated_iff.mpr hmem, ?_, ?_⟩
      · cases hget : db.historyDrains.get older with
        | none =>
          rw [hget] at hsupersedes
          cases hsupersedes
        | some olderRow =>
          rw [hget] at hsupersedes
          exact supersedes_ne hsupersedes
      · rw [completes, Bool.or_eq_true]
        exact .inr hsupersedes
    · exact .inl hmem
  · rintro (hmem | ⟨rfl, older, hassoc, hne, hcompletes⟩)
    · exact .inr hmem
    · refine .inl ⟨(older, r), ⟨associated_iff.mp hassoc, ?_⟩, rfl, rfl⟩
      rw [completes, Bool.or_eq_true, decide_eq_true_eq] at hcompletes
      exact hcompletes.resolve_left hne

/-- The state of a run once sessions are ended. -/
def sessionState (r : RunId) (run : TaskRunRow) : TaskRunV6State :=
  if run.mergedInto.isNone && db.associated drainId r && !db.blocked r && !db.live r then
    db.closedState drainId observedAtMs r run
  else run.state

/-- The state of a run once the runs of the drain are shown. -/
def readyState (r : RunId) (run : TaskRunRow) : TaskRunV6State :=
  if run.mergedInto.isNone && db.associated drainId r then
    { run.state with historyReady := run.state.historyReady || !db.blocked r }
  else run.state

theorem closeSessions_get (r : RunId) : (db.closeSessions drainId observedAtMs).taskRuns.get r =
    (db.taskRuns.get r).map fun run => { run with state := db.sessionState drainId observedAtMs r run } := by
  unfold closeSessions sessionState
  rw [HashMap.get_mapValues]
  cases db.taskRuns.get r with
  | none => rfl
  | some run =>
    rw [Option.map_some, Option.map_some]
    split_ifs <;> rfl

theorem readyRuns_get (r : RunId) : (db.readyRuns drainId).taskRuns.get r =
    (db.taskRuns.get r).map fun run => { run with state := db.readyState drainId r run } := by
  unfold readyRuns readyState
  rw [HashMap.get_mapValues]
  cases db.taskRuns.get r with
  | none => rfl
  | some run =>
    rw [Option.map_some, Option.map_some]
    split_ifs <;> rfl

theorem readyState_congr (h : db'.historyDrainRuns = db.historyDrainRuns)
    (h' : db'.historyDrains = db.historyDrains) (r : RunId) (run : TaskRunRow) :
    db'.readyState drainId r run = db.readyState drainId r run := by
  unfold readyState
  rw [associated_congr h, blocked_congr h h']

theorem readyState_ready (r : RunId) (run : TaskRunRow) :
    (db.readyState drainId r run).historyReady = (run.state.historyReady ||
      (run.mergedInto.isNone && db.associated drainId r && !db.blocked r)) := by
  unfold readyState
  split_ifs with hready
  · rw [hready, Bool.true_and]
  · rw [Bool.eq_false_iff.mpr hready, Bool.false_and, Bool.or_false]

theorem readyState_end (r : RunId) (run : TaskRunRow) :
    (db.readyState drainId r run).nativeSessionEnd = run.state.nativeSessionEnd := by
  unfold readyState
  split_ifs <;> rfl

theorem sessionState_ready (r : RunId) (run : TaskRunRow) :
    (db.sessionState drainId observedAtMs r run).historyReady = run.state.historyReady := by
  unfold sessionState
  split_ifs
  · exact closedState_ready
  · rfl

theorem sessionState_end (r : RunId) (run : TaskRunRow) :
    (db.sessionState drainId observedAtMs r run).nativeSessionEnd = run.state.nativeSessionEnd ∨
      (db.live r = false ∧ run.taskState.isTerminal = false ∧ run.state.nativeSessionEnd = none) := by
  unfold sessionState
  split_ifs
  · exact closedState_end
  · exact .inl rfl

/-- The state of a run once a drain was completed. -/
def completedState (r : RunId) (run : TaskRunRow) : TaskRunV6State :=
  let finalized := db.finalizedTables drainId row observedAtMs
  finalized.readyState drainId r { run with state := finalized.sessionState drainId observedAtMs r run }

theorem completeDrain_taskRuns (r : RunId) :
    (db.completeDrain drainId row observedAtMs).taskRuns.get r =
      (db.taskRuns.get r).map fun run =>
        { run with state := db.completedState drainId row observedAtMs r run } := by
  have hruns : (db.completeDrain drainId row observedAtMs).taskRuns =
      (((db.finalizedTables drainId row observedAtMs).closeSessions drainId observedAtMs).readyRuns
        drainId).taskRuns := rfl
  have hold : (db.finalizedTables drainId row observedAtMs).taskRuns = db.taskRuns := rfl
  rw [hruns, readyRuns_get, closeSessions_get, hold, Option.map_map]
  cases db.taskRuns.get r with
  | none => rfl
  | some run =>
    rw [Option.map_some, Option.map_some, completedState, Function.comp]
    rw [readyState_congr (db.finalizedTables drainId row observedAtMs) drainId rfl rfl]
    rfl

theorem completedState_ready (r : RunId) (run : TaskRunRow) :
    (db.completedState drainId row observedAtMs r run).historyReady = (run.state.historyReady ||
      (run.mergedInto.isNone && (db.finalizedTables drainId row observedAtMs).associated drainId r &&
        !(db.finalizedTables drainId row observedAtMs).blocked r)) := by
  rw [completedState, readyState_ready, sessionState_ready]

theorem completedState_end (r : RunId) (run : TaskRunRow) :
    (db.completedState drainId row observedAtMs r run).nativeSessionEnd = run.state.nativeSessionEnd ∨
      (db.live r = false ∧ run.taskState.isTerminal = false ∧ run.state.nativeSessionEnd = none) := by
  rw [completedState, readyState_end]
  exact sessionState_end (db.finalizedTables drainId row observedAtMs) drainId observedAtMs r run

theorem completeDrain_completed :
    Completed db (db.completeDrain drainId row observedAtMs) drainId row observedAtMs := by
  have hdrains : (db.completeDrain drainId row observedAtMs).historyDrains =
      (db.finalizedTables drainId row observedAtMs).historyDrains := rfl
  have hruns : (db.completeDrain drainId row observedAtMs).historyDrainRuns =
      (db.finalizedTables drainId row observedAtMs).historyDrainRuns := rfl
  constructor
  case historyDrains =>
    intro d
    rw [hdrains, finalizedTables_historyDrains]
  case artifacts =>
    simp only [completeDrain, dropBeforeImages, readyRuns, closeSessions, finalizeDrains, inheritAssociations]
  case associated =>
    intro d r
    rw [associated_congr hruns, finalizedTables_associated]
  case taskRuns =>
    intro r
    refine ⟨_, completeDrain_taskRuns db drainId row observedAtMs r, fun run => ⟨?_, ?_⟩⟩
    · rw [associated_congr hruns, blocked_congr hruns hdrains, completedState_ready]
    · exact completedState_end db drainId row observedAtMs r run

end Completing

/-! ### What a completed drain leaves -/

section Laws

variable {drainId : HistoryDrainId} {row : HistoryDrainRow} {observedAtMs : ℤ}

theorem Completed.target (h : Completed db db' drainId row observedAtMs) (r : RunId) :
    db'.target r = db.target r := by
  obtain ⟨state, hget, -⟩ := h.taskRuns r
  rw [Database.target, hget, Option.map_map]
  rfl

theorem Completed.survivor (h : Completed db db' drainId row observedAtMs) (r : RunId) :
    db'.survivor r = db.survivor r := by
  rw [Database.survivor, h.target, Database.survivor]

theorem Completed.finalizedDrain (h : Completed db db' drainId row observedAtMs) {d : HistoryDrainId}
    (hknown : db.historyDrains.contains d = true) :
    db'.finalizedDrain d = (db.completes drainId row d || db.finalizedDrain d) := by
  obtain ⟨older, hget⟩ := HashMap.contains_iff.mp hknown
  rw [Database.finalizedDrain, h.historyDrains, Database.finalizedDrain, hget, Option.map_some,
    Option.any_some, Option.any_some]
  split_ifs with hcompletes
  · simp [hcompletes]
  · simp [hcompletes]

theorem Completed.contains (h : Completed db db' drainId row observedAtMs) (d : HistoryDrainId) :
    db'.historyDrains.contains d = db.historyDrains.contains d := by
  rw [HashMap.contains, h.historyDrains, HashMap.contains, Option.isSome_map]

theorem Completed.linked (h : Completed db db' drainId row observedAtMs)
    (hdrain : db.historyDrains.contains drainId = true) (hl : Linked db) : Linked db' where
  flat r t := by
    rw [h.target, h.target]
    exact hl.flat r t
  drainKnown d r hassoc := by
    rw [h.contains]
    rcases (h.associated d r).mp hassoc with hold | ⟨rfl, -⟩
    · exact hl.drainKnown d r hold
    · exact hdrain
  runKnown d r hassoc := by
    rw [h.target]
    rcases (h.associated d r).mp hassoc with hold | ⟨-, older, hold, -⟩
    · exact hl.runKnown d r hold
    · exact hl.runKnown older r hold
  artifactKnown d a hartifact := by
    rw [h.contains]
    rw [h.artifacts] at hartifact
    exact hl.artifactKnown d a hartifact

/-- Completing a drain keeps what was recorded; the copies it files are of the drain itself. -/
theorem Completed.history (h : Completed db db' drainId row observedAtMs)
    (hdrain : db.historyDrains.contains drainId = true) (hh : History db claims) : History db' claims := by
  refine ⟨h.linked hdrain hh.linked, fun claim hclaim => ?_, fun d r hr hassoc => ?_⟩
  · obtain ⟨s, hs, hassoc⟩ := hh.accounted.kept claim hclaim
    exact ⟨s, by rwa [h.survivor], (h.associated claim.1 s).mpr (.inl hassoc)⟩
  · rw [h.target] at hr
    rcases (h.associated d r).mp hassoc with hold | ⟨rfl, -⟩
    · rcases hh.accounted.claimed d r hr hold with ⟨claim, hclaim, hd, hs⟩ | hfinalized
      · exact .inl ⟨claim, hclaim, hd, by rwa [h.survivor]⟩
      · refine .inr ?_
        rw [h.finalizedDrain (hh.linked.drainKnown d r hold), hfinalized, Bool.or_true]
    · refine .inr ?_
      rw [h.finalizedDrain hdrain, completes, decide_eq_true rfl, Bool.true_or, Bool.true_or]

/-- A run is shown that was shown, and a run with recorded drains that are finalized now, all of them. -/
def ReadinessLaw (db db' : Database) (claims : List (HistoryDrainId × RunId)) : Prop :=
  ∀ r run, db.canonical r = some run → ∃ run', db'.canonical r = some run' ∧
    (run'.state.historyReady = true ↔ run.state.historyReady = true ∨
      ((∃ claim ∈ claims, db.survivor claim.2 = some r ∧ db.finalizedDrain claim.1 = false ∧
          db'.finalizedDrain claim.1 = true) ∧
        ∀ claim ∈ claims, db.survivor claim.2 = some r → db'.finalizedDrain claim.1 = true))

/-- A drain that is finalized with another one is of the same provider, precedes it and is covered by
it. -/
def SupersessionLaw (db db' : Database) (drainId : HistoryDrainId) : Prop :=
  ∀ d older, d ≠ drainId → db.historyDrains.get d = some older → older.finalizedAtMs = none →
    db'.finalizedDrain d = true → ∃ newer, db'.historyDrains.get drainId = some newer ∧
      older.provider = newer.provider ∧
      (older.createdAtMs < newer.createdAtMs ∨
        (older.createdAtMs = newer.createdAtMs ∧ d.value < drainId.value)) ∧
      ∀ a artifact, db.historyDrainArtifacts.get (d, a) = some artifact →
        ∃ cover, db'.historyDrainArtifacts.get (drainId, a) = some cover ∧
          cover.generation = artifact.generation ∧ artifact.goalpost ≤ cover.goalpost

/-- A session that is ended belongs to a run that nothing keeps alive and nobody ended. -/
def SessionEndLaw (db db' : Database) : Prop :=
  ∀ r run run', db.taskRuns.get r = some run → db'.taskRuns.get r = some run' →
    run'.state.nativeSessionEnd ≠ run.state.nativeSessionEnd →
    db.live r = false ∧ run.taskState.isTerminal = false ∧ run.state.nativeSessionEnd = none

theorem canonical_eq_some {r : RunId} {run : TaskRunRow} :
    db.canonical r = some run ↔ db.taskRuns.get r = some run ∧ run.mergedInto = none := by
  rw [canonical, Option.filter_eq_some_iff, Option.isNone_iff_eq_none]

theorem Completed.readinessLaw (h : Completed db db' drainId row observedAtMs)
    (hrow : db.historyDrains.get drainId = some row) (hopen : row.finalizedAtMs = none)
    (hh : History db claims) : ReadinessLaw db db' claims := by
  intro r run hrun
  obtain ⟨hget, hcanonical⟩ := canonical_eq_some.mp hrun
  have hdrain : db.historyDrains.contains drainId = true := HashMap.contains_iff.mpr ⟨row, hrow⟩
  have hh' := h.history hdrain hh
  have htarget : db.target r = some none := by rw [Database.target, hget, Option.map_some, hcanonical]
  have hnotFinalized : db.finalizedDrain drainId = false := by
    rw [Database.finalizedDrain, hrow, Option.any_some, hopen]
    rfl
  obtain ⟨state, hstate, hlaw⟩ := h.taskRuns r
  rw [hget, Option.map_some] at hstate
  refine ⟨_, canonical_eq_some.mpr ⟨hstate, hcanonical⟩, ?_⟩
  -- the run of a drain that is finalized now is filed under the drain that was completed
  have hshown : db'.associated drainId r = true ↔ ∃ claim ∈ claims, db.survivor claim.2 = some r ∧
      db.finalizedDrain claim.1 = false ∧ db'.finalizedDrain claim.1 = true := by
    have hclaim : ∀ d, db.associated d r = true → db.finalizedDrain d = false →
        db.completes drainId row d = true → ∃ claim ∈ claims, db.survivor claim.2 = some r ∧
          db.finalizedDrain claim.1 = false ∧ db'.finalizedDrain claim.1 = true := by
      intro d hassoc hd hcompletes
      rcases hh.accounted.claimed d r htarget hassoc with ⟨claim, hmem, rfl, hs⟩ | hfinalized
      · refine ⟨claim, hmem, hs, hd, ?_⟩
        rw [h.finalizedDrain (hh.linked.drainKnown _ r hassoc), hcompletes, Bool.true_or]
      · rw [hd] at hfinalized
        cases hfinalized
    constructor
    · intro hassoc
      rcases (h.associated drainId r).mp hassoc with hold | ⟨-, older, hold, hne, hcompletes⟩
      · refine hclaim drainId hold hnotFinalized ?_
        rw [completes, decide_eq_true rfl, Bool.true_or]
      · refine hclaim older hold ?_ hcompletes
        rw [completes, decide_eq_false hne, Bool.false_or] at hcompletes
        rw [Database.finalizedDrain]
        cases hget : db.historyDrains.get older with
        | none => rfl
        | some olderRow =>
          rw [hget, Option.any_some, supersedes] at hcompletes
          simp only [Bool.and_eq_true] at hcompletes
          rw [Option.any_some, ← Option.not_isNone, hcompletes.1.1.1.2]
          rfl
    · rintro ⟨claim, hmem, hs, hd, hd'⟩
      obtain ⟨s, hs', hassoc⟩ := hh.accounted.kept claim hmem
      rw [hs] at hs'
      cases hs'
      rw [h.finalizedDrain (hh.linked.drainKnown _ r hassoc), hd, Bool.or_false] at hd'
      rw [h.associated]
      by_cases he : claim.1 = drainId
      · exact .inl (by rwa [← he])
      · exact .inr ⟨rfl, claim.1, hassoc, he, hd'⟩
  have hwaits : db'.blocked r = false ↔
      ∀ claim ∈ claims, db.survivor claim.2 = some r → db'.finalizedDrain claim.1 = true := by
    rw [Bool.eq_false_iff, ne_eq, blocked_iff]
    constructor
    · intro hnone claim hmem hs
      obtain ⟨s, hs', hassoc⟩ := hh'.accounted.kept claim hmem
      rw [h.survivor, hs] at hs'
      cases hs'
      have hor := open_or_finalized (hh'.linked.drainKnown _ r hassoc)
      cases hfinal : db'.finalizedDrain claim.1 with
      | true => rfl
      | false =>
        rw [hfinal] at hor
        exact absurd ⟨claim.1, hassoc, hor⟩ hnone
    · rintro hall ⟨d, hassoc, hd⟩
      have hor := open_or_finalized (hh'.linked.drainKnown d r hassoc)
      rw [hd] at hor
      rcases hh'.accounted.claimed d r (by rw [h.target, htarget]) hassoc with ⟨claim, hmem, rfl, hs⟩ | hf
      · rw [h.survivor] at hs
        rw [hall claim hmem hs] at hor
        cases hor
      · rw [hf] at hor
        cases hor
  show (state run).historyReady = true ↔ _
  rw [(hlaw run).1, hcanonical, ← hshown, ← hwaits]
  simp only [Option.isNone_none, Bool.true_and, Bool.or_eq_true, Bool.and_eq_true, Bool.not_eq_true']

theorem Completed.supersessionLaw (h : Completed db db' drainId row observedAtMs)
    (hrow : db.historyDrains.get drainId = some row) : SupersessionLaw db db' drainId := by
  intro d older hne hget hopen hfinalized
  rw [h.finalizedDrain (HashMap.contains_iff.mpr ⟨older, hget⟩), Database.finalizedDrain, hget,
    Option.any_some, hopen, Option.isSome_none, Bool.or_false, completes, decide_eq_false hne,
    Bool.false_or, hget, Option.any_some, supersedes] at hfinalized
  simp only [Bool.and_eq_true, Bool.or_eq_true, decide_eq_true_eq] at hfinalized
  obtain ⟨⟨⟨⟨hprovider, -⟩, -⟩, hprecedes⟩, hcovers⟩ := hfinalized
  have hself : db.completes drainId row drainId = true := by rw [completes, decide_eq_true rfl, Bool.true_or]
  have hnewer := h.historyDrains drainId
  rw [hrow, Option.map_some, if_pos hself] at hnewer
  refine ⟨_, hnewer, hprovider, hprecedes, ?_⟩
  intro a artifact hartifact
  have hall := (List.all_eq_true.mp hcovers) ((d, a), artifact) (HashMap.mem_toList.mpr hartifact)
  simp only [ne_eq, not_true_eq_false, decide_false, Bool.false_or, Option.any_eq_true,
    Bool.and_eq_true, decide_eq_true_eq] at hall
  obtain ⟨cover, hcover, hgeneration, hgoalpost⟩ := hall
  rw [h.artifacts]
  exact ⟨cover, hcover, hgeneration, hgoalpost⟩

theorem Completed.sessionEndLaw (h : Completed db db' drainId row observedAtMs) : SessionEndLaw db db' := by
  intro r run run' hget hget' hne
  obtain ⟨state, hstate, hlaw⟩ := h.taskRuns r
  rw [hget', hget, Option.map_some] at hstate
  cases hstate
  exact (hlaw run).2.resolve_left hne

end Laws

/-! ### One finalization -/

/-- Storing a manifest changes nothing that was stored. -/
theorem upsertHistoryDrain_frame {drain : PersistHistoryDrain} (h : db.upsertHistoryDrain drain = .ok db') :
    db'.taskRuns = db.taskRuns ∧ db'.executions = db.executions ∧
      (∀ d row, db.historyDrains.get d = some row → db'.historyDrains.get d = some row) ∧
      ∀ d a artifact, db.historyDrains.contains d = true →
        db.historyDrainArtifacts.get (d, a) = some artifact →
        db'.historyDrainArtifacts.get (d, a) = some artifact := by
  obtain ⟨incoming, -, ⟨rfl, -⟩ | ⟨hnew, rfl⟩⟩ := upsertHistoryDrain_ok h
  · exact ⟨rfl, rfl, fun _ _ h => h, fun _ _ _ _ h => h⟩
  · refine ⟨rfl, rfl, fun d row hrow => ?_, fun d a artifact hknown hartifact => ?_⟩
    · rw [HashMap.get_insert_ne]
      · exact hrow
      · rintro rfl
        rw [hnew] at hrow
        cases hrow
    · rw [HashMap.get_extend_of_notMem]
      · exact hartifact
      · intro row hmem
        obtain ⟨entry, -, heq⟩ := List.mem_map.mp hmem
        cases heq
        rw [HashMap.contains_eq_false.mpr hnew] at hknown
        cases hknown

/-- What finalizing a drain comes to: the manifest is stored, and the drain completed unless it is. -/
theorem finalizeHistoryDrain_ok {manifest : PersistHistoryDrain} {observedAtMs : ℤ}
    {result : HistoryDrainFinalization}
    (h : db.finalizeHistoryDrain manifest observedAtMs = .ok (db', result)) :
    ∃ stored row, db.upsertHistoryDrain manifest = .ok stored ∧
      stored.historyDrains.get manifest.drainId = some row ∧
      ((row.finalizedAtMs ≠ none ∧ db' = stored) ∨
        (row.finalizedAtMs = none ∧ Completed stored db' manifest.drainId row observedAtMs)) ∧
      db'.loadHistoryDrainFinalization manifest.drainId = .ok result := by
  obtain ⟨stored, hstored, h⟩ := bind_eq_ok.mp h
  cases hrow : stored.historyDrains.get manifest.drainId with
  | none =>
    rw [hrow] at h
    cases h
  | some row =>
    rw [hrow] at h
    obtain ⟨loaded, hloaded, h⟩ := bind_eq_ok.mp h
    cases h
    refine ⟨stored, row, hstored, hrow, ?_, hloaded⟩
    cases hat : row.finalizedAtMs with
    | none =>
      rw [if_pos (by simp)]
      exact .inr ⟨rfl, completeDrain_completed ..⟩
    | some atMs =>
      rw [if_neg (by simp)]
      exact .inl ⟨by simp, rfl⟩

/-- A drain is finalized in the end, and one that was finalized before is left as it is. -/
theorem finalizeHistoryDrain_finalized {manifest : PersistHistoryDrain} {observedAtMs : ℤ}
    {result : HistoryDrainFinalization}
    (h : db.finalizeHistoryDrain manifest observedAtMs = .ok (db', result)) :
    db'.finalizedDrain manifest.drainId = true ∧ (db.finalizedDrain manifest.drainId = true → db' = db) := by
  obtain ⟨stored, row, hstored, hrow, hcases, -⟩ := finalizeHistoryDrain_ok h
  rcases hcases with ⟨hat, rfl⟩ | ⟨hopen, hcompleted⟩
  · refine ⟨finalizedDrain_iff.mpr ⟨row, hrow, hat⟩, fun hfinalized => ?_⟩
    obtain ⟨old, hold, -⟩ := finalizedDrain_iff.mp hfinalized
    obtain ⟨-, -, ⟨hsame, -⟩ | ⟨hnew, -⟩⟩ := upsertHistoryDrain_ok hstored
    · exact hsame
    · rw [hnew] at hold
      cases hold
  · refine ⟨?_, fun hfinalized => ?_⟩
    · rw [hcompleted.finalizedDrain (HashMap.contains_iff.mpr ⟨row, hrow⟩), completes, decide_eq_true rfl,
        Bool.true_or, Bool.true_or]
    · obtain ⟨old, hold, hat⟩ := finalizedDrain_iff.mp hfinalized
      have hkept := (upsertHistoryDrain_frame hstored).2.2.1 _ old hold
      rw [hrow] at hkept
      cases hkept
      exact absurd hopen hat

/-- Completing a drain leaves the ledger alone. -/
theorem finalizeHistoryDrain_ledger {manifest : PersistHistoryDrain} {observedAtMs : ℤ}
    {result : HistoryDrainFinalization}
    (h : db.finalizeHistoryDrain manifest observedAtMs = .ok (db', result)) :
    db'.eventLedger = db.eventLedger := by
  obtain ⟨stored, hstored, h⟩ := bind_eq_ok.mp h
  have hledger : stored.eventLedger = db.eventLedger := by
    obtain ⟨_, -, ⟨rfl, -⟩ | ⟨-, rfl⟩⟩ := upsertHistoryDrain_ok hstored <;> rfl
  split at h
  · cases h
  · obtain ⟨_, -, h⟩ := bind_eq_ok.mp h
    cases h
    split_ifs
    · exact hledger
    · exact hledger

theorem finalizeHistoryDrain_history {manifest : PersistHistoryDrain} {observedAtMs : ℤ}
    {result : HistoryDrainFinalization}
    (h : db.finalizeHistoryDrain manifest observedAtMs = .ok (db', result)) (hh : History db claims) :
    History db' claims := by
  obtain ⟨stored, row, hstored, hrow, ⟨-, rfl⟩ | ⟨-, hcompleted⟩, -⟩ := finalizeHistoryDrain_ok h
  · exact upsertHistoryDrain_history hstored hh
  · exact hcompleted.history (HashMap.contains_iff.mpr ⟨row, hrow⟩) (upsertHistoryDrain_history hstored hh)

/-- Finalizing a drain again returns what it returned and changes nothing. -/
theorem finalizeHistoryDrain_again {manifest : PersistHistoryDrain} {observedAtMs : ℤ}
    {result : HistoryDrainFinalization} (hl : Linked db)
    (h : db.finalizeHistoryDrain manifest observedAtMs = .ok (db', result)) (later : ℤ) :
    db'.finalizeHistoryDrain manifest later = .ok (db', result) := by
  obtain ⟨stored, row, hstored, hrow, hcases, hloaded⟩ := finalizeHistoryDrain_ok h
  obtain ⟨incoming, hrows, hperm, row', hrow', hprovider⟩ := upsertHistoryDrain_again hl hstored
  rw [hrow] at hrow'
  cases hrow'
  -- the drain is finalized, and its manifest is the one that was stored
  have hfinal : ∃ final, db'.historyDrains.get manifest.drainId = some final ∧
      final.provider = manifest.provider ∧ final.finalizedAtMs ≠ none ∧
      db'.storedManifest manifest.drainId = stored.storedManifest manifest.drainId := by
    rcases hcases with ⟨hat, rfl⟩ | ⟨-, hcompleted⟩
    · exact ⟨row, hrow, hprovider, hat, rfl⟩
    · have hget := hcompleted.historyDrains manifest.drainId
      have hself : stored.completes manifest.drainId row manifest.drainId = true := by
        rw [completes, decide_eq_true rfl, Bool.true_or]
      rw [hrow, Option.map_some, if_pos hself] at hget
      refine ⟨_, hget, hprovider, by simp, ?_⟩
      unfold storedManifest
      rw [hcompleted.artifacts]
  obtain ⟨final, hget, hsame, hat, hmanifest⟩ := hfinal
  have hupsert : db'.upsertHistoryDrain manifest = .ok db' := by
    unfold upsertHistoryDrain
    rw [hrows]
    simp only [bind, Except.bind, hget]
    rw [if_neg (by simpa using hsame), hmanifest, if_pos hperm]
    rfl
  unfold finalizeHistoryDrain
  rw [hupsert]
  simp only [bind, Except.bind, hget]
  rw [if_neg (by simpa [Option.isNone_iff_eq_none] using hat), hloaded]
  rfl

/-! ### Every database that was reached -/

/-- What a batch records, if it is not durable already. -/
def newClaims (db db' : Database) (batch : PersistV6Batch) : List (HistoryDrainId × RunId) :=
  if db.exactV6ReplayIsAlreadyDurable batch = .ok true then []
  else batch.historyAssociations.filterMap db'.claimOf

/-- The databases that accepted batches, merges among them, and finalizations lead to, each with what
was recorded for runs that were canonical. -/
inductive Reached : Database → List (HistoryDrainId × RunId) → Prop
  | empty : Reached {} []
  | batch {db db' : Database} {claims : List (HistoryDrainId × RunId)} {batch : PersistBatch} :
      Reached db claims → db.applyBatch batch = .ok db' → Reached db' claims
  | v6Batch {db db' : Database} {claims : List (HistoryDrainId × RunId)} {batch : PersistV6Batch} :
      Reached db claims → db.applyV6Batch batch = .ok db' → Reached db' (claims ++ newClaims db db' batch)
  | finalize {db db' : Database} {claims : List (HistoryDrainId × RunId)} {manifest : PersistHistoryDrain}
      {observedAtMs : ℤ} {result : HistoryDrainFinalization} :
      Reached db claims → db.finalizeHistoryDrain manifest observedAtMs = .ok (db', result) →
      Reached db' claims

theorem applyV6Batch_ok {batch : PersistV6Batch} (h : db.applyV6Batch batch = .ok db') :
    (db.exactV6ReplayIsAlreadyDurable batch = .ok true ∧ db' = db) ∨
    (db.exactV6ReplayIsAlreadyDurable batch = .ok false ∧ db.commitV6Batch batch = .ok db') := by
  obtain ⟨durable, hdurable, h⟩ := bind_eq_ok.mp h
  cases durable with
  | true =>
    cases h
    exact .inl ⟨hdurable, rfl⟩
  | false => exact .inr ⟨hdurable, h⟩

theorem reached_history (h : Reached db claims) : History db claims := by
  induction h with
  | empty => exact ⟨linked_empty, accounted_empty⟩
  | batch _ happly ih => exact operations_history happly ih
  | v6Batch _ happly ih =>
    rcases applyV6Batch_ok happly with ⟨hdurable, rfl⟩ | ⟨hdurable, hcommit⟩
    · rw [newClaims, if_pos hdurable, List.append_nil]
      exact ih
    · rw [newClaims, if_neg (by rw [hdurable]; simp)]
      exact commitV6Batch_history hcommit ih
  | finalize _ hfinalize ih => exact finalizeHistoryDrain_history hfinalize ih

/-- What a finalization does, in a database that was reached: the drain is finalized afterwards, and nothing
changes if it was before, be it on its own or with a newer drain. -/
theorem finalizeHistoryDrain_law (h : Reached db claims) {manifest : PersistHistoryDrain}
    {observedAtMs : ℤ} {result : HistoryDrainFinalization}
    (hfinalize : db.finalizeHistoryDrain manifest observedAtMs = .ok (db', result)) :
    ReadinessLaw db db' claims ∧ SupersessionLaw db db' manifest.drainId ∧ SessionEndLaw db db' ∧
      (∀ later, db'.finalizeHistoryDrain manifest later = .ok (db', result)) ∧
      db'.finalizedDrain manifest.drainId = true ∧
      (db.finalizedDrain manifest.drainId = true → db' = db) := by
  have hh := reached_history h
  refine ⟨?_, ?_, ?_, finalizeHistoryDrain_again hh.linked hfinalize, finalizeHistoryDrain_finalized hfinalize⟩
  all_goals obtain ⟨stored, row, hstored, hrow, hcases, -⟩ := finalizeHistoryDrain_ok hfinalize
  all_goals obtain ⟨hruns, hexecutions, hdrains, hartifacts⟩ := upsertHistoryDrain_frame hstored
  case refine_1 =>
    have hcanonical : ∀ r, stored.canonical r = db.canonical r := fun r => by
      rw [canonical, hruns, canonical]
    have hsurvivor : ∀ r, stored.survivor r = db.survivor r := fun r => by
      rw [survivor, target, hruns, survivor, target]
    have hsame : ∀ claim ∈ claims, stored.finalizedDrain claim.1 = db.finalizedDrain claim.1 := by
      intro claim hclaim
      obtain ⟨s, -, hassoc⟩ := hh.accounted.kept claim hclaim
      obtain ⟨drain, hdrain⟩ := HashMap.contains_iff.mp (hh.linked.drainKnown _ s hassoc)
      rw [finalizedDrain, hdrains _ _ hdrain, finalizedDrain, hdrain]
    intro r run hrun
    rcases hcases with ⟨-, rfl⟩ | ⟨hopen, hcompleted⟩
    · refine ⟨run, by rwa [hcanonical], ?_⟩
      constructor
      · exact .inl
      · rintro (hready | ⟨⟨claim, hclaim, -, hbefore, hafter⟩, -⟩)
        · exact hready
        · rw [hsame claim hclaim, hbefore] at hafter
          cases hafter
    · obtain ⟨run', hrun', hiff⟩ := hcompleted.readinessLaw hrow hopen
        (upsertHistoryDrain_history hstored hh) r run (by rwa [hcanonical])
      refine ⟨run', hrun', hiff.trans ?_⟩
      simp only [hsurvivor]
      refine or_congr_right (and_congr_left fun _ => exists_congr fun claim => ?_)
      refine and_congr_right fun hclaim => ?_
      rw [hsame claim hclaim]
  case refine_2 =>
    intro d older hne hget hopen hfinalized
    have hknown : db.historyDrains.contains d = true := HashMap.contains_iff.mpr ⟨older, hget⟩
    rcases hcases with ⟨-, rfl⟩ | ⟨-, hcompleted⟩
    · rw [finalizedDrain, hdrains d older hget, Option.any_some, hopen] at hfinalized
      cases hfinalized
    · obtain ⟨newer, hnewer, hprovider, hprecedes, hcovers⟩ :=
        hcompleted.supersessionLaw hrow d older hne (hdrains d older hget) hopen hfinalized
      exact ⟨newer, hnewer, hprovider, hprecedes, fun a artifact hartifact =>
        hcovers a artifact (hartifacts d a artifact hknown hartifact)⟩
  case refine_3 =>
    intro r run run' hget hget' hne
    rcases hcases with ⟨-, rfl⟩ | ⟨-, hcompleted⟩
    · rw [hruns, hget] at hget'
      cases hget'
      exact absurd rfl hne
    · have hlive : stored.live r = db.live r := by rw [live, hexecutions, live]
      rw [← hlive]
      exact hcompleted.sessionEndLaw r run run' (by rwa [hruns]) hget' hne

/-! ### A drain at work -/

/-- A run of a session, with its readiness. -/
def sampleRun (ulid : ℕ) (historyReady : Bool) : PersistTaskRunV6 where
  taskRun :=
    { taskRun :=
        { runId := ⟨ulid⟩
          key := .native .claude (toString ulid)
          displayOrdinal := ulid
          state := .running
          hasControllerTaskStateEvent := false }
      nativeSession := none
      createdAtMs := 0
      updatedAtMs := 0
      finishedAtMs := none }
  state := { historyReady }

/-- A drain without artifacts. -/
def sampleDrain (drainId : HistoryDrainId) : PersistHistoryDrain where
  drainId
  provider := .claude
  createdAtMs := 0
  artifacts := []

def drainA : HistoryDrainId := { value := "a" }

def drainB : HistoryDrainId := { value := "b" }

/-- What a call leaves, or nothing. -/
def left (result : StoreResult Database) : Database := result.toOption.getD {}

/-- A database after a drain without artifacts is finalized. -/
def finalizing (db : Database) (drainId : HistoryDrainId) : Database :=
  left ((db.finalizeHistoryDrain (sampleDrain drainId) 7).map Prod.fst)

/-- A drain that read one file so far. -/
def readingDrain (drainId : HistoryDrainId) (createdAtMs : ℤ) (goalpost : ℕ) : PersistHistoryDrain where
  drainId
  provider := .claude
  createdAtMs
  artifacts := [⟨"file", "1", goalpost⟩]

/-- Two drains contribute to one run each; the second one read the same file further. -/
def twoDrainsBatch : PersistV6Batch where
  taskRuns := [sampleRun 1 false, sampleRun 2 false]
  historyDrains := [readingDrain drainA 0 10, readingDrain drainB 5 20]
  historyAssociations := [⟨drainA, ⟨1⟩⟩, ⟨drainB, ⟨2⟩⟩]
  historyEventDrain := some drainA

def twoDrains : Database := left (applyV6Batch {} twoDrainsBatch)

/-- The first run absorbs the second one. -/
def twoDrainsMerged : Database := left (twoDrains.applyBatch [.mergeTaskRuns ⟨1⟩ ⟨2⟩])

/-- The second drain is finalized. -/
def twoDrainsFinalized : Database :=
  left ((twoDrainsMerged.finalizeHistoryDrain (readingDrain drainB 5 20) 7).map Prod.fst)

/-- Two drains contributed to a run and to the run that it absorbed. Finalizing the newer one finalizes both,
shows the run, and finalizing the older one afterwards changes nothing. -/
theorem finalizeHistoryDrain_law_twoDrains :
    twoDrainsMerged.ready ⟨1⟩ = false ∧ twoDrainsFinalized.ready ⟨1⟩ = true ∧
      SupersessionLaw twoDrainsMerged twoDrainsFinalized drainB ∧
      twoDrainsFinalized.finalizedDrain drainA = true ∧
      ∀ db' result, twoDrainsFinalized.finalizeHistoryDrain (readingDrain drainA 0 10) 9 = .ok (db', result) →
        db' = twoDrainsFinalized := by
  have hbatch : applyV6Batch {} twoDrainsBatch = .ok twoDrains := rfl
  have hmerged : twoDrains.applyBatch [.mergeTaskRuns ⟨1⟩ ⟨2⟩] = .ok twoDrainsMerged := rfl
  have hreached : Reached twoDrainsMerged ([] ++ newClaims {} twoDrains twoDrainsBatch) :=
    .batch (.v6Batch .empty hbatch) hmerged
  have hfinalize : twoDrainsMerged.finalizeHistoryDrain (readingDrain drainB 5 20) 7 =
      .ok (twoDrainsFinalized, ⟨drainB, 7, [drainA, drainB], [⟨⟨1⟩, {}⟩]⟩) := rfl
  obtain ⟨hready, hsupersedes, -, -, hfinal, -⟩ := finalizeHistoryDrain_law hreached hfinalize
  have holder : twoDrainsFinalized.finalizedDrain drainA = true := by decide +kernel
  have hclaims : newClaims {} twoDrains twoDrainsBatch = [(drainA, ⟨1⟩), (drainB, ⟨2⟩)] := by decide +kernel
  obtain ⟨run, hrun⟩ :=
    Option.isSome_iff_exists.mp (show (twoDrainsMerged.canonical ⟨1⟩).isSome = true by decide +kernel)
  refine ⟨by decide +kernel, ?_, hsupersedes, holder, fun db' result hagain => ?_⟩
  · rw [hclaims] at hready
    obtain ⟨run', hrun', hiff⟩ := hready ⟨1⟩ run hrun
    have hshown : run'.state.historyReady = true := by
      refine hiff.mpr (.inr ⟨⟨(drainA, ⟨1⟩), by decide, ?_, ?_, holder⟩, ?_⟩)
      · decide +kernel
      · decide +kernel
      · decide +kernel
    rw [ready, (canonical_eq_some.mp hrun').1]
    exact hshown
  · exact (finalizeHistoryDrain_law (.finalize hreached hfinalize) hagain).2.2.2.2.2 holder

/-- A hidden run to which no drain contributed. -/
def uncontributed : Database := left (applyV6Batch {} { taskRuns := [sampleRun 1 false] })

def separateRuns : Database := left (applyV6Batch {} { taskRuns := [sampleRun 1 true, sampleRun 2 true] })

def absorbedRun : Database := left (separateRuns.applyBatch [.mergeTaskRuns ⟨1⟩ ⟨2⟩])

/-- One drain contributes to a run, another one to the run that it absorbed. -/
def absorbedBatch : PersistV6Batch where
  historyDrains := [sampleDrain drainA, sampleDrain drainB]
  historyAssociations := [⟨drainA, ⟨1⟩⟩, ⟨drainB, ⟨2⟩⟩]
  historyEventDrain := some drainA

def absorbedContributed : Database := left (absorbedRun.applyV6Batch absorbedBatch)

/-- Whether everything that is filed under a run, or under a run that it stands for, is finalized. -/
def allFinalized (db : Database) (runId : RunId) : Bool :=
  (HashMap.keys db.historyDrainRuns).all fun association =>
    db.survivor association.2 ≠ some runId || db.finalizedDrain association.1

/-- A hidden run without drains stays hidden, and a run is shown although a drain that contributed to a
run it had absorbed is not finalized. -/
theorem finalizeHistoryDrain_not_exact :
    (∃ claims, Reached uncontributed claims ∧
      (uncontributed.finalizeHistoryDrain (sampleDrain drainA) 7).isOk = true ∧
      (uncontributed.finalizing drainA).allFinalized ⟨1⟩ = true ∧
      (uncontributed.finalizing drainA).ready ⟨1⟩ = false) ∧
    (∃ claims, Reached absorbedContributed claims ∧
      (absorbedContributed.finalizeHistoryDrain (sampleDrain drainA) 7).isOk = true ∧
      absorbedContributed.ready ⟨1⟩ = false ∧
      (absorbedContributed.finalizing drainA).allFinalized ⟨1⟩ = false ∧
      (absorbedContributed.finalizing drainA).ready ⟨1⟩ = true) := by
  have hseparate : applyV6Batch {} { taskRuns := [sampleRun 1 true, sampleRun 2 true] } = .ok separateRuns := rfl
  have habsorbed : separateRuns.applyBatch [.mergeTaskRuns ⟨1⟩ ⟨2⟩] = .ok absorbedRun := rfl
  have hcontributed : absorbedRun.applyV6Batch absorbedBatch = .ok absorbedContributed := rfl
  have huncontributed : applyV6Batch {} { taskRuns := [sampleRun 1 false] } = .ok uncontributed := rfl
  refine ⟨⟨_, .v6Batch .empty huncontributed, ?_⟩,
    ⟨_, .v6Batch (.batch (.v6Batch .empty hseparate) habsorbed) hcontributed, ?_⟩⟩
  · decide
  · decide

end Database

end HerdrTop
