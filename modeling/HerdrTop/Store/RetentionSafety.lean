import HerdrTop.Store.Restart
import HerdrTop.Store.Writer

/-!
# What retention deletes

Retention is a sequence of statements over about ten tables. Which runs it deletes is decided by the ends of
runs, by their successors and by the drains that are not finalized; whether an execution of a run is live
does not matter.

## What is proved

- `mem_doomedRuns`: a run is deleted exactly with the run that stands for it, and that one exactly when it
  expired.
- `Cleaned`, `retention_law`: what a retention pass deletes and reports, what is left, and that a second
  pass at the same time deletes nothing unless an edge leads to an absorbed run.
- `live_runs_are_deleted`: a run with a live execution is deleted; and with an edge to an absorbed run, a
  second pass deletes more.
-/

namespace HerdrTop

namespace Database

variable {db db' : Database}

/-! ### Every database that accepted batches lead to -/

/-- The databases that accepted batches, finalizations and retention lead to. -/
inductive Accepted : Database → Prop
  | empty : Accepted {}
  | batch {db db' : Database} {batch : PersistBatch} :
      Accepted db → db.applyBatch batch = .ok db' → Accepted db'
  | v6Batch {db db' : Database} {batch : PersistV6Batch} :
      Accepted db → db.applyV6Batch batch = .ok db' → Accepted db'
  | finalize {db db' : Database} {manifest : PersistHistoryDrain} {observedAtMs : ℤ}
      {result : HistoryDrainFinalization} :
      Accepted db → db.finalizeHistoryDrain manifest observedAtMs = .ok (db', result) → Accepted db'
  | cleanup {db : Database} (nowMs : ℤ) : Accepted db → Accepted (db.cleanupRetention nowMs).1

/-- What is filed under canonical runs is a history of some claims. -/
theorem Linked.history (hl : Linked db) : ∃ claims, History db claims := by
  let claims := (HashMap.keys db.historyDrainRuns).filter fun association =>
    decide (db.target association.2 = some none)
  have hmem : ∀ d r, (d, r) ∈ claims ↔ db.associated d r = true ∧ db.target r = some none := by
    intro d r
    rw [List.mem_filter, associated_iff, decide_eq_true_eq]
  refine ⟨claims, hl, fun ⟨d, r⟩ hclaim => ?_, fun d r hr hassoc => ?_⟩
  · obtain ⟨hassoc, hr⟩ := (hmem d r).mp hclaim
    exact ⟨r, survivor_of_canonical hr, hassoc⟩
  · exact .inl ⟨(d, r), (hmem d r).mpr ⟨hassoc, hr⟩, rfl, survivor_of_canonical hr⟩

theorem cleanupRetention_linked (hl : Linked db) (nowMs : ℤ) : Linked (db.cleanupRetention nowMs).1 := by
  have hpruned : Linked ((db.deleteEvents (satSubI64 nowMs eventRetentionMs)).pruneLedger
      (satSubI64 nowMs eventRetentionMs)) := { hl with }
  exact { deleteRuns_linked hpruned (satSubI64 nowMs runRetentionMs) with }

theorem Accepted.linked (h : Accepted db) : Linked db := by
  induction h with
  | empty => exact linked_empty
  | batch _ happly ih =>
    obtain ⟨claims, hh⟩ := ih.history
    exact (operations_history happly hh).linked
  | v6Batch _ happly ih =>
    obtain ⟨claims, hh⟩ := ih.history
    rcases applyV6Batch_ok happly with ⟨-, rfl⟩ | ⟨-, hcommit⟩
    · exact ih
    · exact (commitV6Batch_history hcommit hh).linked
  | finalize _ hfinalize ih =>
    obtain ⟨claims, hh⟩ := ih.history
    exact (finalizeHistoryDrain_history hfinalize hh).linked
  | cleanup nowMs _ ih => exact cleanupRetention_linked ih nowMs

/-! ### Which runs are deleted -/

/-- A run waits if a drain that is not finalized contributed to it or to a run that it stands for. -/
theorem isProtected_iff (hl : Linked db) {r : RunId} : db.isProtected r = true ↔
    ∃ d a, db.associated d a = true ∧ db.openDrain d = true ∧ (a = r ∨ db.target a = some (some r)) := by
  have hlineage : ∀ d a, db.associated d a = true →
      (r ∈ db.lineage db.lineageFuel a ↔ a = r ∨ db.target a = some (some r)) := by
    intro d a hassoc
    have hknown := hl.runKnown d a hassoc
    obtain ⟨fuel, hfuel⟩ := lineageFuel_of_known hknown
    obtain ⟨target, htarget⟩ := Option.ne_none_iff_exists'.mp hknown
    rw [hfuel]
    cases target with
    | none =>
      have hself : db.lineage (fuel + 1) a = [a] := lineage_of_canonical fun t ht => by
        rw [htarget] at ht
        cases ht
      rw [hself, List.mem_singleton, htarget]
      simp [eq_comm]
    | some t =>
      rw [lineage_of_alias hl htarget, htarget]
      simp [eq_comm]
  unfold isProtected
  rw [List.any_eq_true]
  constructor
  · rintro ⟨⟨d, a⟩, hmem, h⟩
    rw [Bool.and_eq_true, decide_eq_true_eq] at h
    have hassoc := associated_iff.mpr hmem
    exact ⟨d, a, hassoc, h.1, (hlineage d a hassoc).mp h.2⟩
  · rintro ⟨d, a, hassoc, hopen, h⟩
    refine ⟨(d, a), associated_iff.mp hassoc, ?_⟩
    rw [Bool.and_eq_true, decide_eq_true_eq]
    exact ⟨hopen, (hlineage d a hassoc).mpr h⟩

/-- A run is protected with a run that it stands for. -/
theorem isProtected_of_alias (hl : Linked db) {r t : RunId} (ht : db.target r = some (some t))
    (h : db.isProtected r = true) : db.isProtected t = true := by
  obtain ⟨d, a, hassoc, hopen, rfl | ha⟩ := (isProtected_iff hl).mp h
  · exact (isProtected_iff hl).mpr ⟨d, a, hassoc, hopen, .inr ht⟩
  · have hcanonical := hl.flat a r ha
    rw [ht] at hcanonical
    cases hcanonical

/-- A run is deleted exactly when the run that stands for it expired. -/
theorem mem_doomedRuns (hl : Linked db) {cutoff : ℤ} {r : RunId} : r ∈ db.doomedRuns cutoff ↔
    ∃ s row, db.survivor r = some s ∧ db.taskRuns.get s = some row ∧ db.expired cutoff s row = true := by
  unfold doomedRuns
  rw [List.mem_filter, HashMap.mem_keys]
  constructor
  · rintro ⟨⟨row, hget⟩, hdoomed⟩
    obtain ⟨fuel, hfuel⟩ := lineageFuel_of_known (r := r) (by rw [target, hget]; simp)
    cases hm : row.mergedInto with
    | none =>
      refine ⟨r, row, survivor_of_canonical (by rw [target_of_get hget, hm]), hget, ?_⟩
      unfold doomed at hdoomed
      simpa only [hget, hm] using hdoomed
    | some t =>
      have htarget : db.target r = some (some t) := by rw [target_of_get hget, hm]
      obtain ⟨trow, htget, htm⟩ := Option.map_eq_some_iff.mp (hl.flat r t htarget)
      refine ⟨t, trow, by rw [survivor, htarget]; rfl, htget, ?_⟩
      rw [hfuel, doomed] at hdoomed
      simp only [hget, hm, Bool.and_eq_true] at hdoomed
      have hexpired := hdoomed.2
      unfold doomed at hexpired
      simpa only [htget, htm] using hexpired
  · rintro ⟨s, row, hs, hget, hexpired⟩
    obtain ⟨target, htarget, hsurvivor⟩ := Option.map_eq_some_iff.mp hs
    obtain ⟨rrow, hrget, hrm⟩ := Option.map_eq_some_iff.mp htarget
    refine ⟨⟨rrow, hrget⟩, ?_⟩
    obtain ⟨fuel, hfuel⟩ := lineageFuel_of_known (r := r) (by rw [htarget]; simp)
    cases target with
    | none =>
      obtain rfl : r = s := hsurvivor
      rw [hget] at hrget
      cases hrget
      unfold doomed
      simpa only [hget, hrm] using hexpired
    | some t =>
      obtain rfl : t = s := hsurvivor
      have hm : row.mergedInto = none := by
        have hflat := hl.flat r t htarget
        rw [target_of_get hget] at hflat
        exact Option.some.inj hflat
      have hfree : db.isProtected r = false := by
        by_contra hprotected
        have ht := isProtected_of_alias hl htarget (by simpa using hprotected)
        unfold expired at hexpired
        rw [ht] at hexpired
        simp at hexpired
      rw [hfuel, doomed]
      simp only [hrget, hrm, hfree, Bool.not_false, Bool.true_and]
      unfold doomed
      simpa only [hget, hm] using hexpired

/-- A run goes exactly when it is deleted; nothing goes for another reason. -/
theorem goes_eq (hl : Linked db) {cutoff : ℤ} {r : RunId} :
    db.goes (db.doomedRuns cutoff) r = true ↔ r ∈ db.doomedRuns cutoff := by
  cases htarget : db.target r with
  | none =>
    rw [goes, lineage_of_canonical fun t ht => by
      rw [htarget] at ht
      cases ht]
    simp
  | some target =>
    have hs : db.survivor r = some (target.getD r) := by rw [survivor, htarget]; rfl
    have hcanonical := hl.survivor_canonical hs
    rw [goes_iff hl hs, mem_doomedRuns hl, mem_doomedRuns hl, survivor_of_canonical hcanonical, hs]

/-- A canonical run is deleted exactly when it expired. -/
theorem canonical_mem_doomedRuns (hl : Linked db) {cutoff : ℤ} {r : RunId} {row : TaskRunRow}
    (hrow : db.canonical r = some row) : r ∈ db.doomedRuns cutoff ↔ db.expired cutoff r row = true := by
  obtain ⟨hget, hm⟩ := canonical_eq_some.mp hrow
  have hs : db.survivor r = some r := survivor_of_canonical (by rw [target_of_get hget, hm])
  rw [mem_doomedRuns hl]
  constructor
  · rintro ⟨s, row', hs', hget', hexpired⟩
    rw [hs] at hs'
    cases hs'
    rw [hget] at hget'
    cases hget'
    exact hexpired
  · exact fun hexpired => ⟨r, row, hs, hget, hexpired⟩

theorem alias_mem_doomedRuns (hl : Linked db) {cutoff : ℤ} {r t : RunId} (h : db.target r = some (some t)) :
    r ∈ db.doomedRuns cutoff ↔ t ∈ db.doomedRuns cutoff := by
  have hr : db.survivor r = some t := by rw [survivor, h]; rfl
  have ht : db.survivor t = some t := survivor_of_canonical (hl.flat r t h)
  rw [mem_doomedRuns hl, mem_doomedRuns hl, hr, ht]

/-! ### The ring of events -/

/-- Where an event is in a part of the events, in their order, does not matter for its rank there. -/
theorem sessionRank_zipIdx {kept : List (EventRow × ℕ)} (hsorted : kept.Pairwise fun a b => a.2 < b.2)
    {j : ℕ} (hj : j < kept.length) :
    sessionRank (kept.map Prod.fst).zipIdx (kept[j].1, j) = sessionRank kept kept[j] := by
  have horder : ∀ i (hi : i < kept.length), j < i ↔ kept[j].2 < kept[i].2 := by
    intro i hi
    have hlt := List.pairwise_iff_getElem.mp hsorted
    constructor
    · exact hlt j i hj hi
    · intro h
      rcases Nat.lt_trichotomy j i with hji | rfl | hij
      · exact hji
      · exact absurd h (lt_irrefl _)
      · exact absurd h (hlt i j hi hj hij).not_gt
  have hindexed : (kept.map Prod.fst).zipIdx = kept.zipIdx.map fun x => (x.1.1, x.2) := by
    rw [List.zipIdx_map]
    rfl
  have hself : kept = kept.zipIdx.map Prod.fst := (List.zipIdx_map_fst _ _).symm
  generalize kept[j] = event at horder ⊢
  unfold sessionRank
  rw [hindexed, List.filter_map, List.length_map]
  conv_rhs => rw [hself, List.filter_map, List.length_map]
  congr 1
  refine List.filter_congr fun x hx => ?_
  obtain ⟨-, hlt, hx'⟩ := List.mem_zipIdx hx
  obtain ⟨other, i⟩ := x
  simp only [Nat.zero_add, Nat.sub_zero] at hlt hx'
  have hcompare := horder i hlt
  rw [← hx'] at hcompare
  simp [Function.comp, hcompare]

theorem latestEvents_latestEvents (events : List EventRow) :
    latestEvents (latestEvents events) = latestEvents events := by
  let kept := events.zipIdx.filter fun event => sessionRank events.zipIdx event < eventRingLimit
  have hsorted : kept.Pairwise fun a b => a.2 < b.2 := by
    refine List.Pairwise.filter _ (List.pairwise_map.mp ?_)
    rw [List.zipIdx_map_snd]
    exact List.pairwise_lt_range'
  show ((kept.map Prod.fst).zipIdx.filter _).map Prod.fst = kept.map Prod.fst
  rw [List.filter_eq_self.mpr, List.zipIdx_map_fst]
  intro x hx
  obtain ⟨-, hlt, hx'⟩ := List.mem_zipIdx hx
  obtain ⟨event, j⟩ := x
  simp only [Nat.zero_add, Nat.sub_zero, List.length_map, List.getElem_map] at hlt hx'
  rw [decide_eq_true_eq, hx', show latestEvents events = kept.map Prod.fst from rfl,
    sessionRank_zipIdx hsorted hlt]
  have hmem := List.mem_filter.mp (List.getElem_mem hlt)
  refine lt_of_le_of_lt ?_ (of_decide_eq_true hmem.2)
  exact (List.filter_sublist.filter _).length_le

/-- The events that are kept are kept again. -/
theorem keptEvents_keptEvents {cutoff : ℤ} (hevents : db'.events = db.keptEvents cutoff) :
    db'.keptEvents cutoff = db'.events := by
  have hrecent : (db'.events.filter fun event => cutoff ≤ event.seenAtMs) = db'.events := by
    refine List.filter_eq_self.mpr fun event hevent => ?_
    rw [hevents, keptEvents, latestEvents] at hevent
    obtain ⟨x, hx, rfl⟩ := List.mem_map.mp hevent
    exact (List.mem_filter.mp (List.fst_mem_of_mem_zipIdx (List.mem_filter.mp hx).1)).2
  rw [keptEvents, hrecent, hevents, keptEvents, latestEvents_latestEvents]

/-! ### When a run expired -/

/-- A canonical run that ended before the cutoff, with no successor that has no end, and that no drain that
is not finalized contributed to, neither to it nor to a run that it stands for. -/
structure Expired (db : Database) (cutoff : ℤ) (r : RunId) (row : TaskRunRow) : Prop where
  ended : ∃ endedAtMs, row.endedAtMs = some endedAtMs ∧ endedAtMs < cutoff
  children : ∀ edge, db.executionEdges.contains edge = true → edge.parentRunId = r →
    db.active edge.childRunId = false
  dependents : ∀ edge, db.dependencyEdges.contains edge = true → edge.prerequisiteRunId = r →
    db.active edge.dependentRunId = false
  unprotected : ∀ d a, db.associated d a = true → db.openDrain d = true →
    a ≠ r ∧ db.target a ≠ some (some r)

theorem expired_iff (hl : Linked db) {cutoff : ℤ} {r : RunId} {row : TaskRunRow}
    (hm : row.mergedInto = none) : db.expired cutoff r row = true ↔ db.Expired cutoff r row := by
  unfold expired
  simp only [Bool.and_eq_true, List.all_eq_true, Bool.or_eq_true, Bool.not_eq_true', decide_eq_true_eq,
    Option.any_eq_true, hm, Option.isNone_none, true_and]
  constructor
  · rintro ⟨⟨⟨⟨endedAtMs, hended, hold⟩, hchildren⟩, hdependents⟩, hfree⟩
    refine ⟨⟨endedAtMs, hended, hold⟩, fun edge hedge hr => ?_, fun edge hedge hr => ?_, fun d a hassoc hopen => ?_⟩
    · exact (hchildren edge (HashMap.mem_keys.mpr (HashMap.contains_iff.mp hedge))).resolve_left (not_not.mpr hr)
    · exact (hdependents edge (HashMap.mem_keys.mpr (HashMap.contains_iff.mp hedge))).resolve_left
        (not_not.mpr hr)
    · rw [← not_or]
      intro hwaits
      have hprotected := (isProtected_iff hl).mpr ⟨d, a, hassoc, hopen, hwaits⟩
      rw [hfree] at hprotected
      cases hprotected
  · rintro ⟨⟨endedAtMs, hended, hold⟩, hchildren, hdependents, hunprotected⟩
    refine ⟨⟨⟨⟨endedAtMs, hended, hold⟩, fun edge hedge => ?_⟩, fun edge hedge => ?_⟩, ?_⟩
    · by_cases hr : edge.parentRunId = r
      · exact .inr (hchildren edge (HashMap.contains_iff.mpr (HashMap.mem_keys.mp hedge)) hr)
      · exact .inl hr
    · by_cases hr : edge.prerequisiteRunId = r
      · exact .inr (hdependents edge (HashMap.contains_iff.mpr (HashMap.mem_keys.mp hedge)) hr)
      · exact .inl hr
    · by_contra hprotected
      obtain ⟨d, a, hassoc, hopen, hwaits⟩ := (isProtected_iff hl).mp (by simpa using hprotected)
      obtain ⟨hne, htarget⟩ := hunprotected d a hassoc hopen
      exact hwaits.elim hne htarget

/-! ### What is left -/

/-- No row refers to a run: no edge, execution, agent, alias, ordinal or total, no association of a drain and no
publication. The before-images of events are deleted with their events; they keep the name that an event had
before its run was absorbed, and that may be the name of a run that is gone. -/
structure Unreferenced (db : Database) (r : RunId) : Prop where
  executionEdges : ∀ edge, db.executionEdges.contains edge = true →
    edge.parentRunId ≠ r ∧ edge.childRunId ≠ r
  dependencyEdges : ∀ edge, db.dependencyEdges.contains edge = true →
    edge.prerequisiteRunId ≠ r ∧ edge.dependentRunId ≠ r
  executions : ∀ id execution, db.executions.get id = some execution → execution.taskRunId ≠ r
  agentNodes : ∀ id node, db.agentNodes.get id = some node → node.taskRunId ≠ r
  displayOrdinal : db.displayOrdinals.get (.taskRun, r.text) = none
  aliases : ∀ a, db.target a ≠ some (some r)
  rateTotals : db.runRateTotals.get r = none
  associations : ∀ d, db.associated d r = false
  publications : ∀ a publication, db.historyRunPublications.get a = some publication →
    publication.canonicalRunId ≠ r

/-- What holds once runs were deleted. -/
structure RunsDeleted (db db' : Database) (doomedRuns : List RunId) : Prop where
  taskRuns : ∀ r, db'.taskRuns.get r = if r ∈ doomedRuns then none else db.taskRuns.get r
  executionEdges : ∀ edge createdAtMs, db'.executionEdges.get edge = some createdAtMs ↔
    db.executionEdges.get edge = some createdAtMs ∧ edge.parentRunId ∉ doomedRuns ∧
      edge.childRunId ∉ doomedRuns
  dependencyEdges : ∀ edge createdAtMs, db'.dependencyEdges.get edge = some createdAtMs ↔
    db.dependencyEdges.get edge = some createdAtMs ∧ edge.prerequisiteRunId ∉ doomedRuns ∧
      edge.dependentRunId ∉ doomedRuns
  executions : ∀ id execution, db'.executions.get id = some execution ↔
    db.executions.get id = some execution ∧ execution.taskRunId ∉ doomedRuns
  agentNodes : ∀ id node, db'.agentNodes.get id = some node ↔
    db.agentNodes.get id = some node ∧ node.taskRunId ∉ doomedRuns
  runOrdinals : ∀ r ∈ doomedRuns, db'.displayOrdinals.get (.taskRun, r.text) = none
  agentOrdinals : ∀ id node, db.agentNodes.get id = some node → node.taskRunId ∈ doomedRuns →
    db'.displayOrdinals.get (.agentNode, id) = none
  rateTotals : ∀ r ∈ doomedRuns, db'.runRateTotals.get r = none
  associations : ∀ d r, db'.associated d r = true ↔ db.associated d r = true ∧ r ∉ doomedRuns
  publications : ∀ a publication, db'.historyRunPublications.get a = some publication →
    publication.canonicalRunId ∉ doomedRuns
  historyDrains : db'.historyDrains = db.historyDrains

theorem deleteRuns_deleted (hl : Linked db) (cutoff : ℤ) :
    RunsDeleted db (db.deleteRuns (db.doomedRuns cutoff)) (db.doomedRuns cutoff) := by
  have hgoes : ∀ r, (!db.goes (db.doomedRuns cutoff) r) = decide (r ∉ db.doomedRuns cutoff) := by
    intro r
    rw [Bool.eq_iff_iff, Bool.not_eq_true', Bool.eq_false_iff, ne_eq, goes_eq hl, decide_eq_true_eq]
  constructor
  · intro r
    rw [deleteRuns, HashMap.get_retain]
    simp only [hgoes]
    cases db.taskRuns.get r with
    | none => simp
    | some row => by_cases hr : r ∈ db.doomedRuns cutoff <;> simp [Option.filter, hr]
  · intro edge createdAtMs
    rw [deleteRuns, HashMap.get_retain, Option.filter_eq_some_iff]
    simp only [hgoes, Bool.and_eq_true, decide_eq_true_eq]
  · intro edge createdAtMs
    rw [deleteRuns, HashMap.get_retain, Option.filter_eq_some_iff]
    simp only [hgoes, Bool.and_eq_true, decide_eq_true_eq]
  · intro id execution
    rw [deleteRuns, HashMap.get_retain, Option.filter_eq_some_iff]
    simp only [hgoes, decide_eq_true_eq]
  · intro id node
    rw [deleteRuns, HashMap.get_retain, Option.filter_eq_some_iff]
    simp only [hgoes, decide_eq_true_eq]
  · intro r hr
    rw [deleteRuns, HashMap.get_retain]
    have hmem : r.text ∈ (db.doomedRuns cutoff).map RunId.text := List.mem_map_of_mem hr
    cases db.displayOrdinals.get (.taskRun, r.text) <;> simp [Option.filter, hmem]
  · intro id node hnode hr
    have hmem : id ∈ (db.agentNodes.toList.filter fun node =>
        node.2.taskRunId ∈ db.doomedRuns cutoff).map Prod.fst := by
      refine List.mem_map.mpr ⟨(id, node), List.mem_filter.mpr ⟨HashMap.mem_toList.mpr hnode, ?_⟩, rfl⟩
      exact decide_eq_true hr
    rw [deleteRuns, HashMap.get_retain, Option.filter_eq_none_iff]
    intro ordinal _
    simpa using hmem
  · intro r hr
    rw [deleteRuns, HashMap.get_retain]
    simp only [hgoes]
    cases db.runRateTotals.get r <;> simp [Option.filter, hr]
  · intro d r
    rw [deleteRuns_associated, Bool.eq_false_iff, ne_eq, goes_eq hl]
  · intro a publication h
    rw [deleteRuns, HashMap.get_retain, Option.filter_eq_some_iff] at h
    simpa only [hgoes, decide_eq_true_eq] using h.2
  · rfl

theorem RunsDeleted.target {doomedRuns : List RunId} (h : RunsDeleted db db' doomedRuns) (r : RunId) :
    db'.target r = if r ∈ doomedRuns then none else db.target r := by
  rw [Database.target, h.taskRuns]
  split_ifs
  · rfl
  · rfl

theorem RunsDeleted.unreferenced (hl : Linked db) {cutoff : ℤ} (h : RunsDeleted db db' (db.doomedRuns cutoff))
    {r : RunId} (hr : r ∈ db.doomedRuns cutoff) : Unreferenced db' r where
  executionEdges edge hedge := by
    obtain ⟨createdAtMs, hget⟩ := HashMap.contains_iff.mp hedge
    obtain ⟨-, hparent, hchild⟩ := (h.executionEdges edge createdAtMs).mp hget
    exact ⟨fun heq => hparent (heq ▸ hr), fun heq => hchild (heq ▸ hr)⟩
  dependencyEdges edge hedge := by
    obtain ⟨createdAtMs, hget⟩ := HashMap.contains_iff.mp hedge
    obtain ⟨-, hprerequisite, hdependent⟩ := (h.dependencyEdges edge createdAtMs).mp hget
    exact ⟨fun heq => hprerequisite (heq ▸ hr), fun heq => hdependent (heq ▸ hr)⟩
  executions id execution hget heq := ((h.executions id execution).mp hget).2 (heq ▸ hr)
  agentNodes id node hget heq := ((h.agentNodes id node).mp hget).2 (heq ▸ hr)
  displayOrdinal := h.runOrdinals r hr
  aliases a ha := by
    rw [h.target] at ha
    split_ifs at ha with hdoomed
    exact hdoomed ((alias_mem_doomedRuns hl ha).mpr hr)
  rateTotals := h.rateTotals r hr
  associations d := by
    rw [Bool.eq_false_iff]
    exact fun hassoc => ((h.associations d r).mp hassoc).2 hr
  publications a publication hget heq := h.publications a publication hget (heq ▸ hr)

/-! ### A second pass -/

/-- No edge leads to a run that was absorbed. -/
structure EdgesCanonical (db : Database) : Prop where
  children : ∀ edge, db.executionEdges.contains edge = true → ¬ db.IsAlias edge.childRunId
  dependents : ∀ edge, db.dependencyEdges.contains edge = true → ¬ db.IsAlias edge.dependentRunId

/-- A canonical run that is deleted has an end. -/
theorem not_active_of_doomed (hl : Linked db) {cutoff : ℤ} {r : RunId} (hr : r ∈ db.doomedRuns cutoff)
    (hcanonical : ¬ db.IsAlias r) : db.active r = false := by
  obtain ⟨s, row, hs, hget, hexpired⟩ := (mem_doomedRuns hl).mp hr
  obtain ⟨target, htarget, rfl⟩ := Option.map_eq_some_iff.mp hs
  cases target with
  | some t => exact absurd ⟨t, htarget⟩ hcanonical
  | none =>
    rw [Option.getD_none] at hget
    have hm : row.mergedInto = none := by
      rw [target_of_get hget] at htarget
      exact Option.some.inj htarget
    obtain ⟨endedAtMs, hended, -⟩ := ((expired_iff hl hm).mp hexpired).ended
    rw [active, hget, Option.any_some, hended]
    rfl

/-- Runs that a pass kept, a second pass keeps. -/
theorem doomedRuns_again (hl : Linked db) (hl' : Linked db') {cutoff : ℤ}
    (h : RunsDeleted db db' (db.doomedRuns cutoff)) (hedges : EdgesCanonical db) :
    db'.doomedRuns cutoff = [] := by
  refine List.eq_nil_iff_forall_not_mem.mpr fun r hr => ?_
  obtain ⟨s, row, hs, hget', hexpired⟩ := (mem_doomedRuns hl').mp hr
  have hm : row.mergedInto = none := by
    have hcanonical := hl'.survivor_canonical hs
    rw [target_of_get hget'] at hcanonical
    exact Option.some.inj hcanonical
  obtain ⟨hget, hkept⟩ : db.taskRuns.get s = some row ∧ s ∉ db.doomedRuns cutoff := by
    rw [h.taskRuns] at hget'
    split_ifs at hget' with hdoomed
    exact ⟨hget', hdoomed⟩
  obtain ⟨hended, hchildren, hdependents, hunprotected⟩ := (expired_iff hl' hm).mp hexpired
  have hactive : ∀ other, db'.active other = false → (other ∈ db.doomedRuns cutoff → ¬ db.IsAlias other) →
      db.active other = false := by
    intro other hother hcanonical
    by_cases hdoomed : other ∈ db.doomedRuns cutoff
    · exact not_active_of_doomed hl hdoomed (hcanonical hdoomed)
    · rw [active, h.taskRuns, if_neg hdoomed] at hother
      exact hother
  refine hkept ((canonical_mem_doomedRuns hl (canonical_eq_some.mpr ⟨hget, hm⟩)).mpr
    ((expired_iff hl hm).mpr ⟨hended, fun edge hedge hparent => ?_, fun edge hedge hprerequisite => ?_,
      fun d a hassoc hopen => ?_⟩))
  · by_cases hdoomed : edge.childRunId ∈ db.doomedRuns cutoff
    · exact not_active_of_doomed hl hdoomed (hedges.children edge hedge)
    · obtain ⟨createdAtMs, hgetEdge⟩ := HashMap.contains_iff.mp hedge
      have hstays := (h.executionEdges edge createdAtMs).mpr ⟨hgetEdge, hparent ▸ hkept, hdoomed⟩
      refine hactive _ (hchildren edge (HashMap.contains_iff.mpr ⟨_, hstays⟩) hparent) fun hin => ?_
      exact absurd hin hdoomed
  · by_cases hdoomed : edge.dependentRunId ∈ db.doomedRuns cutoff
    · exact not_active_of_doomed hl hdoomed (hedges.dependents edge hedge)
    · obtain ⟨createdAtMs, hgetEdge⟩ := HashMap.contains_iff.mp hedge
      have hstays := (h.dependencyEdges edge createdAtMs).mpr ⟨hgetEdge, hprerequisite ▸ hkept, hdoomed⟩
      refine hactive _ (hdependents edge (HashMap.contains_iff.mpr ⟨_, hstays⟩) hprerequisite) fun hin => ?_
      exact absurd hin hdoomed
  · have hstays : a = s ∨ db.target a = some (some s) → a ∉ db.doomedRuns cutoff := by
      rintro (rfl | ha)
      · exact hkept
      · exact fun hin => hkept ((alias_mem_doomedRuns hl ha).mp hin)
    rw [← not_or]
    intro hwaits
    have ha := hstays hwaits
    have hopen' : db'.openDrain d = true := by rwa [openDrain, h.historyDrains]
    obtain ⟨hne, htarget⟩ := hunprotected d a ((h.associations d a).mpr ⟨hassoc, ha⟩) hopen'
    rw [h.target, if_neg ha] at htarget
    exact hwaits.elim hne htarget

/-- Deleting no runs changes nothing. -/
theorem deleteRuns_nil : db.deleteRuns [] = db := by
  have hgoes : ∀ r, db.goes [] r = false := fun r => by simp [goes]
  have hordinals : (db.deleteRuns []).displayOrdinals = db.displayOrdinals := by
    rw [deleteRuns]
    dsimp only
    rw [HashMap.retain_eq_self]
    intro entity _ _
    cases hkind : entity.1 <;> simp
  have htables : db.deleteRuns [] = { db with
      executionEdges := db.executionEdges.retain fun edge _ =>
        !db.goes [] edge.parentRunId && !db.goes [] edge.childRunId
      dependencyEdges := db.dependencyEdges.retain fun edge _ =>
        !db.goes [] edge.prerequisiteRunId && !db.goes [] edge.dependentRunId
      executions := db.executions.retain fun _ execution => !db.goes [] execution.taskRunId
      displayOrdinals := (db.deleteRuns []).displayOrdinals
      agentNodes := db.agentNodes.retain fun _ node => !db.goes [] node.taskRunId
      taskRuns := db.taskRuns.retain fun runId _ => !db.goes [] runId
      runRateTotals := db.runRateTotals.retain fun runId _ => !db.goes [] runId
      historyDrainRuns := HashMap.retain (fun association _ => !db.goes [] association.2) db.historyDrainRuns
      historyRunPublications := db.historyRunPublications.retain fun _ publication =>
        !db.goes [] publication.canonicalRunId } := rfl
  rw [htables, hordinals]
  simp [hgoes, HashMap.retain_eq_self]

theorem deleteEvents_again {cutoff : ℤ} (hevents : db.keptEvents cutoff = db.events)
    (himages : ∀ image original, db.historyEventBeforeImages.get image = some original →
      image.2 ∈ db.events.map (·.eventId)) : db.deleteEvents cutoff = db := by
  unfold deleteEvents
  rw [hevents]
  dsimp only
  rw [HashMap.retain_eq_self]
  intro image original hget
  exact decide_eq_true (himages image original hget)

theorem pruneLedger_again {cutoff : ℤ}
    (hledger : ∀ name seenAtMs, db.eventLedger.get name = some seenAtMs → cutoff ≤ seenAtMs) :
    db.pruneLedger cutoff = db := by
  unfold pruneLedger
  rw [HashMap.retain_eq_self]
  intro name seenAtMs hget
  exact decide_eq_true (hledger name seenAtMs hget)

theorem pruneSessions_again : db.pruneSessions.pruneSessions = db.pruneSessions := by
  have hsessions : HashMap.retain (fun session _ => db.pruneSessions.sessionReferenced session)
      db.pruneSessions.nativeAgentSessions = db.pruneSessions.nativeAgentSessions := by
    refine HashMap.retain_eq_self fun session u hget => ?_
    rw [pruneSessions, HashMap.get_retain, Option.filter_eq_some_iff] at hget
    exact hget.2
  have hself : db.pruneSessions.pruneSessions = { db.pruneSessions with
      nativeAgentSessions := HashMap.retain (fun session _ => db.pruneSessions.sessionReferenced session)
        db.pruneSessions.nativeAgentSessions } := rfl
  rw [hself, hsessions]

/-- The tables once old events and old ledger entries are deleted. -/
def withoutOldEvents (db : Database) (nowMs : ℤ) : Database :=
  (db.deleteEvents (satSubI64 nowMs eventRetentionMs)).pruneLedger (satSubI64 nowMs eventRetentionMs)

theorem withoutOldEvents_linked (hl : Linked db) (nowMs : ℤ) : Linked (db.withoutOldEvents nowMs) := { hl with }

/-- What a pass makes of the tables. -/
theorem cleanupRetention_fst (nowMs : ℤ) : (db.cleanupRetention nowMs).1 =
    ((db.withoutOldEvents nowMs).deleteRuns
      ((db.withoutOldEvents nowMs).doomedRuns (satSubI64 nowMs runRetentionMs))).pruneSessions := rfl

theorem cleanupRetention_deleted (hl : Linked db) (nowMs : ℤ) :
    RunsDeleted (db.withoutOldEvents nowMs) (db.cleanupRetention nowMs).1
      ((db.withoutOldEvents nowMs).doomedRuns (satSubI64 nowMs runRetentionMs)) :=
  { deleteRuns_deleted (withoutOldEvents_linked hl nowMs) (satSubI64 nowMs runRetentionMs) with }

/-- A second pass at the same time changes nothing. -/
theorem cleanupRetention_again (hl : Linked db) (hedges : EdgesCanonical db) (nowMs : ℤ) :
    ((db.cleanupRetention nowMs).1.cleanupRetention nowMs).1 = (db.cleanupRetention nowMs).1 := by
  have hl' := cleanupRetention_linked hl nowMs
  have hdoomed : (db.cleanupRetention nowMs).1.doomedRuns (satSubI64 nowMs runRetentionMs) = [] :=
    doomedRuns_again (withoutOldEvents_linked hl nowMs) hl' (cleanupRetention_deleted hl nowMs)
      ⟨hedges.children, hedges.dependents⟩
  have hevents : (db.cleanupRetention nowMs).1.deleteEvents (satSubI64 nowMs eventRetentionMs) =
      (db.cleanupRetention nowMs).1 := by
    refine deleteEvents_again (keptEvents_keptEvents rfl) fun image original hget => ?_
    rw [cleanupRetention_fst] at hget
    have himages : (db.historyEventBeforeImages.retain fun image _ =>
        image.2 ∈ (db.keptEvents (satSubI64 nowMs eventRetentionMs)).map (·.eventId)).get image =
          some original := hget
    rw [HashMap.get_retain, Option.filter_eq_some_iff] at himages
    exact of_decide_eq_true himages.2
  have hledger : (db.cleanupRetention nowMs).1.pruneLedger (satSubI64 nowMs eventRetentionMs) =
      (db.cleanupRetention nowMs).1 := by
    refine pruneLedger_again fun name seenAtMs hget => ?_
    have hkept : (db.eventLedger.retain fun _ seenAtMs =>
        satSubI64 nowMs eventRetentionMs ≤ seenAtMs).get name = some seenAtMs := hget
    rw [HashMap.get_retain, Option.filter_eq_some_iff] at hkept
    exact of_decide_eq_true hkept.2
  have hwithout : (db.cleanupRetention nowMs).1.withoutOldEvents nowMs = (db.cleanupRetention nowMs).1 := by
    rw [withoutOldEvents, hevents, hledger]
  rw [cleanupRetention_fst, hwithout, hdoomed, deleteRuns_nil]
  exact pruneSessions_again

/-! ### The law of retention -/

/-- What a pass deletes, what it reports, and what is left. -/
structure Cleaned (db db' : Database) (deleted : List (String × ℤ)) (cutoff : ℤ) : Prop where
  /-- A canonical run is deleted exactly when it expired. -/
  canonical : ∀ r row, db.canonical r = some row → (db'.taskRuns.get r = none ↔ db.Expired cutoff r row)
  /-- An absorbed run is deleted exactly with the run that stands for it. -/
  absorbed : ∀ r t, db.target r = some (some t) → (db'.taskRuns.get r = none ↔ db'.taskRuns.get t = none)
  /-- The other runs stay as they are. -/
  kept : ∀ r row, db'.taskRuns.get r = some row → db.taskRuns.get r = some row
  unreferenced : ∀ r, db.target r ≠ none → db'.taskRuns.get r = none → db'.Unreferenced r
  /-- Nothing numbers an agent that was deleted with its run. -/
  agentOrdinals : ∀ id node, db.agentNodes.get id = some node → db'.agentNodes.get id = none →
    db'.displayOrdinals.get (.agentNode, id) = none
  /-- The ledger entries that are reported are those that are not there any more. -/
  ledger : ∀ name seenAtMs, (name, seenAtMs) ∈ deleted ↔
    db.eventLedger.get name = some seenAtMs ∧ db'.eventLedger.get name = none

theorem cleanupRetention_cleaned (hl : Linked db) (nowMs : ℤ) :
    Cleaned db (db.cleanupRetention nowMs).1 (db.cleanupRetention nowMs).2.deletedLedgerEntries
      (satSubI64 nowMs runRetentionMs) := by
  have hl' := withoutOldEvents_linked hl nowMs
  have hdeleted := cleanupRetention_deleted hl nowMs
  have hgone : ∀ r, db.target r ≠ none → ((db.cleanupRetention nowMs).1.taskRuns.get r = none ↔
      r ∈ (db.withoutOldEvents nowMs).doomedRuns (satSubI64 nowMs runRetentionMs)) := by
    intro r hr
    rw [hdeleted.taskRuns]
    split_ifs with hdoomed
    · exact iff_of_true rfl hdoomed
    · refine iff_of_false (fun hnone => hr ?_) hdoomed
      rw [target, show db.taskRuns.get r = none from hnone, Option.map_none]
  constructor
  · intro r row hrow
    obtain ⟨hget, hm⟩ := canonical_eq_some.mp hrow
    have hknown : db.target r ≠ none := by
      rw [target_of_get hget]
      simp
    rw [hgone r hknown, @canonical_mem_doomedRuns (db.withoutOldEvents nowMs) hl' _ r row hrow, expired_iff hl' hm]
    exact ⟨fun h => ⟨h.ended, h.children, h.dependents, h.unprotected⟩,
      fun h => ⟨h.ended, h.children, h.dependents, h.unprotected⟩⟩
  · intro r t ht
    rw [hgone r (by simp [ht]), hgone t (by simp [hl.flat r t ht])]
    exact @alias_mem_doomedRuns (db.withoutOldEvents nowMs) hl' _ r t ht
  · intro r row hget
    rw [hdeleted.taskRuns] at hget
    split_ifs at hget
    exact hget
  · intro r hr hnone
    exact hdeleted.unreferenced hl' ((hgone r hr).mp hnone)
  · intro id node hnode hnone
    refine hdeleted.agentOrdinals id node hnode ?_
    by_contra hkept
    have hstays := (hdeleted.agentNodes id node).mpr ⟨hnode, hkept⟩
    rw [hnone] at hstays
    cases hstays
  · intro name seenAtMs
    constructor
    · intro hentry
      obtain ⟨hget, hforgotten⟩ := Writer.mem_deletedLedgerEntries hentry
      exact ⟨hget, HashMap.contains_eq_false.mp hforgotten⟩
    · rintro ⟨hget, hnone⟩
      have hpruned : (db.eventLedger.retain fun _ seenAtMs =>
          satSubI64 nowMs eventRetentionMs ≤ seenAtMs).get name = none := hnone
      rw [HashMap.get_retain, hget, Option.filter_some] at hpruned
      split_ifs at hpruned with hrecent
      refine (List.mem_insertionSort _).mpr (List.mem_filter.mpr ⟨HashMap.mem_toList.mpr hget, ?_⟩)
      simpa using hrecent

/-- What a retention pass does to a database that accepted batches lead to; a second pass at the same time
changes nothing, as long as no edge leads to an absorbed run. -/
theorem retention_law (h : Accepted db) (nowMs : ℤ) :
    Cleaned db (db.cleanupRetention nowMs).1 (db.cleanupRetention nowMs).2.deletedLedgerEntries
      (satSubI64 nowMs runRetentionMs) ∧
    (EdgesCanonical db →
      ((db.cleanupRetention nowMs).1.cleanupRetention nowMs).1 = (db.cleanupRetention nowMs).1) :=
  ⟨cleanupRetention_cleaned h.linked nowMs, fun hedges => cleanupRetention_again h.linked hedges nowMs⟩

/-! ### What retention does not look at -/

/-- A run in a state, stored at time zero. -/
def oldRun (ulid : ℕ) (state : TaskState) : PersistOp := .upsertTaskRun
  { taskRun :=
      { runId := ⟨ulid⟩
        key := .native .claude (toString ulid)
        displayOrdinal := ulid
        state
        hasControllerTaskStateEvent := false }
    nativeSession := none
    createdAtMs := 0
    updatedAtMs := 0
    finishedAtMs := none }

/-- A completed run whose execution goes on. -/
def workingBatch : PersistBatch :=
  [oldRun 1 .completed, .upsertExecution ⟨⟨"e", "pane", "terminal", ⟨1⟩, .working⟩, 0, 0, none⟩]

def working : Database := left (applyBatch {} workingBatch)

/-- A completed run that has an edge to a run without an end, which another completed run absorbed. -/
def strayEdgeBatch : PersistBatch :=
  [oldRun 1 .completed, oldRun 2 .completed, oldRun 3 .running, .mergeTaskRuns ⟨2⟩ ⟨3⟩,
    .upsertExecutionEdge ⟨⟨1⟩, ⟨3⟩⟩ 0]

def strayEdge : Database := left (applyBatch {} strayEdgeBatch)

theorem retention_law_working :
    Cleaned working (working.cleanupRetention (runRetentionMs + 1)).1
      (working.cleanupRetention (runRetentionMs + 1)).2.deletedLedgerEntries
      (satSubI64 (runRetentionMs + 1) runRetentionMs) ∧
    (EdgesCanonical working →
      ((working.cleanupRetention (runRetentionMs + 1)).1.cleanupRetention (runRetentionMs + 1)).1 =
        (working.cleanupRetention (runRetentionMs + 1)).1) :=
  have happly : applyBatch {} workingBatch = .ok working := rfl
  retention_law (.batch .empty happly) (runRetentionMs + 1)

/-- A run whose execution is live is deleted. A second pass deletes a run that the first one kept for the
sake of a successor that was absorbed. -/
theorem live_runs_are_deleted :
    (Accepted working ∧ working.live ⟨1⟩ = true ∧ (working.canonical ⟨1⟩).isSome = true ∧
      (working.cleanupRetention (runRetentionMs + 1)).1.taskRuns.get ⟨1⟩ = none) ∧
    (Accepted strayEdge ∧
      (strayEdge.cleanupRetention (runRetentionMs + 1)).1.taskRuns.contains ⟨1⟩ = true ∧
      ((strayEdge.cleanupRetention (runRetentionMs + 1)).1.cleanupRetention (runRetentionMs + 1)).1.taskRuns.contains
        ⟨1⟩ = false) := by
  have hworking : applyBatch {} workingBatch = .ok working := rfl
  have hstray : applyBatch {} strayEdgeBatch = .ok strayEdge := rfl
  refine ⟨⟨.batch .empty hworking, ?_⟩, .batch .empty hstray, ?_⟩
  · decide +kernel
  · decide +kernel

end Database

end HerdrTop
