import HerdrTop.Store.Effects

/-!
# Which run stands for which

A run that was absorbed points to the run that stands for it. That run is canonical, so nothing has to
be followed twice, and what drains contributed is filed under canonical runs.

## What is proved

- `Linked`: aliases point to canonical runs, and associations and artifacts name what is stored. Every
  accepted operation keeps it (`TargetStep.linked`).
- `Accounted`: what is filed under a canonical run is what was recorded for the runs that it stands for,
  up to drains that are finalized. Every accepted operation keeps it (`TargetStep.accounted`).
-/

namespace HerdrTop

namespace Database

variable {db db' : Database}

/-- Where a run points, if it is known; a canonical run points nowhere. -/
def target (db : Database) (runId : RunId) : Option (Option RunId) :=
  (db.taskRuns.get runId).map (·.mergedInto)

/-- The run that stands for a run, if it is known. -/
def survivor (db : Database) (runId : RunId) : Option RunId := (db.target runId).map (·.getD runId)

/-- Aliases point to canonical runs, and rows about drains name drains and runs that are stored. -/
structure Linked (db : Database) : Prop where
  flat : ∀ r t, db.target r = some (some t) → db.target t = some none
  drainKnown : ∀ d r, db.associated d r = true → db.historyDrains.contains d = true
  runKnown : ∀ d r, db.associated d r = true → db.target r ≠ none
  artifactKnown : ∀ d a, db.historyDrainArtifacts.contains (d, a) = true →
    db.historyDrains.contains d = true

theorem linked_empty : Linked {} where
  flat _ _ h := by cases h
  drainKnown _ _ h := by cases h
  runKnown _ _ h := by cases h
  artifactKnown _ _ h := by cases h

theorem canonical_isSome_iff {r : RunId} : (db.canonical r).isSome = true ↔ db.target r = some none := by
  unfold canonical target
  cases db.taskRuns.get r with
  | none => simp
  | some row => cases hm : row.mergedInto <;> simp [Option.filter, hm]

theorem associated_iff {d : HistoryDrainId} {r : RunId} :
    db.associated d r = true ↔ (d, r) ∈ HashMap.keys db.historyDrainRuns :=
  HashSet.contains_iff_mem_keys

/-! ### What a step does to the pointers -/

/-- The drains, their artifacts and what they contributed to are left alone. -/
structure SameDrains (db db' : Database) : Prop where
  historyDrains : db'.historyDrains = db.historyDrains
  artifacts : db'.historyDrainArtifacts = db.historyDrainArtifacts
  associations : db'.historyDrainRuns = db.historyDrainRuns

theorem SameRuns.sameDrains (h : SameRuns db db') : SameDrains db db' :=
  ⟨h.historyDrains, h.artifacts, h.associations⟩

/-- What a step does to the pointers, with what it makes of canonical runs. -/
inductive TargetStep (db db' : Database) : (RunId → RunId) → Prop
  /-- Nothing changes. -/
  | same (drains : SameDrains db db') (targets : ∀ r, db'.target r = db.target r) : TargetStep db db' id
  /-- A run that is no alias is stored. -/
  | stored (runId : RunId) (drains : SameDrains db db') (notAlias : ∀ t, db.target runId ≠ some (some t))
      (targets : ∀ r, db'.target r = if r = runId then some none else db.target r) :
      TargetStep db db' id
  /-- An alias of a canonical run is added. -/
  | aliased (runId aliasRunId : RunId) (drains : SameDrains db db') (canonical : db.target runId = some none)
      (fresh : db.target aliasRunId = none)
      (targets : ∀ r, db'.target r = if r = aliasRunId then some (some runId) else db.target r) :
      TargetStep db db' id
  /-- A run is absorbed. -/
  | merged (survivor absorbed : RunId) (distinct : survivor ≠ absorbed)
      (survivorCanonical : db.target survivor = some none)
      (absorbedCanonical : db.target absorbed = some none)
      (historyDrains : db'.historyDrains = db.historyDrains)
      (artifacts : db'.historyDrainArtifacts = db.historyDrainArtifacts)
      (associations : ∀ d r, db'.associated d r = true ↔ r ≠ absorbed ∧
        (db.associated d r = true ∨ (r = survivor ∧ db.associated d absorbed = true)))
      (targets : ∀ r, db'.target r = if r = absorbed then some (some survivor)
        else if db.target r = some (some absorbed) then some (some survivor) else db.target r) :
      TargetStep db db' (substitute · survivor absorbed)

theorem SameDrains.associated (h : SameDrains db db') (d : HistoryDrainId) (r : RunId) :
    db'.associated d r = db.associated d r := by
  unfold Database.associated
  rw [h.associations]

theorem TargetStep.historyDrains {f : RunId → RunId} (h : TargetStep db db' f) :
    db'.historyDrains = db.historyDrains := by
  cases h with
  | same drains => exact drains.historyDrains
  | stored _ drains => exact drains.historyDrains
  | aliased _ _ drains => exact drains.historyDrains
  | merged _ _ _ _ _ historyDrains => exact historyDrains

theorem TargetStep.artifacts {f : RunId → RunId} (h : TargetStep db db' f) :
    db'.historyDrainArtifacts = db.historyDrainArtifacts := by
  cases h with
  | same drains => exact drains.artifacts
  | stored _ drains => exact drains.artifacts
  | aliased _ _ drains => exact drains.artifacts
  | merged _ _ _ _ _ _ artifacts => exact artifacts

/-- An association that is left was there, for this run or for the one that it absorbed. -/
theorem TargetStep.association_origin {f : RunId → RunId} (h : TargetStep db db' f) {d : HistoryDrainId}
    {r : RunId} (hassoc : db'.associated d r = true) :
    ∃ r₀, db.associated d r₀ = true ∧ (r₀ = r ∨ f r₀ = r) := by
  cases h with
  | same drains => exact ⟨r, by rwa [drains.associated] at hassoc, .inl rfl⟩
  | stored _ drains => exact ⟨r, by rwa [drains.associated] at hassoc, .inl rfl⟩
  | aliased _ _ drains => exact ⟨r, by rwa [drains.associated] at hassoc, .inl rfl⟩
  | merged survivor absorbed _ _ _ _ _ associations =>
    obtain ⟨-, hdirect | ⟨rfl, habsorbed⟩⟩ := (associations d r).mp hassoc
    · exact ⟨r, hdirect, .inl rfl⟩
    · exact ⟨absorbed, habsorbed, .inr (by simp [substitute])⟩

/-- A run that is known stays known. -/
theorem TargetStep.known {f : RunId → RunId} (h : TargetStep db db' f) {r : RunId}
    (hr : db.target r ≠ none) : db'.target r ≠ none := by
  cases h with
  | same _ targets => rwa [targets]
  | stored runId _ _ targets =>
    rw [targets]
    split_ifs
    · simp
    · exact hr
  | aliased runId aliasRunId _ _ _ targets =>
    rw [targets]
    split_ifs
    · simp
    · exact hr
  | merged survivor absorbed _ _ _ _ _ _ targets =>
    rw [targets]
    split_ifs
    · simp
    · simp
    · exact hr

/-- Every step keeps the links. -/
theorem TargetStep.linked {f : RunId → RunId} (h : TargetStep db db' f) (hl : Linked db) : Linked db' := by
  refine ⟨?_, fun d r hassoc => ?_, fun d r hassoc => ?_, fun d a hartifact => ?_⟩
  · intro r t ht
    cases h with
    | same _ targets =>
      rw [targets] at ht ⊢
      exact hl.flat r t ht
    | stored runId _ notAlias targets =>
      rw [targets] at ht ⊢
      split_ifs at ht with hr
      · cases ht
      · split_ifs
        · rfl
        · exact hl.flat r t ht
    | aliased runId aliasRunId _ canonical fresh targets =>
      rw [targets] at ht ⊢
      have hfresh : db.target t = some none → t ≠ aliasRunId := by
        rintro htarget rfl
        rw [fresh] at htarget
        cases htarget
      split_ifs at ht with hr
      · cases ht
        rw [if_neg (hfresh canonical)]
        exact canonical
      · rw [if_neg (hfresh (hl.flat r t ht))]
        exact hl.flat r t ht
    | merged survivor absorbed distinct survivorCanonical _ _ _ _ targets =>
      have hsurvivor : db'.target survivor = some none := by
        rw [targets, if_neg distinct, survivorCanonical]
        simp
      rw [targets] at ht
      split_ifs at ht with hr hmoved
      · cases ht
        exact hsurvivor
      · cases ht
        exact hsurvivor
      · have hcanonical := hl.flat r t ht
        have hne : t ≠ absorbed := by
          rintro rfl
          exact hmoved ht
        rw [targets, if_neg hne, hcanonical]
        simp
  · obtain ⟨r₀, hassoc, -⟩ := h.association_origin hassoc
    rw [h.historyDrains]
    exact hl.drainKnown d r₀ hassoc
  · cases h with
    | same drains targets =>
      rw [targets]
      exact hl.runKnown d r (by rwa [drains.associated] at hassoc)
    | stored _ drains notAlias targets =>
      exact TargetStep.known (.stored _ drains notAlias targets)
        (hl.runKnown d r (by rwa [drains.associated] at hassoc))
    | aliased _ _ drains canonical fresh targets =>
      exact TargetStep.known (.aliased _ _ drains canonical fresh targets)
        (hl.runKnown d r (by rwa [drains.associated] at hassoc))
    | merged survivor absorbed distinct survivorCanonical absorbedCanonical hd ha associations targets =>
      obtain ⟨hne, hdirect | ⟨rfl, -⟩⟩ := (associations d r).mp hassoc
      · exact TargetStep.known
          (.merged survivor absorbed distinct survivorCanonical absorbedCanonical hd ha associations targets)
          (hl.runKnown d r hdirect)
      · rw [targets, if_neg hne, survivorCanonical]
        simp
  · rw [h.artifacts] at hartifact
    rw [h.historyDrains]
    exact hl.artifactKnown d a hartifact

/-! ### What is filed under whom -/

/-- What was recorded is filed under the run that stands for the run it was recorded for; what else is
filed under a canonical run is of a finalized drain. -/
structure Accounted (db : Database) (claims : List (HistoryDrainId × RunId)) : Prop where
  kept : ∀ claim ∈ claims, ∃ s, db.survivor claim.2 = some s ∧ db.associated claim.1 s = true
  claimed : ∀ d r, db.target r = some none → db.associated d r = true →
    (∃ claim ∈ claims, claim.1 = d ∧ db.survivor claim.2 = some r) ∨ db.finalizedDrain d = true

theorem accounted_empty : Accounted {} [] where
  kept _ h := by cases h
  claimed _ _ _ h := by cases h

/-- The run that stands for a run is canonical. -/
theorem Linked.survivor_canonical (hl : Linked db) {a s : RunId} (h : db.survivor a = some s) :
    db.target s = some none := by
  unfold survivor at h
  cases hget : db.target a with
  | none =>
    rw [hget] at h
    cases h
  | some target =>
    rw [hget] at h
    cases target with
    | none =>
      cases h
      exact hget
    | some t =>
      cases h
      exact hl.flat a t hget

theorem survivor_of_canonical {r : RunId} (h : db.target r = some none) : db.survivor r = some r := by
  rw [survivor, h]
  rfl

/-- A step moves what stands for a run as it moves canonical runs. -/
theorem TargetStep.survivor {f : RunId → RunId} (h : TargetStep db db' f) {a s : RunId}
    (hs : db.survivor a = some s) : db'.survivor a = some (f s) := by
  unfold Database.survivor at hs ⊢
  cases h with
  | same _ targets =>
    rw [targets]
    exact hs
  | stored runId _ notAlias targets =>
    rw [targets]
    split_ifs with ha
    · subst ha
      cases htarget : db.target a with
      | none =>
        rw [htarget] at hs
        cases hs
      | some target =>
        cases target with
        | none =>
          rw [htarget] at hs
          exact hs
        | some t => exact absurd htarget (notAlias t)
    · exact hs
  | aliased runId aliasRunId _ _ fresh targets =>
    rw [targets]
    split_ifs with ha
    · subst ha
      rw [fresh] at hs
      cases hs
    · exact hs
  | merged survivor absorbed distinct _ absorbedCanonical _ _ _ targets =>
    rw [targets]
    split_ifs with ha hmoved
    · subst ha
      rw [absorbedCanonical] at hs
      cases hs
      simp [substitute]
    · rw [hmoved] at hs
      cases hs
      simp [substitute]
    · cases htarget : db.target a with
      | none =>
        rw [htarget] at hs
        cases hs
      | some target =>
        rw [htarget] at hs
        have hne : s ≠ absorbed := by
          rintro rfl
          cases target with
          | none =>
            cases hs
            exact ha rfl
          | some t =>
            cases hs
            exact hmoved htarget
        simpa [substitute, hne] using hs

/-- What is filed under a canonical run was filed under one that became it. -/
theorem TargetStep.filed {f : RunId → RunId} (h : TargetStep db db' f) (hl : Linked db)
    {d : HistoryDrainId} {r : RunId} (hr : db'.target r = some none) (hassoc : db'.associated d r = true) :
    ∃ r₀, db.target r₀ = some none ∧ f r₀ = r ∧ db.associated d r₀ = true := by
  cases h with
  | same drains targets =>
    rw [targets] at hr
    rw [drains.associated] at hassoc
    exact ⟨r, hr, rfl, hassoc⟩
  | stored runId drains notAlias targets =>
    rw [drains.associated] at hassoc
    refine ⟨r, ?_, rfl, hassoc⟩
    rw [targets] at hr
    split_ifs at hr with hnew
    · have hknown := hl.runKnown d r hassoc
      cases htarget : db.target r with
      | none => exact absurd htarget hknown
      | some target =>
        cases target with
        | none => rfl
        | some t =>
          subst hnew
          exact absurd htarget (notAlias t)
    · exact hr
  | aliased runId aliasRunId drains _ _ targets =>
    rw [drains.associated] at hassoc
    refine ⟨r, ?_, rfl, hassoc⟩
    rw [targets] at hr
    split_ifs at hr with hnew
    · cases hr
    · exact hr
  | merged survivor absorbed distinct survivorCanonical absorbedCanonical _ _ associations targets =>
    obtain ⟨hne, hdirect | ⟨rfl, habsorbed⟩⟩ := (associations d r).mp hassoc
    · refine ⟨r, ?_, by simp [substitute, hne], hdirect⟩
      rw [targets, if_neg hne] at hr
      split_ifs at hr with hmoved
      · cases hr
      · exact hr
    · exact ⟨absorbed, absorbedCanonical, by simp [substitute], habsorbed⟩

/-- What is filed under a canonical run is filed under what it becomes. -/
theorem TargetStep.refiled {f : RunId → RunId} (h : TargetStep db db' f) {d : HistoryDrainId} {r : RunId}
    (hassoc : db.associated d r = true) : db'.associated d (f r) = true := by
  cases h with
  | same drains => rwa [drains.associated]
  | stored _ drains => rwa [drains.associated]
  | aliased _ _ drains => rwa [drains.associated]
  | merged survivor absorbed distinct _ _ _ _ associations =>
    rw [associations]
    by_cases hr : r = absorbed
    · subst hr
      simpa [substitute] using ⟨distinct, Or.inr hassoc⟩
    · simpa [substitute, hr] using Or.inl hassoc

theorem TargetStep.accounted {f : RunId → RunId} (h : TargetStep db db' f) (hl : Linked db)
    {claims : List (HistoryDrainId × RunId)} (ha : Accounted db claims) : Accounted db' claims where
  kept claim hclaim := by
    obtain ⟨s, hs, hassoc⟩ := ha.kept claim hclaim
    exact ⟨f s, h.survivor hs, h.refiled hassoc⟩
  claimed d r hr hassoc := by
    obtain ⟨r₀, hcanonical, rfl, hfiled⟩ := h.filed hl hr hassoc
    rcases ha.claimed d r₀ hcanonical hfiled with ⟨claim, hclaim, hd, hs⟩ | hfinalized
    · exact .inl ⟨claim, hclaim, hd, h.survivor hs⟩
    · refine .inr ?_
      rw [finalizedDrain, h.historyDrains]
      exact hfinalized

/-! ### The steps of operations -/

theorem associated_mergeAssociations {survivor absorbed : RunId} (hne : survivor ≠ absorbed)
    (d : HistoryDrainId) (r : RunId) :
    (db.mergeAssociations survivor absorbed).associated d r = true ↔ r ≠ absorbed ∧
      (db.associated d r = true ∨ (r = survivor ∧ db.associated d absorbed = true)) := by
  simp only [associated_iff, mergeAssociations]
  rw [HashSet.mem_keys_retain (p := fun association : HistoryDrainId × RunId =>
    decide (association.2 ≠ absorbed)), HashSet.mem_keys_extend]
  simp only [List.mem_map, List.mem_filter, decide_eq_true_eq]
  constructor
  · rintro ⟨⟨⟨d', a⟩, ⟨hmem, ha⟩, heq⟩ | hmem, hr⟩
    · cases ha
      cases heq
      exact ⟨hr, .inr ⟨rfl, hmem⟩⟩
    · exact ⟨hr, .inl hmem⟩
  · rintro ⟨hr, hmem | ⟨rfl, hmem⟩⟩
    · exact ⟨.inr hmem, hr⟩
    · exact ⟨.inl ⟨(d, absorbed), ⟨hmem, rfl⟩, rfl⟩, hr⟩

theorem target_insert {runId : RunId} {row : TaskRunRow}
    (h : ∀ r, db'.taskRuns.get r = if r = runId then some row else db.taskRuns.get r) (r : RunId) :
    db'.target r = if r = runId then some row.mergedInto else db.target r := by
  rw [target, h]
  split_ifs <;> rfl

/-- The row under which a run is stored points nowhere. -/
theorem storedRow_mergedInto {persisted : PersistTaskRun}
    (h : (db.taskRuns.get persisted.taskRun.runId).bind (·.mergedInto) = none) :
    (db.storedRow persisted).mergedInto = none := by
  unfold storedRow
  cases hget : db.taskRuns.get persisted.taskRun.runId with
  | none => rfl
  | some row =>
    rw [hget] at h
    exact h

theorem storedV6Row_mergedInto {persisted : PersistTaskRunV6}
    (h : (db.taskRuns.get persisted.taskRun.taskRun.runId).bind (·.mergedInto) = none) :
    (db.storedV6Row persisted).mergedInto = none := by
  unfold storedV6Row
  cases hget : db.taskRuns.get persisted.taskRun.taskRun.runId with
  | none => rfl
  | some row =>
    rw [hget] at h
    dsimp only
    split_ifs <;> exact h

theorem not_alias_of_bind {runId : RunId} (h : (db.taskRuns.get runId).bind (·.mergedInto) = none)
    (t : RunId) : db.target runId ≠ some (some t) := by
  unfold target
  cases hget : db.taskRuns.get runId with
  | none => simp
  | some row =>
    rw [hget] at h
    have hnone : row.mergedInto = none := h
    simp [hnone]

theorem RunStored.targetStep {persisted : PersistTaskRun} (h : RunStored db db' persisted) :
    TargetStep db db' id := by
  obtain ⟨hnot, -, -, _, _, -, rfl⟩ := h
  refine .stored persisted.taskRun.runId ⟨rfl, rfl, rfl⟩ (not_alias_of_bind hnot) fun r => ?_
  have hget := fun r => HashMap.get_insert db.taskRuns persisted.taskRun.runId r (db.storedRow persisted)
  rw [target_insert hget, storedRow_mergedInto hnot]

theorem RunV6Stored.targetStep {persisted : PersistTaskRunV6} (h : RunV6Stored db db' persisted) :
    TargetStep db db' id := by
  obtain ⟨hnot, -, -, _, _, taskRuns, -, hget, rfl⟩ := h
  refine .stored persisted.taskRun.taskRun.runId ⟨rfl, rfl, rfl⟩ (not_alias_of_bind hnot) fun r => ?_
  rw [target_insert hget, storedV6Row_mergedInto hnot]

/-- Where runs point after a merge. -/
theorem Merged.target {survivor absorbed : RunId} {survivorRow absorbedRow : TaskRunRow}
    (h : Merged db db' survivor absorbed survivorRow absorbedRow) (r : RunId) :
    db'.target r = if r = absorbed then some (some survivor)
      else if db.target r = some (some absorbed) then some (some survivor) else db.target r := by
  unfold Database.target
  rw [h.taskRuns]
  by_cases hr : r = absorbed
  · subst hr
    simp [h.absorbedGet, mergedRow, Ne.symm h.distinct]
  · by_cases hs : r = survivor
    · subst hs
      simp [h.survivorGet, mergedRow, hr, h.survivorCanonical]
    · cases hget : db.taskRuns.get r with
      | none => simp [hr]
      | some row =>
        by_cases hm : row.mergedInto = some absorbed
        · simp [mergedRow, hr, hs, hm]
        · simp [mergedRow, hr, hs, hm]

/-- What is filed under whom after a merge. -/
theorem Merged.associated {survivor absorbed : RunId} {survivorRow absorbedRow : TaskRunRow}
    (h : Merged db db' survivor absorbed survivorRow absorbedRow) (d : HistoryDrainId) (r : RunId) :
    db'.associated d r = true ↔ r ≠ absorbed ∧
      (db.associated d r = true ∨ (r = survivor ∧ db.associated d absorbed = true)) := by
  have hsame : db'.associated d r = (db.mergeAssociations survivor absorbed).associated d r := by
    unfold Database.associated
    rw [h.associations]
  rw [hsame, associated_mergeAssociations h.distinct]

theorem Merged.survivorTarget {survivor absorbed : RunId} {survivorRow absorbedRow : TaskRunRow}
    (h : Merged db db' survivor absorbed survivorRow absorbedRow) : db.target survivor = some none := by
  rw [Database.target, h.survivorGet, Option.map_some, h.survivorCanonical]

/-- A canonical run that is not absorbed stays canonical. -/
theorem Merged.canonical {survivor absorbed : RunId} {survivorRow absorbedRow : TaskRunRow}
    (h : Merged db db' survivor absorbed survivorRow absorbedRow) {r : RunId} (hne : r ≠ absorbed)
    (hr : db.target r = some none) : db'.target r = some none := by
  rw [h.target, if_neg hne, hr]
  simp

theorem Merged.targetStep {survivor absorbed : RunId} {survivorRow absorbedRow : TaskRunRow}
    (h : Merged db db' survivor absorbed survivorRow absorbedRow) :
    TargetStep db db' (substitute · survivor absorbed) := by
  refine .merged survivor absorbed h.distinct h.survivorTarget ?_ h.historyDrains h.artifacts h.associated
    h.target
  rw [Database.target, h.absorbedGet, Option.map_some, h.absorbedCanonical]

theorem sameRuns_targetStep (h : SameRuns db db') : TargetStep db db' id :=
  .same h.sameDrains fun r => by rw [target, h.taskRuns, target]

/-- A promotion stores the run, then adds the alias. -/
theorem KeyPromoted.targetSteps {promoted : PersistTaskRun} {oldKey : RunKey} {aliasRunId : RunId}
    (h : KeyPromoted db db' promoted oldKey aliasRunId) :
    ∃ next, TargetStep db next id ∧ TargetStep next db' id := by
  obtain ⟨next, hstored, hfresh, -, rfl⟩ := h.stored
  refine ⟨next, hstored.targetStep, .aliased promoted.taskRun.runId aliasRunId ⟨rfl, rfl, rfl⟩ ?_ ?_
    fun r => ?_⟩
  · obtain ⟨hnot, -, -, _, _, -, rfl⟩ := hstored
    have hget := fun r => HashMap.get_insert db.taskRuns promoted.taskRun.runId r (db.storedRow promoted)
    rw [target_insert hget, if_pos rfl, storedRow_mergedInto hnot]
  · rw [target, hfresh]
    rfl
  · have hget := fun r => HashMap.get_insert next.taskRuns aliasRunId r (next.aliasRow promoted oldKey)
    rw [target_insert hget]
    rfl

end Database

end HerdrTop
