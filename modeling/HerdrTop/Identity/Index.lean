import HerdrTop.Identity.Binding
import HerdrTop.Library.NameIndex

/-!
# The identity index of the model

The task runs and the map `runIdsByKey` seen as a `NameIndex`: runs are objects, run keys
their names. Provisional keys are hidden, native keys special, Controller keys final.

Each operation on the model that touches the two maps is one of the operations of
`NameIndex`; `applyBindingPlanAt_steps` says so for whole binding plans.
-/

namespace HerdrTop

/-- The kinds of run keys. -/
def runKeyKinds : NameIndex.Kinds RunKey where
  hidden k := k.isProvisional = true
  special k := k.isNative = true
  top k := k.isController = true
  not_hidden_of_top k h := by cases k <;> simp [RunKey.isController, RunKey.isProvisional] at h ⊢
  not_hidden_of_special k h := by cases k <;> simp [RunKey.isNative, RunKey.isProvisional] at h ⊢
  not_top_of_special k h := by cases k <;> simp [RunKey.isNative, RunKey.isController] at h ⊢

namespace DomainModel

/-- Runs and keys as objects and names. -/
def index (m : DomainModel) : NameIndex RunId RunKey where
  own id := (m.taskRuns.get id).map (·.key)
  names k := m.runIdsByKey.get k

/-- The identity index is sound: rows are filed under their own identity, and keys and runs
agree. -/
structure IndexSound (m : DomainModel) : Prop where
  /-- A row is filed under its own identity. -/
  filed : ∀ id run, m.taskRuns.get id = some run → run.runId = id
  /-- Keys and runs agree. -/
  index : m.index.Sound runKeyKinds

/-- The identity index is coherent: it is sound, and only runs that are known by a session or by a
Controller name have a session. -/
structure IndexCoherent (m : DomainModel) : Prop where
  /-- A row is filed under its own identity. -/
  filed : ∀ id run, m.taskRuns.get id = some run → run.runId = id
  /-- Keys and runs agree, and sessions are where they belong. -/
  index : m.index.Coherent runKeyKinds

theorem IndexCoherent.sound {m : DomainModel} (h : m.IndexCoherent) : m.IndexSound :=
  ⟨h.filed, h.index.toSound⟩

theorem own_eq_some {m : DomainModel} {id : RunId} {key : RunKey} :
    m.index.own id = some key ↔ ∃ run, m.taskRuns.get id = some run ∧ run.key = key := by
  simp [index]

theorem own_of_get {m : DomainModel} {id : RunId} {run : TaskRun}
    (h : m.taskRuns.get id = some run) : m.index.own id = some run.key := own_eq_some.mpr ⟨run, h, rfl⟩

/-! ### The operations -/

/-- Storing a run again under its key lists that key. -/
theorem index_insertTaskRun_same {m : DomainModel} {run : TaskRun} (old : TaskRun)
    (h : m.taskRuns.get run.runId = some old) (hk : run.key = old.key) :
    (m.insertTaskRun run).index = m.index.link run.key run.runId := by
  refine NameIndex.ext (funext fun id => ?_) (funext fun k => ?_)
  · simp only [index, insertTaskRun, HashMap.get_insert, NameIndex.link]
    split_ifs with hid
    · rw [hid, h, Option.map_some, Option.map_some, hk]
    · rfl
  · simp only [index, insertTaskRun, HashMap.get_insert, NameIndex.link, Function.update_apply]
    split_ifs with e
    · rfl
    · rw [get_withoutFormerKey, if_neg]
      rintro ⟨-, e'⟩
      rw [h, Option.map_some, Option.some.injEq] at e'
      exact e (hk ▸ e'.symm)

theorem index_insertTaskRun_new {m : DomainModel} {run : TaskRun}
    (h : m.taskRuns.get run.runId = none) :
    (m.insertTaskRun run).index = m.index.create run.runId run.key := by
  refine NameIndex.ext (funext fun id => ?_) (funext fun k => ?_)
  · simp only [index, insertTaskRun, HashMap.get_insert, NameIndex.create, Function.update_apply]
    split_ifs <;> rfl
  · simp only [index, insertTaskRun, HashMap.get_insert, NameIndex.create, Function.update_apply]
    split_ifs with e
    · rfl
    · rw [get_withoutFormerKey, h]
      simp

/-- Storing a run under a new key and adding the old one as an alias. -/
theorem index_promote {m : DomainModel} {run old : TaskRun}
    (h : m.taskRuns.get run.runId = some old) :
    ((m.insertTaskRun run).insertTaskRunAlias old.key run.runId).index =
      m.index.rename run.runId old.key run.key := by
  refine NameIndex.ext (funext fun id => ?_) (funext fun k => ?_)
  · simp only [index, insertTaskRunAlias, insertTaskRun, HashMap.get_insert, NameIndex.rename,
      Function.update_apply]
    split_ifs <;> rfl
  · simp only [index, insertTaskRunAlias, insertTaskRun, HashMap.get_insert, NameIndex.rename,
      Function.update_apply]
    split_ifs with e1 e2
    · rfl
    · rfl
    · rw [get_withoutFormerKey, if_neg]
      rintro ⟨-, e'⟩
      rw [h, Option.map_some, Option.some.injEq] at e'
      exact e1 e'.symm

theorem index_insertTaskRunAlias (m : DomainModel) (key : RunKey) (run : RunId) :
    (m.insertTaskRunAlias key run).index = m.index.link key run := by
  refine NameIndex.ext rfl (funext fun k => ?_)
  simp only [index, insertTaskRunAlias, HashMap.get_insert, NameIndex.link, Function.update_apply]

theorem mem_keysOf {m : DomainModel} {run : RunId} {key : RunKey} :
    key ∈ m.keysOf run ↔ m.runIdsByKey.get key = some run := by
  simp only [keysOf, List.mem_map, List.mem_filter, decide_eq_true_eq]
  constructor
  · rintro ⟨⟨k, id⟩, ⟨he, rfl⟩, rfl⟩
    exact HashMap.mem_toList.mp he
  · exact fun h => ⟨(key, run), ⟨HashMap.mem_toList.mpr h, rfl⟩, rfl⟩

theorem mem_allKeysOf {m : DomainModel} {run : RunId} {key : RunKey} :
    key ∈ m.allKeysOf run ↔ m.index.names key = some run ∨ m.index.own run = some key := by
  unfold allKeysOf
  rw [own_eq_some]
  cases h : m.taskRun run with
  | none =>
    have hn : m.taskRuns.get run = none := h
    simp [mem_keysOf, index, hn]
  | some taskRun =>
    have hs : m.taskRuns.get run = some taskRun := h
    by_cases hk : taskRun.key ∈ m.keysOf run
    · have hk' := mem_keysOf.mp hk
      simp only [if_pos hk]
      simp only [mem_keysOf, index, hs]
      constructor
      · exact .inl
      · rintro (e | ⟨_, e, rfl⟩)
        · exact e
        · cases e
          exact hk'
    · simp [hk, mem_keysOf, index, hs, eq_comm]

end DomainModel

/-! ### Keeping the index coherent -/

namespace DomainModel

theorem IndexCoherent.empty : IndexCoherent {} where
  filed _ _ h := by cases h
  index :=
    { leads := fun _ _ h => by cases h
      home := fun _ _ h => by cases h
      distinct := fun _ _ _ h => by cases h
      special_unique := fun _ _ _ h => by cases h
      special_owner := fun _ _ _ h => by cases h }

theorem filed_insertTaskRun {m : DomainModel}
    (h : ∀ id run, m.taskRuns.get id = some run → run.runId = id) (run : TaskRun) (id : RunId)
    (row : TaskRun) (hrow : (m.insertTaskRun run).taskRuns.get id = some row) : row.runId = id := by
  simp only [insertTaskRun, HashMap.get_insert] at hrow
  split_ifs at hrow with hid
  · cases hrow
    exact hid.symm
  · exact h id row hrow

/-- A run nobody has, under a key nobody has, is one step of the index. -/
theorem step_insertTaskRun_new {m : DomainModel} {run : TaskRun}
    (hrun : m.taskRuns.get run.runId = none) (hkey : m.runIdsByKey.get run.key = none)
    (hown : ∀ id row, m.taskRuns.get id = some row → row.key ≠ run.key) :
    NameIndex.Step runKeyKinds m.index none (m.insertTaskRun run).index := by
  rw [index_insertTaskRun_new hrun]
  refine NameIndex.Step.create _ _ ?_ hkey fun j hj => ?_
  · show (m.taskRuns.get run.runId).map (·.key) = none
    rw [hrun, Option.map_none]
  · obtain ⟨row, hrow, hk⟩ := own_eq_some.mp hj
    exact hown j row hrow hk

/-- A run stored again under its key is one step of the index. -/
theorem step_insertTaskRun_same {m : DomainModel} {run old : TaskRun}
    (hrun : m.taskRuns.get run.runId = some old) (hkey : run.key = old.key) :
    NameIndex.Step runKeyKinds m.index none (m.insertTaskRun run).index := by
  rw [index_insertTaskRun_same _ hrun hkey]
  exact NameIndex.Step.relist _ _ (hkey ▸ own_of_get hrun)

theorem IndexCoherent.insertTaskRun_new {m : DomainModel} (h : m.IndexCoherent) {run : TaskRun}
    (hrun : m.taskRuns.get run.runId = none) (hkey : m.runIdsByKey.get run.key = none)
    (hown : ∀ id row, m.taskRuns.get id = some row → row.key ≠ run.key) :
    (m.insertTaskRun run).IndexCoherent :=
  ⟨filed_insertTaskRun h.filed run, h.index.step (step_insertTaskRun_new hrun hkey hown)⟩

end DomainModel

/-! ### What a merge does to the runs -/

theorem adoptControllerEvidence_cases (m : DomainModel) (s a : RunId) (t : ℤ) :
    adoptControllerEvidence m s a t = m ∨
      ∃ run, m.taskRun s = some run ∧ adoptControllerEvidence m s a t =
        m.insertTaskRun (touchTaskRun { run with hasControllerTaskStateEvent := true } t) := by
  unfold adoptControllerEvidence
  split_ifs with h
  · cases hs : m.taskRun s with
    | none => exact .inl rfl
    | some run => exact .inr ⟨run, rfl, rfl⟩
  · exact .inl rfl

@[simp] theorem touchTaskRun_runId (run : TaskRun) (t : ℤ) :
    (touchTaskRun run t).runId = run.runId := TaskRun.touch_runId _ _

@[simp] theorem touchTaskRun_key (run : TaskRun) (t : ℤ) : (touchTaskRun run t).key = run.key :=
  TaskRun.touch_key _ _

@[simp] theorem touchTaskRun_displayOrdinal (run : TaskRun) (t : ℤ) :
    (touchTaskRun run t).displayOrdinal = run.displayOrdinal := TaskRun.touch_displayOrdinal _ _

@[simp] theorem touchTaskRun_state (run : TaskRun) (t : ℤ) :
    (touchTaskRun run t).state = run.state := TaskRun.touch_state _ _

@[simp] theorem touchTaskRun_createdAtMs (run : TaskRun) (t : ℤ) :
    (touchTaskRun run t).createdAtMs = run.createdAtMs := TaskRun.touch_createdAtMs _ _

@[simp] theorem touchTaskRun_updatedAtMs (run : TaskRun) (t : ℤ) :
    (touchTaskRun run t).updatedAtMs = some (max (run.updatedAtMs.getD t) t) := TaskRun.touch_updatedAtMs _ _

@[simp] theorem touchTaskRun_finishedAtMs (run : TaskRun) (t : ℤ) : (touchTaskRun run t).finishedAtMs =
    if run.state.isTerminal then some (run.finishedAtMs.getD (max (run.updatedAtMs.getD t) t)) else none :=
  TaskRun.touch_finishedAtMs _ _

@[simp] theorem touchTaskRun_hasControllerTaskStateEvent (run : TaskRun) (t : ℤ) :
    (touchTaskRun run t).hasControllerTaskStateEvent = run.hasControllerTaskStateEvent :=
  TaskRun.touch_hasControllerTaskStateEvent _ _

theorem foldRunRateTotals_frame (m : DomainModel) (s a : RunId) :
    ∃ totals diagnostics, m.foldRunRateTotals s a =
      { m with rateTotals := totals, diagnostics := diagnostics } := by
  unfold DomainModel.foldRunRateTotals
  split
  · exact ⟨_, _, rfl⟩
  · exact ⟨_, _, rfl⟩

theorem get_taskRuns_mergeInMemory (m : DomainModel) (s a : RunId) (c : ContractedGraphs) (t : ℤ)
    (id : RunId) : (mergeInMemory m s a c t).taskRuns.get id =
      if id = a then none else (adoptControllerEvidence m s a t).taskRuns.get id := by
  unfold mergeInMemory
  simp only [DomainModel.insertTaskRunAliases, DomainModel.repoint, DomainModel.removeTaskRunRecord,
    HashMap.get_remove, DomainModel.removeRunRateCursor]
  obtain ⟨_, _, h⟩ := foldRunRateTotals_frame
    ((((adoptControllerEvidence m s a t).foldTelemetry s a).foldRunKind s a).foldTaskRunV6State s a)
    s a
  rw [h]
  rfl

theorem get_runIdsByKey_mergeInMemory (m : DomainModel) (s a : RunId) (c : ContractedGraphs) (t : ℤ)
    (k : RunKey) : (mergeInMemory m s a c t).runIdsByKey.get k =
      if k ∈ (adoptControllerEvidence m s a t).allKeysOf a then some s
      else (adoptControllerEvidence m s a t).runIdsByKey.get k := by
  unfold mergeInMemory
  simp only [DomainModel.insertTaskRunAliases, HashMap.get_extend_const, DomainModel.repoint,
    DomainModel.removeTaskRunRecord, DomainModel.removeRunRateCursor]
  obtain ⟨_, _, h⟩ := foldRunRateTotals_frame
    ((((adoptControllerEvidence m s a t).foldTelemetry s a).foldRunKind s a).foldTaskRunV6State s a)
    s a
  rw [h]
  rfl

/-- A merge absorbs the one run into the other. -/
theorem index_mergeInMemory (m : DomainModel) (s a : RunId) (c : ContractedGraphs) (t : ℤ) :
    (mergeInMemory m s a c t).index = (adoptControllerEvidence m s a t).index.absorb s a := by
  refine NameIndex.ext (funext fun id => ?_) (funext fun k => ?_)
  · simp only [DomainModel.index, get_taskRuns_mergeInMemory, NameIndex.absorb,
      Function.update_apply]
    split_ifs <;> rfl
  · show (mergeInMemory m s a c t).runIdsByKey.get k = _
    rw [get_runIdsByKey_mergeInMemory]
    simp only [DomainModel.mem_allKeysOf, NameIndex.absorb]
    rfl

end HerdrTop
