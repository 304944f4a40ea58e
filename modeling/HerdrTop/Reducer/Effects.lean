import HerdrTop.Library.Checked
import HerdrTop.Reducer.Mutation
import HerdrTop.Reducer.Reconcile
import HerdrTop.Reducer.Sweeps

/-!
# What each function writes

One lemma for each function on transactions: it goes on by writes of the kinds of `Mutation`, with
the merges that it hands to the store. The entry points of the reducer are then read off.
-/

namespace HerdrTop

/-! ### Merges of a batch -/

/-- The run a key leads to is stored. -/
theorem DomainModel.Filed.taskRunByKey {m : DomainModel} (h : m.Filed) {key : RunKey} {run : TaskRun}
    (hk : m.taskRunByKey key = some run) : m.taskRuns.get run.runId = some run := by
  obtain ⟨id, -, hrun⟩ := Option.bind_eq_some_iff.mp hk
  rw [h.run id run hrun]
  exact hrun

theorem DomainModel.Filed.taskRun {m : DomainModel} (h : m.Filed) {id : RunId} {run : TaskRun}
    (hr : m.taskRun id = some run) : m.taskRuns.get run.runId = some run := by
  rw [h.run id run hr]
  exact hr

namespace Tx

@[simp] theorem withModel_model (tx : Tx) (m : DomainModel) : (tx.withModel m).model = m := rfl

/-- A transaction went on by writes without a merge. -/
def Writes (scope : Scope) (tx tx' : Tx) : Prop :=
  tx.model.Filed → Mutations scope tx.toCore [] tx'.toCore ∧ mergesOf tx'.persist = mergesOf tx.persist

section

variable {scope : Scope} {tx tx' tx'' : Tx}

theorem Writes.refl (tx : Tx) : tx.Writes scope tx := fun _ => ⟨.refl _, rfl⟩

theorem Writes.trans (h : tx.Writes scope tx') (h' : tx'.Writes scope tx'') :
    tx.Writes scope tx'' := fun hf => by
  obtain ⟨hm, hp⟩ := h hf
  obtain ⟨hm', hp'⟩ := h' (hm.filed hf)
  exact ⟨hm.trans hm', hp'.trans hp⟩

/-- One write. -/
theorem Writes.one (h : tx.model.Filed → Mutation scope tx.toCore [] tx'.toCore)
    (hp : mergesOf tx'.persist = mergesOf tx.persist) : tx.Writes scope tx' :=
  fun hf => ⟨.one (h hf), hp⟩

/-- Nothing that carries identities changes. -/
theorem Writes.quiet (rows : tx'.model.rows = tx.model.rows)
    (topology : tx'.model.topology = tx.model.topology)
    (ordinal : tx.nextOrdinal ≤ tx'.nextOrdinal) (hp : mergesOf tx'.persist = mergesOf tx.persist) :
    tx.Writes scope tx' :=
  Writes.one (fun _ => .quiet rows (fun _ _ => topology) ordinal) hp

/-- Rows of the topology change where that is allowed. -/
theorem Writes.topology (allowed : scope.opens = true ∨ scope.closes = true)
    (rows : tx'.model.rows = tx.model.rows) (ordinal : tx.nextOrdinal ≤ tx'.nextOrdinal)
    (hp : mergesOf tx'.persist = mergesOf tx.persist) : tx.Writes scope tx' := by
  refine Writes.one (fun _ => .quiet rows (fun hopens hcloses => ?_) ordinal) hp
  simp [hopens, hcloses] at allowed

/-- One more operation for the store. -/
theorem Writes.push (tx : Tx) (op : PersistOp) (hop : mergesOf [op] = []) :
    tx.Writes scope (tx.push op) :=
  Writes.quiet rfl rfl le_rfl (by simp [Tx.push, mergesOf_append, hop])

/-- Rows of the topology are stored, with an operation for the store. -/
theorem Writes.stored (tx : Tx) (m : DomainModel) (op : PersistOp) (hopens : scope.opens = true)
    (rows : m.rows = tx.model.rows) (hop : mergesOf [op] = []) :
    tx.Writes scope ((tx.withModel m).push op) :=
  Writes.topology (.inl hopens) rows le_rfl (by simp [Tx.push, withModel, mergesOf_append, hop])

theorem Writes.mono {scope' : Scope} (h : tx.Writes scope tx') (hsub : scope.Within scope') :
    tx.Writes scope' tx' := fun hf => ⟨(h hf).1.mono hsub, (h hf).2⟩

theorem Writes.foldl {α : Type} {f : Tx → α → Tx} (hf : ∀ (tx : Tx) a, tx.Writes scope (f tx a))
    (l : List α) (tx : Tx) : tx.Writes scope (l.foldl f tx) := by
  induction l generalizing tx with
  | nil => exact .refl tx
  | cons a l ih => exact (hf tx a).trans (ih _)

theorem Writes.foldlM {α : Type} {f : Tx → α → Except ReducerFailure Tx}
    (hf : ∀ (tx : Tx) a tx', f tx a = .ok tx' → tx.Writes scope tx') {l : List α} {start last : Tx}
    (h : l.foldlM f start = .ok last) : start.Writes scope last := by
  induction l generalizing start with
  | nil =>
    cases h
    exact .refl _
  | cons a l ih =>
    rw [List.foldlM_cons, bind_eq_ok] at h
    obtain ⟨next, h₁, h₂⟩ := h
    exact (hf start a next h₁).trans (ih h₂)

/-! ### Storing rows -/

theorem allocateOrdinal_ok {o : DisplayOrdinal} (h : tx.allocateOrdinal = .ok (o, tx')) :
    o = tx.nextOrdinal ∧ tx' = { tx with nextOrdinal := tx.nextOrdinal + 1 } := by
  unfold allocateOrdinal at h
  split_ifs at h
  simp only [Except.ok.injEq, Prod.mk.injEq] at h
  exact ⟨h.1.symm, h.2.symm⟩

theorem topologyOrdinal_writes {kind : TopologyKind} {id : String} {o : DisplayOrdinal}
    (hopens : scope.opens = true) (h : tx.topologyOrdinalOrAllocate kind id = .ok (o, tx')) :
    tx.Writes scope tx' := by
  unfold topologyOrdinalOrAllocate at h
  split at h
  · cases h
    exact .refl tx
  · rename_i hnone
    obtain ⟨⟨o', tx₁⟩, h₁, h₂⟩ := bind_eq_ok.mp h
    obtain ⟨rfl, rfl⟩ := allocateOrdinal_ok h₁
    cases h₂
    exact Writes.one (fun _ => .openRow kind id hopens hnone) rfl

/-- Rows of the topology are removed with their ordinals. -/
theorem Writes.closed (tx : Tx) (m : DomainModel) (op : PersistOp) (hcloses : scope.closes = true)
    (rows : { m with topologyOrdinals := tx.model.topologyOrdinals }.rows = tx.model.rows)
    (fewer : ∀ row o, m.topologyOrdinals.get row = some o → tx.model.topologyOrdinals.get row = some o)
    (hop : mergesOf [op] = []) : tx.Writes scope ((tx.withModel m).push op) := by
  have hquiet : tx.Writes scope
      (tx.withModel { m with topologyOrdinals := tx.model.topologyOrdinals }) :=
    .topology (.inr hcloses) rows le_rfl rfl
  have hclose : (tx.withModel { m with topologyOrdinals := tx.model.topologyOrdinals }).Writes scope
      ((tx.withModel m).push op) :=
    Writes.one (fun _ => .closeRows m.topologyOrdinals hcloses fewer)
      (by simp [Tx.push, withModel, mergesOf_append, hop])
  exact hquiet.trans hclose

/-- A run is stored again. -/
theorem storeRun_writes {run : TaskRun} (old : TaskRun) (t : ℤ)
    (row : tx.model.Filed → tx.model.taskRuns.get run.runId = some old) (key : run.key = old.key)
    (ordinal : run.displayOrdinal = old.displayOrdinal)
    (absorbing : old.state.isSemanticTerminal = true → run.state = old.state) (follows : old.Follows run)
    (spoken : scope.bare = false → tx.model.Filed → run.hasControllerTaskStateEvent = true ∨
      run.state = old.state ∨ tx.model.Executes run.runId) :
    tx.Writes scope (tx.storeRun run t) :=
  Writes.one (fun hf => .update (row hf) key ordinal absorbing follows fun hb => spoken hb hf)
    (by simp [storeRun, Tx.push, withModel, persistTaskRun, mergesOf])

/-- A new run is stored under the next ordinal. -/
theorem createRun_writes {run : TaskRun} (t : ℤ) (new : run.runId ∈ scope.runs)
    (absent : tx.model.taskRuns.get run.runId = none) (ordinal : run.displayOrdinal = tx.nextOrdinal)
    (key : scope.strict = true → NewKey tx.toCore run.key) (stamped : run.Stamped)
    (spoken : scope.bare = false → run.hasControllerTaskStateEvent = true ∨ run.state = .queued) :
    tx.Writes scope ({ tx with nextOrdinal := tx.nextOrdinal + 1 : Tx }.storeRun run t) :=
  Writes.one (fun _ => .create new absent ordinal key stamped spoken)
    (by simp [storeRun, Tx.push, withModel, persistTaskRun, mergesOf])

@[simp] theorem stampNewTaskRun_runId (run : TaskRun) (t : ℤ) :
    (stampNewTaskRun run t).runId = run.runId := by simp [stampNewTaskRun]

@[simp] theorem stampNewTaskRun_displayOrdinal (run : TaskRun) (t : ℤ) :
    (stampNewTaskRun run t).displayOrdinal = run.displayOrdinal := by simp [stampNewTaskRun]

@[simp] theorem stampNewTaskRun_key (run : TaskRun) (t : ℤ) :
    (stampNewTaskRun run t).key = run.key := by simp [stampNewTaskRun]

@[simp] theorem stampNewTaskRun_state (run : TaskRun) (t : ℤ) :
    (stampNewTaskRun run t).state = run.state := by simp [stampNewTaskRun]

@[simp] theorem stampNewTaskRun_spoken (run : TaskRun) (t : ℤ) :
    (stampNewTaskRun run t).hasControllerTaskStateEvent = run.hasControllerTaskStateEvent := by
  simp [stampNewTaskRun]

theorem stamped_stampNewTaskRun {run : TaskRun} (t : ℤ) (hcreated : run.createdAtMs = none)
    (hupdated : run.updatedAtMs = none) (hfinished : run.finishedAtMs = none) :
    (stampNewTaskRun run t).Stamped := by
  refine ⟨t, ?_, ?_, ?_⟩
  · simp [stampNewTaskRun, hcreated]
  · simp [stampNewTaskRun, hupdated]
  · simp [stampNewTaskRun, hupdated, hfinished]

theorem insertExecution_writes (tx : Tx) (execution : Execution) (t : ℤ)
    (owner : tx.model.Filed → tx.model.HasRun execution.taskRunId)
    (same : scope.bare = false → tx.model.Filed → ∀ old,
      tx.model.executions.get execution.executionId = some old → old.taskRunId = execution.taskRunId) :
    tx.Writes scope ((tx.withModel (tx.model.insertExecution execution)).push
      (persistExecution execution t)) :=
  Writes.one (fun hf => .execution execution (owner hf) fun hb => same hb hf)
    (by simp [Tx.push, withModel, persistExecution, mergesOf])

/-- An agent is stored again. -/
theorem storeAgentNode_writes (tx : Tx) {node : AgentNode} (old : AgentNode)
    (owner : tx.model.Filed → tx.model.HasRun node.taskRunId)
    (row : tx.model.Filed → tx.model.agentNodes.get node.agentNodeId = some old)
    (ordinal : node.displayOrdinal = old.displayOrdinal)
    (parent : node.parentAgentNodeId = old.parentAgentNodeId ∨
      ∃ id, node.parentAgentNodeId = some id ∧ providerParentIsValid tx.model node.agentNodeId id = true) :
    tx.Writes scope (tx.storeAgentNode node) :=
  Writes.one (fun hf => .agentNode (owner hf) (row hf) ordinal parent)
    (by simp [storeAgentNode, Tx.push, withModel, mergesOf])

/-- A new agent is stored under the next ordinal. -/
theorem createAgentNode_writes (tx : Tx) {node : AgentNode}
    (owner : tx.model.Filed → tx.model.HasRun node.taskRunId) (new : node.agentNodeId ∈ scope.agents)
    (absent : tx.model.Filed → scope.strict = true → tx.model.agentNodes.get node.agentNodeId = none)
    (ordinal : node.displayOrdinal = tx.nextOrdinal)
    (parent : ∀ id, node.parentAgentNodeId = some id →
      providerParentIsValid tx.model node.agentNodeId id = true) :
    tx.Writes scope ({ tx with nextOrdinal := tx.nextOrdinal + 1 : Tx }.storeAgentNode node) :=
  Writes.one (fun hf => .createAgentNode (owner hf) new (absent hf) ordinal parent)
    (by simp [storeAgentNode, Tx.push, withModel, mergesOf])

/-! ### Lifecycle -/

theorem applyNativeLifecycle_writes (tx : Tx) (runId : RunId)
    (endStatus : Option NativeSessionEndStatus) (w : NativeLifecycleWatermark) :
    tx.Writes scope (tx.applyNativeLifecycle runId endStatus w) := by
  unfold applyNativeLifecycle
  dsimp only
  split
  · exact .refl tx
  · have hset : tx.Writes scope (tx.withModel (tx.model.setV6State runId
        (observedLifecycle ((tx.model.v6State runId).getD {}) endStatus w))) :=
      Writes.one (fun _ => .lifecycle runId _ rfl) rfl
    refine hset.trans ?_
    split
    · exact .refl _
    · split
      · exact .push _ _ rfl
      · exact .refl _

theorem closeRunWithoutLiveExecution_writes (tx : Tx) (runId : RunId) (t : ℤ)
    (hexecutes : scope.bare = false → tx.model.Executes runId) :
    tx.Writes scope (tx.closeRunWithoutLiveExecution runId t) := by
  unfold closeRunWithoutLiveExecution
  split
  · exact .refl tx
  · split
    · exact .refl tx
    · rename_i taskRun hrun
      split
      · exact .refl tx
      · rename_i hopen
        refine storeRun_writes taskRun t (fun hf => by simpa using hf.taskRun hrun) (by simp) (by simp)
          (fun hend => ?_) (.touched t rfl id rfl rfl) fun hb hf => .inr (.inr ?_)
        · have := TaskState.isTerminal_of_semantic hend
          simp [this] at hopen
        · rw [touchTaskRun_runId, hf.run runId taskRun hrun]
          exact hexecutes hb

theorem activateForLiveExecution_writes (tx : Tx) (runId : RunId) (t : ℤ)
    (hexecutes : scope.bare = false → tx.model.Executes runId) :
    tx.Writes scope (tx.activateForLiveExecution runId t) := by
  unfold activateForLiveExecution
  split
  · exact .refl tx
  · rename_i taskRun hrun
    split
    · rename_i hstate
      refine storeRun_writes taskRun t (fun hf => by simpa using hf.taskRun hrun) (by simp) (by simp)
        (fun hend => ?_) (.touched t rfl id rfl rfl) fun hb hf => .inr (.inr ?_)
      · rcases hstate with h | ⟨h, -⟩ <;> rw [h] at hend <;> cases hend
      · rw [touchTaskRun_runId, hf.run runId taskRun hrun]
        exact hexecutes hb
    · exact .refl tx

theorem reopenNativeLifecycle_writes (tx : Tx) (runId : RunId) (executionId : String) (t : ℤ) :
    tx.Writes scope (tx.reopenNativeLifecycleForLiveExecution runId executionId t) := by
  unfold reopenNativeLifecycleForLiveExecution
  split
  · exact .refl tx
  · split
    · exact .refl tx
    · exact applyNativeLifecycle_writes tx _ _ _

theorem closeHistoryReadyRun_writes (tx : Tx) (runId : RunId) (t : ℤ) :
    tx.Writes scope (tx.closeHistoryReadyRunWithoutLiveExecution runId t) := by
  unfold closeHistoryReadyRunWithoutLiveExecution
  split
  · exact .refl tx
  · split
    · exact .refl tx
    · split
      · exact .refl tx
      · split
        · exact .refl tx
        · exact applyNativeLifecycle_writes tx _ _ _

theorem touchRunLivenessObserved_writes (tx : Tx) (key : RunKey) (atMs observedAtMs : ℤ) :
    tx.Writes scope (tx.touchRunLivenessObserved key atMs observedAtMs).1 := by
  unfold touchRunLivenessObserved
  split
  · exact .refl tx
  · rename_i taskRun hrun
    split
    · exact .refl tx
    · split
      · exact applyNativeLifecycle_writes tx _ _ _
      · split
        · exact .refl tx
        · exact (storeRun_writes taskRun atMs (fun hf => by simpa using hf.taskRunByKey hrun) (by simp) (by simp)
            (fun _ => by simp) (.touched atMs rfl id rfl rfl) fun _ _ => .inr (.inl (by simp))).trans
              (applyNativeLifecycle_writes _ _ _ _)

/-- The run of a key that a lane close would end, though it has no execution and no Controller spoke
for it. -/
def LaneCloseStrands (tx : Tx) (key : RunKey) : Prop :=
  ∃ taskRun, tx.model.taskRunByKey key = some taskRun ∧ taskRun.dismissedAtMs = none ∧
    taskRun.state.isTerminal = false ∧ tx.nonLaneTaskStateRuns.contains taskRun.runId = false ∧
    nativeBinding tx.model taskRun.runId = none ∧ taskRun.hasControllerTaskStateEvent = false ∧
    ¬tx.model.Executes taskRun.runId

theorem applyLaneCloseObserved_writes (tx : Tx) (key : RunKey) (atMs observedAtMs : ℤ)
    (hstrands : scope.bare = false → ¬tx.LaneCloseStrands key) :
    tx.Writes scope (tx.applyLaneCloseObserved key atMs observedAtMs).1 := by
  unfold applyLaneCloseObserved
  split
  · exact .refl tx
  · rename_i taskRun hrun
    split
    · exact .refl tx
    · rename_i hopen
      split
      · exact applyNativeLifecycle_writes tx _ _ _
      · rename_i hnative
        simp only [Bool.or_eq_true, not_or, Bool.not_eq_true, Option.isSome_eq_false_iff,
          Option.isNone_iff_eq_none] at hopen hnative
        obtain ⟨⟨⟨hdismissed, hterminal⟩, -⟩, hlane⟩ := hopen
        refine storeRun_writes taskRun atMs (fun hf => by simpa using hf.taskRunByKey hrun) (by simp) (by simp)
          (fun hend => ?_) (.touched atMs rfl id rfl rfl) fun hb _ => ?_
        · have := TaskState.isTerminal_of_semantic hend
          simp [this] at hterminal
        · by_contra hbare
          simp only [touchTaskRun_hasControllerTaskStateEvent, touchTaskRun_runId, not_or,
            Bool.not_eq_true] at hbare
          exact hstrands hb ⟨taskRun, hrun, hdismissed, hterminal, hlane, hnative, hbare.1, hbare.2.2⟩

/-! ### Creating runs -/

/-- A run that exists stays through writes without a merge. -/
theorem Writes.keeps_run (h : tx.Writes scope tx') (hf : tx.model.Filed) {id : RunId}
    (hid : tx.model.HasRun id) : tx'.model.HasRun id := by
  obtain ⟨run, hrun⟩ := hid.exists
  obtain ⟨run', hrun', -⟩ := (h hf).1.keeps_run hf hrun (by simp)
  exact .of_get hrun'

theorem Writes.filed (h : tx.Writes scope tx') (hf : tx.model.Filed) : tx'.model.Filed :=
  (h hf).1.filed hf

/-- The key an observation gives a new run is new. -/
theorem observedKey_new (tx : Tx) (metadata : EventMetadata) (terminalId : String) (t : ℤ) :
    NewKey tx.toCore (observedKey tx.model metadata terminalId t tx.nextOrdinal) := by
  unfold observedKey
  split
  · split_ifs with hfree
    · exact .free rfl (Option.isNone_iff_eq_none.mp hfree)
    · exact .provisional _ _
  · exact .provisional _ _

/-- After a creation the run exists. -/
theorem createUnless_writes {runId : RunId} {t : ℤ} {run : DisplayOrdinal → TaskRun}
    (hid : ∀ o, (run o).runId = runId) (hordinal : ∀ o, (run o).displayOrdinal = o)
    (hdrawn : runId ∈ scope.runs)
    (hkey : scope.strict = true → tx.model.taskRuns.get runId = none →
      NewKey tx.toCore (run tx.nextOrdinal).key)
    (hnew : ∀ o, (run o).createdAtMs = none ∧ (run o).updatedAtMs = none ∧ (run o).finishedAtMs = none)
    (hspoken : scope.bare = false → tx.model.taskRuns.get runId = none → ∀ o,
      (run o).hasControllerTaskStateEvent = true ∨ (run o).state = .queued)
    (h : tx.createUnless runId t run = .ok tx') :
    tx.Writes scope tx' ∧ tx'.model.HasRun runId := by
  unfold createUnless at h
  split_ifs at h with hsome
  · cases h
    exact ⟨.refl _, hsome⟩
  · have hnone : tx.model.taskRuns.get runId = none := by simpa [DomainModel.taskRun] using hsome
    obtain ⟨⟨o, tx₁⟩, h₁, h₂⟩ := bind_eq_ok.mp h
    obtain ⟨rfl, rfl⟩ := allocateOrdinal_ok h₁
    cases h₂
    refine ⟨createRun_writes t (by simpa [hid] using hdrawn) (by simpa [hid] using hnone)
      (by simp [hordinal]) (fun hs => by simpa using hkey hs hnone)
      (stamped_stampNewTaskRun t (hnew _).1 (hnew _).2.1 (hnew _).2.2)
      fun hb => by simpa using hspoken hb hnone _, ?_⟩
    exact .of_get (by simp [storeRun, Tx.push, withModel, DomainModel.insertTaskRun, hid]; rfl)

theorem ensureExecutionRun_writes {execution : Execution} {metadata : EventMetadata}
    (hdrawn : execution.taskRunId ∈ scope.runs) (hbare : scope.bare = true)
    (h : tx.ensureExecutionRun execution metadata = .ok tx') :
    tx.Writes scope tx' ∧ tx'.model.HasRun execution.taskRunId := by
  dsimp only [ensureExecutionRun] at h
  refine createUnless_writes ?_ (fun _ => rfl) hdrawn ?_ (fun _ => ⟨rfl, rfl, rfl⟩) ?_ h
  · exact fun _ => rfl
  · exact fun _ _ => observedKey_new tx _ _ _
  · exact fun hb => by simp [hbare] at hb

theorem ensureMetadataRun_writes {runId : RunId} {metadata : EventMetadata} {cref : Bool}
    {name : Option String} {state : TaskState} (hdrawn : runId ∈ scope.runs)
    (hfree : scope.strict = true → tx.model.taskRuns.get runId = none → cref = true →
      tx.model.taskRunByKey (.controller (name.getD runId.text)) = none)
    (hspoken : scope.bare = false → tx.model.taskRuns.get runId = none →
      metadata.taskState.isSome = true ∨ state = .queued)
    (h : tx.ensureMetadataRun runId metadata cref name state = .ok tx') :
    tx.Writes scope tx' ∧ tx'.model.HasRun runId := by
  dsimp only [ensureMetadataRun] at h
  refine createUnless_writes ?_ (fun _ => rfl) hdrawn ?_ (fun _ => ⟨rfl, rfl, rfl⟩)
    (fun hb hnone _ => hspoken hb hnone) h
  · exact fun _ => rfl
  · intro hs hnone
    dsimp only [newTaskRun]
    split_ifs with hc
    · exact .free rfl (hfree hs hnone hc)
    · exact observedKey_new tx _ _ _

theorem ensureControllerPlaceholder_writes {runId : RunId} {name : Option String} {t : ℤ}
    (hdrawn : runId ∈ scope.runs)
    (hfree : scope.strict = true → tx.model.taskRuns.get runId = none →
      tx.model.taskRunByKey (.controller (name.getD runId.text)) = none)
    (h : tx.ensureControllerPlaceholder runId name t = .ok tx') :
    tx.Writes scope tx' ∧ tx'.model.HasRun runId :=
  createUnless_writes (fun _ => rfl) (fun _ => rfl) hdrawn (fun hs hnone => .free rfl (hfree hs hnone))
    (fun _ => ⟨rfl, rfl, rfl⟩) (fun _ _ _ => .inr rfl) h

/-- What the collector promises about the events of an observation: no dispatch parent and no
dependency; in a strict one, nothing of a Controller's at all. -/
structure Observed (strict : Bool) (event : NormalizedEvent) : Prop where
  /-- No dispatch parent. -/
  executionParent : event.metadata.executionParent = none
  /-- No dependency. -/
  dependency : event.metadata.dependency = none
  /-- No task state. -/
  taskState : strict = true → event.metadata.taskState = none
  /-- An agent with a session has the name made from it. -/
  agent : strict = true → ∀ metadata node sid, event = .agentNodeUpsert metadata node →
    node.nativeSessionId = some sid → node.agentNodeId = deterministicAgentNodeId node.provider sid

theorem ensureNamedRun_writes {metadata : EventMetadata} (hruns : scope.runs = Set.univ)
    (hparent : metadata.executionParent = none) (hdependency : metadata.dependency = none)
    (hstate : scope.strict = true → metadata.taskState = none)
    (hspoken : scope.bare = false → ∀ runId, metadata.taskRunId = some runId →
      metadata.source ≠ "provider" → tx.model.taskRuns.get runId = none → metadata.taskState.isSome = true)
    (h : tx.ensureNamedRun metadata = .ok tx') : tx.Writes scope tx' := by
  unfold ensureNamedRun at h
  split at h
  · rename_i runId hrun
    split_ifs at h with hsource
    · cases h
      exact .refl _
    · refine (ensureMetadataRun_writes (hruns ▸ Set.mem_univ _) (fun hs _ hc => ?_)
        (fun hb hnone => .inl (hspoken hb runId hrun hsource hnone)) h).1
      simp [controllerReference, hstate hs, hparent, hdependency] at hc
  · cases h
    exact .refl _

theorem ensureEventRuns_writes {strict : Bool} {rows : RowScope} {event : NormalizedEvent}
    (hobs : Observed strict event) (h : tx.ensureEventRuns event event.metadata = .ok tx') :
    tx.Writes (.wide strict rows) tx' ∧ (tx.model.Filed → ∀ metadata execution,
      event = .executionBegin metadata execution →
        tx'.model.HasRun execution.taskRunId) := by
  have hdrawn : ∀ id, id ∈ (Scope.wide strict rows).runs := Set.mem_univ
  unfold ensureEventRuns at h
  rw [hobs.executionParent, hobs.dependency] at h
  obtain ⟨tx₁, h₁, h⟩ := bind_eq_ok.mp h
  obtain ⟨tx₂, h₂, h⟩ := bind_eq_ok.mp h
  cases h
  have hw₁ : tx.Writes (.wide strict rows) tx₁ ∧ ∀ metadata execution,
      event = .executionBegin metadata execution →
        tx₁.model.HasRun execution.taskRunId := by
    unfold ensureBegunRun at h₁
    split at h₁
    · obtain ⟨hw, hs⟩ := ensureExecutionRun_writes (hdrawn _) rfl h₁
      refine ⟨hw, fun _ _ he => ?_⟩
      cases he
      exact hs
    · rename_i hne
      cases h₁
      exact ⟨.refl _, fun _ _ he => absurd he (hne _ _)⟩
  have hw₂ : tx₁.Writes (.wide strict rows) tx' :=
    ensureNamedRun_writes rfl hobs.executionParent hobs.dependency hobs.taskState (fun hb => by cases hb) h₂
  exact ⟨hw₁.1.trans hw₂, fun hf _ _ he =>
    hw₂.keeps_run (hw₁.1.filed hf) (hw₁.2 _ _ he)⟩

/-! ### The Controller part -/

theorem noteTaskStateSource_writes (tx : Tx) (metadata : EventMetadata) (runId : RunId) :
    tx.Writes scope (tx.noteTaskStateSource metadata runId) := by
  unfold noteTaskStateSource
  split_ifs
  · exact .refl tx
  · exact .quiet rfl rfl le_rfl rfl

@[simp] theorem noteTaskStateSource_model (tx : Tx) (metadata : EventMetadata) (runId : RunId) :
    (tx.noteTaskStateSource metadata runId).model = tx.model := by
  unfold noteTaskStateSource
  split_ifs <;> rfl

theorem applyTaskState_writes (tx : Tx) (metadata : EventMetadata) :
    tx.Writes scope (tx.applyTaskState metadata false) := by
  unfold applyTaskState
  split
  · split
    · exact .refl tx
    · rename_i taskRun hrun
      refine (noteTaskStateSource_writes tx metadata _).trans (storeRun_writes taskRun _
        (fun hf => ?_) (by simp) (by simp) (fun hend => ?_) (.touched _ rfl (fun _ => rfl) rfl rfl)
        fun _ _ => .inl (by simp))
      · rw [noteTaskStateSource_model] at hf ⊢
        simpa using hf.taskRun hrun
      · simp [controllerTaskTransition_absorbing hend]
  · exact .refl tx

theorem addExecutionEdge_writes (tx : Tx) (edge : ExecutionEdge) (t : ℤ)
    (parent : tx.model.HasRun edge.parentRunId) (child : tx.model.HasRun edge.childRunId)
    (checked : preflightExecutionEdge tx.model edge = .ok ()) :
    tx.Writes scope (tx.addExecutionEdge edge t) := by
  unfold addExecutionEdge
  split_ifs
  · exact .refl tx
  · exact Writes.one (fun _ => .executionEdge edge parent child checked)
      (by simp [Tx.push, withModel, mergesOf])

theorem addDependencyEdge_writes (tx : Tx) (edge : DependencyEdge) (t : ℤ)
    (prerequisite : tx.model.HasRun edge.prerequisiteRunId)
    (dependent : tx.model.HasRun edge.dependentRunId)
    (checked : preflightDependencyEdge tx.model edge = .ok ()) :
    tx.Writes scope (tx.addDependencyEdge edge t) := by
  unfold addDependencyEdge
  split_ifs
  · exact .refl tx
  · exact Writes.one (fun _ => .dependencyEdge edge prerequisite dependent checked)
      (by simp [Tx.push, withModel, mergesOf])

theorem updateTerminalEventSource_writes (tx : Tx) (event : NormalizedEvent) :
    tx.Writes scope (tx.updateTerminalEventSource event) := by
  unfold updateTerminalEventSource
  split
  · split
    · exact .refl tx
    · split_ifs
      · exact .quiet rfl rfl le_rfl rfl
      · exact .quiet rfl rfl le_rfl rfl
      · exact .refl tx
  · exact .refl tx

/-! ### Topology -/

theorem storeWorkspace_writes {workspace : Workspace} (hopens : scope.opens = true)
    (h : tx.storeWorkspace workspace = .ok tx') : tx.Writes scope tx' := by
  obtain ⟨⟨o, tx₁⟩, h₁, h₂⟩ := bind_eq_ok.mp h
  cases h₂
  exact (topologyOrdinal_writes hopens h₁).trans (.stored _ _ _ hopens rfl rfl)

theorem storeTab_writes {tab : Tab} {clear : Bool} (hopens : scope.opens = true)
    (h : tx.storeTab tab clear = .ok tx') : tx.Writes scope tx' := by
  obtain ⟨⟨o, tx₁⟩, h₁, h₂⟩ := bind_eq_ok.mp h
  cases h₂
  have hw : tx₁.Writes scope ((tx₁.withModel (tx₁.model.insertTab tab)).push (.upsertTab tab o)) :=
    .stored _ _ _ hopens rfl rfl
  refine (topologyOrdinal_writes hopens h₁).trans ?_
  split_ifs
  · exact hw.trans (.push _ _ rfl)
  · exact hw

theorem storePane_writes {pane : Pane} {clear : Bool} (hopens : scope.opens = true)
    (h : tx.storePane pane clear = .ok tx') : tx.Writes scope tx' := by
  obtain ⟨⟨o, tx₁⟩, h₁, h₂⟩ := bind_eq_ok.mp h
  cases h₂
  have hw : tx₁.Writes scope
      ((tx₁.withModel (tx₁.model.insertPane pane)).push (.upsertPane pane o)) :=
    .stored _ _ _ hopens rfl rfl
  refine (topologyOrdinal_writes hopens h₁).trans ?_
  split_ifs
  · exact hw.trans (.push _ _ rfl)
  · exact hw

theorem applyTopologyUpsert_writes {authority : TopologyAuthority} {entity : TopologyEntity}
    (hopens : scope.opens = true) (h : tx.applyTopologyUpsert authority entity = .ok tx') : tx.Writes scope tx' := by
  unfold applyTopologyUpsert at h
  split at h
  · exact storeWorkspace_writes hopens h
  · split_ifs at h
    · cases h
      exact .refl _
    · exact storeTab_writes hopens h
  · split_ifs at h
    · cases h
      exact .refl _
    · exact storePane_writes hopens h

/-- An execution that is stored has its run going. -/
theorem executes_insertExecution (m : DomainModel) (execution : Execution) :
    (m.insertExecution execution).Executes execution.taskRunId :=
  ⟨execution.executionId, execution, HashMap.get_insert_self _ _ _, rfl⟩

/-- An execution that is found is stored again for its run. -/
theorem same_of_found {m : DomainModel} (hf : m.Filed) {executionId : String} {execution : Execution}
    (hfound : m.execution executionId = some execution) : ∀ old,
      m.executions.get execution.executionId = some old → old.taskRunId = execution.taskRunId := by
  intro old hold
  rw [hf.named executionId execution hfound] at hold
  cases hold.symm.trans hfound
  rfl

theorem endExecution_writes (tx : Tx) (executionId : String) (t : ℤ) :
    tx.Writes scope (tx.endExecution executionId t) := by
  unfold endExecution
  split
  · exact .refl tx
  · rename_i execution he
    dsimp only
    exact (insertExecution_writes tx { execution with state := .ended } t
      (fun hf => hf.execution executionId execution he) fun _ hf => @same_of_found _ hf _ execution he).trans
        (closeRunWithoutLiveExecution_writes _ _ _ fun _ =>
          executes_insertExecution tx.model { execution with state := .ended })

theorem get_removeTopologyOrdinal {m : DomainModel} {kind : TopologyKind} {id : String}
    {row : TopologyKind × String} {o : DisplayOrdinal}
    (h : (m.removeTopologyOrdinal kind id).topologyOrdinals.get row = some o) :
    m.topologyOrdinals.get row = some o := by
  simp only [DomainModel.removeTopologyOrdinal, HashMap.get_remove] at h
  split_ifs at h
  exact h

theorem dropPane_writes (tx : Tx) (paneId : String) (hcloses : scope.closes = true) :
    tx.Writes scope (tx.dropPane paneId) := by
  unfold dropPane
  split_ifs
  · exact .closed _ _ _ hcloses rfl (fun _ _ h => get_removeTopologyOrdinal h) rfl
  · exact .topology (.inr hcloses) rfl le_rfl rfl

theorem closePane_writes (tx : Tx) (paneId : String) (t : ℤ) (hcloses : scope.closes = true) :
    tx.Writes scope (tx.closePane paneId t) :=
  (Writes.foldl (fun tx id => endExecution_writes tx id t) _ tx).trans (dropPane_writes _ _ hcloses)

theorem dropTab_writes (tx : Tx) (tabId : String) (hcloses : scope.closes = true) :
    tx.Writes scope (tx.dropTab tabId) := by
  unfold dropTab
  split_ifs
  · exact .closed _ _ _ hcloses rfl (fun _ _ h => get_removeTopologyOrdinal h) rfl
  · exact .refl tx

theorem dropWorkspace_writes (tx : Tx) (workspaceId : String) (hcloses : scope.closes = true) :
    tx.Writes scope (tx.dropWorkspace workspaceId) := by
  unfold dropWorkspace
  split_ifs
  · exact .closed _ _ _ hcloses rfl (fun _ _ h => get_removeTopologyOrdinal h) rfl
  · exact .refl tx

theorem closeTab_writes (tx : Tx) (tabId : String) (t : ℤ) (hcloses : scope.closes = true) :
    tx.Writes scope (tx.closeTab tabId t) :=
  (Writes.foldl (fun tx paneId => closePane_writes tx paneId t hcloses) _ tx).trans
    (dropTab_writes _ _ hcloses)

theorem applyTopologyClosure_writes (tx : Tx) (entity : TopologyEntityId) (t : ℤ)
    (hcloses : scope.closes = true) : tx.Writes scope (tx.applyTopologyClosure entity t) := by
  cases entity with
  | workspace workspaceId =>
    exact (Writes.foldl (fun tx tabId => closeTab_writes tx tabId t hcloses) _ tx).trans
      (dropWorkspace_writes _ _ hcloses)
  | tab tabId => exact closeTab_writes tx tabId t hcloses
  | pane paneId => exact closePane_writes tx paneId t hcloses

theorem applyExecutionState_writes (tx : Tx) (executionId : String) (observed : ExecState)
    (metadata : EventMetadata) :
    tx.Writes scope (tx.applyExecutionState executionId observed metadata) := by
  unfold applyExecutionState
  split
  · exact .refl tx
  · rename_i execution he
    dsimp only
    have hw : tx.Writes scope (tx.withModel (tx.model.insertExecution
        { execution with state := nextExecutionState execution.state observed metadata })) :=
      Writes.one (fun hf => .execution _ (hf.execution executionId execution he)
        fun _ => @same_of_found _ hf _ execution he) rfl
    split_ifs
    · exact hw.trans (closeRunWithoutLiveExecution_writes _ _ _ fun _ => executes_insertExecution tx.model
        { execution with state := nextExecutionState execution.state observed metadata })
    · exact hw

/-! ### Agents -/

theorem leastText_mem {texts : List String} {text : String} (h : leastText texts = some text) :
    text ∈ texts := by
  have hfold : ∀ (l : List String) (least : Option String),
      l.foldl (fun least text => some (least.elim text fun l => if text < l then text else l)) least =
        some text → text ∈ l ∨ least = some text := by
    intro l
    induction l with
    | nil => exact fun least h => .inr h
    | cons first l ih =>
      intro least h
      rcases ih _ h with hmem | hleast
      · exact .inl (List.mem_cons_of_mem _ hmem)
      · cases least with
        | none => exact .inl (Option.some.inj hleast ▸ List.mem_cons_self)
        | some old =>
          simp only [Option.elim_some] at hleast
          split_ifs at hleast
          · exact .inl (Option.some.inj hleast ▸ List.mem_cons_self)
          · exact .inr hleast
  exact (hfold texts none h).resolve_right (by simp)

/-- The agent that a search by name finds is filed under the name. -/
theorem leastAgent {m : DomainModel} (hf : m.Filed) {p : AgentNode → Bool} {id : String}
    (h : leastText ((m.agentNodes.values.filter p).map (·.agentNodeId)) = some id) :
    ∃ node, m.agentNodes.get id = some node ∧ p node = true := by
  obtain ⟨node, hnode, rfl⟩ := List.mem_map.mp (leastText_mem h)
  obtain ⟨hvalue, hp⟩ := List.mem_filter.mp hnode
  obtain ⟨id, hid⟩ := HashMap.mem_values.mp hvalue
  exact ⟨node, by rw [hf.agent id node hid]; exact hid, hp⟩

/-- The agent an observation is about is stored, or it is new and gets the next ordinal. -/
theorem observedAgentNode_cases {observed : AgentNodeObservation} {node : AgentNode}
    (h : tx.observedAgentNode observed = .ok (node, tx')) (hf : tx.model.Filed) :
    (tx' = tx ∧ tx.model.agentNodes.get node.agentNodeId = some node) ∨
      (tx' = { tx with nextOrdinal := tx.nextOrdinal + 1 } ∧ node.displayOrdinal = tx.nextOrdinal ∧
        node.taskRunId = observed.taskRunId ∧ node.parentAgentNodeId = none ∧
        ((∀ sid, observed.nativeSessionId = some sid →
          observed.agentNodeId = deterministicAgentNodeId observed.provider sid) →
        tx.model.agentNodes.get node.agentNodeId = none)) := by
  unfold observedAgentNode at h
  dsimp only at h
  split at h
  · rename_i node' hnode
    cases h
    obtain ⟨id, -, hget⟩ := Option.bind_eq_some_iff.mp hnode
    exact .inl ⟨rfl, by rw [hf.agent id node hget]; exact hget⟩
  · rename_i hnone
    obtain ⟨⟨o, tx₁⟩, h₁, h₂⟩ := bind_eq_ok.mp h
    obtain ⟨rfl, rfl⟩ := allocateOrdinal_ok h₁
    cases h₂
    refine .inr ⟨rfl, rfl, rfl, rfl, fun hname => ?_⟩
    have hid : (observed.nativeSessionId.map (deterministicAgentNodeId observed.provider)).getD
        observed.agentNodeId = observed.agentNodeId := by
      cases hsid : observed.nativeSessionId with
      | none => rfl
      | some sid => exact (hname sid hsid).symm
    show tx.model.agentNodes.get ((observed.nativeSessionId.map
      (deterministicAgentNodeId observed.provider)).getD observed.agentNodeId) = none
    rw [hid]
    by_contra hsome
    obtain ⟨stored, hstored⟩ := Option.ne_none_iff_exists'.mp hsome
    rw [Option.bind_eq_none_iff] at hnone
    cases hnative : observed.nativeSessionId.bind fun sid =>
        agentNodeIdForNative tx.model observed.provider sid observed.taskRunId with
    | none =>
      refine absurd (hnone observed.agentNodeId ?_) (by simp [DomainModel.agentNode, hstored])
      simp [hnative, DomainModel.agentNode, hstored, hf.agent _ _ hstored]
    | some id =>
      obtain ⟨sid, -, hfound⟩ := Option.bind_eq_some_iff.mp hnative
      obtain ⟨other, hother, -⟩ := leastAgent hf hfound
      exact absurd (hnone id (by simp [hnative])) (by simp [DomainModel.agentNode, hother])

theorem parentChainAvoids_congr {m m' : DomainModel} (h : m'.agentNodes = m.agentNodes) (childId : String)
    (fuel : ℕ) (visited : List String) (nodeId : String) :
    parentChainAvoids m' childId fuel visited nodeId = parentChainAvoids m childId fuel visited nodeId := by
  induction fuel generalizing visited nodeId with
  | zero => rfl
  | succ fuel ih =>
    simp only [parentChainAvoids, DomainModel.agentNode, h]
    split_ifs
    · rfl
    · cases (m.agentNodes.get nodeId).bind (·.parentAgentNodeId) with
      | none => rfl
      | some parentId => exact ih _ _

theorem providerParentIsValid_congr {m m' : DomainModel} (h : m'.agentNodes = m.agentNodes)
    (childId parentId : String) :
    providerParentIsValid m' childId parentId = providerParentIsValid m childId parentId := by
  unfold providerParentIsValid
  rw [h, parentChainAvoids_congr h]

/-- A parent link changes nothing that carries identities, and the parent it gives is a valid one. -/
theorem linkParent_rows (tx : Tx) (node : AgentNode) (parent : Option String) :
    ((tx.linkParent node parent).1.agentNodeId = node.agentNodeId ∧
      (tx.linkParent node parent).1.taskRunId = node.taskRunId ∧
      (tx.linkParent node parent).1.displayOrdinal = node.displayOrdinal ∧
      ((tx.linkParent node parent).1.parentAgentNodeId = node.parentAgentNodeId ∨
        ∃ id, (tx.linkParent node parent).1.parentAgentNodeId = some id ∧
          providerParentIsValid tx.model node.agentNodeId id = true)) ∧
      ∃ m, (tx.linkParent node parent).2 = tx.withModel m ∧ m.rows = tx.model.rows ∧
        m.topology = tx.model.topology := by
  unfold linkParent
  split
  · exact ⟨⟨rfl, rfl, rfl, .inl rfl⟩, tx.model, rfl, rfl, rfl⟩
  · dsimp only
    split_ifs with hvalid
    · exact ⟨⟨rfl, rfl, rfl, .inr ⟨_, rfl, hvalid⟩⟩, tx.model, rfl, rfl, rfl⟩
    · exact ⟨⟨rfl, rfl, rfl, .inl rfl⟩, _, rfl, rfl, rfl⟩

theorem applyAgentNodeObservation_writes {observed : AgentNodeObservation}
    (hname : scope.strict = true → ∀ sid, observed.nativeSessionId = some sid →
      observed.agentNodeId = deterministicAgentNodeId observed.provider sid)
    (hagents : scope.agents = Set.univ) (h : tx.applyAgentNodeObservation observed = .ok tx') :
    tx.Writes scope tx' := by
  unfold applyAgentNodeObservation at h
  split_ifs at h with hnone
  · cases h
    exact .refl _
  · obtain ⟨⟨node, tx₁⟩, h₁, h₂⟩ := bind_eq_ok.mp h
    have hrun : tx.model.HasRun observed.taskRunId := by
      simpa [DomainModel.HasRun, DomainModel.taskRun, Option.isSome_iff_ne_none] using hnone
    intro hf
    obtain ⟨hnode, m, hlink, hrows, htopology⟩ :=
      linkParent_rows tx₁ (patchAgentNode node observed) observed.parentAgentNodeId
    simp only [Except.ok.injEq] at h₂
    subst h₂
    revert hnode hlink
    generalize tx₁.linkParent (patchAgentNode node observed) observed.parentAgentNodeId = linked
    intro hnode hlink
    obtain ⟨hid, howner, hordinal, hparent⟩ : linked.1.agentNodeId = node.agentNodeId ∧
      linked.1.taskRunId = node.taskRunId ∧ linked.1.displayOrdinal = node.displayOrdinal ∧
      (linked.1.parentAgentNodeId = node.parentAgentNodeId ∨
        ∃ id, linked.1.parentAgentNodeId = some id ∧
          providerParentIsValid tx₁.model node.agentNodeId id = true) := hnode
    have hsame : m.agentNodes = tx₁.model.agentNodes := by
      simp only [DomainModel.rows, Prod.mk.injEq] at hrows
      exact hrows.2.2.2.2.1
    rw [hlink]
    rcases observedAgentNode_cases h₁ hf with ⟨rfl, hstored⟩ | ⟨rfl, hnext, hrunId, hroot, hfree⟩
    · have hquiet : tx₁.Writes scope (tx₁.withModel m) := .quiet hrows htopology le_rfl rfl
      simp only [DomainModel.rows, Prod.mk.injEq] at hrows
      have hrow : m.agentNodes.get linked.1.agentNodeId = some node := by
        rw [hrows.2.2.2.2.1, hid]
        exact hstored
      refine (hquiet.trans (storeAgentNode_writes _ node
        (fun hf' => howner.symm ▸ hf'.agentNode _ node hrow) (fun _ => hrow) hordinal ?_)) hf
      rw [withModel_model, hid]
      simpa only [providerParentIsValid_congr hsame] using hparent
    · have hquiet : tx.Writes scope (tx.withModel m) := .quiet hrows htopology le_rfl rfl
      simp only [DomainModel.rows, Prod.mk.injEq] at hrows
      refine (hquiet.trans (createAgentNode_writes (tx.withModel m) (fun _ => ?_) ?_
        (fun _ hs => ?_) (hordinal.trans hnext) fun id hid' => ?_)) hf
      · unfold DomainModel.HasRun
        rw [withModel_model, hrows.1, howner, hrunId]
        exact hrun
      · rw [hagents]
        exact Set.mem_univ _
      · rw [withModel_model, hrows.2.2.2.2.1, hid]
        exact hfree (hname hs)
      · rw [withModel_model, hid, providerParentIsValid_congr hsame]
        rcases hparent with hparent | ⟨id', hid'', hvalid⟩
        · rw [hparent, hroot] at hid'
          cases hid'
        · cases hid'.symm.trans hid''
          exact hvalid

theorem applyAgentActivity_writes (tx : Tx) (requestedId : String) (activity : MinimalProviderMetadata)
    (metadata : EventMetadata) : tx.Writes scope (tx.applyAgentActivity requestedId activity metadata) := by
  unfold applyAgentActivity
  dsimp only
  split
  · exact .refl tx
  · rename_i node hnode
    obtain ⟨id, -, hget⟩ := Option.bind_eq_some_iff.mp hnode
    split_ifs
    · exact .refl tx
    · exact storeAgentNode_writes tx node (fun hf => hf.agentNode id node hget)
        (fun hf => by rw [hf.agent id node hget]; exact hget) rfl (.inl rfl)

/-! ### The body of an event -/

/-- What an event does to topology rows is allowed. -/
def Allowed (rows : RowScope) : NormalizedEvent → Prop
  | .topologyUpsert _ _ _ => rows.opens = true
  | .topologyClosure _ _ => rows.closes = true
  | _ => True

theorem Allowed.all (event : NormalizedEvent) : Allowed ⟨true, true⟩ event := by
  cases event <;> first | rfl | trivial

theorem applyEventBody_writes {event : NormalizedEvent} {metadata : EventMetadata}
    (hagents : scope.agents = Set.univ) (hrows : Allowed scope.toRowScope event)
    (hagent : scope.strict = true → ∀ md node sid, event = .agentNodeUpsert md node →
      node.nativeSessionId = some sid → node.agentNodeId = deterministicAgentNodeId node.provider sid)
    (hbegin : ∀ md execution, event = .executionBegin md execution →
      tx.model.HasRun execution.taskRunId)
    (hsame : scope.bare = false → ∀ md execution, event = .executionBegin md execution → ∀ old,
      tx.model.executions.get execution.executionId = some old → old.taskRunId = execution.taskRunId)
    (h : tx.applyEventBody event metadata = .ok tx') : tx.Writes scope tx' := by
  cases event with
  | controllerEvent md kind =>
    cases h
    split
    · exact .quiet rfl rfl le_rfl rfl
    · exact .refl _
  | topologyUpsert md authority entity => exact applyTopologyUpsert_writes hrows h
  | topologyClosure md entity =>
    cases h
    exact applyTopologyClosure_writes _ _ _ hrows
  | agentStatusChanged md executionId state =>
    cases h
    exact applyExecutionState_writes _ _ _ _
  | agentNodeUpsert md node =>
    exact applyAgentNodeObservation_writes (fun hs sid hsid => hagent hs md node sid rfl hsid) hagents h
  | agentActivity md agentNodeId activity =>
    cases h
    exact applyAgentActivity_writes _ _ _ _
  | executionBegin md execution =>
    cases h
    exact Writes.one (fun _ => .execution execution (hbegin md execution rfl)
      fun hb => hsame hb md execution rfl) rfl
  | executionEnd md executionId =>
    cases h
    exact endExecution_writes _ _ _

theorem applyEventLifecycle_writes (tx : Tx) (event : NormalizedEvent) (metadata : EventMetadata) :
    tx.Writes scope (tx.applyEventLifecycle event metadata) := by
  unfold applyEventLifecycle
  split
  · rename_i kind
    dsimp only
    generalize (if laneNativeTerminal metadata kind then terminalEndStatus kind else none) = ended
    split_ifs
    · split
      · exact applyNativeLifecycle_writes tx _ _ _
      · exact .refl tx
    · exact .refl tx
  · exact .refl tx

theorem applyLiveEvidence_writes (tx : Tx) (event : NormalizedEvent) (metadata : EventMetadata) :
    tx.Writes scope (tx.applyLiveEvidence event metadata) := by
  unfold applyLiveEvidence
  split_ifs
  · split
    · exact applyNativeLifecycle_writes tx _ _ _
    · exact .refl tx
  · exact .refl tx

theorem persistEventExecution_writes (tx : Tx) (event : NormalizedEvent) (t : ℤ) :
    tx.Writes scope (tx.persistEventExecution event t) := by
  unfold persistEventExecution
  dsimp only
  split
  · exact .push _ _ rfl
  · exact .refl tx

/-! ### Reconciliation with a snapshot -/

theorem endPreGapExecution_writes (nowMs : ℤ) {execution : Execution}
    (owner : tx.model.Filed → tx.model.HasRun execution.taskRunId)
    (same : scope.bare = false → tx.model.Filed → ∀ old,
      tx.model.executions.get execution.executionId = some old → old.taskRunId = execution.taskRunId) :
    tx.Writes scope (tx.endPreGapExecution nowMs execution) := by
  unfold endPreGapExecution
  split_ifs
  · exact .refl tx
  · exact insertExecution_writes tx _ _ owner same

/-- The transaction with other ordinals of topology rows. -/
def withOrdinals (tx : Tx) (ordinals : HashMap (TopologyKind × String) DisplayOrdinal) : Tx :=
  tx.withModel { tx.model with topologyOrdinals := ordinals }

/-- A function that does not depend on the ordinals of topology rows, and goes on by writes when it
leaves them alone. -/
structure Beside (scope : Scope) (f : Tx → Tx) : Prop where
  /-- The ordinals change nothing else. -/
  aside : ∀ (tx : Tx) ordinals, (f (tx.withOrdinals ordinals)).withOrdinals ordinals =
    (f tx).withOrdinals ordinals
  /-- With the ordinals put back, these are writes. -/
  writes : ∀ tx : Tx, tx.Writes scope ((f tx).withOrdinals tx.model.topologyOrdinals)

/-- Writes that commute with the ordinals of topology rows. -/
theorem Beside.of_commute {f : Tx → Tx}
    (hcommute : ∀ (tx : Tx) ordinals, f (tx.withOrdinals ordinals) = (f tx).withOrdinals ordinals)
    (hwrites : ∀ tx : Tx, tx.Writes scope (f tx)) : Beside scope f where
  aside tx ordinals := by
    rw [hcommute]
    rfl
  writes tx := by
    rw [← hcommute]
    exact hwrites tx

theorem Beside.trans {f g : Tx → Tx} (hf : Beside scope f) (hg : Beside scope g) :
    Beside scope fun tx => g (f tx) where
  aside tx ordinals := by
    rw [← hg.aside, hf.aside, hg.aside]
  writes tx := by
    have hsecond := hg.writes ((f tx).withOrdinals tx.model.topologyOrdinals)
    rw [show ((f tx).withOrdinals tx.model.topologyOrdinals).model.topologyOrdinals =
      tx.model.topologyOrdinals from rfl, hg.aside] at hsecond
    exact (hf.writes tx).trans hsecond

theorem Beside.foldl {α : Type} {f : Tx → α → Tx} (hf : ∀ a, Beside scope fun tx => f tx a)
    (l : List α) : Beside scope fun tx => l.foldl f tx := by
  induction l with
  | nil => exact .of_commute (fun _ _ => rfl) Writes.refl
  | cons a l ih => exact (hf a).trans ih

/-- The function may depend on what the ordinals do not change. -/
theorem Beside.depending {α : Type} {f : α → Tx → Tx} (hf : ∀ a, Beside scope (f a)) (a : Tx → α)
    (ha : ∀ (tx : Tx) ordinals, a (tx.withOrdinals ordinals) = a tx) : Beside scope fun tx => f (a tx) tx where
  aside tx ordinals := by
    rw [ha]
    exact (hf _).aside tx ordinals
  writes tx := (hf _).writes tx

section

variable (tx : Tx) (ordinals : HashMap (TopologyKind × String) DisplayOrdinal)

@[simp] theorem withOrdinals_taskRun (id : RunId) :
    (tx.withOrdinals ordinals).model.taskRun id = tx.model.taskRun id := rfl

@[simp] theorem withOrdinals_execution (id : String) :
    (tx.withOrdinals ordinals).model.execution id = tx.model.execution id := rfl

@[simp] theorem withOrdinals_executions :
    (tx.withOrdinals ordinals).model.executions = tx.model.executions := rfl

@[simp] theorem withOrdinals_panes : (tx.withOrdinals ordinals).model.panes = tx.model.panes := rfl

@[simp] theorem withOrdinals_tabs : (tx.withOrdinals ordinals).model.tabs = tx.model.tabs := rfl

@[simp] theorem withOrdinals_workspaces :
    (tx.withOrdinals ordinals).model.workspaces = tx.model.workspaces := rfl

end

theorem closeRunWithoutLiveExecution_withOrdinals (tx : Tx)
    (ordinals : HashMap (TopologyKind × String) DisplayOrdinal) (runId : RunId) (t : ℤ) :
    (tx.withOrdinals ordinals).closeRunWithoutLiveExecution runId t =
      (tx.closeRunWithoutLiveExecution runId t).withOrdinals ordinals := by
  unfold closeRunWithoutLiveExecution
  rw [show (tx.withOrdinals ordinals).hasLiveExecution runId = tx.hasLiveExecution runId from rfl,
    withOrdinals_taskRun]
  cases tx.hasLiveExecution runId with
  | true => rfl
  | false =>
    cases tx.model.taskRun runId with
    | none => rfl
    | some run =>
      dsimp only
      cases run.hasControllerTaskStateEvent || run.state.isTerminal <;> rfl

theorem endExecution_beside (executionId : String) (t : ℤ) :
    Beside scope fun tx => tx.endExecution executionId t := by
  refine .of_commute (fun tx ordinals => ?_) fun tx => endExecution_writes tx executionId t
  unfold endExecution
  rw [withOrdinals_execution]
  cases tx.model.execution executionId with
  | none => rfl
  | some execution =>
    exact closeRunWithoutLiveExecution_withOrdinals ((tx.withModel (tx.model.insertExecution
      { execution with state := .ended })).push (persistExecution { execution with state := .ended } t))
      ordinals execution.taskRunId t

theorem dropPane_beside (paneId : String) (hcloses : scope.closes = true) : Beside scope fun tx => tx.dropPane paneId where
  aside tx ordinals := by
    unfold dropPane
    rw [withOrdinals_panes]
    split_ifs <;> rfl
  writes tx := by
    unfold dropPane
    split_ifs <;>
      exact .topology (.inr hcloses) rfl le_rfl
        (by simp [withOrdinals, Tx.push, withModel, mergesOf])

theorem dropTab_beside (tabId : String) (hcloses : scope.closes = true) : Beside scope fun tx => tx.dropTab tabId where
  aside tx ordinals := by
    unfold dropTab
    rw [withOrdinals_tabs]
    split_ifs <;> rfl
  writes tx := by
    unfold dropTab
    split_ifs <;>
      exact .topology (.inr hcloses) rfl le_rfl
        (by simp [withOrdinals, Tx.push, withModel, mergesOf])

theorem dropWorkspace_beside (workspaceId : String) (hcloses : scope.closes = true) :
    Beside scope fun tx => tx.dropWorkspace workspaceId where
  aside tx ordinals := by
    unfold dropWorkspace
    rw [withOrdinals_workspaces]
    split_ifs <;> rfl
  writes tx := by
    unfold dropWorkspace
    split_ifs <;>
      exact .topology (.inr hcloses) rfl le_rfl
        (by simp [withOrdinals, Tx.push, withModel, mergesOf])

theorem closePane_beside (paneId : String) (t : ℤ) (hcloses : scope.closes = true) :
    Beside scope fun tx => tx.closePane paneId t :=
  Beside.depending
    (f := fun executionIds tx => (executionIds.foldl (fun tx id => endExecution tx id t) tx).dropPane paneId)
    (fun executionIds => (Beside.foldl (fun id => endExecution_beside id t) executionIds).trans
      (dropPane_beside paneId hcloses))
    (fun tx => (tx.model.executions.values.filter fun execution =>
      execution.paneId = paneId && !execution.state.isTerminal).map (·.executionId))
    fun _ _ => rfl

/-- The rows that are removed with the topology, by kind. -/
def topologyIds (m : DomainModel) : List String × List String × List String :=
  (m.workspaces.values.map (·.workspaceId), m.tabs.values.map (·.tabId),
    m.panes.values.map (·.paneId))

theorem clearTopology_beside (closeMs : String → ℤ) (hcloses : scope.closes = true) :
    Beside scope fun tx => tx.clearTopology closeMs :=
  Beside.depending
    (f := fun ids tx => ids.1.foldl dropWorkspace (ids.2.1.foldl dropTab
      (ids.2.2.foldl (fun tx paneId => tx.closePane paneId (closeMs paneId)) tx)))
    (fun ids => ((Beside.foldl (fun paneId => closePane_beside paneId (closeMs paneId) hcloses) ids.2.2).trans
      (Beside.foldl (fun tabId => dropTab_beside tabId hcloses) ids.2.1)).trans
        (Beside.foldl (fun workspaceId => dropWorkspace_beside workspaceId hcloses) ids.1))
    (fun tx => topologyIds tx.model) fun _ _ => rfl

theorem clearTopology_writes (tx : Tx) (closeMs : String → ℤ) (hcloses : scope.closes = true) :
    tx.Writes scope (tx.clearTopology closeMs) :=
  ((Writes.foldl (fun tx paneId => closePane_writes tx paneId _ hcloses) _ tx).trans
    (Writes.foldl (fun tx tabId => dropTab_writes tx tabId hcloses) _ _)).trans
    (Writes.foldl (fun tx workspaceId => dropWorkspace_writes tx workspaceId hcloses) _ _)

/-- The rows of a kind that get their ordinals back. -/
theorem restoreOrdinals_get (m : DomainModel) (kind : TopologyKind) (ids : List String) (tx : Tx) :
    ∃ ordinals, tx.restoreOrdinals kind (retainedOrdinals m kind ids) = tx.withOrdinals ordinals ∧
      ∀ row, ordinals.get row =
        (if row.1 = kind ∧ row.2 ∈ ids then m.topologyOrdinals.get row else none).or
          (tx.model.topologyOrdinals.get row) := by
  induction ids generalizing tx with
  | nil => exact ⟨tx.model.topologyOrdinals, rfl, fun row => by simp⟩
  | cons id ids ih =>
    cases ho : m.topologyOrdinal kind id with
    | none =>
      obtain ⟨ordinals, h, hget⟩ := ih tx
      refine ⟨ordinals, by simpa [retainedOrdinals, ho] using h, fun row => ?_⟩
      rw [hget]
      congr 1
      by_cases hrow : row = (kind, id)
      · subst hrow
        have : m.topologyOrdinals.get (kind, id) = none := ho
        simp [this]
      · have : ¬(row.1 = kind ∧ row.2 = id) := fun h => hrow (Prod.ext h.1 h.2)
        simp only [List.mem_cons]
        grind
    | some o =>
      obtain ⟨ordinals, h, hget⟩ := ih (tx.withModel (tx.model.setTopologyOrdinal kind id o))
      refine ⟨ordinals, ?_, fun row => ?_⟩
      · simp only [retainedOrdinals, restoreOrdinals, List.filterMap_cons, ho, Option.map_some,
          List.foldl_cons]
        exact h
      rw [hget]
      by_cases hrow : row = (kind, id)
      · subst hrow
        have : m.topologyOrdinals.get (kind, id) = some o := ho
        by_cases hmem : id ∈ ids <;> simp [this, hmem, DomainModel.setTopologyOrdinal]
      · have : ¬(row.1 = kind ∧ row.2 = id) := fun h => hrow (Prod.ext h.1 h.2)
        simp only [List.mem_cons, withModel_model, DomainModel.setTopologyOrdinal,
          HashMap.get_insert, if_neg hrow]
        grind

/-- The rows of a snapshot, by kind. -/
def snapshotIds (topology : TopologySnapshot) : TopologyKind → List String
  | .workspace => topology.workspaces.map (·.workspaceId)
  | .tab => topology.tabs.map (·.tabId)
  | .pane => topology.panes.map (·.paneId)

/-- The topology with nothing but the ordinals that the rows of a snapshot keep. -/
def retainTopology (tx : Tx) (topology : TopologySnapshot) (closeMs : String → ℤ) : Tx :=
  (((tx.clearTopology closeMs).restoreOrdinals .workspace
    (retainedOrdinals tx.model .workspace (snapshotIds topology .workspace))).restoreOrdinals .tab
      (retainedOrdinals tx.model .tab (snapshotIds topology .tab))).restoreOrdinals .pane
        (retainedOrdinals tx.model .pane (snapshotIds topology .pane))

/-- Rows only lose their ordinals, and those of the snapshot keep them. -/
theorem retainTopology_get (tx : Tx) (topology : TopologySnapshot) (closeMs : String → ℤ) :
    ∃ ordinals, tx.retainTopology topology closeMs = (tx.clearTopology closeMs).withOrdinals ordinals ∧
      ∀ row, ordinals.get row =
        (if row.2 ∈ snapshotIds topology row.1 then tx.model.topologyOrdinals.get row else none).or
          ((tx.clearTopology closeMs).model.topologyOrdinals.get row) := by
  obtain ⟨first, h₁, hget₁⟩ := restoreOrdinals_get tx.model .workspace
    (snapshotIds topology .workspace) (tx.clearTopology closeMs)
  obtain ⟨second, h₂, hget₂⟩ := restoreOrdinals_get tx.model .tab (snapshotIds topology .tab)
    ((tx.clearTopology closeMs).withOrdinals first)
  obtain ⟨third, h₃, hget₃⟩ := restoreOrdinals_get tx.model .pane (snapshotIds topology .pane)
    ((tx.clearTopology closeMs).withOrdinals second)
  refine ⟨third, ?_, fun row => ?_⟩
  · unfold retainTopology
    rw [h₁, h₂]
    exact h₃
  · rw [hget₃, show ((tx.clearTopology closeMs).withOrdinals second).model.topologyOrdinals = second from rfl,
      hget₂, show ((tx.clearTopology closeMs).withOrdinals first).model.topologyOrdinals = first from rfl,
      hget₁]
    obtain ⟨kind, id⟩ := row
    cases kind <;> simp

theorem retainTopology_writes (tx : Tx) (topology : TopologySnapshot) (closeMs : String → ℤ)
    (hcloses : scope.closes = true) : tx.Writes scope (tx.retainTopology topology closeMs) := by
  obtain ⟨ordinals, h, hget⟩ := retainTopology_get tx topology closeMs
  intro hf
  have hfewer : ∀ row o, ordinals.get row = some o → tx.model.topologyOrdinals.get row = some o := by
    intro row o ho
    rw [hget, Option.or_eq_some_iff] at ho
    rcases ho with ho | ⟨-, ho⟩
    · split_ifs at ho
      exact ho
    · have hclear : tx.Writes { opens := false, closes := true, strict := true, runs := ∅, agents := ∅ }
          (tx.clearTopology closeMs) := clearTopology_writes tx closeMs rfl
      exact (hclear hf).1.row_before hf rfl ho
  have hclose : tx.Writes scope (tx.withOrdinals ordinals) :=
    Writes.one (fun _ => .closeRows ordinals hcloses hfewer) rfl
  have hbeside : Beside scope fun tx => tx.clearTopology closeMs := clearTopology_beside closeMs hcloses
  have hclear := hbeside.writes (tx.withOrdinals ordinals)
  rw [show (tx.withOrdinals ordinals).model.topologyOrdinals = ordinals from rfl,
    hbeside.aside tx ordinals, ← h] at hclear
  exact hclose.trans hclear hf

theorem replaceTopology_writes {topology : TopologySnapshot} {closeMs : String → ℤ}
    (hopens : scope.opens = true) (hcloses : scope.closes = true)
    (h : tx.replaceTopology topology closeMs = .ok tx') : tx.Writes scope tx' := by
  obtain ⟨tx₁, h₁, h⟩ := bind_eq_ok.mp h
  obtain ⟨tx₂, h₂, h₃⟩ := bind_eq_ok.mp h
  have hworkspaces : tx.Writes scope tx₁ :=
    (retainTopology_writes tx topology closeMs hcloses).trans
      (Writes.foldlM (fun _ _ _ hs => storeWorkspace_writes hopens hs) h₁)
  exact hworkspaces.trans ((Writes.foldlM (fun _ _ _ hs => storeTab_writes hopens hs) h₂).trans
    (Writes.foldlM (fun _ _ _ hs => storePane_writes hopens hs) h₃))

/-! ### The ordinals that rows keep in a snapshot -/

/-- Rows of a snapshot were given ordinals; the others are left alone. -/
structure Opened (topology : TopologySnapshot) (before after : Tx) : Prop where
  /-- A row keeps its ordinal. -/
  kept : ∀ row o, before.model.topologyOrdinals.get row = some o →
    after.model.topologyOrdinals.get row = some o
  /-- A row that has an ordinal had it, or it is one of the snapshot. -/
  opened : ∀ row o, after.model.topologyOrdinals.get row = some o →
    before.model.topologyOrdinals.get row = some o ∨
      (before.model.topologyOrdinals.get row = none ∧ row.2 ∈ snapshotIds topology row.1)

theorem Opened.refl (topology : TopologySnapshot) (tx : Tx) : Opened topology tx tx :=
  ⟨fun _ _ h => h, fun _ _ h => .inl h⟩

theorem Opened.trans {topology : TopologySnapshot} (h : Opened topology tx tx')
    (h' : Opened topology tx' tx'') : Opened topology tx tx'' where
  kept row o ho := h'.kept row o (h.kept row o ho)
  opened row o ho := by
    rcases h'.opened row o ho with ho' | ⟨hnone, hrow⟩
    · exact h.opened row o ho'
    · refine .inr ⟨?_, hrow⟩
      cases hbefore : tx.model.topologyOrdinals.get row with
      | none => rfl
      | some o' => rw [h.kept row o' hbefore] at hnone; cases hnone

theorem Opened.foldlM {α : Type} {topology : TopologySnapshot} {f : Tx → α → Except ReducerFailure Tx}
    {l : List α} (hf : ∀ a ∈ l, ∀ tx tx', f tx a = .ok tx' → Opened topology tx tx') {start last : Tx}
    (h : l.foldlM f start = .ok last) : Opened topology start last := by
  induction l generalizing start with
  | nil =>
    cases h
    exact .refl _ _
  | cons a l ih =>
    rw [List.foldlM_cons, bind_eq_ok] at h
    obtain ⟨next, h₁, h₂⟩ := h
    exact (hf a List.mem_cons_self start next h₁).trans
      (ih (fun b hb => hf b (List.mem_cons_of_mem _ hb)) h₂)

theorem topologyOrdinal_opened {topology : TopologySnapshot} {kind : TopologyKind} {id : String}
    {o : DisplayOrdinal} (hid : id ∈ snapshotIds topology kind)
    (h : tx.topologyOrdinalOrAllocate kind id = .ok (o, tx')) : Opened topology tx tx' := by
  unfold topologyOrdinalOrAllocate at h
  split at h
  · cases h
    exact .refl _ _
  · rename_i hnone
    obtain ⟨⟨o', tx₁⟩, h₁, h₂⟩ := bind_eq_ok.mp h
    obtain ⟨rfl, rfl⟩ := allocateOrdinal_ok h₁
    cases h₂
    have hget : ∀ row, (tx.model.setTopologyOrdinal kind id tx.nextOrdinal).topologyOrdinals.get row =
        if row = (kind, id) then some tx.nextOrdinal else tx.model.topologyOrdinals.get row :=
      fun row => HashMap.get_insert _ _ _ _
    refine ⟨fun row o ho => ?_, fun row o ho => ?_⟩
    · rw [withModel_model, hget]
      split_ifs with hrow
      · rw [hrow] at ho
        cases hnone.symm.trans ho
      · exact ho
    · rw [withModel_model, hget] at ho
      split_ifs at ho with hrow
      · rw [hrow]
        exact .inr ⟨hnone, hid⟩
      · exact .inl ho

/-- A row that a snapshot replaces or keeps has the ordinal it had. -/
theorem replaceTopology_row {topology : TopologySnapshot} {closeMs : String → ℤ} (hf : tx.model.Filed)
    (h : tx.replaceTopology topology closeMs = .ok tx') {row : TopologyKind × String}
    {o o' : DisplayOrdinal} (hbefore : tx.model.topologyOrdinals.get row = some o)
    (hafter : tx'.model.topologyOrdinals.get row = some o') : o' = o := by
  obtain ⟨tx₁, h₁, h⟩ := bind_eq_ok.mp h
  obtain ⟨tx₂, h₂, h₃⟩ := bind_eq_ok.mp h
  obtain ⟨ordinals, hretain, hget⟩ := retainTopology_get tx topology closeMs
  have hworkspaces : Opened topology (tx.retainTopology topology closeMs) tx₁ := by
    refine Opened.foldlM (fun workspace hw tx tx' hs => ?_) h₁
    obtain ⟨⟨o, tx₁⟩, h₁, h₂⟩ := bind_eq_ok.mp hs
    cases h₂
    have hopened := @topologyOrdinal_opened _ _ topology .workspace _ _ (List.mem_map_of_mem hw) h₁
    exact ⟨hopened.kept, hopened.opened⟩
  have htabs : Opened topology tx₁ tx₂ := by
    refine Opened.foldlM (fun tab ht tx tx' hs => ?_) h₂
    obtain ⟨⟨o, tx₁⟩, h₁, h₂⟩ := bind_eq_ok.mp hs
    cases h₂
    have hopened := @topologyOrdinal_opened _ _ topology .tab _ _ (List.mem_map_of_mem ht) h₁
    split_ifs <;> exact ⟨hopened.kept, hopened.opened⟩
  have hpanes : Opened topology tx₂ tx' := by
    refine Opened.foldlM (fun pane hp tx tx' hs => ?_) h₃
    obtain ⟨⟨o, tx₁⟩, h₁, h₂⟩ := bind_eq_ok.mp hs
    cases h₂
    have hopened := @topologyOrdinal_opened _ _ topology .pane _ _ (List.mem_map_of_mem hp) h₁
    split_ifs <;> exact ⟨hopened.kept, hopened.opened⟩
  have hrow := ((hworkspaces.trans htabs).trans hpanes).opened row o' hafter
  rw [hretain, show ((tx.clearTopology closeMs).withOrdinals ordinals).model.topologyOrdinals = ordinals
    from rfl, hget] at hrow
  rcases hrow with hrow | ⟨hnone, hmem⟩
  · rw [Option.or_eq_some_iff] at hrow
    rcases hrow with hrow | ⟨-, hrow⟩
    · split_ifs at hrow
      exact Option.some.inj (hrow.symm.trans hbefore)
    · have hclear : tx.Writes { opens := false, closes := true, strict := true, runs := ∅, agents := ∅ }
          (tx.clearTopology closeMs) := clearTopology_writes tx closeMs rfl
      exact Option.some.inj (((hclear hf).1.row_before hf rfl hrow).symm.trans hbefore)
  · rw [if_pos hmem, hbefore] at hnone
    cases hnone

theorem replacePaneAgentStatuses_writes (tx : Tx) (panes : List PaneSnapshot) (hopens : scope.opens = true) :
    tx.Writes scope (tx.replacePaneAgentStatuses panes) := .topology (.inl hopens) rfl le_rfl rfl

theorem runForNativeSession_hasRun {m : DomainModel} (hf : m.Filed) {provider : Provider} {sid : String}
    {id : RunId} (h : runForNativeSession m provider sid = some id) : m.HasRun id := by
  unfold runForNativeSession at h
  split at h
  · rename_i run hrun
    cases h
    exact .of_get (hf.taskRunByKey hrun)
  · dsimp only at h
    split at h
    · cases h
    · rename_i first rest hruns
      split_ifs at h
      simp only [Option.some.injEq] at h
      subst h
      have hmem : first ∈ first :: rest := List.mem_cons_self
      rw [← hruns, List.mem_map] at hmem
      obtain ⟨node, hnode, rfl⟩ := hmem
      rw [List.mem_filter, Bool.and_eq_true, Option.any_eq_true] at hnode
      obtain ⟨run, hrun, -⟩ := hnode.2.2
      exact .of_get hrun

/-- The owner of a session exists. -/
theorem snapshotOwner_hasRun {m : DomainModel} (hf : m.Filed) {session : SnapshotSession} {id : RunId}
    (h : snapshotOwner m session = some id) : m.HasRun id := by
  unfold snapshotOwner at h
  split at h
  · exact runForNativeSession_hasRun hf h
  · obtain ⟨run, hrun, rfl⟩ := Option.map_eq_some_iff.mp h
    exact .of_get (hf.taskRunByKey hrun)
  · cases h

/-- A session that nobody has gives a new run a new key. -/
theorem insertSnapshotRun_writes {session : SnapshotSession} {terminalId : String} {fresh : RunId}
    {t : ℤ} (hbare : scope.bare = true) (hdrawn : fresh ∈ scope.runs) (habsent : tx.model.taskRuns.get fresh = none)
    (howner : snapshotOwner tx.model session = none)
    (h : tx.insertSnapshotRun session terminalId fresh t = .ok tx') :
    tx.Writes scope tx' ∧ tx'.model.HasRun fresh := by
  unfold insertSnapshotRun at h
  obtain ⟨⟨o, tx₁⟩, h₁, h₂⟩ := bind_eq_ok.mp h
  obtain ⟨rfl, rfl⟩ := allocateOrdinal_ok h₁
  simp only [Except.ok.injEq] at h₂
  subst h₂
  refine ⟨createRun_writes t (by simpa [newTaskRun] using hdrawn)
    (by simpa [newTaskRun] using habsent) (by simp [newTaskRun]) (fun _ => ?_)
    (stamped_stampNewTaskRun t rfl rfl rfl) fun hb => by simp [hbare] at hb, ?_⟩
  · simp only [stampNewTaskRun_key, newTaskRun]
    unfold snapshotOwner at howner
    split
    · rename_i provider sid _ hp hs
      refine .free rfl ?_
      simp only [hp, hs] at howner
      unfold runForNativeSession at howner
      split at howner
      · cases howner
      · assumption
    · rename_i provider path hp hs hpath
      refine .free rfl ?_
      simp only [hp, hs, hpath, Option.map_eq_none_iff] at howner
      exact howner
    · exact .provisional _ _
  · exact .of_get (by simp [storeRun, Tx.push, withModel, DomainModel.insertTaskRun, newTaskRun]; rfl)

/-- The run of a session exists afterwards. -/
theorem snapshotRun_writes {session : SnapshotSession} {terminalId : String} {fresh runId : RunId}
    {t : ℤ} (hbare : scope.bare = true) (hf : tx.model.Filed) (hdrawn : fresh ∈ scope.runs)
    (habsent : tx.model.taskRuns.get fresh = none)
    (h : tx.snapshotRun session terminalId fresh t = .ok (runId, tx')) :
    tx.Writes scope tx' ∧ tx'.model.HasRun runId := by
  unfold snapshotRun at h
  split at h
  · rename_i owner howner
    cases h
    exact ⟨.refl _, snapshotOwner_hasRun hf howner⟩
  · rename_i howner
    obtain ⟨tx₁, h₁, h₂⟩ := bind_eq_ok.mp h
    cases h₂
    exact insertSnapshotRun_writes hbare hdrawn habsent howner h₁

/-- The name of an execution that a snapshot shows for the first time. -/
def gapExecutionId (token : RunId) : String := s!"gap-execution-{token.text}"

/-- The name of the execution that a snapshot continues or begins. -/
def snapshotExecutionId (m : DomainModel) (pane : PaneSnapshot) (runId token : RunId) : String :=
  (leastText ((m.executions.values.filter fun execution =>
    execution.paneId = pane.paneId && execution.terminalId = pane.terminalId &&
      execution.taskRunId = runId).map (·.executionId))).getD (gapExecutionId token)

/-- A snapshot continues an execution of the run, or begins one under the name drawn for it. -/
theorem snapshotExecutionId_cases {m : DomainModel} (hf : m.Filed) (pane : PaneSnapshot) (runId token : RunId) :
    snapshotExecutionId m pane runId token = gapExecutionId token ∨
      ∃ old, m.executions.get (snapshotExecutionId m pane runId token) = some old ∧ old.taskRunId = runId := by
  unfold snapshotExecutionId
  cases hleast : leastText ((m.executions.values.filter fun execution =>
      execution.paneId = pane.paneId && execution.terminalId = pane.terminalId &&
        execution.taskRunId = runId).map (·.executionId)) with
  | none => exact .inl rfl
  | some id =>
    obtain ⟨execution, hmem, rfl⟩ := List.mem_map.mp (leastText_mem hleast)
    rw [List.mem_filter, HashMap.mem_values] at hmem
    obtain ⟨⟨name, hname⟩, hown⟩ := hmem
    simp only [Bool.and_eq_true, decide_eq_true_eq] at hown
    refine .inr ⟨execution, ?_, hown.2⟩
    rw [Option.getD_some, hf.named name execution hname]
    exact hname

theorem activateForLiveExecution_executions (tx : Tx) (runId : RunId) (t : ℤ) :
    (tx.activateForLiveExecution runId t).model.executions = tx.model.executions := by
  unfold activateForLiveExecution
  split
  · rfl
  · split_ifs <;> rfl

theorem reopenNativeLifecycle_executions (tx : Tx) (runId : RunId) (executionId : String) (t : ℤ) :
    (tx.reopenNativeLifecycleForLiveExecution runId executionId t).model.executions = tx.model.executions := by
  unfold reopenNativeLifecycleForLiveExecution
  split
  · rfl
  · split_ifs
    · rfl
    · unfold applyNativeLifecycle
      dsimp only
      split_ifs
      · rfl
      · rfl
      · split <;> rfl

/-- The execution of a pane is stored, and its run goes on. -/
theorem beginSnapshotExecution_parts (tx : Tx) (pane : PaneSnapshot) (agent : SnapshotAgent) (runId token : RunId)
    (resolvedOwner : Bool) (nowMs : ℤ) :
    ∃ execution : Execution, execution.executionId = snapshotExecutionId tx.model pane runId token ∧
      execution.taskRunId = runId ∧
      ((tx.withModel (tx.model.insertExecution execution)).push (persistExecution execution nowMs)).Writes scope
        (tx.beginSnapshotExecution pane agent runId token resolvedOwner nowMs) ∧
      (tx.beginSnapshotExecution pane agent runId token resolvedOwner nowMs).model.executions =
        (tx.model.insertExecution execution).executions := by
  refine ⟨⟨_, pane.paneId, pane.terminalId, runId, agent.status.executionState⟩, rfl, rfl, ?_⟩
  unfold beginSnapshotExecution
  dsimp only
  split_ifs
  · exact ⟨.refl _, rfl⟩
  · refine ⟨(activateForLiveExecution_writes _ _ _ fun _ => executes_insertExecution _ _).trans
      (reopenNativeLifecycle_writes _ _ _ _), ?_⟩
    rw [reopenNativeLifecycle_executions, activateForLiveExecution_executions]
    rfl
  · refine ⟨activateForLiveExecution_writes _ _ _ fun _ => executes_insertExecution _ _, ?_⟩
    rw [activateForLiveExecution_executions]
    rfl

theorem beginSnapshotExecution_writes {pane : PaneSnapshot} {agent : SnapshotAgent} {runId token : RunId}
    {resolvedOwner : Bool} {nowMs : ℤ} (hrun : tx.model.HasRun runId)
    (hfresh : scope.bare = false → tx.model.executions.get (gapExecutionId token) = none) :
    tx.Writes scope
      (tx.beginSnapshotExecution pane agent runId token resolvedOwner nowMs) := by
  obtain ⟨execution, hid, howner, hafter, -⟩ :=
    @beginSnapshotExecution_parts scope tx pane agent runId token resolvedOwner nowMs
  refine (insertExecution_writes tx execution nowMs (fun _ => howner ▸ hrun) fun hb hf old hold => ?_).trans hafter
  rw [hid] at hold
  rcases snapshotExecutionId_cases hf pane runId token with hnew | ⟨held, hheld, hown⟩
  · rw [hnew, hfresh hb] at hold
    cases hold
  · cases hold.symm.trans hheld
    exact hown.trans howner.symm

/-- The agent that a snapshot means is one of the run. -/
theorem snapshotAgentNode_mem {m : DomainModel} {runId : RunId} {provider : Provider}
    {sid : Option String} {node : AgentNode} (h : snapshotAgentNode m runId provider sid = some node) :
    node ∈ m.agentNodes.values ∧ node.taskRunId = runId := by
  have hown : ∀ n ∈ m.agentNodes.values.filter fun node =>
      node.taskRunId = runId && node.provider = provider, n ∈ m.agentNodes.values ∧ n.taskRunId = runId := by
    intro n hn
    simp only [List.mem_filter, Bool.and_eq_true, decide_eq_true_eq] at hn
    exact ⟨hn.1, hn.2.1⟩
  have hleast : ∀ nodes : List AgentNode, (∀ n ∈ nodes, n ∈ m.agentNodes.values ∧ n.taskRunId = runId) →
      ((leastText (nodes.map (·.agentNodeId))).bind fun id => nodes.find? (·.agentNodeId = id)) =
        some node → node ∈ m.agentNodes.values ∧ node.taskRunId = runId := by
    intro nodes hnodes hfind
    obtain ⟨id, -, hid⟩ := Option.bind_eq_some_iff.mp hfind
    exact hnodes node (List.mem_of_find?_eq_some hid)
  unfold snapshotAgentNode at h
  dsimp only at h
  split at h
  · exact hleast _ (fun n hn => hown n (List.mem_of_mem_filter hn)) h
  · rcases Option.or_eq_some_iff.mp h with h | ⟨-, h⟩
    · exact hleast _ (fun n hn => hown n (List.mem_of_mem_filter hn)) h
    · exact hleast _ hown h

/-- The name of an agent that a snapshot shows for the first time. -/
def gapAgentId (token : RunId) : String := s!"gap-agent-{token.text}"

theorem ensureSnapshotAgent_writes {runId token : RunId} {session : SnapshotSession}
    (hrun : tx.model.HasRun runId) (hdrawn : gapAgentId token ∈ scope.agents)
    (habsent : scope.strict = true → tx.model.agentNodes.get (gapAgentId token) = none)
    (h : tx.ensureSnapshotAgent runId session token = .ok tx') : tx.Writes scope tx' := by
  unfold ensureSnapshotAgent at h
  split at h
  · cases h
    exact .refl _
  · split at h
    · rename_i node hnode
      obtain ⟨hmem, howner⟩ := snapshotAgentNode_mem hnode
      obtain ⟨id, hid⟩ := HashMap.mem_values.mp hmem
      cases h
      exact storeAgentNode_writes _ node (fun _ => howner.symm ▸ hrun)
        (fun hf => by rw [hf.agent id node hid]; exact hid) rfl (.inl rfl)
    · obtain ⟨⟨o, tx₁⟩, h₁, h₂⟩ := bind_eq_ok.mp h
      obtain ⟨rfl, rfl⟩ := allocateOrdinal_ok h₁
      cases h₂
      exact createAgentNode_writes tx (fun _ => hrun) hdrawn (fun _ => habsent) rfl (fun _ hid => by cases hid)

theorem reconcilePane_writes {nowMs : ℤ} {entry : PaneSnapshot × PaneDraw} (hbare : scope.bare = true)
    (hrun : entry.2.run ∈ scope.runs) (hagent : gapAgentId entry.2.token ∈ scope.agents)
    (habsent : tx.model.taskRuns.get entry.2.run = none)
    (hunnamed : scope.strict = true → tx.model.agentNodes.get (gapAgentId entry.2.token) = none)
    (h : reconcilePane nowMs tx entry = .ok tx') : tx.Writes scope tx' := by
  unfold reconcilePane at h
  dsimp only at h
  split at h
  · cases h
    exact .refl _
  · rename_i agent _
    obtain ⟨⟨runId, tx₁⟩, h₁, h₂⟩ := bind_eq_ok.mp h
    intro hf
    -- before its agent is named, nothing gets a name
    have hunchanged : { scope with agents := ∅ }.Within scope :=
      ⟨id, subset_rfl, Set.empty_subset _, id, id, id⟩
    obtain ⟨hw, hexists⟩ : tx.Writes { scope with agents := ∅ } tx₁ ∧ _ :=
      snapshotRun_writes hbare hf hrun habsent h₁
    revert h₂
    generalize ((entry.1.session agent).provider.isSome && _ && _) = resolved
    intro h₂
    have hbegin : tx₁.Writes { scope with agents := ∅ } (tx₁.beginSnapshotExecution entry.1 agent runId
        entry.2.token resolved nowMs) :=
      beginSnapshotExecution_writes hexists fun hb => by simp [hbare] at hb
    have hnamed : (tx₁.beginSnapshotExecution entry.1 agent runId entry.2.token resolved nowMs).Writes
        scope tx' :=
      ensureSnapshotAgent_writes (hbegin.keeps_run (hw.filed hf) hexists) hagent
        (fun hs => (hw.trans hbegin hf).1.keeps_unnamed hf (Set.notMem_empty _) (hunnamed hs)) h₂
    exact (((hw.trans hbegin).mono hunchanged).trans hnamed) hf

/-- The panes are reconciled one after the other, each with an identity and a name that are still
free. -/
theorem reconcilePanes_writes {nowMs : ℤ} {entries : List (PaneSnapshot × PaneDraw)}
    (hbare : scope.bare = true) (hruns : ∀ e ∈ entries, e.2.run ∈ scope.runs)
    (hagents : ∀ e ∈ entries, gapAgentId e.2.token ∈ scope.agents)
    (habsent : ∀ e ∈ entries, tx.model.taskRuns.get e.2.run = none)
    (hunnamed : scope.strict = true → ∀ e ∈ entries,
      tx.model.agentNodes.get (gapAgentId e.2.token) = none)
    (hnodup : (entries.map (·.2.run)).Nodup)
    (hnames : scope.strict = true → (entries.map fun e => gapAgentId e.2.token).Nodup)
    (h : entries.foldlM (reconcilePane nowMs) tx = .ok tx') : tx.Writes scope tx' := by
  induction entries generalizing tx with
  | nil =>
    cases h
    exact .refl _
  | cons entry entries ih =>
    rw [List.foldlM_cons, bind_eq_ok] at h
    obtain ⟨next, h₁, h₂⟩ := h
    simp only [List.map_cons, List.nodup_cons] at hnodup hnames
    intro hf
    have hw : tx.Writes { scope with runs := {entry.2.run}, agents := {gapAgentId entry.2.token} } next :=
      reconcilePane_writes hbare rfl rfl (habsent entry List.mem_cons_self)
        (fun hs => hunnamed hs entry List.mem_cons_self) h₁
    refine ((hw.mono ?_).trans (ih (fun e he => hruns e (List.mem_cons_of_mem _ he))
      (fun e he => hagents e (List.mem_cons_of_mem _ he)) (fun e he => ?_) (fun hs e he => ?_)
      hnodup.2 (fun hs => (hnames hs).2) h₂)) hf
    · exact ⟨id, Set.singleton_subset_iff.mpr (hruns entry List.mem_cons_self),
        Set.singleton_subset_iff.mpr (hagents entry List.mem_cons_self), id, id, id⟩
    · refine (hw hf).1.keeps_absent hf (fun hid => ?_) (habsent e (List.mem_cons_of_mem _ he))
      exact hnodup.1 (hid ▸ List.mem_map_of_mem he)
    · refine (hw hf).1.keeps_unnamed hf (fun hid => (hnames hs).1 ?_)
        (hunnamed hs e (List.mem_cons_of_mem _ he))
      exact List.mem_map.mpr ⟨e, he, hid⟩

theorem closePreGapRun_writes (nowMs : ℤ) (tx : Tx) (runId : RunId)
    (hexecutes : scope.bare = false → tx.model.Executes runId) :
    tx.Writes scope (closePreGapRun nowMs tx runId) :=
  (closeRunWithoutLiveExecution_writes _ _ _ hexecutes).trans (closeHistoryReadyRun_writes _ _ _)

theorem endPreGapExecutions_writes (nowMs : ℤ) {executions : List Execution}
    (owners : tx.model.Filed → ∀ e ∈ executions, tx.model.HasRun e.taskRunId)
    (held : tx.model.Filed → ∀ e ∈ executions, ∃ old, tx.model.executions.get e.executionId = some old ∧
      old.taskRunId = e.taskRunId) :
    tx.Writes scope (executions.foldl (endPreGapExecution nowMs) tx) := by
  induction executions generalizing tx with
  | nil => exact .refl tx
  | cons execution executions ih =>
    have hw : tx.Writes scope (tx.endPreGapExecution nowMs execution) := by
      refine endPreGapExecution_writes nowMs (fun hf => owners hf _ List.mem_cons_self) fun _ hf old hold => ?_
      obtain ⟨row, hrow, hsame⟩ := held hf execution List.mem_cons_self
      cases hold.symm.trans hrow
      exact hsame
    intro hf
    refine (hw.trans (ih (fun _ e he => ?_) fun _ e he => ?_)) hf
    · exact hw.keeps_run hf (owners hf e (List.mem_cons_of_mem _ he))
    · obtain ⟨row, hrow, hsame⟩ := held hf e (List.mem_cons_of_mem _ he)
      unfold endPreGapExecution
      split_ifs
      · exact ⟨row, hrow, hsame⟩
      · simp only [Tx.push, withModel, DomainModel.insertExecution, HashMap.get_insert]
        split_ifs with hid
        · obtain ⟨first, hfirst, hfirstSame⟩ := held hf execution List.mem_cons_self
          rw [hid, hfirst] at hrow
          cases hrow
          exact ⟨_, rfl, hfirstSame.symm.trans hsame⟩
        · exact ⟨row, hrow, hsame⟩

/-- The pane at this position shows an agent; for another one nothing is drawn. -/
def DrawsAt (panes : List PaneSnapshot) (i : ℕ) : Prop := ∃ pane ∈ panes[i]?, pane.agent.isSome = true

instance (panes : List PaneSnapshot) (i : ℕ) : Decidable (DrawsAt panes i) :=
  inferInstanceAs (Decidable (∃ pane ∈ panes[i]?, pane.agent.isSome = true))

/-- The identities drawn for the panes of a snapshot are new ones; in a strict run, so are the names of
their agents. -/
structure FreshDraws (strict : Bool) (m : DomainModel) (panes : List PaneSnapshot)
    (draws : ℕ → PaneDraw) : Prop where
  /-- Nobody has them. -/
  absent : ∀ i, DrawsAt panes i → m.taskRuns.get (draws i).run = none
  /-- They are distinct. -/
  distinct : ∀ i j, DrawsAt panes i → DrawsAt panes j → (draws i).run = (draws j).run → i = j
  /-- No agent has such a name. -/
  unnamed : strict = true → ∀ i, DrawsAt panes i → m.agentNodes.get (gapAgentId (draws i).token) = none
  /-- The names are distinct. -/
  names : strict = true → ∀ i j, DrawsAt panes i → DrawsAt panes j →
    gapAgentId (draws i).token = gapAgentId (draws j).token → i = j

/-- Nothing is drawn for panes without an agent. -/
theorem FreshDraws.of_no_agent {strict : Bool} {m : DomainModel} {panes : List PaneSnapshot} {draws : ℕ → PaneDraw}
    (h : ∀ pane ∈ panes, pane.agent = none) : FreshDraws strict m panes draws := by
  have hnone : ∀ i, ¬DrawsAt panes i := by
    rintro i ⟨pane, hpane, hagent⟩
    rw [h pane (List.mem_of_getElem? hpane)] at hagent
    cases hagent
  exact ⟨fun i hi => absurd hi (hnone i), fun i _ hi => absurd hi (hnone i), fun _ i hi => absurd hi (hnone i),
    fun _ i _ hi => absurd hi (hnone i)⟩

/-- The executions of before a gap end. -/
theorem endPreGap_writes (tx : Tx) (nowMs : ℤ) :
    tx.Writes scope ((tx.model.executions.values.insertionSort
      fun left right => left.executionId ≤ right.executionId).foldl (endPreGapExecution nowMs) tx) := by
  refine endPreGapExecutions_writes nowMs (fun hf e he => ?_) fun hf e he => ?_
  all_goals
    rw [List.mem_insertionSort, HashMap.mem_values] at he
    obtain ⟨id, hid⟩ := he
  · exact hf.execution id e hid
  · exact ⟨e, by rw [hf.named id e hid]; exact hid, rfl⟩

section

variable {panes : List PaneSnapshot} {draws : ℕ → PaneDraw}

/-- The panes that show an agent, with what is drawn for them. -/
def drawnPanes (panes : List PaneSnapshot) (draws : ℕ → PaneDraw) : List (PaneSnapshot × PaneDraw) :=
  (panes.zipIdx.map fun entry => (entry.1, draws entry.2)).filter fun e => e.1.agent.isSome

/-- The other panes change nothing. -/
theorem reconcilePanes_drawn (nowMs : ℤ) (tx : Tx) :
    (panes.zipIdx.map fun entry => (entry.1, draws entry.2)).foldlM (reconcilePane nowMs) tx =
      (drawnPanes panes draws).foldlM (reconcilePane nowMs) tx := by
  unfold drawnPanes
  generalize panes.zipIdx.map (fun entry => (entry.1, draws entry.2)) = entries
  induction entries generalizing tx with
  | nil => rfl
  | cons entry entries ih =>
    cases hagent : entry.1.agent with
    | none =>
      have hsame : reconcilePane nowMs tx entry = .ok tx := by simp only [reconcilePane, hagent]
      rw [List.filter_cons_of_neg (by simp [hagent]), List.foldlM_cons, hsame]
      exact ih tx
    | some agent =>
      rw [List.filter_cons_of_pos (by simp [hagent]), List.foldlM_cons, List.foldlM_cons]
      exact congrArg _ (funext ih)

/-- What is drawn for a pane of a snapshot is drawn for its position. -/
theorem exists_draw {e : PaneSnapshot × PaneDraw} (he : e ∈ drawnPanes panes draws) :
    ∃ i, DrawsAt panes i ∧ e.2 = draws i := by
  obtain ⟨hmem, hagent⟩ := List.mem_filter.mp he
  obtain ⟨⟨pane, i⟩, hi, rfl⟩ := List.mem_map.mp hmem
  exact ⟨i, ⟨pane, List.mem_zipIdx_iff_getElem?.mp hi, hagent⟩, rfl⟩

/-- What is drawn for the panes of a snapshot is distinct if it is for distinct positions. -/
theorem nodup_draws {β : Type} (f : PaneDraw → β)
    (hinj : ∀ i j, DrawsAt panes i → DrawsAt panes j → f (draws i) = f (draws j) → i = j) :
    ((drawnPanes panes draws).map fun e => f e.2).Nodup := by
  have hmap : (drawnPanes panes draws).map (fun e => f e.2) =
      ((panes.zipIdx.filter fun entry => entry.1.agent.isSome).map Prod.snd).map fun i => f (draws i) := by
    rw [drawnPanes, List.filter_map, List.map_map, List.map_map]
    rfl
  have hdraws : ∀ i ∈ (panes.zipIdx.filter fun entry => entry.1.agent.isSome).map Prod.snd, DrawsAt panes i := by
    intro i hi
    obtain ⟨⟨pane, j⟩, hj, rfl⟩ := List.mem_map.mp hi
    obtain ⟨hmem, hagent⟩ := List.mem_filter.mp hj
    exact ⟨pane, List.mem_zipIdx_iff_getElem?.mp hmem, hagent⟩
  rw [hmap]
  refine List.Nodup.map_on (fun i hi j hj => hinj i j (hdraws i hi) (hdraws j hj)) ?_
  exact (List.nodup_zipIdx_map_snd _).sublist (List.filter_sublist.map _)

end

/-- The topology is replaced between writes that leave its ordinals alone. -/
theorem reconcileSnapshotInner_parts {topology : TopologySnapshot} {draws : ℕ → PaneDraw} {nowMs : ℤ}
    {closeMs : String → ℤ} (hf : tx.model.Filed)
    (hfresh : FreshDraws scope.strict tx.model topology.panes draws) (hbare : scope.bare = true)
    (hruns : scope.runs = Set.univ) (hagents : scope.agents = Set.univ)
    (h : tx.reconcileSnapshotInner topology draws nowMs closeMs = .ok tx') :
    ∃ tx₁ tx₂, tx.Writes scope tx₁ ∧ tx₁.replaceTopology topology closeMs = .ok tx₂ ∧
      (tx₂.replacePaneAgentStatuses topology.panes).Writes scope tx' := by
  obtain ⟨tx₁, h₁, h⟩ := bind_eq_ok.mp h
  obtain ⟨tx₂, h₂, h₃⟩ := bind_eq_ok.mp h
  have hpre : tx.Writes { opens := true, closes := true, strict := true, runs := ∅, agents := ∅ }
      (tx₁.replacePaneAgentStatuses topology.panes) :=
    ((endPreGap_writes tx nowMs).trans (replaceTopology_writes rfl rfl h₁)).trans
      (replacePaneAgentStatuses_writes _ _ rfl)
  cases h₃
  rw [reconcilePanes_drawn] at h₂
  refine ⟨_, _, endPreGap_writes tx nowMs, h₁,
    (reconcilePanes_writes hbare (fun e _ => ?_) (fun e _ => ?_) (fun e he => ?_) (fun hs e he => ?_)
      (nodup_draws PaneDraw.run hfresh.distinct) (fun hs => nodup_draws (fun draw => gapAgentId draw.token)
        (hfresh.names hs)) h₂).trans
        (Writes.foldl (fun tx runId => closePreGapRun_writes nowMs tx runId fun hb => ?_) _ _)⟩
  · rw [hruns]
    exact Set.mem_univ _
  · rw [hagents]
    exact Set.mem_univ _
  · obtain ⟨i, hi, hd⟩ := exists_draw he
    rw [hd]
    exact (hpre hf).1.keeps_absent hf (Set.notMem_empty _) (hfresh.absent i hi)
  · obtain ⟨i, hi, hd⟩ := exists_draw he
    rw [hd]
    exact (hpre hf).1.keeps_unnamed hf (Set.notMem_empty _) (hfresh.unnamed hs i hi)
  · simp [hbare] at hb

theorem reconcileSnapshotInner_writes {strict : Bool} {rows : RowScope} {topology : TopologySnapshot}
    {draws : ℕ → PaneDraw} {nowMs : ℤ} {closeMs : String → ℤ} (hopens : rows.opens = true)
    (hcloses : rows.closes = true) (hfresh : FreshDraws strict tx.model topology.panes draws)
    (h : tx.reconcileSnapshotInner topology draws nowMs closeMs = .ok tx') :
    tx.Writes (.wide strict rows) tx' := fun hf => by
  obtain ⟨tx₁, tx₂, h₁, hreplace, h₂⟩ := @reconcileSnapshotInner_parts (.wide strict rows) _ _ _ _ _ _ hf
    hfresh rfl rfl rfl h
  exact (h₁.trans ((replaceTopology_writes hopens hcloses hreplace).trans
    ((replacePaneAgentStatuses_writes _ _ hopens).trans h₂))) hf

/-- A row that is in the topology before and after a snapshot keeps its ordinal. -/
theorem reconcileSnapshotInner_row {strict : Bool} {topology : TopologySnapshot}
    {draws : ℕ → PaneDraw} {nowMs : ℤ} {closeMs : String → ℤ} (hf : tx.model.Filed)
    (hfresh : FreshDraws strict tx.model topology.panes draws)
    (h : tx.reconcileSnapshotInner topology draws nowMs closeMs = .ok tx')
    {row : TopologyKind × String} {o o' : DisplayOrdinal}
    (hbefore : tx.model.topologyOrdinals.get row = some o)
    (hafter : tx'.model.topologyOrdinals.get row = some o') : o' = o := by
  obtain ⟨tx₁, tx₂, h₁, hreplace, h₂⟩ :=
    @reconcileSnapshotInner_parts (.wide strict ⟨false, false⟩) _ _ _ _ _ _ hf hfresh rfl rfl rfl h
  have hreplaced : tx₁.Writes (.wide strict ⟨true, true⟩) (tx₂.replacePaneAgentStatuses topology.panes) :=
    (replaceTopology_writes rfl rfl hreplace).trans (replacePaneAgentStatuses_writes _ _ rfl)
  have hfiled₁ := h₁.filed hf
  have hfiled₂ := hreplaced.filed hfiled₁
  exact replaceTopology_row hfiled₁ hreplace ((h₁ hf).1.row_after hf rfl hbefore)
    ((h₂ hfiled₂).1.row_before hfiled₂ rfl hafter)

/-! ### Sweeps and operator commands -/

theorem expireRun_writes (tx : Tx) (runId : RunId) (t : ℤ)
    (hopen : ∀ run, tx.model.taskRun runId = some run → run.state.isSemanticTerminal = false)
    (hspoken : scope.bare = false → tx.model.Filed → ∀ run, tx.model.taskRun runId = some run →
      run.hasControllerTaskStateEvent = true ∨ tx.model.Executes runId) :
    tx.Writes scope (tx.expireRun runId t) := by
  unfold expireRun
  split
  · exact .refl tx
  · rename_i taskRun hrun
    refine storeRun_writes taskRun t (fun hf => by simpa using hf.taskRun hrun) (by simp) (by simp)
      (fun hend => ?_) (.touched t rfl id rfl rfl) fun hb hf => ?_
    · rw [hopen taskRun hrun] at hend
      cases hend
    · rw [touchTaskRun_hasControllerTaskStateEvent, touchTaskRun_runId, hf.run runId taskRun hrun]
      exact (hspoken hb hf taskRun hrun).imp id .inr

/-- A run that is ended keeps what a Controller said of it; the others stay. -/
theorem expireRun_rows (runId : RunId) (t : ℤ) (hf : tx.model.Filed) :
    (tx.expireRun runId t).model.executions = tx.model.executions ∧
      ∀ id run, (tx.expireRun runId t).model.taskRun id = some run → tx.model.taskRun id = some run ∨
        ∃ old, tx.model.taskRun id = some old ∧
          run.hasControllerTaskStateEvent = old.hasControllerTaskStateEvent ∧ run.state = .endedUnknown := by
  unfold expireRun
  split
  · exact ⟨rfl, fun _ _ h => .inl h⟩
  · rename_i taskRun hrun
    refine ⟨rfl, fun id run h => ?_⟩
    simp only [storeRun, Tx.push, withModel, DomainModel.taskRun, DomainModel.insertTaskRun,
      HashMap.get_insert] at h
    split_ifs at h with hid
    · cases h
      rw [touchTaskRun_runId, hf.run runId taskRun hrun] at hid
      exact .inr ⟨taskRun, hid ▸ hrun, by simp, by simp⟩
    · exact .inl h

/-- Runs are ended one after the other; none is in a semantic end, nor does it get into one. -/
theorem expireRuns_writes {α : Type} (l : List α) (id : α → RunId) (time : α → ℤ)
    (hopen : tx.model.Filed → ∀ a ∈ l, ∀ run, tx.model.taskRun (id a) = some run →
      run.state.isSemanticTerminal = false)
    (hspoken : scope.bare = false → tx.model.Filed → ∀ a ∈ l, ∀ run, tx.model.taskRun (id a) = some run →
      run.hasControllerTaskStateEvent = true ∨ tx.model.Executes (id a)) :
    tx.Writes scope (l.foldl (fun tx a => tx.expireRun (id a) (time a)) tx) := by
  induction l generalizing tx with
  | nil => exact .refl tx
  | cons a l ih =>
    intro hf
    have hw : tx.Writes scope (tx.expireRun (id a) (time a)) :=
      expireRun_writes _ _ _ (hopen hf a List.mem_cons_self) fun hb hf => hspoken hb hf a List.mem_cons_self
    obtain ⟨hexecutions, hrow⟩ := expireRun_rows (id a) (time a) hf
    refine (hw.trans (ih (fun _ b hb run hrun => ?_) fun hbare _ b hb run hrun => ?_)) hf
    · rcases hrow (id b) run hrun with hrun | ⟨_, -, -, hended⟩
      · exact hopen hf b (List.mem_cons_of_mem _ hb) run hrun
      · rw [hended]
        rfl
    · unfold DomainModel.Executes
      rw [hexecutions]
      rcases hrow (id b) run hrun with hrun | ⟨old, hold, hspoken', -⟩
      · exact hspoken hbare hf b (List.mem_cons_of_mem _ hb) run hrun
      · rw [hspoken']
        exact hspoken hbare hf b (List.mem_cons_of_mem _ hb) old hold

/-- A Controller run that was announced, never began, and has been silent for long. -/
def DispatchOnlyStale (m : DomainModel) (headlessInactivityMs nowMs : ℤ) (run : TaskRun) : Prop :=
  run.key.isController = true ∧ m.hasExecution run.runId = false ∧ run.state = .queued ∧
    run.dismissedAtMs = none ∧ (inactiveSince headlessInactivityMs nowMs run).isSome = true

theorem closeInactiveDispatchOnlyRuns_writes (tx : Tx) (headlessInactivityMs nowMs : ℤ)
    (hspoken : scope.bare = false → ∀ id run, tx.model.taskRun id = some run →
      DispatchOnlyStale tx.model headlessInactivityMs nowMs run → run.hasControllerTaskStateEvent = true) :
    tx.Writes scope (tx.closeInactiveDispatchOnlyRuns headlessInactivityMs nowMs) := by
  have hstale : tx.model.Filed → ∀ runId ∈ ((tx.model.taskRuns.values.filter fun run =>
      run.key.isController && !tx.model.hasExecution run.runId && run.state = .queued &&
        run.dismissedAtMs.isNone && (inactiveSince headlessInactivityMs nowMs run).isSome).map
          (·.runId)).insertionSort (· ≤ ·), ∀ run, tx.model.taskRun runId = some run →
      DispatchOnlyStale tx.model headlessInactivityMs nowMs run := by
    intro hf runId hid run hrun
    rw [List.mem_insertionSort, List.mem_map] at hid
    obtain ⟨row, hrow, rfl⟩ := hid
    rw [List.mem_filter, HashMap.mem_values] at hrow
    obtain ⟨⟨k, hk⟩, hstale⟩ := hrow
    rw [hf.run k row hk] at hrun
    cases hrun.symm.trans hk
    simpa [DispatchOnlyStale, and_assoc] using hstale
  refine expireRuns_writes _ id (fun _ => nowMs) (fun hf runId hid run hrun => ?_)
    fun hb hf runId hid run hrun => .inl (hspoken hb runId run hrun (hstale hf runId hid run hrun))
  rw [(hstale hf runId hid run hrun).2.2.1]
  rfl

theorem closeInactiveFactTimedRuns_writes (tx : Tx) (headlessInactivityMs nowMs : ℤ)
    (hattended : scope.bare = false → tx.model.Attended) :
    tx.Writes scope (tx.closeInactiveFactTimedRuns headlessInactivityMs nowMs) := by
  have hrunning : tx.model.Filed → ∀ candidate ∈ ((tx.model.taskRuns.values.filter fun run =>
      (run.key.isController || run.key.isProvisional) && run.state = .running &&
        run.dismissedAtMs.isNone && !tx.nonLaneTaskStateRuns.contains run.runId &&
        !tx.hasLiveExecution run.runId).filterMap fun run =>
          (inactiveSince headlessInactivityMs nowMs run).map fun anchorMs =>
            (run.runId, anchorMs)).insertionSort fun left right => left.1 ≤ right.1,
      ∀ run, tx.model.taskRun candidate.1 = some run → run.state = .running := by
    intro hf candidate hid run hrun
    rw [List.mem_insertionSort, List.mem_filterMap] at hid
    obtain ⟨row, hrow, hanchor⟩ := hid
    obtain ⟨anchorMs, -, rfl⟩ := Option.map_eq_some_iff.mp hanchor
    rw [List.mem_filter, HashMap.mem_values] at hrow
    obtain ⟨⟨k, hk⟩, hrunning⟩ := hrow
    rw [hf.run k row hk] at hrun
    cases hrun.symm.trans hk
    simp only [Bool.and_eq_true, decide_eq_true_eq] at hrunning
    exact hrunning.1.1.1.2
  refine expireRuns_writes _ Prod.fst Prod.snd (fun hf candidate hid run hrun => ?_)
    fun hb hf candidate hid run hrun => ?_
  · rw [hrunning hf candidate hid run hrun]
    rfl
  · cases hspoken : run.hasControllerTaskStateEvent with
    | true => exact .inl rfl
    | false =>
      refine .inr (hattended hb _ run hrun hspoken ?_)
      rw [hrunning hf candidate hid run hrun]
      exact fun h => by cases h

theorem sweepStale_writes (tx : Tx) (headlessInactivityMs nowMs : ℤ) (hbare : scope.bare = true) :
    tx.Writes scope (tx.sweepStale headlessInactivityMs nowMs) :=
  (Writes.foldl (fun tx executionId => endExecution_writes tx executionId nowMs) _ tx).trans
    ((closeInactiveDispatchOnlyRuns_writes _ _ _ fun hb => by simp [hbare] at hb).trans
      (closeInactiveFactTimedRuns_writes _ _ _ fun hb => by simp [hbare] at hb))

theorem dismissRun_writes (nowMs : ℤ) (tx : Tx) (runId : RunId) :
    tx.Writes scope (dismissRun nowMs tx runId) := by
  unfold dismissRun
  split
  · exact .refl tx
  · rename_i taskRun hrun
    exact storeRun_writes taskRun nowMs (fun hf => hf.taskRun hrun) rfl rfl (fun _ => rfl)
      ⟨rfl, id, .inl ⟨rfl, rfl, rfl⟩⟩ fun _ _ => .inr (.inl rfl)

theorem dismissClearable_writes (tx : Tx) (nowMs : ℤ) :
    tx.Writes scope (tx.dismissClearable nowMs) :=
  Writes.foldl (dismissRun_writes nowMs) _ tx

end

end Tx

end HerdrTop
