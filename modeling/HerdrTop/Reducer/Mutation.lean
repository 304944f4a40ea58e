import HerdrTop.Library.Runs
import HerdrTop.Reducer.Observe
import HerdrTop.Identity.Merge
import HerdrTop.Identity.Graphs
import HerdrTop.Identity.Agreement

/-!
# What the reducer can do to a core

Every entry point of the reducer is a sequence of a few kinds of writes. `Mutation` lists them
with what the code has checked by the time it writes, `Mutations` is a sequence of them, labelled
with the merges it made, and `Tx.Mutates` says that a transaction went on by such a sequence and
handed just these merges to the store. An invariant of the reducer is proved once for each kind
of write.
-/

namespace HerdrTop

/-- One run absorbed by another: the survivor and the absorbed run. -/
abbrev Merge := RunId × RunId

/-- The rows that carry identities: runs, keys, states, executions, agents, edges, before-images, and
the ordinals of the topology. -/
def DomainModel.rows (m : DomainModel) :=
  (m.taskRuns, m.runIdsByKey, m.v6States, m.executions, m.agentNodes, m.executionEdges,
    m.dependencyEdges, m.historyRunPublications, m.topologyOrdinals)

/-- The rows of the topology, with the agent statuses of panes. -/
def DomainModel.topology (m : DomainModel) := (m.workspaces, m.tabs, m.panes, m.paneAgentStatuses)

/-- The row is in the topology. -/
def DomainModel.HasRow (m : DomainModel) : TopologyKind → String → Prop
  | .workspace, id => (m.workspaces.get id).isSome = true
  | .tab, id => (m.tabs.get id).isSome = true
  | .pane, id => (m.panes.get id).isSome = true

/-- The same topology has the same rows. -/
theorem DomainModel.HasRow.congr {m m' : DomainModel} (h : m'.topology = m.topology) {kind : TopologyKind}
    {id : String} : m'.HasRow kind id ↔ m.HasRow kind id := by
  simp only [DomainModel.topology, Prod.mk.injEq] at h
  obtain ⟨hworkspaces, htabs, hpanes, -⟩ := h
  cases kind <;> simp only [HasRow]
  · rw [hworkspaces]
  · rw [htabs]
  · rw [hpanes]

/-- The run exists. -/
def DomainModel.HasRun (m : DomainModel) (id : RunId) : Prop := (m.taskRuns.get id).isSome = true

theorem DomainModel.HasRun.of_get {m : DomainModel} {id : RunId} {run : TaskRun}
    (h : m.taskRuns.get id = some run) : m.HasRun id := by
  unfold HasRun
  rw [h]
  rfl

theorem DomainModel.HasRun.exists {m : DomainModel} {id : RunId} (h : m.HasRun id) :
    ∃ run, m.taskRuns.get id = some run := Option.isSome_iff_exists.mp h

/-- The run has an execution, over or not. -/
def DomainModel.Executes (m : DomainModel) (id : RunId) : Prop :=
  ∃ name e, m.executions.get name = some e ∧ e.taskRunId = id

/-- A run that is known from relationships alone is queued: one that no Controller spoke for and that is
not queued has an execution. -/
def DomainModel.Attended (m : DomainModel) : Prop :=
  ∀ id run, m.taskRuns.get id = some run → run.hasControllerTaskStateEvent = false →
    run.state ≠ .queued → m.Executes id

/-- The core that keeps everything but its model. -/
def Core.withModel (c : Core) (m : DomainModel) : Core := { c with model := m }

@[simp] theorem Core.withModel_model (c : Core) (m : DomainModel) : (c.withModel m).model = m := rfl

@[simp] theorem Core.withModel_nextOrdinal (c : Core) (m : DomainModel) :
    (c.withModel m).nextOrdinal = c.nextOrdinal := rfl

/-- A key under which a run may be created: made up from the next ordinal, or one nobody has. -/
inductive NewKey (c : Core) : RunKey → Prop
  /-- Made up for a terminal. -/
  | provisional (terminalId : String) (timestampMs : ℤ) :
      NewKey c (provisionalKey terminalId timestampMs c.nextOrdinal)
  /-- Nobody has it. -/
  | free {key : RunKey} (hidden : key.isProvisional = false)
      (free : c.model.taskRunByKey key = none) : NewKey c key

/-- The first times of a run: its creation and its last change are one moment, and its end if it has
one. -/
def TaskRun.Stamped (run : TaskRun) : Prop :=
  ∃ t, run.createdAtMs = some t ∧ run.updatedAtMs = some t ∧
    run.finishedAtMs = if run.state.isTerminal then some t else none

/-- How a run that is stored again follows from its row. -/
structure TaskRun.Follows (old run : TaskRun) : Prop where
  /-- Its creation stands. -/
  created : run.createdAtMs = old.createdAtMs
  /-- What a Controller said of it stands. -/
  spoken : old.hasControllerTaskStateEvent = true → run.hasControllerTaskStateEvent = true
  /-- Its state and its times stand, or it is touched. -/
  times : (run.state = old.state ∧ run.updatedAtMs = old.updatedAtMs ∧
      run.finishedAtMs = old.finishedAtMs) ∨
    ∃ t, run.updatedAtMs = some (max (old.updatedAtMs.getD t) t) ∧ run.finishedAtMs =
      if run.state.isTerminal then some (old.finishedAtMs.getD (max (old.updatedAtMs.getD t) t)) else none

/-- A touched run follows from the row it was made from. -/
theorem TaskRun.Follows.touched {old run : TaskRun} (t : ℤ) (hcreated : run.createdAtMs = old.createdAtMs)
    (hspoken : old.hasControllerTaskStateEvent = true → run.hasControllerTaskStateEvent = true)
    (hupdated : run.updatedAtMs = old.updatedAtMs) (hfinished : run.finishedAtMs = old.finishedAtMs) :
    old.Follows (touchTaskRun run t) where
  created := by simp [hcreated]
  spoken h := by simp [hspoken h]
  times := .inr ⟨t, by simp [hupdated], by simp [hupdated, hfinished]⟩

/-- What may happen to the rows of the topology and to their ordinals. -/
structure RowScope where
  /-- Rows may be stored and get ordinals. -/
  opens : Bool
  /-- Rows may be removed and lose them. -/
  closes : Bool

/-- What writes may do. -/
structure Scope extends RowScope where
  /-- The keys of new runs and the names of new agents are new. -/
  strict : Bool
  /-- The identities drawn for new runs. -/
  runs : Set RunId
  /-- The names drawn for new agents. -/
  agents : Set String
  /-- A run that no Controller spoke for may begin or end without an execution, and an execution may
  pass to another run. -/
  bare : Bool := true

/-- Any identity may be drawn. -/
def Scope.wide (strict : Bool) (rows : RowScope) (bare : Bool := true) : Scope :=
  { rows with strict, runs := Set.univ, agents := Set.univ, bare }

/-- Whatever one scope allows, the other allows. -/
structure Scope.Within (scope scope' : Scope) : Prop where
  strict : scope'.strict = true → scope.strict = true
  runs : scope.runs ⊆ scope'.runs
  agents : scope.agents ⊆ scope'.agents
  opens : scope.opens = true → scope'.opens = true
  closes : scope.closes = true → scope'.closes = true
  bare : scope.bare = true → scope'.bare = true

/-- The kinds of writes, with the merges they make; the identities of new runs are among those drawn
for the purpose. In a strict one the key of a new run is new too; only an event that speaks for a
run as a Controller does, without being a validated Controller event, can do otherwise. -/
inductive Mutation (scope : Scope) : Core → List Merge → Core → Prop
  /-- Nothing that carries identities changes; ordinals may be drawn. -/
  | quiet {c c' : Core} (rows : c'.model.rows = c.model.rows)
      (topology : scope.opens = false → scope.closes = false →
        c'.model.topology = c.model.topology)
      (ordinal : c.nextOrdinal ≤ c'.nextOrdinal) : Mutation scope c [] c'
  /-- A new run takes the next ordinal. -/
  | create {c : Core} {run : TaskRun} (new : run.runId ∈ scope.runs)
      (absent : c.model.taskRuns.get run.runId = none)
      (ordinal : run.displayOrdinal = c.nextOrdinal) (key : scope.strict = true → NewKey c run.key)
      (stamped : run.Stamped)
      (spoken : scope.bare = false → run.hasControllerTaskStateEvent = true ∨ run.state = .queued) :
      Mutation scope c []
        { c.withModel (c.model.insertTaskRun run) with nextOrdinal := c.nextOrdinal + 1 }
  /-- A run is stored again under its key and its ordinal; a semantic end stands. -/
  | update {c : Core} {run old : TaskRun} (row : c.model.taskRuns.get run.runId = some old)
      (key : run.key = old.key) (ordinal : run.displayOrdinal = old.displayOrdinal)
      (absorbing : old.state.isSemanticTerminal = true → run.state = old.state)
      (follows : old.Follows run)
      (spoken : scope.bare = false → run.hasControllerTaskStateEvent = true ∨ run.state = old.state ∨
        c.model.Executes run.runId) :
      Mutation scope c [] (c.withModel (c.model.insertTaskRun run))
  /-- A binding plan is applied. -/
  | binding {c : Core} {plan : BindingPlan} {timestampMs : ℤ} {aliasRunId : RunId}
      {m : DomainModel} {persist : PersistBatch}
      (applied : applyBindingPlanAt c.model plan timestampMs aliasRunId = (m, .ok persist)) :
      Mutation scope c (mergesOf persist) (c.withModel m)
  /-- An execution of a run that exists. -/
  | execution {c : Core} (execution : Execution) (owner : c.model.HasRun execution.taskRunId)
      (same : scope.bare = false → ∀ old, c.model.executions.get execution.executionId = some old →
        old.taskRunId = execution.taskRunId) :
      Mutation scope c [] (c.withModel (c.model.insertExecution execution))
  /-- An agent of a run that exists is stored again under its ordinal. -/
  | agentNode {c : Core} {node old : AgentNode} (owner : c.model.HasRun node.taskRunId)
      (row : c.model.agentNodes.get node.agentNodeId = some old)
      (ordinal : node.displayOrdinal = old.displayOrdinal)
      (parent : node.parentAgentNodeId = old.parentAgentNodeId ∨
        ∃ id, node.parentAgentNodeId = some id ∧ Tx.providerParentIsValid c.model node.agentNodeId id = true) :
      Mutation scope c [] (c.withModel (c.model.insertAgentNode node))
  /-- A new agent takes the next ordinal. -/
  | createAgentNode {c : Core} {node : AgentNode} (owner : c.model.HasRun node.taskRunId)
      (new : node.agentNodeId ∈ scope.agents)
      (absent : scope.strict = true → c.model.agentNodes.get node.agentNodeId = none)
      (ordinal : node.displayOrdinal = c.nextOrdinal)
      (parent : ∀ id, node.parentAgentNodeId = some id →
        Tx.providerParentIsValid c.model node.agentNodeId id = true) :
      Mutation scope c []
        { c.withModel (c.model.insertAgentNode node) with nextOrdinal := c.nextOrdinal + 1 }
  /-- A topology row without an ordinal takes the next one. -/
  | openRow {c : Core} (kind : TopologyKind) (id : String) (allowed : scope.opens = true)
      (absent : c.model.topologyOrdinal kind id = none) :
      Mutation scope c []
        { c.withModel (c.model.setTopologyOrdinal kind id c.nextOrdinal) with
          nextOrdinal := c.nextOrdinal + 1 }
  /-- Topology rows lose their ordinals. -/
  | closeRows {c : Core} (ordinals : HashMap (TopologyKind × String) DisplayOrdinal)
      (allowed : scope.closes = true)
      (fewer : ∀ row o, ordinals.get row = some o → c.model.topologyOrdinals.get row = some o) :
      Mutation scope c [] (c.withModel { c.model with topologyOrdinals := ordinals })
  /-- A dispatch edge between runs that exist, after its check. -/
  | executionEdge {c : Core} (edge : ExecutionEdge)
      (parent : c.model.HasRun edge.parentRunId) (child : c.model.HasRun edge.childRunId)
      (checked : preflightExecutionEdge c.model edge = .ok ()) :
      Mutation scope c [] (c.withModel (c.model.insertExecutionEdge edge))
  /-- A dependency edge between runs that exist, after its check. -/
  | dependencyEdge {c : Core} (edge : DependencyEdge)
      (prerequisite : c.model.HasRun edge.prerequisiteRunId)
      (dependent : c.model.HasRun edge.dependentRunId)
      (checked : preflightDependencyEdge c.model edge = .ok ()) :
      Mutation scope c [] (c.withModel (c.model.insertDependencyEdge edge))
  /-- The lifecycle of a session; whether its history is complete stays as it was. -/
  | lifecycle {c : Core} (runId : RunId) (state : TaskRunV6State)
      (ready : state.historyReady = ((c.model.v6State runId).getD {}).historyReady) :
      Mutation scope c [] (c.withModel (c.model.setV6State runId state))

/-- A sequence of writes, with its merges. -/
abbrev Mutations (scope : Scope) : Core → List Merge → Core → Prop :=
  Runs (Mutation scope)

theorem Scope.Within.attended {scope scope' : Scope} (h : scope.Within scope') (hb : scope'.bare = false) :
    scope.bare = false := Bool.eq_false_iff.mpr fun hbare => by simp [h.bare hbare] at hb

theorem Mutation.mono {scope scope' : Scope} {c c' : Core} {l : List Merge}
    (h : Mutation scope c l c') (hsub : scope.Within scope') : Mutation scope' c l c' := by
  cases h with
  | quiet rows topology ordinal =>
    refine .quiet rows (fun ho hc => topology ?_ ?_) ordinal
    · exact Bool.eq_false_iff.mpr fun h => by simp [hsub.opens h] at ho
    · exact Bool.eq_false_iff.mpr fun h => by simp [hsub.closes h] at hc
  | create new absent ordinal key stamped spoken =>
    exact .create (hsub.runs new) absent ordinal (fun hs => key (hsub.strict hs)) stamped
      fun hb => spoken (hsub.attended hb)
  | update row key ordinal absorbing follows spoken =>
    exact .update row key ordinal absorbing follows fun hb => spoken (hsub.attended hb)
  | binding applied => exact .binding applied
  | execution e owner same => exact .execution e owner fun hb => same (hsub.attended hb)
  | agentNode owner row ordinal parent => exact .agentNode owner row ordinal parent
  | createAgentNode owner new absent ordinal parent =>
    exact .createAgentNode owner (hsub.agents new) (fun hs => absent (hsub.strict hs)) ordinal parent
  | openRow kind id allowed absent => exact .openRow kind id (hsub.opens allowed) absent
  | closeRows ordinals allowed fewer => exact .closeRows ordinals (hsub.closes allowed) fewer
  | executionEdge e parent child checked => exact .executionEdge e parent child checked
  | dependencyEdge e prerequisite dependent checked =>
    exact .dependencyEdge e prerequisite dependent checked
  | lifecycle runId state ready => exact .lifecycle runId state ready

theorem Mutations.mono {scope scope' : Scope} {c c' : Core} {ls : List Merge}
    (h : Mutations scope c ls c') (hsub : scope.Within scope') : Mutations scope' c ls c' :=
  Runs.mono (fun hm => hm.mono hsub) h

/-! ### Rows are filed under their identities -/

/-- Every run is filed under its own identity, and every other row belongs to runs that exist. -/
structure DomainModel.Filed (m : DomainModel) : Prop where
  /-- A run is filed under its own identity. -/
  run : ∀ id run, m.taskRuns.get id = some run → run.runId = id
  /-- An execution belongs to a run. -/
  execution : ∀ id e, m.executions.get id = some e → m.HasRun e.taskRunId
  /-- An execution is filed under its own name. -/
  named : ∀ id e, m.executions.get id = some e → e.executionId = id
  /-- An agent belongs to a run. -/
  agentNode : ∀ id n, m.agentNodes.get id = some n → m.HasRun n.taskRunId
  /-- An agent is filed under its own name. -/
  agent : ∀ id n, m.agentNodes.get id = some n → n.agentNodeId = id
  /-- A dispatch edge joins runs. -/
  executionEdge : ∀ e ∈ m.executionEdges.keys, m.HasRun e.parentRunId ∧ m.HasRun e.childRunId
  /-- A dependency edge joins runs. -/
  dependencyEdge : ∀ e ∈ m.dependencyEdges.keys,
    m.HasRun e.prerequisiteRunId ∧ m.HasRun e.dependentRunId

/-- More runs, the same other rows. -/
theorem DomainModel.Filed.of_runs {m m' : DomainModel} (h : m.Filed)
    (run : ∀ id run, m'.taskRuns.get id = some run → run.runId = id)
    (exist : ∀ id, m.HasRun id → m'.HasRun id)
    (rows : (m'.executions, m'.agentNodes, m'.executionEdges, m'.dependencyEdges) =
      (m.executions, m.agentNodes, m.executionEdges, m.dependencyEdges)) : m'.Filed := by
  simp only [Prod.mk.injEq] at rows
  obtain ⟨h1, h2, h3, h4⟩ := rows
  refine ⟨run, ?_, ?_, ?_, ?_, ?_, ?_⟩
  · rw [h1]
    exact fun id e he => exist _ (h.execution id e he)
  · rw [h1]
    exact h.named
  · rw [h2]
    exact fun id n hn => exist _ (h.agentNode id n hn)
  · rw [h2]
    exact h.agent
  · rw [h3]
    exact fun e he => ⟨exist _ (h.executionEdge e he).1, exist _ (h.executionEdge e he).2⟩
  · rw [h4]
    exact fun e he => ⟨exist _ (h.dependencyEdge e he).1, exist _ (h.dependencyEdge e he).2⟩

theorem DomainModel.Filed.insertTaskRun {m : DomainModel} (h : m.Filed) (run : TaskRun) :
    (m.insertTaskRun run).Filed := by
  refine h.of_runs (fun id row hrow => ?_) (fun id hid => ?_) rfl
  · simp only [DomainModel.insertTaskRun, HashMap.get_insert] at hrow
    split_ifs at hrow with e
    · cases hrow
      exact e.symm
    · exact h.run id row hrow
  · unfold DomainModel.HasRun at hid ⊢
    simp only [DomainModel.insertTaskRun, HashMap.get_insert]
    split_ifs
    · rfl
    · exact hid

theorem DomainModel.Filed.insertTaskRunAlias {m : DomainModel} (h : m.Filed) (key : RunKey)
    (run : RunId) : (m.insertTaskRunAlias key run).Filed := h.of_runs h.run (fun _ h => h) rfl

theorem DomainModel.Filed.insertAgentNode {m : DomainModel} (h : m.Filed) {node : AgentNode}
    (owner : m.HasRun node.taskRunId) : (m.insertAgentNode node).Filed := by
  refine ⟨h.run, h.execution, h.named, fun id row hrow => ?_, fun id row hrow => ?_, h.executionEdge,
    h.dependencyEdge⟩
  · simp only [DomainModel.insertAgentNode, HashMap.get_insert] at hrow
    split_ifs at hrow
    · cases hrow
      exact owner
    · exact h.agentNode id row hrow
  · simp only [DomainModel.insertAgentNode, HashMap.get_insert] at hrow
    split_ifs at hrow with hid
    · cases hrow
      exact hid.symm
    · exact h.agent id row hrow

/-- The runs a permitted merge leaves. -/
theorem hasRun_mergedModel {m : DomainModel} (hf : m.Filed) {s a : RunId} {sr ar : TaskRun}
    {g : ContractedGraphs} (hp : MergePermitted m s a sr ar g) (t : ℤ) {id : RunId}
    (h : m.HasRun id) : (mergedModel m s a sr g t).HasRun (substitute id s a) := by
  unfold DomainModel.HasRun substitute at *
  rw [get_taskRuns_mergedModel hp (hf.run s sr hp.survivor)]
  by_cases h1 : id = a
  · rw [if_pos h1, if_pos rfl]
    rfl
  · rw [if_neg h1, if_neg h1]
    split_ifs
    · rfl
    · exact h

theorem Applied.filed {m m' : DomainModel} {t : ℤ} {l : List Merge} (ha : Applied m t l m')
    (h : m.Filed) : m'.Filed := by
  cases ha with
  | unchanged => exact h
  | touched run exist => exact h.insertTaskRun _
  | bound run provider sid exist =>
    unfold boundModel
    split_ifs
    · exact (h.insertTaskRunAlias _ _).insertTaskRun _
    · exact (h.insertTaskRun _).insertTaskRunAlias _ _
  | @merged s a sr ar g hp =>
    have hid := h.run s sr hp.survivor
    have hrun := fun id => @hasRun_mergedModel m h s a sr ar g hp t id
    obtain ⟨h1, h2, h3, h4, -⟩ := rows_mergedModel m s a sr g t
    refine ⟨fun id row hrow => ?_, fun id e he => ?_, fun id e he => ?_, fun id n hn => ?_,
      fun id n hn => ?_, fun e he => ?_, fun e he => ?_⟩
    · rw [get_taskRuns_mergedModel hp hid] at hrow
      split_ifs at hrow with e
      · cases hrow
        simp [hid, e]
      · exact h.run id row hrow
    · rw [h1, HashMap.get_mapValues] at he
      obtain ⟨old, hold, rfl⟩ := Option.map_eq_some_iff.mp he
      rw [Execution.repoint_taskRunId]
      exact hrun _ (h.execution id old hold)
    · rw [h1, HashMap.get_mapValues] at he
      obtain ⟨old, hold, rfl⟩ := Option.map_eq_some_iff.mp he
      rw [Execution.repoint_executionId]
      exact h.named id old hold
    · rw [h2, HashMap.get_mapValues] at hn
      obtain ⟨old, hold, rfl⟩ := Option.map_eq_some_iff.mp hn
      rw [AgentNode.repoint_taskRunId]
      exact hrun _ (h.agentNode id old hold)
    · rw [h2, HashMap.get_mapValues] at hn
      obtain ⟨old, hold, rfl⟩ := Option.map_eq_some_iff.mp hn
      rw [AgentNode.repoint_agentNodeId]
      exact h.agent id old hold
    · rw [h3, (contractExecutionEdges_ok hp.execution).1, HashSet.mem_keys_ofList, List.mem_map] at he
      obtain ⟨old, hold, rfl⟩ := he
      exact ⟨hrun _ (h.executionEdge old hold).1, hrun _ (h.executionEdge old hold).2⟩
    · rw [h4, (contractDependencyEdges_ok hp.dependency).1, HashSet.mem_keys_ofList, List.mem_map] at he
      obtain ⟨old, hold, rfl⟩ := he
      exact ⟨hrun _ (h.dependencyEdge old hold).1, hrun _ (h.dependencyEdge old hold).2⟩

theorem Mutation.filed {scope : Scope} {c c' : Core} {l : List Merge}
    (h : Mutation scope c l c') (hf : c.model.Filed) : c'.model.Filed := by
  cases h with
  | quiet rows _ ordinal =>
    simp only [DomainModel.rows, Prod.mk.injEq] at rows
    obtain ⟨h1, -, -, h2, h3, h4, h5, -⟩ := rows
    refine hf.of_runs ?_ ?_ ?_
    · rw [h1]
      exact hf.run
    · unfold DomainModel.HasRun
      rw [h1]
      exact fun _ h => h
    · rw [h2, h3, h4, h5]
  | create new absent ordinal key => exact hf.insertTaskRun _
  | update row key ordinal absorbing => exact hf.insertTaskRun _
  | binding applied => exact (applyBindingPlanAt_applied hf.run applied).filed hf
  | execution e owner =>
    refine ⟨hf.run, fun id row hrow => ?_, fun id row hrow => ?_, hf.agentNode, hf.agent,
      hf.executionEdge, hf.dependencyEdge⟩
    · simp only [Core.withModel_model, DomainModel.insertExecution, HashMap.get_insert] at hrow
      split_ifs at hrow
      · cases hrow
        exact owner
      · exact hf.execution id row hrow
    · simp only [Core.withModel_model, DomainModel.insertExecution, HashMap.get_insert] at hrow
      split_ifs at hrow with hid
      · cases hrow
        exact hid.symm
      · exact hf.named id row hrow
  | agentNode owner => exact hf.insertAgentNode owner
  | createAgentNode owner => exact hf.insertAgentNode owner
  | openRow => exact hf.of_runs hf.run (fun _ h => h) rfl
  | closeRows => exact hf.of_runs hf.run (fun _ h => h) rfl
  | executionEdge e parent child checked =>
    refine ⟨hf.run, hf.execution, hf.named, hf.agentNode, hf.agent, fun row hrow => ?_, hf.dependencyEdge⟩
    rcases HashSet.mem_keys_insert.mp hrow with rfl | hrow
    · exact ⟨parent, child⟩
    · exact hf.executionEdge row hrow
  | dependencyEdge e prerequisite dependent checked =>
    refine ⟨hf.run, hf.execution, hf.named, hf.agentNode, hf.agent, hf.executionEdge, fun row hrow => ?_⟩
    rcases HashSet.mem_keys_insert.mp hrow with rfl | hrow
    · exact ⟨prerequisite, dependent⟩
    · exact hf.dependencyEdge row hrow
  | lifecycle => exact hf.of_runs hf.run (fun _ h => h) rfl

theorem Mutations.filed {scope : Scope} {c c' : Core} {ls : List Merge}
    (h : Mutations scope c ls c') (hf : c.model.Filed) : c'.model.Filed :=
  h.invariant (I := fun c => c.model.Filed) Mutation.filed hf

/-! ### The identity index -/

/-- A key that a run has, as its own or beside it. -/
def DomainModel.Known (m : DomainModel) (k : RunKey) : Prop :=
  (∃ id, m.index.own id = some k) ∨ ∃ id, m.index.names k = some id

/-- The identity index is sound, and the next made-up key will be new. -/
structure Core.Identified (c : Core) : Prop where
  /-- Keys and runs agree. -/
  sound : c.model.IndexSound
  /-- Ordinals are not negative. -/
  nonneg : 0 ≤ c.nextOrdinal
  /-- The made-up keys that are known come from earlier ordinals. -/
  fresh : ∀ t ms seq, c.model.Known (.provisional t ms seq) → seq < c.nextOrdinal.toNat
  /-- A run with a made-up key has it from its ordinal. -/
  numbered : ∀ id run t ms seq, c.model.taskRuns.get id = some run →
    run.key = .provisional t ms seq → run.displayOrdinal.toNat = seq

theorem DomainModel.index_eq_of_rows {m m' : DomainModel} (h : m'.rows = m.rows) :
    m'.index = m.index := by
  simp only [DomainModel.rows, Prod.mk.injEq] at h
  simp only [DomainModel.index, h.1, h.2.1]

theorem DomainModel.IndexSound.of_rows {m m' : DomainModel} (hm : m.IndexSound)
    (h : m'.rows = m.rows) : m'.IndexSound where
  filed := by
    simp only [DomainModel.rows, Prod.mk.injEq] at h
    rw [h.1]
    exact hm.filed
  index := index_eq_of_rows h ▸ hm.index

/-- Storing a run makes its key known and no other one. -/
theorem DomainModel.Known.of_insertTaskRun {m : DomainModel} {run : TaskRun} {k : RunKey}
    (h : (m.insertTaskRun run).Known k) : k = run.key ∨ m.Known k := by
  rcases h with ⟨id, h⟩ | ⟨id, h⟩
  · obtain ⟨row, hrow, rfl⟩ := own_eq_some.mp h
    simp only [insertTaskRun, HashMap.get_insert] at hrow
    split_ifs at hrow
    · cases hrow
      exact .inl rfl
    · exact .inr (.inl ⟨id, own_of_get hrow⟩)
  · simp only [index, insertTaskRun, HashMap.get_insert, get_withoutFormerKey] at h
    split_ifs at h with h1 h2
    · exact .inl h1
    · exact .inr (.inr ⟨id, h⟩)

/-- A binding plan makes no made-up key known. -/
theorem DomainModel.Known.of_binding {m : DomainModel} (hm : m.IndexSound) {plan : BindingPlan}
    {t : ℤ} {x : RunId} {m' : DomainModel} {persist : PersistBatch}
    (happ : applyBindingPlanAt m plan t x = (m', .ok persist)) {k : RunKey}
    (hk : k.isProvisional = true) (h : m'.Known k) : m.Known k := by
  cases plan with
  | noChange =>
    cases happ
    exact h
  | conflict c => cases happ
  | bind run key =>
    simp only [applyBindingPlanAt] at happ
    rcases applyBind_cases hm run key t x with ⟨_, hb⟩ | hb | ⟨r, p, s, rfl, hperm, hb⟩ <;>
      rw [hb] at happ <;> cases happ
    · exact h
    · have hid := hm.filed run r hperm.exist
      rcases h with ⟨id, h⟩ | ⟨id, h⟩
      · obtain ⟨row, hrow, hkey⟩ := own_eq_some.mp h
        rw [get_taskRuns_boundModel hid] at hrow
        split_ifs at hrow
        · cases hrow
          unfold boundRow at hkey
          split_ifs at hkey
          · exact .inl ⟨run, by rw [own_of_get hperm.exist, ← hkey, touchTaskRun_key]⟩
          · rw [touchTaskRun_key] at hkey
            rw [← hkey] at hk
            cases hk
        · exact .inl ⟨id, hkey ▸ own_of_get hrow⟩
      · rw [names_boundModel hm hperm.exist] at h
        split_ifs at h with h1
        · rcases h1 with rfl | rfl
          · exact .inl ⟨run, own_of_get hperm.exist⟩
          · cases hk
        · exact .inr ⟨id, h⟩
  | merge s a =>
    simp only [applyBindingPlanAt] at happ
    rcases applyMerge_cases hm s a t with ⟨_, hb⟩ | ⟨sr, ar, c, b, hperm, hb⟩ <;>
      rw [hb] at happ <;> cases happ
    have hid := hm.filed s sr hperm.survivor
    have hsr : m.Known sr.key := .inl ⟨s, own_of_get hperm.survivor⟩
    rcases h with ⟨id, h⟩ | ⟨id, h⟩
    · obtain ⟨row, hrow, hkey⟩ := own_eq_some.mp h
      rw [get_taskRuns_mergedModel hperm hid] at hrow
      split_ifs at hrow
      · cases hrow
        rw [touchTaskRun_key, adoptedRow_key] at hkey
        exact hkey ▸ hsr
      · exact .inl ⟨id, hkey ▸ own_of_get hrow⟩
    · rw [names_mergedModel hperm hid] at h
      split_ifs at h with h1
      · rcases h1 with rfl | h1 | h1
        · exact hsr
        · exact .inr ⟨a, h1⟩
        · exact .inl ⟨a, h1⟩
      · exact .inr ⟨id, h⟩

/-- A key for a new run is not known yet. -/
theorem NewKey.not_known {c : Core} (hc : c.Identified) {key : RunKey} (h : NewKey c key) :
    ¬ c.model.Known key := by
  cases h with
  | provisional terminalId timestampMs =>
    intro hk
    exact absurd (hc.fresh _ _ _ hk) (lt_irrefl _)
  | free hidden free =>
    have hn := hc.sound.names_eq_none free
    rintro (⟨id, h⟩ | ⟨id, h⟩)
    · rcases hc.sound.index.home id key h with h' | ⟨h', -⟩
      · rw [hn] at h'
        cases h'
      · exact absurd h' (by simp [runKeyKinds, hidden])
    · rw [hn] at h
      cases h

theorem DomainModel.IndexSound.numbered {m m' : DomainModel}
    (hn : ∀ id run t ms seq, m.taskRuns.get id = some run → run.key = .provisional t ms seq →
      run.displayOrdinal.toNat = seq)
    (hrow : ∀ id run', m'.taskRuns.get id = some run' → ∃ run, m.taskRuns.get id = some run ∧
      run'.displayOrdinal = run.displayOrdinal ∧ (run'.key = run.key ∨ run'.key.isNative = true)) :
    ∀ id run t ms seq, m'.taskRuns.get id = some run → run.key = .provisional t ms seq →
      run.displayOrdinal.toNat = seq := by
  intro id run' t ms seq hrun hk
  obtain ⟨run, hget, hordinal, hkey | hkey⟩ := hrow id run' hrun
  · rw [hordinal]
    exact hn id run t ms seq hget (hkey ▸ hk)
  · rw [hk] at hkey
    cases hkey

/-- Every write is a step of the index, with the merges it made. -/
theorem Mutation.identified {scope : Scope} {c c' : Core} {l : List Merge}
    (h : Mutation scope c l c') (hs : scope.strict = true) (hc : c.Identified) :
    NameIndex.Steps runKeyKinds c.model.index l c'.model.index ∧ c'.Identified := by
  have hrefl := NameIndex.Steps.refl (K := runKeyKinds) c.model.index
  cases h with
  | quiet rows _ ordinal =>
    have hindex := DomainModel.index_eq_of_rows rows
    refine ⟨hindex ▸ hrefl, hc.sound.of_rows rows, hc.nonneg.trans ordinal, fun t ms seq hk => ?_, ?_⟩
    · have hk' : c.model.Known (.provisional t ms seq) := by
        unfold DomainModel.Known at hk ⊢
        rwa [hindex] at hk
      exact (hc.fresh t ms seq hk').trans_le (Int.toNat_le_toNat ordinal)
    · simp only [DomainModel.rows, Prod.mk.injEq] at rows
      rw [rows.1]
      exact hc.numbered
  | @create run _ absent ordinal key =>
    have hnew := (key hs).not_known hc
    have hnames : c.model.runIdsByKey.get run.key = none := by
      cases hn : c.model.runIdsByKey.get run.key with
      | none => rfl
      | some id => exact absurd (.inr ⟨id, hn⟩) hnew
    have hstep := DomainModel.step_insertTaskRun_new absent hnames fun id row hrow hk =>
      hnew (.inl ⟨id, hk ▸ DomainModel.own_of_get hrow⟩)
    refine ⟨NameIndex.Steps.one hstep, ⟨DomainModel.filed_insertTaskRun hc.sound.filed run,
      hc.sound.index.step hstep⟩, hc.nonneg.trans (Int.le_add_one le_rfl), fun t ms seq hk => ?_,
      fun id row t ms seq hrow hk => ?_⟩
    · show seq < (c.nextOrdinal + 1).toNat
      have hnn := hc.nonneg
      rcases DomainModel.Known.of_insertTaskRun hk with hkey | hk
      · have hkind := key hs
        rw [← hkey] at hkind
        cases hkind with
        | provisional terminalId timestampMs => omega
        | free hidden _ => cases hidden
      · have := hc.fresh t ms seq hk
        omega
    · simp only [Core.withModel_model, DomainModel.insertTaskRun, HashMap.get_insert] at hrow
      split_ifs at hrow
      · cases hrow
        have hkind := key hs
        rw [hk] at hkind
        cases hkind with
        | provisional => rw [ordinal]
        | free hidden _ => cases hidden
      · exact hc.numbered id row t ms seq hrow hk
  | @update run old row key ordinal absorbing =>
    have hstep := DomainModel.step_insertTaskRun_same row key
    refine ⟨NameIndex.Steps.one hstep, ⟨DomainModel.filed_insertTaskRun hc.sound.filed run,
      hc.sound.index.step hstep⟩, hc.nonneg, fun t ms seq hk => ?_, ?_⟩
    · rcases DomainModel.Known.of_insertTaskRun hk with hkey | hk
      · exact hc.fresh t ms seq (.inl ⟨run.runId, by rw [hkey, key]; exact DomainModel.own_of_get row⟩)
      · exact hc.fresh t ms seq hk
    · refine DomainModel.IndexSound.numbered hc.numbered fun id row' hrow => ?_
      simp only [Core.withModel_model, DomainModel.insertTaskRun, HashMap.get_insert] at hrow
      split_ifs at hrow with e
      · cases hrow
        exact ⟨old, e ▸ row, ordinal, .inl key⟩
      · exact ⟨row', hrow, rfl, .inl rfl⟩
  | @binding plan t x m persist applied =>
    have hsteps := applyBindingPlanAt_steps hc.sound (congrArg Prod.snd applied)
    rw [applied] at hsteps
    exact ⟨hsteps.1, hsteps.2, hc.nonneg, fun t ms seq hk =>
      hc.fresh t ms seq (DomainModel.Known.of_binding hc.sound applied rfl hk),
      DomainModel.IndexSound.numbered hc.numbered fun id run' hrun =>
        (applyBindingPlanAt_applied hc.sound.filed applied).row hc.sound.filed hrun⟩
  | execution e owner =>
    exact ⟨hrefl, ⟨hc.sound.filed, hc.sound.index⟩, hc.nonneg, hc.fresh, hc.numbered⟩
  | agentNode => exact ⟨hrefl, ⟨hc.sound.filed, hc.sound.index⟩, hc.nonneg, hc.fresh, hc.numbered⟩
  | createAgentNode =>
    refine ⟨hrefl, ⟨hc.sound.filed, hc.sound.index⟩, hc.nonneg.trans (Int.le_add_one le_rfl),
      fun t ms seq hk => (hc.fresh t ms seq hk).trans_le ?_, hc.numbered⟩
    exact Int.toNat_le_toNat (Int.le_add_one le_rfl)
  | openRow =>
    refine ⟨hrefl, ⟨hc.sound.filed, hc.sound.index⟩, hc.nonneg.trans (Int.le_add_one le_rfl),
      fun t ms seq hk => (hc.fresh t ms seq hk).trans_le ?_, hc.numbered⟩
    exact Int.toNat_le_toNat (Int.le_add_one le_rfl)
  | closeRows => exact ⟨hrefl, ⟨hc.sound.filed, hc.sound.index⟩, hc.nonneg, hc.fresh, hc.numbered⟩
  | executionEdge e p ch checked =>
    exact ⟨hrefl, ⟨hc.sound.filed, hc.sound.index⟩, hc.nonneg, hc.fresh, hc.numbered⟩
  | dependencyEdge e p ch checked =>
    exact ⟨hrefl, ⟨hc.sound.filed, hc.sound.index⟩, hc.nonneg, hc.fresh, hc.numbered⟩
  | lifecycle runId state ready =>
    exact ⟨hrefl, ⟨hc.sound.filed, hc.sound.index⟩, hc.nonneg, hc.fresh, hc.numbered⟩

theorem Mutations.identified {scope : Scope} {c c' : Core} {ls : List Merge}
    (h : Mutations scope c ls c') (hs : scope.strict = true) (hc : c.Identified) :
    NameIndex.Steps runKeyKinds c.model.index ls c'.model.index ∧ c'.Identified := by
  induction h with
  | refl => exact ⟨NameIndex.Steps.refl _, hc⟩
  | tail _ hm ih =>
    obtain ⟨hsteps, hi⟩ := hm.identified hs ih.2
    exact ⟨ih.1.trans hsteps, hi⟩

/-! ### Runs and semantic ends -/

section

variable {scope : Scope} {c c' : Core} {l ls : List Merge}

theorem Applied.keeps_run {m m' : DomainModel} {t : ℤ} (ha : Applied m t l m') (hf : m.Filed)
    {id : RunId} {run : TaskRun} (hrun : m.taskRuns.get id = some run) (hl : ∀ p ∈ l, p.2 ≠ id) :
    ∃ run', m'.taskRuns.get id = some run' ∧ run'.state = run.state := by
  cases ha with
  | unchanged => exact ⟨run, hrun, rfl⟩
  | touched row exist =>
    simp only [DomainModel.insertTaskRun, HashMap.get_insert, touchTaskRun_runId]
    split_ifs with e
    · subst e
      rw [exist] at hrun
      cases hrun
      exact ⟨_, rfl, by simp⟩
    · exact ⟨run, hrun, rfl⟩
  | bound row provider sid exist =>
    rw [get_taskRuns_boundModel rfl]
    split_ifs with e
    · subst e
      rw [exist] at hrun
      cases hrun
      exact ⟨_, rfl, by simp⟩
    · exact ⟨run, hrun, rfl⟩
  | @merged s a sr ar g hp =>
    have ha : id ≠ a := fun e => hl (s, a) (by simp) e.symm
    rw [get_taskRuns_mergedModel hp (hf.run s sr hp.survivor), if_neg ha]
    split_ifs with e
    · subst e
      rw [hp.survivor] at hrun
      cases hrun
      exact ⟨_, rfl, by simp⟩
    · exact ⟨run, hrun, rfl⟩

/-- A run that is not absorbed stays, and stays in a semantic end. -/
theorem Mutation.keeps_run (h : Mutation scope c l c') (hf : c.model.Filed) {id : RunId}
    {run : TaskRun} (hrun : c.model.taskRuns.get id = some run) (hl : ∀ p ∈ l, p.2 ≠ id) :
    ∃ run', c'.model.taskRuns.get id = some run' ∧
      (run.state.isSemanticTerminal = true → run'.state = run.state) := by
  cases h with
  | quiet rows _ ordinal =>
    simp only [DomainModel.rows, Prod.mk.injEq] at rows
    exact ⟨run, by rw [rows.1]; exact hrun, fun _ => rfl⟩
  | @create new _ absent ordinal key =>
    have hne : id ≠ new.runId := fun e => by rw [e, absent] at hrun; cases hrun
    exact ⟨run, by simpa [DomainModel.insertTaskRun, HashMap.get_insert, hne] using hrun, fun _ => rfl⟩
  | @update new old row key ordinal absorbing =>
    by_cases e : id = new.runId
    · subst e
      rw [row] at hrun
      cases hrun
      exact ⟨new, by simp [DomainModel.insertTaskRun], absorbing⟩
    · exact ⟨run, by simpa [DomainModel.insertTaskRun, HashMap.get_insert, e] using hrun, fun _ => rfl⟩
  | binding applied =>
    obtain ⟨run', hrun', hs⟩ := (applyBindingPlanAt_applied hf.run applied).keeps_run hf hrun hl
    exact ⟨run', hrun', fun _ => hs⟩
  | execution => exact ⟨run, hrun, fun _ => rfl⟩
  | agentNode => exact ⟨run, hrun, fun _ => rfl⟩
  | createAgentNode => exact ⟨run, hrun, fun _ => rfl⟩
  | openRow => exact ⟨run, hrun, fun _ => rfl⟩
  | closeRows => exact ⟨run, hrun, fun _ => rfl⟩
  | executionEdge => exact ⟨run, hrun, fun _ => rfl⟩
  | dependencyEdge => exact ⟨run, hrun, fun _ => rfl⟩
  | lifecycle => exact ⟨run, hrun, fun _ => rfl⟩

theorem Mutations.keeps_run (h : Mutations scope c ls c') (hf : c.model.Filed) {id : RunId}
    {run : TaskRun} (hrun : c.model.taskRuns.get id = some run) (hl : ∀ p ∈ ls, p.2 ≠ id) :
    ∃ run', c'.model.taskRuns.get id = some run' ∧
      (run.state.isSemanticTerminal = true → run'.state = run.state) := by
  induction h with
  | refl => exact ⟨run, hrun, fun _ => rfl⟩
  | tail hr hm ih =>
    obtain ⟨run', hrun', hs⟩ := ih fun p h => hl p (List.mem_append_left _ h)
    obtain ⟨run'', hrun'', hs'⟩ := hm.keeps_run (Mutations.filed hr hf) hrun' fun p h =>
      hl p (List.mem_append_right _ h)
    exact ⟨run'', hrun'', fun hend => (hs' (by rw [hs hend]; exact hend)).trans (hs hend)⟩

/-! ### Runs that do not exist -/

theorem Applied.keeps_absent {m m' : DomainModel} {t : ℤ} (ha : Applied m t l m') (hf : m.Filed)
    {id : RunId} (habsent : m.taskRuns.get id = none) : m'.taskRuns.get id = none := by
  cases ha with
  | unchanged => exact habsent
  | touched row exist =>
    have hne : id ≠ row.runId := fun e => by rw [e, exist] at habsent; cases habsent
    simpa [DomainModel.insertTaskRun, HashMap.get_insert, hne] using habsent
  | bound row provider sid exist =>
    have hne : id ≠ row.runId := fun e => by rw [e, exist] at habsent; cases habsent
    rwa [get_taskRuns_boundModel rfl, if_neg hne]
  | @merged s a sr ar g hp =>
    have hne : id ≠ s := fun e => by rw [e, hp.survivor] at habsent; cases habsent
    rw [get_taskRuns_mergedModel hp (hf.run s sr hp.survivor), if_neg hne]
    split_ifs
    · rfl
    · exact habsent

/-- Only identities that are drawn come to exist. -/
theorem Mutation.keeps_absent (h : Mutation scope c l c') (hf : c.model.Filed) {id : RunId}
    (hid : id ∉ scope.runs) (habsent : c.model.taskRuns.get id = none) :
    c'.model.taskRuns.get id = none := by
  cases h with
  | quiet rows _ ordinal =>
    simp only [DomainModel.rows, Prod.mk.injEq] at rows
    rwa [rows.1]
  | @create run new absent ordinal key =>
    have hne : id ≠ run.runId := fun e => hid (e ▸ new)
    simpa [DomainModel.insertTaskRun, HashMap.get_insert, hne] using habsent
  | @update run old row key ordinal absorbing =>
    have hne : id ≠ run.runId := fun e => by rw [e, row] at habsent; cases habsent
    simpa [DomainModel.insertTaskRun, HashMap.get_insert, hne] using habsent
  | binding applied => exact (applyBindingPlanAt_applied hf.run applied).keeps_absent hf habsent
  | execution => exact habsent
  | agentNode => exact habsent
  | createAgentNode => exact habsent
  | openRow => exact habsent
  | closeRows => exact habsent
  | executionEdge => exact habsent
  | dependencyEdge => exact habsent
  | lifecycle => exact habsent

theorem Mutations.keeps_absent (h : Mutations scope c ls c') (hf : c.model.Filed) {id : RunId}
    (hid : id ∉ scope.runs) (habsent : c.model.taskRuns.get id = none) :
    c'.model.taskRuns.get id = none := by
  induction h with
  | refl => exact habsent
  | tail hr hm ih => exact hm.keeps_absent (Mutations.filed hr hf) hid ih

/-! ### Agents that do not exist -/

theorem Applied.keeps_unnamed {m m' : DomainModel} {t : ℤ} (ha : Applied m t l m') {id : String}
    (habsent : m.agentNodes.get id = none) : m'.agentNodes.get id = none := by
  cases ha with
  | unchanged => exact habsent
  | touched => exact habsent
  | bound =>
    unfold boundModel
    split_ifs <;> exact habsent
  | merged hp =>
    rw [(rows_mergedModel _ _ _ _ _ _).2.1, HashMap.get_mapValues, habsent]
    rfl

/-- Only names that are drawn come to exist. -/
theorem Mutation.keeps_unnamed (h : Mutation scope c l c') (hf : c.model.Filed) {id : String}
    (hid : id ∉ scope.agents) (habsent : c.model.agentNodes.get id = none) :
    c'.model.agentNodes.get id = none := by
  cases h with
  | quiet rows _ ordinal =>
    simp only [DomainModel.rows, Prod.mk.injEq] at rows
    rwa [rows.2.2.2.2.1]
  | create => exact habsent
  | update => exact habsent
  | binding applied => exact (applyBindingPlanAt_applied hf.run applied).keeps_unnamed habsent
  | execution => exact habsent
  | @agentNode node old owner row ordinal =>
    have hne : id ≠ node.agentNodeId := fun e => by rw [e, row] at habsent; cases habsent
    simpa [DomainModel.insertAgentNode, HashMap.get_insert, hne] using habsent
  | @createAgentNode node owner new absent ordinal =>
    have hne : id ≠ node.agentNodeId := fun e => hid (e ▸ new)
    simpa [DomainModel.insertAgentNode, HashMap.get_insert, hne] using habsent
  | openRow => exact habsent
  | closeRows => exact habsent
  | executionEdge => exact habsent
  | dependencyEdge => exact habsent
  | lifecycle => exact habsent

theorem Mutations.keeps_unnamed (h : Mutations scope c ls c') (hf : c.model.Filed) {id : String}
    (hid : id ∉ scope.agents) (habsent : c.model.agentNodes.get id = none) :
    c'.model.agentNodes.get id = none := by
  induction h with
  | refl => exact habsent
  | tail hr hm ih => exact hm.keeps_unnamed (Mutations.filed hr hf) hid ih

/-! ### Ordinals of topology rows -/

theorem Applied.topologyOrdinals {m m' : DomainModel} {t : ℤ} (ha : Applied m t l m') :
    m'.topologyOrdinals = m.topologyOrdinals := by
  cases ha with
  | unchanged => rfl
  | touched => rfl
  | bound =>
    unfold boundModel
    split_ifs <;> rfl
  | merged hp => exact (topology_mergedModel _ _ _ _ _ _).2.2.2.2

/-- A row keeps its ordinal, or it gets the next one, or it loses it. -/
theorem Mutation.row_cases (h : Mutation scope c l c') (hf : c.model.Filed)
    (row : TopologyKind × String) :
    c'.model.topologyOrdinals.get row = c.model.topologyOrdinals.get row ∨
      (scope.opens = true ∧ c.model.topologyOrdinals.get row = none ∧
        c'.model.topologyOrdinals.get row = some c.nextOrdinal) ∨
      (scope.closes = true ∧ c'.model.topologyOrdinals.get row = none) := by
  cases h with
  | quiet rows _ ordinal =>
    simp only [DomainModel.rows, Prod.mk.injEq] at rows
    exact .inl (by rw [rows.2.2.2.2.2.2.2.2])
  | binding applied =>
    exact .inl (by rw [Core.withModel_model, (applyBindingPlanAt_applied hf.run applied).topologyOrdinals])
  | openRow kind id allowed absent =>
    by_cases hrow : row = (kind, id)
    · subst hrow
      exact .inr (.inl ⟨allowed, absent, by simp [DomainModel.setTopologyOrdinal]⟩)
    · exact .inl (by simp [DomainModel.setTopologyOrdinal, HashMap.get_insert, hrow])
  | closeRows ordinals allowed fewer =>
    cases ho : ordinals.get row with
    | none => exact .inr (.inr ⟨allowed, ho⟩)
    | some o => exact .inl (ho.trans (fewer row o ho).symm)
  | create => exact .inl rfl
  | update => exact .inl rfl
  | execution => exact .inl rfl
  | agentNode => exact .inl rfl
  | createAgentNode => exact .inl rfl
  | executionEdge => exact .inl rfl
  | dependencyEdge => exact .inl rfl
  | lifecycle => exact .inl rfl

theorem Applied.topology {m m' : DomainModel} {t : ℤ} (ha : Applied m t l m') :
    m'.topology = m.topology := by
  cases ha with
  | unchanged => rfl
  | touched => rfl
  | bound =>
    unfold boundModel
    split_ifs <;> rfl
  | merged hp =>
    obtain ⟨h1, h2, h3, h4, -⟩ := topology_mergedModel _ _ _ _ _ _
    unfold DomainModel.topology
    rw [h1, h2, h3, h4]

/-- Where no row is opened or closed, the topology stays. -/
theorem Mutations.topology (h : Mutations scope c ls c') (hf : c.model.Filed)
    (hopens : scope.opens = false) (hcloses : scope.closes = false) :
    c'.model.topology = c.model.topology := by
  induction h with
  | refl => rfl
  | tail hr hm ih =>
    rw [← ih]
    cases hm with
    | quiet rows topology ordinal => exact topology hopens hcloses
    | binding applied => exact (applyBindingPlanAt_applied (Mutations.filed hr hf).run applied).topology
    | openRow kind id allowed absent => exact absurd allowed (by simp [hopens])
    | closeRows ordinals allowed fewer => exact absurd allowed (by simp [hcloses])
    | create => rfl
    | update => rfl
    | execution => rfl
    | agentNode => rfl
    | createAgentNode => rfl
    | executionEdge => rfl
    | dependencyEdge => rfl
    | lifecycle => rfl

/-- Where no row is opened, every ordinal was there before. -/
theorem Mutations.row_before (h : Mutations scope c ls c') (hf : c.model.Filed)
    (hopens : scope.opens = false) {row : TopologyKind × String} {o : DisplayOrdinal}
    (ho : c'.model.topologyOrdinals.get row = some o) : c.model.topologyOrdinals.get row = some o := by
  induction h with
  | refl => exact ho
  | tail hr hm ih =>
    rcases hm.row_cases (Mutations.filed hr hf) row with h | ⟨h, -⟩ | ⟨-, h⟩
    · exact ih (h ▸ ho)
    · rw [hopens] at h
      cases h
    · rw [h] at ho
      cases ho

/-- Where no row is closed, every ordinal stays. -/
theorem Mutations.row_after (h : Mutations scope c ls c') (hf : c.model.Filed)
    (hcloses : scope.closes = false) {row : TopologyKind × String} {o : DisplayOrdinal}
    (ho : c.model.topologyOrdinals.get row = some o) : c'.model.topologyOrdinals.get row = some o := by
  induction h with
  | refl => exact ho
  | tail hr hm ih =>
    rcases hm.row_cases (Mutations.filed hr hf) row with h | ⟨-, h, -⟩ | ⟨h, -⟩
    · rw [h]
      exact ih
    · rw [ih] at h
      cases h
    · rw [hcloses] at h
      cases h

/-! ### Graphs -/

theorem Applied.graphs {m m' : DomainModel} {t : ℤ} (ha : Applied m t l m')
    (hg : GraphsWellFormed m) : GraphsWellFormed m' := by
  cases ha with
  | unchanged => exact hg
  | touched => exact ⟨hg.dispatch, hg.dependency⟩
  | bound =>
    unfold boundModel
    split_ifs <;> exact ⟨hg.dispatch, hg.dependency⟩
  | merged hp =>
    exact ⟨(contractExecutionEdges_ok hp.execution).2, (contractDependencyEdges_ok hp.dependency).2⟩

/-- Every write keeps the graphs well formed. -/
theorem Mutation.graphs (h : Mutation scope c l c') (hf : c.model.Filed)
    (hg : GraphsWellFormed c.model) : GraphsWellFormed c'.model := by
  cases h with
  | quiet rows _ ordinal =>
    simp only [DomainModel.rows, Prod.mk.injEq] at rows
    exact ⟨by rw [rows.2.2.2.2.2.1]; exact hg.dispatch, by rw [rows.2.2.2.2.2.2.1]; exact hg.dependency⟩
  | create new absent ordinal key => exact ⟨hg.dispatch, hg.dependency⟩
  | update row key ordinal absorbing => exact ⟨hg.dispatch, hg.dependency⟩
  | binding applied => exact (applyBindingPlanAt_applied hf.run applied).graphs hg
  | execution => exact ⟨hg.dispatch, hg.dependency⟩
  | agentNode => exact ⟨hg.dispatch, hg.dependency⟩
  | createAgentNode => exact ⟨hg.dispatch, hg.dependency⟩
  | openRow => exact ⟨hg.dispatch, hg.dependency⟩
  | closeRows => exact ⟨hg.dispatch, hg.dependency⟩
  | executionEdge e p ch checked => exact ⟨preflightExecutionEdge_ok checked, hg.dependency⟩
  | dependencyEdge e p ch checked => exact ⟨hg.dispatch, preflightDependencyEdge_ok checked⟩
  | lifecycle => exact ⟨hg.dispatch, hg.dependency⟩

theorem Mutations.graphs (h : Mutations scope c ls c') (hf : c.model.Filed)
    (hg : GraphsWellFormed c.model) : GraphsWellFormed c'.model := by
  induction h with
  | refl => exact hg
  | tail hr hm ih => exact hm.graphs (Mutations.filed hr hf) ih

end

end HerdrTop
