import HerdrTop.Identity.Apply

/-!
# What a merge does to every row

One lemma for each map of the model: what `mergedModel` stores under a key, in terms of what was
stored before. The maps that are not mentioned keep their rows.
-/

namespace HerdrTop

@[simp] theorem Execution.repoint_taskRunId (s a : RunId) (execution : Execution) :
    (execution.repoint s a).taskRunId = substitute execution.taskRunId s a := by
  unfold repoint substitute
  split_ifs <;> rfl

@[simp] theorem Execution.repoint_executionId (s a : RunId) (execution : Execution) :
    (execution.repoint s a).executionId = execution.executionId := by
  unfold repoint
  split_ifs <;> rfl

@[simp] theorem AgentNode.repoint_taskRunId (s a : RunId) (node : AgentNode) :
    (node.repoint s a).taskRunId = substitute node.taskRunId s a := by
  unfold repoint substitute
  split_ifs <;> rfl

@[simp] theorem AgentNode.repoint_agentNodeId (s a : RunId) (node : AgentNode) :
    (node.repoint s a).agentNodeId = node.agentNodeId := by
  unfold repoint
  split_ifs <;> rfl

@[simp] theorem AgentNode.repoint_displayOrdinal (s a : RunId) (node : AgentNode) :
    (node.repoint s a).displayOrdinal = node.displayOrdinal := by
  unfold repoint
  split_ifs <;> rfl

@[simp] theorem HistoryRunPublication.repoint_canonicalRunId (s a : RunId)
    (publication : HistoryRunPublication) :
    (publication.repoint s a).canonicalRunId = substitute publication.canonicalRunId s a := by
  unfold repoint substitute
  split_ifs <;> rfl

@[simp] theorem HistoryRunPublication.repoint_taskRun (s a : RunId)
    (publication : HistoryRunPublication) :
    (publication.repoint s a).taskRun = publication.taskRun := by
  unfold repoint
  split_ifs <;> rfl

section

variable (m : DomainModel) (s a : RunId) (sr : TaskRun) (c : ContractedGraphs) (t : ℤ)

/-- The adoption of Controller evidence only stores the survivor again. -/
theorem frame_adopt :
    ∃ taskRuns runIdsByKey v6States, adoptControllerEvidence m s a t =
      { m with taskRuns := taskRuns, runIdsByKey := runIdsByKey, v6States := v6States } := by
  rcases adoptControllerEvidence_cases m s a t with e | ⟨run, -, e⟩
  · exact ⟨_, _, _, e⟩
  · exact ⟨_, _, _, e⟩

/-- The rows that belong to runs are given to the survivor. -/
theorem rows_mergedModel :
    (mergedModel m s a sr c t).executions = m.executions.mapValues (fun _ execution => execution.repoint s a) ∧
    (mergedModel m s a sr c t).agentNodes = m.agentNodes.mapValues (fun _ node => node.repoint s a) ∧
    (mergedModel m s a sr c t).executionEdges = c.executionEdges ∧
    (mergedModel m s a sr c t).dependencyEdges = c.dependencyEdges ∧
    (mergedModel m s a sr c t).historyRunPublications =
      m.historyRunPublications.mapValues (fun _ publication => publication.repoint s a) ∧
    (mergedModel m s a sr c t).rateCursors = (m.rateCursors.remove s).remove a ∧
    (mergedModel m s a sr c t).telemetry = (m.foldTelemetry s a).telemetry ∧
    (mergedModel m s a sr c t).runKinds = (m.foldRunKind s a).runKinds := by
  obtain ⟨taskRuns, keys, states, hadopt⟩ := frame_adopt m s a t
  obtain ⟨totals, diagnostics, h⟩ := foldRunRateTotals_frame
    ((((adoptControllerEvidence m s a t).foldTelemetry s a).foldRunKind s a).foldTaskRunV6State s a)
    s a
  unfold mergedModel mergeInMemory
  dsimp only
  rw [h, hadopt]
  simp only [DomainModel.insertTaskRun, DomainModel.insertTaskRunAliases, DomainModel.repoint,
    DomainModel.removeTaskRunRecord, DomainModel.removeRunRateCursor, DomainModel.foldTaskRunV6State,
    DomainModel.foldRunKind, DomainModel.foldTelemetry, and_self]

/-- The topology is left alone. -/
theorem topology_mergedModel :
    (mergedModel m s a sr c t).workspaces = m.workspaces ∧
    (mergedModel m s a sr c t).tabs = m.tabs ∧
    (mergedModel m s a sr c t).panes = m.panes ∧
    (mergedModel m s a sr c t).paneAgentStatuses = m.paneAgentStatuses ∧
    (mergedModel m s a sr c t).topologyOrdinals = m.topologyOrdinals := by
  obtain ⟨taskRuns, keys, states, hadopt⟩ := frame_adopt m s a t
  obtain ⟨totals, diagnostics, h⟩ := foldRunRateTotals_frame
    ((((adoptControllerEvidence m s a t).foldTelemetry s a).foldRunKind s a).foldTaskRunV6State s a)
    s a
  unfold mergedModel mergeInMemory
  dsimp only
  rw [h, hadopt]
  simp only [DomainModel.insertTaskRun, DomainModel.insertTaskRunAliases, DomainModel.repoint,
    DomainModel.removeTaskRunRecord, DomainModel.removeRunRateCursor, DomainModel.foldTaskRunV6State,
    DomainModel.foldRunKind, DomainModel.foldTelemetry, and_self]

/-- The usage of both runs is that of the survivor. -/
theorem get_telemetry_foldTelemetry (hne : s ≠ a) (id : RunId) :
    (m.foldTelemetry s a).telemetry.get id =
      if id = a then none
      else if id = s then
        match m.telemetry.get s, m.telemetry.get a with
        | some canonical, some absorbed => some (canonical.fold absorbed)
        | survivor, absorbed => survivor.or absorbed
      else m.telemetry.get id := by
  unfold DomainModel.foldTelemetry
  cases ha : m.telemetry.get a with
  | none =>
    by_cases h1 : id = a
    · simp [h1, ha]
    · by_cases h2 : id = s
      · subst h2
        cases m.telemetry.get id <;> simp [h1]
      · simp [h1, h2]
  | some absorbed =>
    simp only [HashMap.get_remove, if_neg hne]
    cases hs : m.telemetry.get s with
    | none =>
      simp only [HashMap.get_insert, HashMap.get_remove]
      by_cases h1 : id = a
      · simp [h1, hne.symm]
      · by_cases h2 : id = s <;> simp [h1, h2, hne]
    | some canonical =>
      simp only [HashMap.get_insert, HashMap.get_remove]
      by_cases h1 : id = a
      · simp [h1, hne.symm]
      · by_cases h2 : id = s <;> simp [h1, h2, hne]

/-- The kind of the absorbed run is that of the survivor if it has none. -/
theorem get_runKinds_foldRunKind (hne : s ≠ a) (id : RunId) :
    (m.foldRunKind s a).runKinds.get id =
      if id = a then none
      else if id = s then (m.runKinds.get s).or (m.runKinds.get a)
      else m.runKinds.get id := by
  unfold DomainModel.foldRunKind
  cases ha : m.runKinds.get a with
  | none =>
    by_cases h1 : id = a
    · simp [h1, ha]
    · by_cases h2 : id = s <;> simp [h1, h2, hne]
  | some absorbed =>
    simp only [HashMap.get_orInsert, HashMap.get_remove]
    by_cases h1 : id = a
    · by_cases h2 : id = s
      · exact absurd (h2.symm.trans h1) hne
      · simp [h1, hne.symm]
    · by_cases h2 : id = s
      · subst h2
        cases m.runKinds.get id <;> simp [h1]
      · simp [h1, h2]

/-- The totals of both runs are those of the survivor. -/
theorem get_rateTotals_foldRunRateTotals (hne : s ≠ a) (id : RunId) :
    (m.foldRunRateTotals s a).rateTotals.get id =
      if id = a then none
      else if id = s then
        match m.rateTotals.get a with
        | some absorbed => some (((m.rateTotals.get s).getD {}).saturatingAdd absorbed).1
        | none => m.rateTotals.get s
      else m.rateTotals.get id := by
  unfold DomainModel.foldRunRateTotals
  cases ha : m.rateTotals.get a with
  | none =>
    by_cases h1 : id = a
    · simp [h1, ha]
    · by_cases h2 : id = s <;> simp [h1, h2, hne]
  | some absorbed =>
    simp only [DomainModel.accumulateRunRateTotals, HashMap.get_insert, HashMap.get_remove, if_neg hne]
    by_cases h1 : id = a
    · simp [h1, hne.symm]
    · by_cases h2 : id = s <;> simp [h1, h2, hne]

theorem get_rateTotals_mergedModel (hne : s ≠ a) (id : RunId) :
    (mergedModel m s a sr c t).rateTotals.get id = (m.foldRunRateTotals s a).rateTotals.get id := by
  obtain ⟨taskRuns, keys, states, hadopt⟩ := frame_adopt m s a t
  have hrest : (mergedModel m s a sr c t).rateTotals = (DomainModel.foldRunRateTotals
      ((((adoptControllerEvidence m s a t).foldTelemetry s a).foldRunKind s a).foldTaskRunV6State s a)
      s a).rateTotals.remove a := rfl
  rw [hrest, HashMap.get_remove, get_rateTotals_foldRunRateTotals _ _ _ hne,
    get_rateTotals_foldRunRateTotals _ _ _ hne, hadopt]
  split_ifs <;> rfl

/-- The state of the survivor folds those of both. -/
theorem get_v6States_mergedModel {m : DomainModel} {s a : RunId} {sr : TaskRun}
    (hs : m.taskRuns.get s = some sr) (hid : sr.runId = s) (hne : s ≠ a) (c : ContractedGraphs) (t : ℤ)
    (id : RunId) : (mergedModel m s a sr c t).v6States.get id =
      if id = s then
        some (DomainModel.foldV6 ((m.v6States.get s).getD {}) ((m.v6States.get a).getD {}))
      else if id = a then none else m.v6States.get id := by
  have hadopt : ∀ id, (id = s → ((adoptControllerEvidence m s a t).v6States.get id).getD {} =
      (m.v6States.get id).getD {}) ∧
      (id ≠ s → (adoptControllerEvidence m s a t).v6States.get id = m.v6States.get id) := by
    intro id
    rw [adoptControllerEvidence_eq hs]
    split_ifs
    · simp only [DomainModel.insertTaskRun, HashMap.get_orInsert, adoptedRow_runId, hid]
      refine ⟨fun h => ?_, fun h => if_neg h⟩
      rw [if_pos h, h]
      rfl
    · exact ⟨fun _ => rfl, fun _ => rfl⟩
  obtain ⟨totals, diagnostics, h⟩ := foldRunRateTotals_frame
    ((((adoptControllerEvidence m s a t).foldTelemetry s a).foldRunKind s a).foldTaskRunV6State s a)
    s a
  unfold mergedModel mergeInMemory
  dsimp only
  rw [h]
  simp only [DomainModel.insertTaskRun, DomainModel.insertTaskRunAliases, DomainModel.repoint,
    DomainModel.removeTaskRunRecord, DomainModel.removeRunRateCursor, DomainModel.foldTaskRunV6State,
    DomainModel.foldRunKind, DomainModel.foldTelemetry, touchTaskRun_runId, adoptedRow_runId, hid,
    HashMap.get_orInsert, HashMap.get_remove, HashMap.get_insert, if_neg hne, (hadopt s).1 rfl,
    (hadopt a).2 hne.symm]
  split_ifs
  · rfl
  · rfl
  · exact (hadopt id).2 ‹_›

end

end HerdrTop
