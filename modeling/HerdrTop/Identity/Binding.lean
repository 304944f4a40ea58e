import HerdrTop.Library.Digraph
import HerdrTop.Store.PersistOp

/-!
# Binding evidence, plans and their application

Evidence that a run belongs to a session or a terminal is first turned into a plan, which
reads the model only, and the plan is then applied: a key is bound, or one run is merged
into another. `applyBindingPlanAt` returns the model it leaves in every case, also after
an error, so that atomicity is something to prove.
-/

namespace HerdrTop

/-- Evidence that can bind or merge the identity of a run. -/
inductive BindingEvidence
  /-- A provider session was seen for a run. -/
  | nativeSession (run : RunId) (provider : Provider) (sid : String)
  /-- A sessionless Codex pane was matched to one rollout. -/
  | heuristicNativeSession (run : RunId) (sid : String)
  /-- The session of a path-keyed run was read from its file. -/
  | nativePathResolved (run : RunId) (provider : Provider) (sid : String)
  /-- A Controller event named a session for its run. -/
  | controllerNativeSession (controllerRun : RunId) (provider : Provider) (sid : String)
  /-- A Controller event named a terminal for its run. -/
  | controllerTerminal (controllerRun : RunId) (terminalId : String)
  deriving DecidableEq

/-- Why evidence was put aside. -/
inductive MergeConflict
  | missingRun (run : RunId)
  | sameRun (run : RunId)
  | lowerPrioritySurvivor (survivor absorbed : RunId)
  | evidenceMismatch (run : RunId)
  | explicitControllerEvidenceRequired (controller observed : RunId)
  | controllerRunRequired (run : RunId)
  | controllerIdentityAlreadyBound (owner claimant : RunId)
  | nativeSessionAlreadyBound (provider : Provider) (sid : String) (owner claimant : RunId)
  | differingNativeSessions (survivor absorbed : RunId)
  | multipleNativeSessions (run : RunId)
  | nativeSessionRebind (run : RunId)
  | keyAlreadyBound (owner claimant : RunId)
  | unsupportedBindingKey
  | ambiguousTerminal (terminalId : String) (runs : List RunId)
  | dispatchSelfEdge (run : RunId)
  | dependencySelfEdge (run : RunId)
  | dispatchCycle
  | dependencyCycle
  | differingDispatchParents (child firstParent secondParent : RunId)
  deriving DecidableEq

/-- A decision about evidence. -/
inductive BindingPlan
  | noChange
  | bind (run : RunId) (key : RunKey)
  | merge (survivor absorbed : RunId)
  | conflict (conflict : MergeConflict)
  deriving DecidableEq

/-! ### Graph checks -/

/-- Kahn's algorithm on the edges. -/
def graphHasCycle (edges : List (RunId × RunId)) : Bool := Digraph.hasCycle edges

/-- A run, or the survivor in the place of the absorbed run. -/
def substitute (run survivor absorbed : RunId) : RunId := if run = absorbed then survivor else run

def sortedPair (first second : RunId) : RunId × RunId :=
  if first ≤ second then (first, second) else (second, first)

def ExecutionEdge.pair (edge : ExecutionEdge) : RunId × RunId := (edge.parentRunId, edge.childRunId)

def DependencyEdge.pair (edge : DependencyEdge) : RunId × RunId :=
  (edge.prerequisiteRunId, edge.dependentRunId)

/-- Looks through dispatch edges for a self-edge or a second parent; `parentByChild` are the
parents found so far. -/
def checkDispatchEdges : List ExecutionEdge → HashMap RunId RunId → Except MergeConflict Unit
  | [], _ => .ok ()
  | edge :: rest, parentByChild =>
    if edge.parentRunId = edge.childRunId then .error (.dispatchSelfEdge edge.parentRunId)
    else match parentByChild.get edge.childRunId with
      | some existingParent =>
        if existingParent ≠ edge.parentRunId then
          let (firstParent, secondParent) := sortedPair existingParent edge.parentRunId
          .error (.differingDispatchParents edge.childRunId firstParent secondParent)
        else checkDispatchEdges rest parentByChild
      | none => checkDispatchEdges rest (parentByChild.insert edge.childRunId edge.parentRunId)

/-- Looks through dependency edges for a self-edge. -/
def checkDependencyEdges : List DependencyEdge → Except MergeConflict Unit
  | [] => .ok ()
  | edge :: rest =>
    if edge.prerequisiteRunId = edge.dependentRunId then
      .error (.dependencySelfEdge edge.prerequisiteRunId)
    else checkDependencyEdges rest

/-- Checks a new dispatch edge against those of the model. -/
def preflightExecutionEdge (m : DomainModel) (candidate : ExecutionEdge) :
    Except MergeConflict Unit :=
  let edges := m.executionEdges.keys ++ [candidate]
  match checkDispatchEdges edges ∅ with
  | .error conflict => .error conflict
  | .ok _ => if graphHasCycle (edges.map (·.pair)) then .error .dispatchCycle else .ok ()

/-- Checks a new dependency edge against those of the model. -/
def preflightDependencyEdge (m : DomainModel) (candidate : DependencyEdge) :
    Except MergeConflict Unit :=
  let edges := m.dependencyEdges.keys ++ [candidate]
  match checkDependencyEdges edges with
  | .error conflict => .error conflict
  | .ok _ => if graphHasCycle (edges.map (·.pair)) then .error .dependencyCycle else .ok ()

def substituteExecutionEdge (edge : ExecutionEdge) (survivor absorbed : RunId) : ExecutionEdge :=
  ⟨substitute edge.parentRunId survivor absorbed, substitute edge.childRunId survivor absorbed⟩

def substituteDependencyEdge (edge : DependencyEdge) (survivor absorbed : RunId) :
    DependencyEdge :=
  ⟨substitute edge.prerequisiteRunId survivor absorbed,
    substitute edge.dependentRunId survivor absorbed⟩

/-- The dispatch edges after the absorbed run became the survivor. -/
def contractExecutionEdges (m : DomainModel) (survivor absorbed : RunId) :
    Except MergeConflict (HashSet ExecutionEdge) :=
  let edges := m.executionEdges.keys.map (substituteExecutionEdge · survivor absorbed)
  match checkDispatchEdges edges ∅ with
  | .error conflict => .error conflict
  | .ok _ =>
    let contracted := HashSet.ofList edges
    if graphHasCycle (contracted.keys.map (·.pair)) then .error .dispatchCycle else .ok contracted

/-- The dependency edges after the absorbed run became the survivor. -/
def contractDependencyEdges (m : DomainModel) (survivor absorbed : RunId) :
    Except MergeConflict (HashSet DependencyEdge) :=
  let edges := m.dependencyEdges.keys.map (substituteDependencyEdge · survivor absorbed)
  match checkDependencyEdges edges with
  | .error conflict => .error conflict
  | .ok _ =>
    let contracted := HashSet.ofList edges
    if graphHasCycle (contracted.keys.map (·.pair)) then .error .dependencyCycle else .ok contracted

/-- Both graphs after a merge. -/
structure ContractedGraphs where
  executionEdges : HashSet ExecutionEdge
  dependencyEdges : HashSet DependencyEdge

/-! ### Native sessions of a run -/

/-- The session a key stands for. -/
def RunKey.nativeId : RunKey → Option (Provider × String)
  | .native provider sid => some (provider, sid)
  | _ => none

/-- The keys under which a run is indexed, in the order of the index. -/
def DomainModel.keysOf (m : DomainModel) (run : RunId) : List RunKey :=
  (m.runIdsByKey.toList.filter fun e => e.2 = run).map Prod.fst

/-- The session of a run, which must not be ambiguous. -/
def singleNativeBinding (m : DomainModel) (run : RunId) :
    Except MergeConflict (Option (Provider × String)) :=
  let own := ((m.taskRun run).bind (·.key.nativeId)).toList
  let bindings := HashSet.ofList (own ++ (m.keysOf run).filterMap (·.nativeId))
  if 1 < bindings.keys.length then .error (.multipleNativeSessions run)
  else .ok bindings.keys.head?

/-! ### Plans -/

/-- Whether a merge is permitted, with the graphs it leads to. -/
def preflightMerge (m : DomainModel) (survivor absorbed : RunId) :
    Except MergeConflict ContractedGraphs :=
  match m.taskRun survivor, m.taskRun absorbed with
  | none, _ => .error (.missingRun survivor)
  | some _, none => .error (.missingRun absorbed)
  | some survivorRun, some absorbedRun =>
    if survivor = absorbed then .error (.sameRun survivor)
    else if keyPriority survivorRun.key < keyPriority absorbedRun.key then
      .error (.lowerPrioritySurvivor survivor absorbed)
    else if survivorRun.key.isController && absorbedRun.key.isController then
      .error (.controllerIdentityAlreadyBound absorbed survivor)
    else match singleNativeBinding m survivor, singleNativeBinding m absorbed with
      | .error conflict, _ => .error conflict
      | .ok _, .error conflict => .error conflict
      | .ok (some left), .ok (some right) =>
        if left ≠ right then .error (.differingNativeSessions survivor absorbed)
        else .error (.nativeSessionAlreadyBound left.1 left.2 survivor absorbed)
      | .ok _, .ok _ =>
        match contractExecutionEdges m survivor absorbed,
            contractDependencyEdges m survivor absorbed with
        | .error conflict, _ => .error conflict
        | .ok _, .error conflict => .error conflict
        | .ok executionEdges, .ok dependencyEdges => .ok ⟨executionEdges, dependencyEdges⟩

def plannedMerge (m : DomainModel) (survivor absorbed : RunId) : BindingPlan :=
  match preflightMerge m survivor absorbed with
  | .ok _ => .merge survivor absorbed
  | .error conflict => .conflict conflict

def planNativeSession (m : DomainModel) (run : RunId) (provider : Provider) (sid : String) :
    BindingPlan :=
  match m.taskRun run with
  | none => .conflict (.missingRun run)
  | some observed =>
    match m.taskRunByKey (.native provider sid) with
    | some owner =>
      if owner.runId = run then .noChange
      else if owner.key.isController || observed.key.isController then
        if owner.key.isController then
          .conflict (.explicitControllerEvidenceRequired owner.runId run)
        else .conflict (.explicitControllerEvidenceRequired run owner.runId)
      else if observed.key.isProvisional then plannedMerge m owner.runId run
      else .conflict (.evidenceMismatch run)
    | none =>
      if observed.key.isProvisional then .bind run (.native provider sid)
      else if observed.key = .native provider sid then .bind run (.native provider sid)
      else if observed.key.isController then
        .conflict (.explicitControllerEvidenceRequired run run)
      else .conflict (.evidenceMismatch run)

def planHeuristicNativeSession (m : DomainModel) (run : RunId) (sid : String) : BindingPlan :=
  match m.taskRun run with
  | none => .conflict (.missingRun run)
  | some observed =>
    match observed.key with
    | .provisional _ _ _ =>
      match m.taskRunByKey (.native .codex sid) with
      | some owner => .conflict (.nativeSessionAlreadyBound .codex sid owner.runId run)
      | none => planNativeSession m run .codex sid
    | .native provider bound =>
      if provider = .codex ∧ bound = sid then .noChange else .conflict (.evidenceMismatch run)
    | .controller _ | .nativePath _ _ => .conflict (.evidenceMismatch run)

def planNativePathResolution (m : DomainModel) (run : RunId) (provider : Provider) (sid : String) :
    BindingPlan :=
  match m.taskRun run with
  | none => .conflict (.missingRun run)
  | some observed =>
    match observed.key with
    | .nativePath current _ =>
      if current ≠ provider then .conflict (.evidenceMismatch run)
      else match m.taskRunByKey (.native provider sid) with
        | some owner => if owner.runId = run then .noChange else plannedMerge m owner.runId run
        | none => .bind run (.native provider sid)
    | _ => .conflict (.evidenceMismatch run)

def planControllerNative (m : DomainModel) (controllerRun : RunId) (provider : Provider)
    (sid : String) : BindingPlan :=
  match m.taskRun controllerRun with
  | none => .conflict (.missingRun controllerRun)
  | some controller =>
    if !controller.key.isController then .conflict (.controllerRunRequired controllerRun)
    else match m.taskRunByKey (.native provider sid) with
      | some owner =>
        if owner.runId = controllerRun then .noChange
        else if owner.key.isController then
          .conflict (.nativeSessionAlreadyBound provider sid owner.runId controllerRun)
        else plannedMerge m controllerRun owner.runId
      | none =>
        match singleNativeBinding m controllerRun with
        | .error conflict => .conflict conflict
        | .ok (some bound) =>
          if bound ≠ (provider, sid) then .conflict (.nativeSessionRebind controllerRun)
          else .bind controllerRun (.native provider sid)
        | .ok none => .bind controllerRun (.native provider sid)

/-- The runs alive in a terminal, sorted and without repetition. -/
def DomainModel.liveRuns (m : DomainModel) (terminalId : String) : List RunId :=
  (((m.executions.values.filter fun execution =>
    execution.terminalId = terminalId && !execution.state.isTerminal).map
      (·.taskRunId)).insertionSort (· ≤ ·)).dedup

def planControllerTerminal (m : DomainModel) (controllerRun : RunId) (terminalId : String) :
    BindingPlan :=
  match m.taskRun controllerRun with
  | none => .conflict (.missingRun controllerRun)
  | some controller =>
    if !controller.key.isController then .conflict (.controllerRunRequired controllerRun)
    else match m.liveRuns terminalId with
      | [] => .noChange
      | [run] =>
        if run = controllerRun then .noChange
        else match m.taskRun run with
          | none => .conflict (.missingRun run)
          | some target =>
            if target.key.isController then
              .conflict (.controllerIdentityAlreadyBound run controllerRun)
            else plannedMerge m controllerRun run
      | runs => .conflict (.ambiguousTerminal terminalId runs)

/-- Plans a binding; reads the model only. -/
def planBinding (m : DomainModel) : BindingEvidence → BindingPlan
  | .nativeSession run provider sid => planNativeSession m run provider sid
  | .heuristicNativeSession run sid => planHeuristicNativeSession m run sid
  | .nativePathResolved run provider sid => planNativePathResolution m run provider sid
  | .controllerNativeSession controllerRun provider sid =>
    planControllerNative m controllerRun provider sid
  | .controllerTerminal controllerRun terminalId => planControllerTerminal m controllerRun terminalId

/-! ### Application -/

def touchTaskRun (taskRun : TaskRun) (bookkeepingTimeMs : ℤ) : TaskRun :=
  taskRun.touch (max (taskRun.updatedAtMs.getD bookkeepingTimeMs) bookkeepingTimeMs)

/-- A run as storage takes it. -/
def persistedRun (taskRun : TaskRun) (nativeSession : Option (Provider × String))
    (bookkeepingTimeMs : ℤ) : PersistTaskRun where
  taskRun := taskRun
  nativeSession := nativeSession.map fun s => ⟨s.1, s.2⟩
  createdAtMs := taskRun.createdAtMs.getD bookkeepingTimeMs
  updatedAtMs := taskRun.updatedAtMs.getD bookkeepingTimeMs
  finishedAtMs := taskRun.finishedAtMs

/-- Adds each key as one that leads to the run. -/
def DomainModel.insertTaskRunAliases (m : DomainModel) (keys : List RunKey) (run : RunId) :
    DomainModel :=
  { m with runIdsByKey := m.runIdsByKey.extend (keys.map fun key => (key, run)) }

/-- Carries Controller evidence of the absorbed run over to the survivor. -/
def adoptControllerEvidence (m : DomainModel) (survivor absorbed : RunId)
    (bookkeepingTimeMs : ℤ) : DomainModel :=
  if ((m.taskRun absorbed).any (·.hasControllerTaskStateEvent)) then
    match m.taskRun survivor with
    | some taskRun =>
      m.insertTaskRun (touchTaskRun { taskRun with hasControllerTaskStateEvent := true }
        bookkeepingTimeMs)
    | none => m
  else m

/-- The keys of a run: those indexed and its own. -/
def DomainModel.allKeysOf (m : DomainModel) (run : RunId) : List RunKey :=
  match m.taskRun run with
  | some taskRun =>
    if taskRun.key ∈ m.keysOf run then m.keysOf run else m.keysOf run ++ [taskRun.key]
  | none => m.keysOf run

/-- An execution of the absorbed run as one of the survivor. -/
def Execution.repoint (execution : Execution) (survivor absorbed : RunId) : Execution :=
  if execution.taskRunId = absorbed then { execution with taskRunId := survivor } else execution

/-- An agent of the absorbed run as one of the survivor. -/
def AgentNode.repoint (node : AgentNode) (survivor absorbed : RunId) : AgentNode :=
  if node.taskRunId = absorbed then { node with taskRunId := survivor } else node

/-- Gives the executions and agents of one run to another, with the given graphs. -/
def DomainModel.repoint (m : DomainModel) (survivor absorbed : RunId)
    (contracted : ContractedGraphs) : DomainModel :=
  { m with
    executions := m.executions.mapValues fun _ execution => execution.repoint survivor absorbed
    agentNodes := m.agentNodes.mapValues fun _ node => node.repoint survivor absorbed
    executionEdges := contracted.executionEdges
    dependencyEdges := contracted.dependencyEdges }

def mergeInMemory (m : DomainModel) (survivor absorbed : RunId) (contracted : ContractedGraphs)
    (bookkeepingTimeMs : ℤ) : DomainModel :=
  let m := adoptControllerEvidence m survivor absorbed bookkeepingTimeMs
  let aliases := m.allKeysOf absorbed
  let m := m.foldTelemetry survivor absorbed
  let m := m.foldRunKind survivor absorbed
  let m := m.foldTaskRunV6State survivor absorbed
  let m := m.foldRunRateTotals survivor absorbed
  -- neither open interval may go on into the merged run
  let m := m.removeRunRateCursor survivor
  let m := m.removeTaskRunRecord absorbed
  let m := m.repoint survivor absorbed contracted
  m.insertTaskRunAliases aliases survivor

/-- Binds a session key; `aliasRunId` is the identity drawn for a durable alias row. -/
def applyBind (m : DomainModel) (run : RunId) (key : RunKey) (bookkeepingTimeMs : ℤ)
    (aliasRunId : RunId) : DomainModel × Except MergeConflict PersistBatch :=
  match key with
  | .native provider sid =>
    match m.taskRun run with
    | none => (m, .error (.missingRun run))
    | some taskRun =>
      match m.taskRunByKey key with
      | some owner =>
        if owner.runId = run then (m, .ok []) else (m, .error (.keyAlreadyBound owner.runId run))
      | none =>
        match singleNativeBinding m run with
        | .error conflict => (m, .error conflict)
        | .ok bound =>
          if bound.any (· ≠ (provider, sid)) then (m, .error (.nativeSessionRebind run))
          else match taskRun.key with
            | .controller _ =>
              let persisted := touchTaskRun taskRun bookkeepingTimeMs
              ((m.insertTaskRunAlias key run).insertTaskRun persisted,
                .ok [.upsertTaskRun (persistedRun persisted (some (provider, sid))
                  bookkeepingTimeMs)])
            | .native currentProvider currentSid =>
              if currentProvider = provider ∧ currentSid = sid then
                let persisted := touchTaskRun taskRun bookkeepingTimeMs
                (m.insertTaskRun persisted,
                  .ok [.upsertTaskRun (persistedRun persisted (some (provider, sid))
                    bookkeepingTimeMs)])
              else (m, .error (.evidenceMismatch run))
            | .nativePath _ _ =>
              let persisted := touchTaskRun { taskRun with key := key } bookkeepingTimeMs
              ((m.insertTaskRun persisted).insertTaskRunAlias taskRun.key run,
                .ok [.promoteTaskRunKey (persistedRun persisted (some (provider, sid))
                  bookkeepingTimeMs) taskRun.key aliasRunId])
            | .provisional _ _ _ =>
              let persisted := touchTaskRun { taskRun with key := key } bookkeepingTimeMs
              ((m.insertTaskRun persisted).insertTaskRunAlias taskRun.key run,
                .ok [.upsertTaskRun (persistedRun persisted (some (provider, sid))
                  bookkeepingTimeMs)])
  | _ => (m, .error .unsupportedBindingKey)

/-- Applies a permitted merge. -/
def applyMerge (m : DomainModel) (survivor absorbed : RunId) (bookkeepingTimeMs : ℤ) :
    DomainModel × Except MergeConflict PersistBatch :=
  match preflightMerge m survivor absorbed with
  | .error conflict => (m, .error conflict)
  | .ok contracted =>
    let m := mergeInMemory m survivor absorbed contracted bookkeepingTimeMs
    match m.taskRun survivor with
    | none => (m, .error (.missingRun survivor))
    | some taskRun =>
      let taskRun := touchTaskRun taskRun bookkeepingTimeMs
      let m := m.insertTaskRun taskRun
      match singleNativeBinding m survivor with
      | .error conflict => (m, .error conflict)
      | .ok nativeSession =>
        (m, .ok [.mergeTaskRuns survivor absorbed,
          .upsertTaskRun (persistedRun taskRun nativeSession bookkeepingTimeMs)])

/-- Applies a plan: the model it leaves, and the operations for the store or an error. -/
def applyBindingPlanAt (m : DomainModel) (plan : BindingPlan) (bookkeepingTimeMs : ℤ)
    (aliasRunId : RunId) : DomainModel × Except MergeConflict PersistBatch :=
  match plan with
  | .noChange => (m, .ok [])
  | .conflict conflict => (m, .error conflict)
  | .bind run key => applyBind m run key bookkeepingTimeMs aliasRunId
  | .merge survivor absorbed => applyMerge m survivor absorbed bookkeepingTimeMs

end HerdrTop
