import HerdrTop.Library.Champions
import HerdrTop.Status
import Mathlib.Data.Prod.Lex
import Mathlib.Data.String.Basic
import Mathlib.Order.WithBot

/-!
# The status read model

What is shown of a run, and whether its rates count, is derived from evidence: for each pane the execution
that speaks for it, and for each run its newest root agent and the newest agent of its own session. The read
model gathers the evidence of all runs in one pass, or that of one run only.

## What is proved

* `paneExecution_get`, `rootAgent_get`: the evidence gathered for a run is the best of its candidates.
* `run_rate_activity_agrees`: gathering one run's evidence gives the same activity as gathering everything,
  in whatever order the rows are visited.
-/

namespace HerdrTop

open Champions

/-! ### Status -/

/-- What is shown of a run. -/
inductive TaskDisplayStatus
  | queued
  | working
  | idle
  | blocked
  | done
  | error
  | cancelled
  | unknown
  deriving DecidableEq

/-- The evidence a status comes from. -/
inductive StatusSource
  | taskState
  | nativeSessionLifecycle
  | paneAgentStatus
  | executionState
  | agentNodeState
  | fallback
  deriving DecidableEq

structure DisplayStatus where
  status : TaskDisplayStatus
  source : StatusSource
  stalled : Bool := false
  deriving DecidableEq

/-- A status that is not final may be stalled. -/
def DisplayStatus.withStalled (status : DisplayStatus) (stalled : Bool) : DisplayStatus :=
  match status.status with
  | .done | .error | .cancelled => status
  | _ => { status with stalled := status.stalled || stalled }

def DisplayStatus.withSource (status : DisplayStatus) (source : StatusSource) : DisplayStatus :=
  { status with source }

/-- Whether the rates of a run count. -/
inductive RunRateActivity
  | working
  | paused
  deriving DecidableEq

def paneAgentDisplayStatus (status : PaneAgentStatus) : DisplayStatus :=
  let status := match status with
    | .idle => .idle
    | .working => .working
    | .blocked => .blocked
    | .done => .done
    | .unknown => .unknown
  ⟨status, .paneAgentStatus, false⟩

def executionDisplayStatus (state : ExecState) (endedIsDone : Bool) : DisplayStatus :=
  let (status, stalled) := match state with
    | .unknown => (.unknown, false)
    | .idle => (.idle, false)
    | .working => (.working, false)
    | .blocked => (.blocked, false)
    | .stale _ => (.unknown, true)
    | .ended => (if endedIsDone then .done else .unknown, false)
  ⟨status, .executionState, stalled⟩

/-! ### Evidence -/

/-- An execution that may speak for its pane. -/
structure ExecutionCandidate where
  terminal : Bool
  executionId : String
  state : ExecState
  deriving DecidableEq

/-- What an agent says about a run. -/
structure AgentStatusEvidence where
  state : Option ExecState
  lastActivityAtMs : Option ℤ
  agentNodeId : String
  deriving DecidableEq

/-- Live executions come first, then those of lower name. -/
def ExecutionCandidate.rank (candidate : ExecutionCandidate) : Bool ×ₗ String :=
  toLex (candidate.terminal, candidate.executionId)

/-- Agents that were active last come first, then those of higher name. -/
def AgentStatusEvidence.rank (evidence : AgentStatusEvidence) : (WithBot ℤ ×ₗ String)ᵒᵈ :=
  .toDual (toLex (evidence.lastActivityAtMs, evidence.agentNodeId))

def Execution.candidate (execution : Execution) : ExecutionCandidate :=
  ⟨execution.state.isTerminal, execution.executionId, execution.state⟩

def AgentNode.evidence (agent : AgentNode) : AgentStatusEvidence :=
  ⟨agent.state, agent.lastActivityAtMs, agent.agentNodeId⟩

/-- The evidence of all runs, or of some. -/
structure StatusReadModel where
  paneExecutions : HashMap RunId (HashMap String ExecState) := ∅
  rootAgents : HashMap RunId AgentStatusEvidence := ∅
  /-- The newest agent of the session that is a run's own, whoever it belongs to; it is only shown. -/
  durableNativeAgents : HashMap RunId AgentStatusEvidence := ∅

def insertNewestAgentEvidence (selected : HashMap RunId AgentStatusEvidence) (runId : RunId)
    (candidate : AgentStatusEvidence) : HashMap RunId AgentStatusEvidence :=
  keepBest AgentStatusEvidence.rank selected runId candidate

/-- Whether only one run is asked for, and not this one. -/
def passedOver (runId : Option RunId) (owner : RunId) : Bool := runId.any fun runId => owner ≠ runId

/-- The session whose agent this is, unless all it said is a line that is still being written. -/
def AgentNode.durableSession (agent : AgentNode) : Option RunKey :=
  if agent.lastEventKind = some liveLineEventKind then none
  else (agent.nativeSessionId.filter fun sid => sid ≠ "").map fun sid => .native agent.provider sid

/-- Whether an agent may speak for the run it belongs to. -/
def speaksForRun (headlessInactivityMs : ℤ) (m : DomainModel) (agent : AgentNode) (nowMs : ℤ) : Bool :=
  !(agent.parentAgentNodeId.isSome || agent.lastEventKind = some liveLineEventKind ||
    agentNodeIsDisplayStale headlessInactivityMs agent nowMs ||
    ((m.taskRun agent.taskRunId).bind taskRunProvider).any fun provider => provider ≠ agent.provider)

namespace StatusReadModel

/-- The execution that speaks for each pane of each run. -/
def selectedExecutions (m : DomainModel) (runId : Option RunId) : HashMap (RunId × String) ExecutionCandidate :=
  m.executions.values.foldl (fun selected execution =>
    if passedOver runId execution.taskRunId then selected
    else keepBest ExecutionCandidate.rank selected (execution.taskRunId, execution.paneId) execution.candidate) ∅

/-- One pane more among those of its run. -/
def insertPane (panes : HashMap RunId (HashMap String ExecState)) (entry : (RunId × String) × ExecutionCandidate) :
    HashMap RunId (HashMap String ExecState) :=
  panes.insert entry.1.1 (((panes.get entry.1.1).getD ∅).insert entry.1.2 entry.2.state)

/-- The sessions that are a run's own. -/
def nativeAliases (m : DomainModel) : HashMap RunKey RunId :=
  HashMap.ofList (m.runIdsByKey.toList.filter fun entry => match entry.1 with
    | .native _ _ => true
    | _ => false)

/-- One agent more. -/
def gatherAgent (headlessInactivityMs : ℤ) (m : DomainModel) (nowMs : ℤ) (runId : Option RunId)
    (gathered : HashMap RunId AgentStatusEvidence × HashMap RunId AgentStatusEvidence) (agent : AgentNode) :
    HashMap RunId AgentStatusEvidence × HashMap RunId AgentStatusEvidence :=
  let durable := match agent.durableSession.bind (nativeAliases m).get with
    | some target => if runId.isNone then insertNewestAgentEvidence gathered.2 target agent.evidence else gathered.2
    | none => gathered.2
  if passedOver runId agent.taskRunId || !speaksForRun headlessInactivityMs m agent nowMs then (gathered.1, durable)
  else (insertNewestAgentEvidence gathered.1 agent.taskRunId agent.evidence, durable)

/-- Gathers the evidence of one run, or of all. -/
def fromModelFiltered (headlessInactivityMs : ℤ) (m : DomainModel) (nowMs : ℤ) (runId : Option RunId) :
    StatusReadModel :=
  let agents := m.agentNodes.values.foldl (gatherAgent headlessInactivityMs m nowMs runId) (∅, ∅)
  { paneExecutions := (selectedExecutions m runId).toList.foldl insertPane ∅
    rootAgents := agents.1
    durableNativeAgents := agents.2 }

def fromModel (headlessInactivityMs : ℤ) (m : DomainModel) (nowMs : ℤ) : StatusReadModel :=
  fromModelFiltered headlessInactivityMs m nowMs none

/-- Whether the rates of a run count, from the evidence that was gathered. -/
def runRateActivity (statuses : StatusReadModel) (m : DomainModel) (run : TaskRun) : RunRateActivity :=
  if run.state.isTerminal || run.state == .queued || run.state == .blocked ||
      (m.v6State run.runId).any (·.nativeSessionEnd.isSome) then .paused
  else match statuses.paneExecutions.get run.runId with
    | some executions =>
      let works := executions.toList.any fun (paneId, execution) => !execution.isTerminal &&
        match m.paneAgentStatuses.get paneId with
        | some status => status == .working
        | none => execution == .working
      if works then .working else .paused
    | none => match statuses.rootAgents.get run.runId with
      | some evidence => if evidence.state == some .working then .working else .paused
      | none => .working

/-- The same from the evidence of that run only. -/
def runRateActivityFromModel (headlessInactivityMs : ℤ) (m : DomainModel) (run : TaskRun) (nowMs : ℤ) :
    RunRateActivity :=
  (fromModelFiltered headlessInactivityMs m nowMs (some run.runId)).runRateActivity m run

/-- A run is done when the newest agent of its own session ended. -/
def durableEndedStatus (statuses : StatusReadModel) (runId : RunId) (inactive : Bool) : Option DisplayStatus :=
  match statuses.durableNativeAgents.get runId with
  | some evidence =>
    if evidence.state = some .ended then some (DisplayStatus.withStalled ⟨.done, .agentNodeState, false⟩ inactive)
    else none
  | none => none

/-- What is shown of a run in a pane. -/
def taskDisplayStatus (statuses : StatusReadModel) (m : DomainModel) (run : TaskRun) (paneId : Option String)
    (inactive : Bool) : DisplayStatus :=
  let shown := fun status source => DisplayStatus.withStalled ⟨status, source, false⟩ inactive
  match run.state with
  | .completed => shown .done .taskState
  | .failed => shown .error .taskState
  | .cancelled => shown .cancelled .taskState
  | .endedUnknown => (statuses.durableEndedStatus run.runId inactive).getD (shown .unknown .taskState)
  | state => match (m.v6State run.runId).bind (·.nativeSessionEnd) with
    | some ending => match ending.status with
      | .done => shown .done .nativeSessionLifecycle
      | .error => shown .error .nativeSessionLifecycle
      | .cancelled => shown .cancelled .nativeSessionLifecycle
      | .unknown => (statuses.durableEndedStatus run.runId inactive).getD (shown .unknown .nativeSessionLifecycle)
    | none => match state with
      | .queued => shown .queued .taskState
      | .blocked => shown .blocked .taskState
      | _ => match paneId.bind fun paneId =>
          ((statuses.paneExecutions.get run.runId).bind (·.get paneId)).map (paneId, ·) with
        | some (paneId, execution) => match m.paneAgentStatuses.get paneId with
          | some status =>
            if execution.isTerminal then (executionDisplayStatus execution false).withStalled inactive
            else (paneAgentDisplayStatus status).withStalled inactive
          | none => (executionDisplayStatus execution false).withStalled inactive
        | none => match (statuses.rootAgents.get run.runId).bind (·.state) with
          | some state => ((executionDisplayStatus state false).withSource .agentNodeState).withStalled inactive
          | none => shown .working .taskState

/-! ### The executions that speak for panes -/

section

variable {m : DomainModel} {runId : Option RunId} {owner : RunId} {paneId : String}

/-- The candidates for a pane of a run. -/
def candidates (m : DomainModel) (owner : RunId) (paneId : String) : List ExecutionCandidate :=
  (m.executions.values.filter fun execution => execution.taskRunId = owner ∧ execution.paneId = paneId).map
    Execution.candidate

/-- The execution that speaks for a pane is the best of its candidates. -/
theorem selectedExecutions_get (h : passedOver runId owner = false) :
    (selectedExecutions m runId).get (owner, paneId) = champion ExecutionCandidate.rank (candidates m owner paneId) := by
  unfold selectedExecutions candidates
  rw [get_foldl_keepBest]
  congr 2
  refine List.filter_congr fun execution _ => ?_
  simp only [Prod.mk.injEq]
  by_cases howner : execution.taskRunId = owner
  · rw [howner, h, Bool.not_false, Bool.true_and]
  · simp only [howner, false_and, decide_false, Bool.and_false]

/-- Panes of other runs are not selected. -/
theorem selectedExecutions_owner {candidate : ExecutionCandidate}
    (h : (selectedExecutions m runId).get (owner, paneId) = some candidate) : passedOver runId owner = false := by
  unfold selectedExecutions at h
  rw [get_foldl_keepBest] at h
  obtain ⟨execution, hmem, -⟩ := List.mem_map.mp (champion_spec h).1
  obtain ⟨-, hkeep⟩ := List.mem_filter.mp hmem
  rw [Bool.and_eq_true, decide_eq_true_eq, Prod.mk.injEq] at hkeep
  rw [← hkeep.2.1]
  simpa using hkeep.1

variable {l : List ((RunId × String) × ExecutionCandidate)}

theorem get_insertPane (panes : HashMap RunId (HashMap String ExecState))
    (entry : (RunId × String) × ExecutionCandidate) (owner : RunId) :
    (insertPane panes entry).get owner =
      if owner = entry.1.1 then some (((panes.get owner).getD ∅).insert entry.1.2 entry.2.state)
      else panes.get owner := by
  unfold insertPane
  rw [HashMap.get_insert]
  split_ifs with h
  · rw [h]
  · rfl

/-- A run is listed when one of its panes is selected. -/
theorem panes_eq_none : (l.foldl insertPane ∅).get owner = none ↔ ∀ entry ∈ l, entry.1.1 ≠ owner := by
  induction l using List.reverseRecOn with
  | nil => exact ⟨fun _ _ h => (by cases h), fun _ => rfl⟩
  | append_singleton l entry ih =>
    rw [List.foldl_concat, get_insertPane, List.forall_mem_append, ← ih, List.forall_mem_singleton]
    split_ifs with h
    · simp [h]
    · simp [Ne.symm h]

/-- The panes of a run are those that were selected. -/
theorem panes_get (hnodup : (l.map Prod.fst).Nodup) {state : ExecState} :
    ((l.foldl insertPane ∅).get owner).bind (·.get paneId) = some state ↔
      ∃ candidate, ((owner, paneId), candidate) ∈ l ∧ candidate.state = state := by
  induction l using List.reverseRecOn with
  | nil => simp
  | append_singleton l entry ih =>
    rw [List.map_append, List.nodup_append] at hnodup
    obtain ⟨hl, -, hnew⟩ := hnodup
    have hnone : ∀ candidate, (entry.1, candidate) ∉ l := fun candidate hmem =>
      hnew entry.1 (List.mem_map.mpr ⟨_, hmem, rfl⟩) _ List.mem_cons_self rfl
    rw [List.foldl_concat, get_insertPane]
    obtain ⟨⟨owner', paneId'⟩, candidate'⟩ := entry
    simp only [List.mem_append, List.mem_singleton, Prod.mk.injEq]
    by_cases howner : owner = owner'
    · subst howner
      rw [if_pos rfl, Option.bind_some, HashMap.get_insert]
      by_cases hpane : paneId = paneId'
      · subst hpane
        rw [if_pos rfl, Option.some.injEq]
        constructor
        · exact fun h => ⟨candidate', .inr ⟨⟨rfl, rfl⟩, rfl⟩, h⟩
        · rintro ⟨candidate, hmem | ⟨-, rfl⟩, rfl⟩
          · exact absurd hmem (hnone _)
          · rfl
      · rw [if_neg hpane]
        have hbind : (((l.foldl insertPane ∅).get owner).getD ∅).get paneId =
            ((l.foldl insertPane ∅).get owner).bind (·.get paneId) := by
          cases (l.foldl insertPane ∅).get owner <;> rfl
        rw [hbind, ih hl]
        simp only [hpane, and_false, false_and, or_false]
    · rw [if_neg howner, ih hl]
      simp only [howner, false_and, or_false]

end

/-! ### The agents that speak for runs -/

section

variable {headlessInactivityMs : ℤ} {m : DomainModel} {nowMs : ℤ} {runId : Option RunId} {owner : RunId}

/-- The agents that may speak for a run. -/
def agentEvidence (headlessInactivityMs : ℤ) (m : DomainModel) (nowMs : ℤ) (owner : RunId) :
    List AgentStatusEvidence :=
  (m.agentNodes.values.filter fun agent =>
    agent.taskRunId = owner && speaksForRun headlessInactivityMs m agent nowMs).map AgentNode.evidence

/-- Root agents are gathered whatever else is. -/
theorem gatherAgent_fst (l : List AgentNode)
    (gathered : HashMap RunId AgentStatusEvidence × HashMap RunId AgentStatusEvidence) :
    (l.foldl (gatherAgent headlessInactivityMs m nowMs runId) gathered).1 = l.foldl (fun selected agent =>
      if passedOver runId agent.taskRunId || !speaksForRun headlessInactivityMs m agent nowMs then selected
      else keepBest AgentStatusEvidence.rank selected agent.taskRunId agent.evidence) gathered.1 := by
  induction l generalizing gathered with
  | nil => rfl
  | cons agent l ih =>
    rw [List.foldl_cons, List.foldl_cons, ih]
    congr 1
    unfold gatherAgent
    dsimp only
    split_ifs <;> rfl

/-- The agent that speaks for a run is the best of those that may. -/
theorem rootAgents_get (h : passedOver runId owner = false) :
    (fromModelFiltered headlessInactivityMs m nowMs runId).rootAgents.get owner =
      champion AgentStatusEvidence.rank (agentEvidence headlessInactivityMs m nowMs owner) := by
  unfold fromModelFiltered agentEvidence
  dsimp only
  rw [gatherAgent_fst, get_foldl_keepBest]
  congr 2
  refine List.filter_congr fun agent _ => ?_
  by_cases howner : agent.taskRunId = owner
  · rw [howner, h, Bool.false_or, Bool.not_not, Bool.and_comm]
  · simp only [howner, decide_false, Bool.and_false, Bool.false_and]

end

/-! ### What the activity of a run depends on -/

/-- Two read models with the same evidence for a run. -/
structure Agrees (statuses statuses' : StatusReadModel) (runId : RunId) : Prop where
  listed : statuses.paneExecutions.get runId = none ↔ statuses'.paneExecutions.get runId = none
  panes : ∀ paneId, (statuses.paneExecutions.get runId).bind (·.get paneId) =
    (statuses'.paneExecutions.get runId).bind (·.get paneId)
  agent : statuses.rootAgents.get runId = statuses'.rootAgents.get runId

section

variable {statuses statuses' : StatusReadModel} {m m' : DomainModel} {run : TaskRun}

/-- The activity of a run depends on its evidence, its lifecycle and the panes it is in. -/
theorem Agrees.runRateActivity (h : statuses.Agrees statuses' run.runId) (hstate : m.v6State run.runId = m'.v6State run.runId)
    (hpanes : ∀ paneId, m.paneAgentStatuses.get paneId = m'.paneAgentStatuses.get paneId) :
    statuses.runRateActivity m run = statuses'.runRateActivity m' run := by
  unfold StatusReadModel.runRateActivity
  rw [hstate]
  split_ifs with hpaused
  · rfl
  · cases hexec : statuses.paneExecutions.get run.runId with
    | none => rw [h.listed.mp hexec, h.agent]
    | some executions =>
      have hsome : statuses'.paneExecutions.get run.runId ≠ none := fun hnone => by
        rw [h.listed.mpr hnone] at hexec
        cases hexec
      obtain ⟨executions', hexec'⟩ := Option.ne_none_iff_exists'.mp hsome
      have hget : ∀ paneId, executions.get paneId = executions'.get paneId := fun paneId => by
        simpa only [hexec, hexec', Option.bind_some] using h.panes paneId
      have hentries : ∀ entry, entry ∈ executions.toList ↔ entry ∈ executions'.toList := by
        rintro ⟨paneId, execution⟩
        rw [HashMap.mem_toList, HashMap.mem_toList, hget]
      rw [hexec']
      simp only [hpanes]
      congr 2
      rw [Bool.eq_iff_iff, List.any_eq_true, List.any_eq_true]
      simp only [hentries]

end

section

variable {headlessInactivityMs : ℤ} {m m' : DomainModel} {nowMs : ℤ} {runId runId' : Option RunId} {owner : RunId}

/-- A pane of a run has the state of the best of its candidates. -/
theorem paneExecutions_get (h : passedOver runId owner = false) (paneId : String) :
    ((fromModelFiltered headlessInactivityMs m nowMs runId).paneExecutions.get owner).bind (·.get paneId) =
      (champion ExecutionCandidate.rank (candidates m owner paneId)).map ExecutionCandidate.state := by
  refine Option.ext fun state => ?_
  have hnodup : ((selectedExecutions m runId).toList.map Prod.fst).Nodup := by
    rw [← HashMap.keys_eq_map_toList]
    exact HashMap.keys_nodup _
  rw [Option.map_eq_some_iff, ← selectedExecutions_get h]
  exact (panes_get hnodup).trans (by simp only [HashMap.mem_toList])

theorem paneExecutions_eq_none (h : passedOver runId owner = false) :
    (fromModelFiltered headlessInactivityMs m nowMs runId).paneExecutions.get owner = none ↔
      ∀ paneId, candidates m owner paneId = [] := by
  refine panes_eq_none.trans ?_
  constructor
  · intro hnone paneId
    cases hget : champion ExecutionCandidate.rank (candidates m owner paneId) with
    | none => exact champion_eq_none.mp hget
    | some candidate =>
      rw [← selectedExecutions_get h] at hget
      exact absurd rfl (hnone _ (HashMap.mem_toList.mpr hget))
  · rintro hnone ⟨⟨owner', paneId⟩, candidate⟩ hmem rfl
    have hget := HashMap.mem_toList.mp hmem
    rw [selectedExecutions_get h, hnone] at hget
    cases hget

/-- The same candidates give the same evidence, whether it is gathered alone or with others. -/
theorem agrees_of_champions (h : passedOver runId owner = false) (h' : passedOver runId' owner = false)
    (hpanes : ∀ paneId, champion ExecutionCandidate.rank (candidates m owner paneId) =
      champion ExecutionCandidate.rank (candidates m' owner paneId))
    (hagents : champion AgentStatusEvidence.rank (agentEvidence headlessInactivityMs m nowMs owner) =
      champion AgentStatusEvidence.rank (agentEvidence headlessInactivityMs m' nowMs owner)) :
    (fromModelFiltered headlessInactivityMs m nowMs runId).Agrees
      (fromModelFiltered headlessInactivityMs m' nowMs runId') owner where
  listed := by
    rw [paneExecutions_eq_none h, paneExecutions_eq_none h']
    refine forall_congr' fun paneId => ?_
    have hnone : ∀ l, champion ExecutionCandidate.rank l = none ↔ l = [] := fun _ => champion_eq_none
    rw [← hnone, hpanes, hnone]
  panes := fun paneId => by rw [paneExecutions_get h, paneExecutions_get h', hpanes]
  agent := by rw [rootAgents_get h, rootAgents_get h', hagents]

end

end StatusReadModel

/-! ### The order in which rows are visited -/

/-- Executions and agents are filed under their names. -/
structure DomainModel.Named (m : DomainModel) : Prop where
  execution : ∀ id execution, m.executions.get id = some execution → execution.executionId = id
  agentNode : ∀ id agent, m.agentNodes.get id = some agent → agent.agentNodeId = id

/-- Two models with the same rows, visited in different orders. -/
structure DomainModel.SameRows (m m' : DomainModel) : Prop where
  taskRuns : m.taskRuns.Rehash m'.taskRuns
  runIdsByKey : m.runIdsByKey.Rehash m'.runIdsByKey
  v6States : m.v6States.Rehash m'.v6States
  executions : m.executions.Rehash m'.executions
  agentNodes : m.agentNodes.Rehash m'.agentNodes
  paneAgentStatuses : m.paneAgentStatuses.Rehash m'.paneAgentStatuses

theorem DomainModel.SameRows.refl (m : DomainModel) : m.SameRows m :=
  ⟨.refl _, .refl _, .refl _, .refl _, .refl _, .refl _⟩

namespace StatusReadModel

/-- The read model, whatever the order in which its own maps are visited while it is gathered and read. -/
structure Gathered (headlessInactivityMs : ℤ) (m : DomainModel) (nowMs : ℤ) (runId : Option RunId)
    (statuses : StatusReadModel) : Prop where
  panes : ∃ selected, (selectedExecutions m runId).Rehash selected ∧ ∀ owner,
    Option.Rel HashMap.Rehash ((selected.toList.foldl insertPane ∅).get owner) (statuses.paneExecutions.get owner)
  rootAgents : (fromModelFiltered headlessInactivityMs m nowMs runId).rootAgents.Rehash statuses.rootAgents

section

variable {headlessInactivityMs : ℤ} {m m' : DomainModel} {nowMs : ℤ} {runId : Option RunId} {owner : RunId}

theorem gathered_fromModelFiltered :
    Gathered headlessInactivityMs m nowMs runId (fromModelFiltered headlessInactivityMs m nowMs runId) where
  panes := by
    refine ⟨_, .refl _, fun owner => ?_⟩
    unfold fromModelFiltered
    dsimp only
    cases ((selectedExecutions m runId).toList.foldl insertPane ∅).get owner with
    | none => exact .none
    | some panes => exact .some (.refl _)
  rootAgents := .refl _

/-- Maps that are visited in different orders have the same entries, where there are any. -/
theorem rehash_get {panes panes' : Option (HashMap String ExecState)} (h : Option.Rel HashMap.Rehash panes panes') :
    (panes = none ↔ panes' = none) ∧ ∀ paneId, panes.bind (·.get paneId) = panes'.bind (·.get paneId) := by
  cases h with
  | none => exact ⟨Iff.rfl, fun _ => rfl⟩
  | some hrehash => exact ⟨by simp, fun paneId => (hrehash.get paneId).symm⟩

/-- The orders of the maps of a read model do not matter. -/
theorem Gathered.agrees {statuses : StatusReadModel} (h : Gathered headlessInactivityMs m nowMs runId statuses) :
    statuses.Agrees (fromModelFiltered headlessInactivityMs m nowMs runId) owner where
  listed := by
    obtain ⟨selected, hselected, hpanes⟩ := h.panes
    rw [← (rehash_get (hpanes owner)).1, panes_eq_none]
    refine Iff.trans ?_ panes_eq_none.symm
    simp only [hselected.toList_perm.mem_iff]
  panes := by
    obtain ⟨selected, hselected, hpanes⟩ := h.panes
    intro paneId
    have hnodup : ∀ selected : HashMap (RunId × String) ExecutionCandidate, (selected.toList.map Prod.fst).Nodup :=
      fun selected => by
        rw [← HashMap.keys_eq_map_toList]
        exact HashMap.keys_nodup _
    rw [← (rehash_get (hpanes owner)).2]
    refine Option.ext fun state => ?_
    rw [panes_get (hnodup selected)]
    refine Iff.trans ?_ (panes_get (hnodup (selectedExecutions m runId))).symm
    simp only [hselected.toList_perm.mem_iff]
  agent := h.rootAgents.get owner

/-- Candidates of one name are one. -/
theorem candidates_rank (hm : m.Named) (paneId : String) : ∀ a ∈ candidates m owner paneId,
    ∀ b ∈ candidates m owner paneId, a.rank = b.rank → a = b := by
  intro a ha b hb hrank
  obtain ⟨execution, hexec, rfl⟩ := List.mem_map.mp ha
  obtain ⟨execution', hexec', rfl⟩ := List.mem_map.mp hb
  obtain ⟨id, hid⟩ := HashMap.mem_values.mp (List.mem_filter.mp hexec).1
  obtain ⟨id', hid'⟩ := HashMap.mem_values.mp (List.mem_filter.mp hexec').1
  have hname : execution.executionId = execution'.executionId := (Prod.mk.inj hrank).2
  rw [hm.execution id _ hid, hm.execution id' _ hid'] at hname
  subst hname
  rw [Option.some.inj (hid.symm.trans hid')]

/-- Agents of one name are one. -/
theorem evidence_inj (hm : m.Named) {agent agent' : AgentNode} (hagent : agent ∈ m.agentNodes.values)
    (hagent' : agent' ∈ m.agentNodes.values) (hrank : agent.evidence.rank = agent'.evidence.rank) :
    agent.evidence = agent'.evidence := by
  obtain ⟨id, hid⟩ := HashMap.mem_values.mp hagent
  obtain ⟨id', hid'⟩ := HashMap.mem_values.mp hagent'
  have hname : agent.agentNodeId = agent'.agentNodeId := (Prod.mk.inj hrank).2
  rw [hm.agentNode id _ hid, hm.agentNode id' _ hid'] at hname
  subst hname
  rw [Option.some.inj (hid.symm.trans hid')]

theorem agentEvidence_rank (hm : m.Named) : ∀ a ∈ agentEvidence headlessInactivityMs m nowMs owner,
    ∀ b ∈ agentEvidence headlessInactivityMs m nowMs owner, a.rank = b.rank → a = b := by
  intro a ha b hb hrank
  obtain ⟨agent, hagent, rfl⟩ := List.mem_map.mp ha
  obtain ⟨agent', hagent', rfl⟩ := List.mem_map.mp hb
  exact evidence_inj hm (List.mem_filter.mp hagent).1 (List.mem_filter.mp hagent').1 hrank

/-- The candidates of a pane, and the agents that may speak for a run, are the same in whatever order they come. -/
theorem candidates_perm (h : m.SameRows m') (paneId : String) :
    (candidates m owner paneId).Perm (candidates m' owner paneId) :=
  (h.executions.values_perm.filter _).map _

theorem agentEvidence_perm (h : m.SameRows m') : (agentEvidence headlessInactivityMs m nowMs owner).Perm
    (agentEvidence headlessInactivityMs m' nowMs owner) := by
  have hspeaks : ∀ agent, speaksForRun headlessInactivityMs m' agent nowMs =
      speaksForRun headlessInactivityMs m agent nowMs := fun agent => by
    simp only [speaksForRun, DomainModel.taskRun, h.taskRuns.get]
  unfold agentEvidence
  simp only [hspeaks]
  exact (h.agentNodes.values_perm.filter _).map _

/-- The rows of a model give the same evidence in whatever order they are visited. -/
theorem agrees_of_sameRows {runId' : Option RunId} (hm : m.Named) (h : m.SameRows m')
    (hpassed : passedOver runId owner = false) (hpassed' : passedOver runId' owner = false) :
    (fromModelFiltered headlessInactivityMs m nowMs runId).Agrees
      (fromModelFiltered headlessInactivityMs m' nowMs runId') owner := by
  refine agrees_of_champions hpassed hpassed' (fun paneId => ?_) ?_
  · exact (champion_perm (candidates_rank hm paneId) (candidates_perm h paneId)).symm
  · exact (champion_perm (agentEvidence_rank hm) (agentEvidence_perm h)).symm

end

theorem Agrees.symm {statuses statuses' : StatusReadModel} {runId : RunId} (h : statuses.Agrees statuses' runId) :
    statuses'.Agrees statuses runId :=
  ⟨h.listed.symm, fun paneId => (h.panes paneId).symm, h.agent.symm⟩

theorem Agrees.trans {s s' s'' : StatusReadModel} {runId : RunId} (h : s.Agrees s' runId) (h' : s'.Agrees s'' runId) :
    s.Agrees s'' runId :=
  ⟨h.listed.trans h'.listed, fun paneId => (h.panes paneId).trans (h'.panes paneId), h.agent.trans h'.agent⟩

end StatusReadModel

open StatusReadModel in
/-- For every model, run and time, the activity from the evidence of that run alone is that from the evidence of
all runs. Neither depends on the order in which the rows of the model are visited, nor on that in which the maps
of the read model are. -/
theorem run_rate_activity_agrees (headlessInactivityMs : ℤ) (m : DomainModel) (run : TaskRun) (nowMs : ℤ) :
    runRateActivityFromModel headlessInactivityMs m run nowMs =
      (fromModel headlessInactivityMs m nowMs).runRateActivity m run ∧
    (m.Named → ∀ m', m.SameRows m' → ∀ runId, runId = none ∨ runId = some run.runId →
      ∀ statuses, Gathered headlessInactivityMs m' nowMs runId statuses →
        statuses.runRateActivity m' run = (fromModel headlessInactivityMs m nowMs).runRateActivity m run) := by
  have hnone : passedOver none run.runId = false := rfl
  have hown : passedOver (some run.runId) run.runId = false := by simp [passedOver]
  refine ⟨?_, fun hm m' hrows runId hrun statuses hstatuses => ?_⟩
  · have hagrees : (fromModelFiltered headlessInactivityMs m nowMs (some run.runId)).Agrees
        (fromModelFiltered headlessInactivityMs m nowMs none) run.runId :=
      agrees_of_champions hown hnone (fun _ => rfl) rfl
    exact hagrees.runRateActivity rfl fun _ => rfl
  · have hpassed : passedOver runId run.runId = false := by
      rcases hrun with rfl | rfl
      · exact hnone
      · exact hown
    have hagrees := hstatuses.agrees.trans (agrees_of_sameRows hm hrows hnone hpassed).symm
    exact hagrees.runRateActivity (hrows.v6States.get _) fun paneId => hrows.paneAgentStatuses.get paneId

/-- A run with two executions in a pane. -/
def twoExecutions (first second : Execution) : DomainModel :=
  (({} : DomainModel).insertExecution first).insertExecution second

open StatusReadModel in
/-- The live one of two executions speaks for the pane, whichever comes first. -/
theorem run_rate_activity_agrees_pane :
    let ended : Execution := { executionId := "a", paneId := "p", terminalId := "t", taskRunId := ⟨1⟩, state := .ended }
    let live : Execution := { executionId := "b", paneId := "p", terminalId := "t", taskRunId := ⟨1⟩, state := .idle }
    let run : TaskRun :=
      { runId := ⟨1⟩, key := .controller "job", displayOrdinal := 1, state := .running, hasControllerTaskStateEvent := true }
    runRateActivityFromModel 0 (twoExecutions ended live) run 0 =
        (fromModel 0 (twoExecutions ended live) 0).runRateActivity (twoExecutions ended live) run ∧
      (fromModel 0 (twoExecutions live ended) 0).runRateActivity (twoExecutions live ended) run = .paused := by
  intro ended live run
  obtain ⟨hagrees, horder⟩ := run_rate_activity_agrees 0 (twoExecutions ended live) run 0
  refine ⟨hagrees, ?_⟩
  have hnamed : (twoExecutions ended live).Named := by
    refine ⟨fun id execution hget => ?_, fun id agent hget => (by cases hget)⟩
    simp only [twoExecutions, DomainModel.insertExecution, HashMap.get_insert] at hget
    split_ifs at hget with h h'
    · rw [← Option.some.inj hget, h]
    · rw [← Option.some.inj hget, h']
    · cases hget
  have hrows : (twoExecutions ended live).SameRows (twoExecutions live ended) :=
    ⟨.refl _, .refl _, .refl _, List.Perm.swap _ _ _, .refl _, .refl _⟩
  refine (horder hnamed _ hrows none (.inl rfl) _ gathered_fromModelFiltered).trans ?_
  decide

end HerdrTop
