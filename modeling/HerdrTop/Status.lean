import HerdrTop.Model.Entities

/-!
# Whether a run counts as working

The part of the status projection that the rate ledger reads: a run works when the pane
status, the execution state or, without executions, its newest root agent says so.
-/

namespace HerdrTop

/-- The activity the provider lane reports for a line that is still being written. -/
def liveLineEventKind : String := "lane_live_line"

/-- An agent that said nothing for so long that it is not shown. -/
def agentNodeIsDisplayStale (headlessInactivityMs : ℤ) (agent : AgentNode) (nowMs : ℤ) : Bool :=
  (match agent.state with
    | none | some .unknown | some .ended => true
    | _ => false) &&
  agent.lastActivityAtMs.any fun lastActivityAtMs =>
    headlessInactivityMs ≤ satSubI64 nowMs lastActivityAtMs

def taskRunProvider (run : TaskRun) : Option Provider :=
  match run.key with
  | .native provider _ | .nativePath provider _ => some provider
  | .controller _ | .provisional _ _ _ => none

/-- The execution that speaks for a pane comes before the pane's others: live ones first. -/
def Execution.before (left right : Execution) : Bool :=
  (!left.state.isTerminal && right.state.isTerminal) ||
    (left.state.isTerminal == right.state.isTerminal && decide (left.executionId < right.executionId))

/-- The newer of two agents: by last activity, then by name. -/
def AgentNode.olderThan (left right : AgentNode) : Bool :=
  match left.lastActivityAtMs, right.lastActivityAtMs with
  | none, some _ => true
  | some _, none => false
  | none, none => decide (left.agentNodeId < right.agentNodeId)
  | some l, some r => decide (l < r) || (l == r && decide (left.agentNodeId < right.agentNodeId))

/-- The root agents whose state may speak for a run. -/
def rootAgents (headlessInactivityMs : ℤ) (m : DomainModel) (run : TaskRun) (nowMs : ℤ) :
    List AgentNode :=
  m.agentNodes.values.filter fun agent =>
    agent.taskRunId = run.runId && agent.parentAgentNodeId.isNone &&
      agent.lastEventKind != some liveLineEventKind &&
      !agentNodeIsDisplayStale headlessInactivityMs agent nowMs &&
      !((m.taskRun agent.taskRunId).bind taskRunProvider).any fun provider =>
        provider ≠ agent.provider

/-- Whether a run counts as working. -/
def runRateWorking (headlessInactivityMs : ℤ) (m : DomainModel) (run : TaskRun) (nowMs : ℤ) : Bool :=
  if run.state.isTerminal || run.state == .queued || run.state == .blocked ||
      (m.v6State run.runId).any (·.nativeSessionEnd.isSome) then false
  else
    let executions := m.executions.values.filter fun e => e.taskRunId = run.runId
    if executions.isEmpty then
      let agents := rootAgents headlessInactivityMs m run nowMs
      match agents.find? fun agent => !agents.any fun other => agent.olderThan other with
      | some newest => newest.state == some .working
      | none => true
    else
      executions.any fun execution =>
        !executions.any (fun other => other.paneId = execution.paneId && other.before execution) &&
          !execution.state.isTerminal &&
          match m.paneAgentStatuses.get execution.paneId with
          | some status => status == .working
          | none => execution.state == .working

end HerdrTop
