import HerdrTop.Reducer.Sweeps

/-!
# Default visibility

Which runs are in view as long as nobody asks for more. A run goes out of view some time after its end, a
Controller run without execution a day after it was last heard of, a provisional run when its terminal may
have been taken for an agent by mistake. A run that only its end hides stays in view above a visible run
that it dispatched.
-/

namespace HerdrTop

/-- How long a run stays in view after its end. -/
def defaultTerminalVisibilityMs : ℤ := 60 * 60 * 1000

/-- When a provisional run was last observed. -/
def lastObservedMs (run : TaskRun) (startMs : ℤ) : ℤ := (run.updatedAtMs.or run.createdAtMs).getD startMs

/-- Whether a provisional run that did not end has not been observed for too long. -/
def isGhost (run : TaskRun) (lifecycleEndMs : Option ℤ) (nowMs ghostVisibilityMs : ℤ) : Bool :=
  match lifecycleEndMs, run.key with
  | none, .provisional _ startMs _ => satAddI64 (lastObservedMs run startMs) ghostVisibilityMs ≤ nowMs
  | _, _ => false

/-- What visible runs and their expired ancestors have in common. -/
def isDefaultVisibilityPolicyEligible (m : DomainModel) (run : TaskRun) (lifecycleEndMs : Option ℤ)
    (nowMs ghostVisibilityMs : ℤ) : Bool :=
  if run.dismissedAtMs.isSome then false
  else if isGhost run lifecycleEndMs nowMs ghostVisibilityMs then false
  else if isHookOnlyStaleTaskRun m run nowMs then false
  else true

/-- Whether a run is in view for its own sake. -/
def isDefaultVisibleTaskRun (ghostVisibilityMs : ℤ) (m : DomainModel) (run : TaskRun) (nowMs : ℤ) : Bool :=
  let lifecycleEndMs := m.effectiveLifecycleEndMs run
  if !isDefaultVisibilityPolicyEligible m run lifecycleEndMs nowMs ghostVisibilityMs then false
  else lifecycleEndMs.all fun endMs => nowMs < satAddI64 endMs defaultTerminalVisibilityMs

/-- Whether its end alone keeps a run out of view. -/
def isExpiredLifecycleAncestor (ghostVisibilityMs : ℤ) (m : DomainModel) (run : TaskRun) (nowMs : ℤ) : Bool :=
  let lifecycleEndMs := m.effectiveLifecycleEndMs run
  isDefaultVisibilityPolicyEligible m run lifecycleEndMs nowMs ghostVisibilityMs &&
    lifecycleEndMs.any fun endMs => satAddI64 endMs defaultTerminalVisibilityMs ≤ nowMs

/-- The runs out of view that dispatched a visible run and that only their end hides. -/
def expiredAncestors (ghostVisibilityMs : ℤ) (m : DomainModel) (nowMs : ℤ) (visible : HashSet RunId) :
    List RunId :=
  let parents := (m.executionEdges.keys.filter fun edge => visible.contains edge.childRunId).map (·.parentRunId)
  let hidden := (parents.filter fun runId => !visible.contains runId).filterMap m.taskRun
  (hidden.filter fun run => isExpiredLifecycleAncestor ghostVisibilityMs m run nowMs).map (·.runId)

/-- Adds ancestors until there are none; `closeOverAncestors_closed` says that a turn for each run is enough. -/
def closeOverAncestors (ghostVisibilityMs : ℤ) (m : DomainModel) (nowMs : ℤ) : ℕ → HashSet RunId → HashSet RunId
  | 0, visible => visible
  | turns + 1, visible =>
    let ancestors := expiredAncestors ghostVisibilityMs m nowMs visible
    if ancestors.isEmpty then visible
    else closeOverAncestors ghostVisibilityMs m nowMs turns (HashSet.extend visible ancestors)

/-- The runs in view for their own sake. -/
def ownVisible (ghostVisibilityMs : ℤ) (m : DomainModel) (nowMs : ℤ) : HashSet RunId :=
  HashSet.ofList ((m.taskRuns.values.filter fun run =>
    isDefaultVisibleTaskRun ghostVisibilityMs m run nowMs).map (·.runId))

/-- The runs in view. -/
def defaultVisibleTaskRunIds (ghostVisibilityMs : ℤ) (m : DomainModel) (nowMs : ℤ) : HashSet RunId :=
  closeOverAncestors ghostVisibilityMs m nowMs m.taskRuns.values.length (ownVisible ghostVisibilityMs m nowMs)

def defaultVisibleTaskRunCount (ghostVisibilityMs : ℤ) (m : DomainModel) (nowMs : ℤ) : ℕ :=
  (defaultVisibleTaskRunIds ghostVisibilityMs m nowMs).keys.length

end HerdrTop
