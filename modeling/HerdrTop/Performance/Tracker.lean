import HerdrTop.Status.Visibility
import Mathlib.Data.List.Sort

/-!
# The performance tracker

Every event is admitted when it comes in and completed when it has been handled, or dropped. A sample says
how many events wait and how long the oldest has, how many came in lately, how large the model is, and what
of that is too much. When the oldest waiting event is too old, a lag generation begins; it is over when all
events admitted up to then are.

Times are nanoseconds of a monotonic clock. A lock makes every operation one step.
-/

namespace HerdrTop.Performance

/-- A number of seconds. -/
def seconds (n : ℕ) : ℕ := n * 1000000000

inductive PerformanceDegradationReason
  | livePanes
  | defaultVisibleTaskRuns
  | dependencyEdges
  | eventsOneSecond
  | eventsTenSeconds
  | eventsSixtySeconds
  | eventLag
  deriving DecidableEq

structure PerformanceSnapshot where
  eventLag : ℕ
  pendingEvents : ℕ
  admissionHighWater : ℕ
  completionHighWater : ℕ
  eventsOneSecond : ℕ
  eventsTenSeconds : ℕ
  eventsSixtySeconds : ℕ
  livePanes : ℕ
  defaultVisibleTaskRuns : ℕ
  dependencyEdges : ℕ
  executionEdges : ℕ
  reasons : List PerformanceDegradationReason
  deriving DecidableEq

/-- What an admission is known by. -/
structure AdmissionStamp where
  sequence : ℕ
  admittedAt : ℕ
  deriving DecidableEq

structure PerformanceState where
  admissionHighWater : ℕ := 0
  completionHighWater : ℕ := 0
  /-- When the events that wait were admitted, by sequence. -/
  pending : List (ℕ × ℕ) := []
  /-- When rated events were admitted, as long as that counts. -/
  admissionTimes : List ℕ := []
  /-- The last event of the lag generation. -/
  lagBreachHighWater : Option ℕ := none
  deriving DecidableEq

namespace PerformanceState

/-- Admits an event; `none` when the sequences are used up. -/
def admitEvent (s : PerformanceState) (admittedAt : ℕ) (recordRateTimestamp : Bool) :
    Option (PerformanceState × AdmissionStamp) :=
  if s.admissionHighWater = u64Max then none
  else
    let sequence := s.admissionHighWater + 1
    if s.pending.any (·.1 = sequence) then none
    else
      some ({ s with
        admissionHighWater := sequence
        pending := s.pending.orderedInsert (·.1 ≤ ·.1) (sequence, admittedAt)
        admissionTimes := if recordRateTimestamp then s.admissionTimes ++ [admittedAt] else s.admissionTimes },
        ⟨sequence, admittedAt⟩)

def complete (s : PerformanceState) (sequence : ℕ) : PerformanceState :=
  if s.pending.any (·.1 = sequence) then
    { s with
      pending := s.pending.filter (·.1 ≠ sequence)
      completionHighWater := max s.completionHighWater sequence }
  else s

def discardExpiredAdmissionTimes (s : PerformanceState) (now : ℕ) : PerformanceState :=
  if now < seconds 60 then s
  else { s with admissionTimes := s.admissionTimes.dropWhile (· ≤ now - seconds 60) }

def countWindow (s : PerformanceState) (now width : ℕ) : ℕ :=
  if now < width then (s.admissionTimes.filter (· ≤ now)).length
  else (s.admissionTimes.filter fun admittedAt => now - width < admittedAt && admittedAt ≤ now).length

/-- How long the event with the least sequence has waited. -/
def eventLag (s : PerformanceState) (now : ℕ) : ℕ :=
  s.pending.head?.elim 0 fun entry => now - entry.2

/-- Ends the lag generation when its events are over; begins one when there is none and the lag is too
long. -/
def updateLagGeneration (s : PerformanceState) (eventLag : ℕ) : PerformanceState :=
  let ended := s.lagBreachHighWater.any fun highWater => s.pending.head?.all fun entry => highWater < entry.1
  let kept := if ended then none else s.lagBreachHighWater
  let begins := kept.isNone && !s.pending.isEmpty && seconds 1 < eventLag
  { s with lagBreachHighWater := if begins then some s.admissionHighWater else kept }

end PerformanceState

/-- The holder of an admission; it completes the event once. -/
structure Admission where
  stamp : AdmissionStamp
  completed : Bool := false
  deriving DecidableEq

namespace Admission

def completeOnce (a : Admission) (s : PerformanceState) : Admission × PerformanceState :=
  if a.completed then (a, s) else ({ a with completed := true }, s.complete a.stamp.sequence)

/-- What happens when the holder is dropped. -/
def drop (a : Admission) (s : PerformanceState) : PerformanceState := (a.completeOnce s).2

/-- Completes the event and drops the holder. -/
def complete (a : Admission) (s : PerformanceState) : PerformanceState :=
  (a.completeOnce s).1.drop (a.completeOnce s).2

end Admission

/-- A reason when there is one. -/
def reasonIf (degraded : Bool) (reason : PerformanceDegradationReason) : List PerformanceDegradationReason :=
  if degraded then [reason] else []

/-- Takes a sample at a time of the monotonic clock, of a model at a time of the wall clock. -/
def PerformanceState.sample (s : PerformanceState) (ghostVisibilityMs : ℤ) (m : DomainModel) (nowMs : ℤ)
    (now : ℕ) : PerformanceState × PerformanceSnapshot :=
  let livePanes := m.panes.values.length
  let defaultVisibleTaskRuns := defaultVisibleTaskRunCount ghostVisibilityMs m nowMs
  let dependencyEdges := m.dependencyEdges.keys.length
  let executionEdges := m.executionEdges.keys.length
  let s := s.discardExpiredAdmissionTimes now
  let eventLag := s.eventLag now
  let s := s.updateLagGeneration eventLag
  let eventsOneSecond := s.countWindow now (seconds 1)
  let eventsTenSeconds := s.countWindow now (seconds 10)
  let eventsSixtySeconds := s.countWindow now (seconds 60)
  let reasons := reasonIf (50 < livePanes) .livePanes ++
    reasonIf (200 < defaultVisibleTaskRuns) .defaultVisibleTaskRuns ++
    reasonIf (1000 < dependencyEdges) .dependencyEdges ++
    reasonIf (100 < eventsOneSecond) .eventsOneSecond ++
    reasonIf (1000 < eventsTenSeconds) .eventsTenSeconds ++
    reasonIf (1200 < eventsSixtySeconds) .eventsSixtySeconds ++
    reasonIf s.lagBreachHighWater.isSome .eventLag
  (s, {
    eventLag
    pendingEvents := s.pending.length
    admissionHighWater := s.admissionHighWater
    completionHighWater := s.completionHighWater
    eventsOneSecond
    eventsTenSeconds
    eventsSixtySeconds
    livePanes
    defaultVisibleTaskRuns
    dependencyEdges
    executionEdges
    reasons })

end HerdrTop.Performance
