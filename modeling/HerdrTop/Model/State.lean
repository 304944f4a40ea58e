import HerdrTop.Model.Ids
import Mathlib.Data.Prod.Lex
import Mathlib.Data.String.Basic

/-!
# State values

The value types of the rows: execution and task states, the lifecycle of a native
session with the watermark that orders observations about it, and the closed
active-time totals. The machine integers of the source are `ℕ` (unsigned) and `ℤ`
(signed) with the saturating operations written out.
-/

namespace HerdrTop

/-- The largest `u64`. -/
def u64Max : ℕ := 2 ^ 64 - 1

/-- The largest `i64`. -/
def i64Max : ℤ := 2 ^ 63 - 1

/-- The smallest `i64`. -/
def i64Min : ℤ := -2 ^ 63

/-- `u64::saturating_add`. -/
def satAddU64 (a b : ℕ) : ℕ := min (a + b) u64Max

/-- `i64::saturating_add`. -/
def satAddI64 (a b : ℤ) : ℤ := max i64Min (min (a + b) i64Max)

/-- `i64::saturating_sub`. -/
def satSubI64 (a b : ℤ) : ℤ := max i64Min (min (a - b) i64Max)

/-- The value, unless it is out of the range of `i64`. -/
def checkedI64 (value : ℤ) : Option ℤ := if i64Min ≤ value ∧ value ≤ i64Max then some value else none

/-- The largest total that SQLite's INTEGER can hold. -/
def persistedRateTotalMax : ℕ := 2 ^ 63 - 1

/-- Whether a character is a control character (Unicode category Cc). -/
def isControl (c : Char) : Bool := c.toNat < 0x20 || (0x7F ≤ c.toNat && c.toNat < 0xA0)

/-- The identity of one frozen history manifest: not empty, bounded, printable. -/
structure HistoryDrainId where
  /-- The identity. -/
  value : String
  /-- It is bounded. -/
  bounded : value.utf8ByteSize ≤ 160 := by decide
  /-- It is not empty. -/
  nonempty : value ≠ "" := by decide
  /-- It has no control characters. -/
  printable : value.toList.all (fun c => !isControl c) = true := by decide
  deriving DecidableEq

/-- Where an observation comes from. -/
inductive ObservationOrigin
  /-- Seen after the start of live reading. -/
  | live
  /-- Read from history, up to the frozen goalpost of one artifact. -/
  | historical (drainId : HistoryDrainId) (artifactId : String)
  deriving DecidableEq

/-- How a native session ended. -/
inductive NativeSessionEndStatus
  | done
  | error
  | cancelled
  | unknown
  deriving DecidableEq, Repr

/-- Evidence that a native session ended. -/
structure NativeSessionEnd where
  /-- How it ended. -/
  status : NativeSessionEndStatus
  /-- When it ended. -/
  atMs : ℤ
  deriving DecidableEq, Repr

/-- What orders the observations about the lifecycle of a native session. -/
structure NativeLifecycleWatermark where
  /-- The time at the source. -/
  sourceAtMs : ℤ
  /-- The time of observation. -/
  observedAtMs : ℤ
  /-- The identity of the source, to break ties. -/
  sourceOrder : String
  deriving DecidableEq, Repr

/-- The fields in the order in which they are compared. -/
def NativeLifecycleWatermark.fields (w : NativeLifecycleWatermark) : ℤ ×ₗ ℤ ×ₗ String :=
  toLex (w.sourceAtMs, toLex (w.observedAtMs, w.sourceOrder))

theorem NativeLifecycleWatermark.fields_injective :
    Function.Injective NativeLifecycleWatermark.fields := by
  rintro ⟨a, b, c⟩ ⟨a', b', c'⟩ h
  have h1 := congrArg (fun p => (ofLex p).1) h
  have h2 := congrArg (fun p => (ofLex (ofLex p).2)) h
  simp only [NativeLifecycleWatermark.fields, ofLex_toLex, Prod.mk.injEq] at h1 h2
  rw [h1, h2.1, h2.2]

/-- Source time first, then observation time, then source. -/
instance : LinearOrder NativeLifecycleWatermark :=
  LinearOrder.lift' NativeLifecycleWatermark.fields NativeLifecycleWatermark.fields_injective

/-- The lifecycle and history state of a run. -/
structure TaskRunV6State where
  /-- The end of the run's native session, if it ended. -/
  nativeSessionEnd : Option NativeSessionEnd := none
  /-- What the last lifecycle observation was ordered by. -/
  lifecycleWatermark : Option NativeLifecycleWatermark := none
  /-- Whether the run's history is complete, so that the run may be shown. -/
  historyReady : Bool := true
  /-- The latest provider activity. -/
  latestProviderAtMs : Option ℤ := none
  deriving DecidableEq

/-- The closed active-time totals of a run. -/
structure RunRateTotals where
  /-- Tokens written. -/
  outputTokens : ℕ := 0
  /-- Milliseconds worked. -/
  workingMs : ℤ := 0
  deriving DecidableEq

/-- Both components brought into SQLite's domain, and whether that changed one. -/
def RunRateTotals.clamped (t : RunRateTotals) : RunRateTotals × Bool :=
  let outputTokens := min t.outputTokens persistedRateTotalMax
  let workingMs := max t.workingMs 0
  (⟨outputTokens, workingMs⟩, outputTokens != t.outputTokens || workingMs != t.workingMs)

/-- The sum, each component saturating, and whether one did. -/
def RunRateTotals.saturatingAdd (t delta : RunRateTotals) : RunRateTotals × Bool :=
  let deltaWorkingMs := max delta.workingMs 0
  let (current, preexistingClamp) := t.clamped
  let outputSum := current.outputTokens + delta.outputTokens
  let workingSum := current.workingMs + deltaWorkingMs
  (⟨min (min outputSum u64Max) persistedRateTotalMax, min workingSum i64Max⟩,
    preexistingClamp || decide (delta.workingMs < 0) || decide (persistedRateTotalMax < outputSum)
      || decide (i64Max < workingSum))

/-- The state of an execution. -/
inductive ExecState
  | unknown
  | idle
  | working
  | blocked
  | stale (sinceMs : ℤ)
  | ended
  deriving DecidableEq, Repr

/-- Whether the execution is over. -/
def ExecState.isTerminal : ExecState → Bool
  | .ended => true
  | _ => false

/-- The agent status a pane reports. -/
inductive PaneAgentStatus
  | idle
  | working
  | blocked
  | done
  | unknown
  deriving DecidableEq, Repr

/-- The execution state a pane status stands for. -/
def PaneAgentStatus.executionState : PaneAgentStatus → ExecState
  | .idle | .done => .idle
  | .working => .working
  | .blocked => .blocked
  | .unknown => .unknown

/-- The state of a task run. -/
inductive TaskState
  | queued
  | running
  | blocked
  | completed
  | failed
  | cancelled
  | endedUnknown
  deriving DecidableEq, Repr

/-- Whether the run is over. -/
def TaskState.isTerminal : TaskState → Bool
  | .completed | .failed | .cancelled | .endedUnknown => true
  | _ => false

/-! ### Sums of totals -/

/-- Totals within SQLite's domain add up to the sum, cut off at the domain's end. -/
theorem RunRateTotals.saturatingAdd_fst (t delta : RunRateTotals) :
    (t.saturatingAdd delta).1 =
      ⟨min (min t.outputTokens persistedRateTotalMax + delta.outputTokens) persistedRateTotalMax,
        min (max t.workingMs 0 + max delta.workingMs 0) i64Max⟩ := by
  simp only [saturatingAdd, clamped, persistedRateTotalMax, u64Max]
  congr 1
  omega

end HerdrTop
