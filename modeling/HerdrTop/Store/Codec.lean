import HerdrTop.Store.PersistOp
import Mathlib.Tactic.Basic

/-!
# The texts of the columns

How keys, states and counts are written into columns and read back. Reading back fails on a text
that was never written, and what was written is read back.

A `u64` that a column holds as text is a natural number here, so reading it back checks the digits
but no bound.
-/

namespace HerdrTop

/-- Why the store refused. -/
inductive StoreError
  /-- SQLite refused: a constraint of the schema is violated, or a column is `NULL` that must not be. -/
  | sqlite
  /-- A value does not make sense where it stands. -/
  | invalid (field value reason : String)
  /-- A number does not fit a column. -/
  | integerOutOfRange (field : String)
  deriving DecidableEq

/-! ### Providers and states -/

def providerText : Provider → String
  | .claude => "claude"
  | .codex => "codex"

def parseProvider : String → Except StoreError Provider
  | "claude" => .ok .claude
  | "codex" => .ok .codex
  | value => .error (.invalid "provider" value "unknown provider")

def taskStateText : TaskState → String
  | .queued => "queued"
  | .running => "running"
  | .blocked => "blocked"
  | .completed => "completed"
  | .failed => "failed"
  | .cancelled => "cancelled"
  | .endedUnknown => "ended_unknown"

def parseTaskState : String → Except StoreError TaskState
  | "queued" => .ok .queued
  | "running" => .ok .running
  | "blocked" => .ok .blocked
  | "completed" => .ok .completed
  | "failed" => .ok .failed
  | "cancelled" => .ok .cancelled
  | "ended_unknown" => .ok .endedUnknown
  | value => .error (.invalid "task_state" value "unknown task state")

def nativeSessionEndStatusText : NativeSessionEndStatus → String
  | .done => "done"
  | .error => "error"
  | .cancelled => "cancelled"
  | .unknown => "unknown"

def parseNativeSessionEndStatus : String → Except StoreError NativeSessionEndStatus
  | "done" => .ok .done
  | "error" => .ok .error
  | "cancelled" => .ok .cancelled
  | "unknown" => .ok .unknown
  | value => .error (.invalid "native_session_end_status" value "unknown native-session end status")

/-- The text of an execution's state, and since when it is stale. -/
def encodeExecState : ExecState → String × Option ℤ
  | .unknown => ("unknown", none)
  | .idle => ("idle", none)
  | .working => ("working", none)
  | .blocked => ("blocked", none)
  | .stale sinceMs => ("stale", some sinceMs)
  | .ended => ("ended", none)

def parseExecState (value : String) (staleSinceMs : Option ℤ) : Except StoreError ExecState :=
  match value with
  | "unknown" => .ok .unknown
  | "idle" => .ok .idle
  | "working" => .ok .working
  | "blocked" => .ok .blocked
  | "stale" =>
    match staleSinceMs with
    | some sinceMs => .ok (.stale sinceMs)
    | none => .error (.invalid "stale_since_ms" "NULL" "required for stale execution")
  | "ended" => .ok .ended
  | value => .error (.invalid "exec_state" value "unknown execution state")

/-- An agent is working or has ended; no other state of it is stored. -/
def agentNodeStateText : ExecState → Except StoreError String
  | .working => .ok "working"
  | .ended => .ok "ended"
  | .unknown => .error (.invalid "agent_nodes.state" "Unknown"
      "provider agent nodes may persist only working or ended states")
  | .idle => .error (.invalid "agent_nodes.state" "Idle"
      "provider agent nodes may persist only working or ended states")
  | .blocked => .error (.invalid "agent_nodes.state" "Blocked"
      "provider agent nodes may persist only working or ended states")
  | .stale sinceMs => .error (.invalid "agent_nodes.state" s!"Stale \x7b since_ms: {sinceMs} \x7d"
      "provider agent nodes may persist only working or ended states")

def parseAgentNodeState : Option String → Except StoreError (Option ExecState)
  | none => .ok none
  | some "working" => .ok (some .working)
  | some "ended" => .ok (some .ended)
  | some value => .error (.invalid "agent_nodes.state" value "unknown provider agent-node state")

def gapKindText : GapKind → String
  | .startup => "startup"
  | .reconnect => "reconnect"
  | .socketReplacement => "socket_replacement"
  | .persistenceOutage => "persistence_outage"

/-! ### Counts -/

/-- A count as SQLite holds it. -/
def signedCount (field : String) (value : ℕ) : Except StoreError ℤ :=
  if (value : ℤ) ≤ i64Max then .ok value else .error (.integerOutOfRange field)

/-- A count that SQLite holds, or a number like one. -/
def optionalUnsignedCount (field : String) : Option ℤ → Except StoreError (Option ℕ)
  | none => .ok none
  | some value =>
    if 0 ≤ value then .ok (some value.toNat)
    else .error (.invalid field (toString value) "count cannot be negative")

/-! ### Run keys -/

/-- The key as the source prints it with `{:?}`, in Lean's quotation marks. -/
def RunKey.debug : RunKey → String
  | .controller controllerId => s!"Controller({controllerId.quote})"
  | .native provider sid => s!"Native \x7b provider: {provider.debug}, sid: {sid.quote} \x7d"
  | .nativePath provider path => s!"NativePath \x7b provider: {provider.debug}, path: {path.quote} \x7d"
  | .provisional terminalId startMs seq =>
    s!"Provisional \x7b terminal_id: {terminalId.quote}, start_ms: {startMs}, seq: {seq} \x7d"

/-- The columns of a run key. -/
structure EncodedRunKey where
  kind : String
  controllerId : Option String := none
  provider : Option String := none
  nativeSid : Option String := none
  nativePath : Option String := none
  terminalId : Option String := none
  startMs : Option ℤ := none
  seq : Option String := none
  deriving DecidableEq

def RunKey.encode : RunKey → EncodedRunKey
  | .controller controllerId => { kind := "controller", controllerId := some controllerId }
  | .native provider sid =>
    { kind := "native", provider := some (providerText provider), nativeSid := some sid }
  | .nativePath provider path =>
    { kind := "native_path", provider := some (providerText provider), nativePath := some path }
  | .provisional terminalId startMs seq =>
    { kind := "provisional", terminalId := some terminalId, startMs := some startMs,
      seq := some (toString seq) }

/-- A column that the kind of a key needs. -/
def required (field : String) : Option String → Except StoreError String
  | some value => .ok value
  | none => .error (.invalid field "NULL" "required by the run-key kind")

/-- A sequence number from its digits. -/
def parseSeq (value : String) : Except StoreError ℕ :=
  if value.toList = [] then .error (.invalid "key_seq" value "cannot parse integer from empty string")
  else if value.toList.all Char.isDigit then .ok (Nat.ofDigitChars 10 value.toList 0)
  else .error (.invalid "key_seq" value "invalid digit found in string")

def decodeRunKey (key : EncodedRunKey) : Except StoreError RunKey :=
  match key.kind with
  | "controller" => do return .controller (← required "key_controller_id" key.controllerId)
  | "native" => do
    let provider ← parseProvider (← required "key_provider" key.provider)
    return .native provider (← required "key_native_sid" key.nativeSid)
  | "native_path" => do
    let provider ← parseProvider (← required "key_provider" key.provider)
    return .nativePath provider (← required "key_native_path" key.nativePath)
  | "provisional" => do
    let seq ← required "key_seq" key.seq
    let terminalId ← required "key_terminal_id" key.terminalId
    match key.startMs with
    | none => .error (.invalid "key_start_ms" "NULL" "required for provisional key")
    | some startMs => return .provisional terminalId startMs (← parseSeq seq)
  | value => .error (.invalid "key_kind" value "unknown run-key kind")

/-! ### What was written is read back -/

@[simp] theorem parseProvider_text (provider : Provider) :
    parseProvider (providerText provider) = .ok provider := by
  cases provider <;> rfl

@[simp] theorem parseTaskState_text (state : TaskState) :
    parseTaskState (taskStateText state) = .ok state := by
  cases state <;> rfl

@[simp] theorem parseNativeSessionEndStatus_text (status : NativeSessionEndStatus) :
    parseNativeSessionEndStatus (nativeSessionEndStatusText status) = .ok status := by
  cases status <;> rfl

@[simp] theorem parseExecState_encode (state : ExecState) :
    parseExecState (encodeExecState state).1 (encodeExecState state).2 = .ok state := by
  cases state <;> rfl

theorem parseAgentNodeState_text {state : ExecState} {text : String}
    (h : agentNodeStateText state = .ok text) : parseAgentNodeState (some text) = .ok (some state) := by
  cases state with
  | working =>
    cases h
    rfl
  | ended =>
    cases h
    rfl
  | unknown => cases h
  | idle => cases h
  | blocked => cases h
  | stale sinceMs => cases h

/-- The texts of the states tell them apart. -/
theorem taskStateText_injective : Function.Injective taskStateText := by
  intro a b h
  have hparse : parseTaskState (taskStateText a) = parseTaskState (taskStateText b) := by rw [h]
  simpa using hparse

theorem parseSeq_toString (n : ℕ) : parseSeq (toString n) = .ok n := by
  have hdigits : (toString n).toList = Nat.toDigits 10 n := Nat.toList_repr
  have hall : (Nat.toDigits 10 n).all Char.isDigit = true :=
    List.all_eq_true.mpr fun c hc => Nat.isDigit_of_mem_toDigits (by decide) (by decide) hc
  unfold parseSeq
  rw [hdigits, if_neg Nat.toDigits_ne_nil, if_pos hall, Nat.ofDigitChars_ten_toDigits]

/-- A key is read back as it was written. -/
@[simp] theorem decodeRunKey_encode (key : RunKey) : decodeRunKey key.encode = .ok key := by
  cases key with
  | controller controllerId => rfl
  | native provider sid => cases provider <;> rfl
  | nativePath provider path => cases provider <;> rfl
  | provisional terminalId startMs seq =>
    show (do return RunKey.provisional terminalId startMs (← parseSeq (toString seq))) = _
    rw [parseSeq_toString]
    rfl

end HerdrTop
