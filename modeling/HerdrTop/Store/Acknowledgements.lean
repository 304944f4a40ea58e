import HerdrTop.Library.Runs
import Mathlib.Order.Basic

/-!
# Acknowledgements of the writer

Commands go to the thread of the writer with a channel for the reply. The thread takes them in order, runs their
transactions, publishes a failure in a health record that all share, and replies. The health keeps its first
failure until a probe succeeds. Whoever waits takes the reply if it is there; if not, a failure of the health is the
answer, and if the channel is closed, too. Values of replies, details of failures and the bound of the queue are
left out, and so are what commands do; their transactions commit or fail.

Commands are numbered in the order in which they are sent. A run is a sequence of steps of clients and of the
thread in any order; it carries the events of the commands.

## What is proved

* `answers_told`: who is told that a command is done, or that it is not durable, is told the truth, but for the
  failures of others that the health held.
* `sibling_failure_taken`: a command that is not durable for the one who waits, and commits.
-/

namespace HerdrTop.Acknowledgement

/-! ### Failures -/

inductive PersistenceOperation
  | apply
  | cleanup
  | updateOwnerLocation
  | replaceOwner
  | barrier
  | checkpoint
  deriving DecidableEq

inductive PersistencePhase
  | queueAdmission
  | commandExecution
  | postApplyCommit
  | acknowledgement
  deriving DecidableEq

/-- What is known about durable state after a failure. -/
inductive DurabilityDisposition
  | notApplicable
  | notCommitted
  | committed
  | unknown
  deriving DecidableEq

inductive PersistenceFailureCode
  | sqlite
  | io
  | invalidData
  | clock
  | ownerAbsent
  | checkpointBusy
  | channelClosed
  | acknowledgementDropped
  deriving DecidableEq

structure PersistenceFailure where
  operation : PersistenceOperation
  phase : PersistencePhase
  code : PersistenceFailureCode
  durability : DurabilityDisposition
  deriving DecidableEq

inductive PersistenceStatus
  | healthy
  | degraded (failure : PersistenceFailure)
  deriving DecidableEq

/-- The first failure stays. -/
def PersistenceStatus.publishFailure : PersistenceStatus → PersistenceFailure → PersistenceStatus
  | healthy, failure => degraded failure
  | degraded first, _ => degraded first

/-- Whether an operation changes the store. -/
def PersistenceOperation.isMutating : PersistenceOperation → Bool
  | apply | cleanup | updateOwnerLocation | replaceOwner => true
  | barrier | checkpoint => false

def nonAcknowledgementDurability (operation : PersistenceOperation) : DurabilityDisposition :=
  if operation.isMutating then .notCommitted else .notApplicable

def queueFailure (operation : PersistenceOperation) : PersistenceFailure :=
  ⟨operation, .queueAdmission, .channelClosed, nonAcknowledgementDurability operation⟩

def acknowledgementFailure (operation : PersistenceOperation) : PersistenceFailure :=
  ⟨operation, .acknowledgement, .acknowledgementDropped,
    if operation.isMutating then .unknown else .notApplicable⟩

/-! ### Commands -/

inductive CommandKind
  | apply
  | applyV6
  | cleanup
  | updateOwnerLocation
  | replaceOwner
  | finalizeHistoryDrain
  | historyDrainFinalized
  | historyDrainFinalization
  | barrier
  | probe
  | shutdown
  deriving DecidableEq

/-- The operation of the one who waits. -/
def CommandKind.operation : CommandKind → PersistenceOperation
  | apply | applyV6 | finalizeHistoryDrain => .apply
  | cleanup => .cleanup
  | updateOwnerLocation => .updateOwnerLocation
  | replaceOwner | probe => .replaceOwner
  | historyDrainFinalized | historyDrainFinalization | barrier => .barrier
  | shutdown => .checkpoint

/-- Whether a command has a transaction that changes the store. -/
def CommandKind.transacts (kind : CommandKind) : Bool := kind.operation.isMutating

/-- Whether the one who waits looks at the reply only. -/
def CommandKind.responseOnly : CommandKind → Bool
  | historyDrainFinalized | historyDrainFinalization | probe | shutdown => true
  | _ => false

/-- Whether the thread publishes that it stopped during the command. -/
def CommandKind.guarded : CommandKind → Bool
  | historyDrainFinalized | historyDrainFinalization | barrier | probe => false
  | _ => true

/-- A reply without its value. -/
abbrev Reply := Except PersistenceFailure Unit

/-- What became of the transaction of a command. -/
inductive Progress
  | untouched
  | committed
  /-- The batch was found to be durable already. -/
  | recognized
  deriving DecidableEq

/-- The results that a command can have in the store. -/
inductive Outcome : CommandKind → Progress → Reply → Prop
  | applied {kind : CommandKind} {progress : Progress} : kind = .apply ∨ kind = .applyV6 →
      progress ≠ .untouched → Outcome kind progress (.ok ())
  /-- The cleanup after a batch, or its clock. -/
  | cleanupAfter {kind : CommandKind} {progress : Progress} (code : PersistenceFailureCode) :
      kind = .apply ∨ kind = .applyV6 → progress ≠ .untouched →
      Outcome kind progress (.error ⟨.cleanup, .postApplyCommit, code, .committed⟩)
  /-- The only thing that a command does. -/
  | single {kind : CommandKind} : kind ∈ [.cleanup, .updateOwnerLocation, .replaceOwner, .finalizeHistoryDrain,
      .probe] → Outcome kind .committed (.ok ())
  | failed {kind : CommandKind} (code : PersistenceFailureCode) : kind.transacts →
      Outcome kind .untouched (.error ⟨kind.operation, .commandExecution, code, .notCommitted⟩)
  /-- The page of a finalized drain that cannot be read. -/
  | unread (code : PersistenceFailureCode) :
      Outcome .finalizeHistoryDrain .committed (.error ⟨.apply, .commandExecution, code, .notCommitted⟩)
  | answered {kind : CommandKind} : kind.transacts = false → Outcome kind .untouched (.ok ())
  | unanswered {kind : CommandKind} (code : PersistenceFailureCode) :
      kind ∈ [.historyDrainFinalized, .historyDrainFinalization, .shutdown] →
      Outcome kind .untouched (.error ⟨kind.operation, .commandExecution, code, .notApplicable⟩)

/-- The health after a result. -/
def PersistenceStatus.afterResult (health : PersistenceStatus) : CommandKind → Reply → PersistenceStatus
  | .probe, .ok _ => .healthy
  | .probe, .error _ => health
  | .historyDrainFinalized, .error failure =>
    if failure.code = .sqlite ∨ failure.code = .io then health.publishFailure failure else health
  | _, .ok _ => health
  | _, .error failure => health.publishFailure failure

/-- Where a command is. -/
inductive Place
  /-- The queue was closed. -/
  | refused
  | queued
  | begun (progress : Progress)
  /-- The store is done with it. -/
  | stored (progress : Progress) (result : Reply)
  | replied (progress : Progress) (result : Reply)
  /-- Its channel is closed without a reply. -/
  | closed (progress : Progress)
  deriving DecidableEq

namespace Place

def progress : Place → Progress
  | refused | queued => .untouched
  | begun progress | stored progress _ | replied progress _ | closed progress => progress

def result : Place → Option Reply
  | stored _ result | replied _ result => some result
  | _ => none

/-- The thread is at the command. -/
def busy : Place → Bool
  | begun _ | stored _ _ => true
  | _ => false

end Place

/-- What the one who waits is about to do. -/
inductive Waiter
  | waiting
  /-- Found no reply, and is about to read the health. -/
  | looked
  | returned
  deriving DecidableEq

structure Command where
  kind : CommandKind
  place : Place
  waiter : Waiter
  deriving DecidableEq

/-- What happens to a command. -/
inductive Event
  | sent (kind : CommandKind)
  | refused (kind : CommandKind)
  | began
  | committed
  | recognized
  | finished (result : Reply)
  | replied (result : Reply)
  | closed
  | looked
  | answered (result : Reply)
  deriving DecidableEq

/-- Whether an event leaves open where the command is. -/
def Event.isIdle : Event → Bool
  | .began | .looked | .answered _ => true
  | _ => false

/-! ### The system -/

structure System where
  /-- In the order in which they were sent. -/
  commands : List Command := []
  health : PersistenceStatus := .healthy
  /-- Whether the thread runs. -/
  alive : Bool := true

/-- A turn of the thread at one command, or of the one who waits for it. -/
inductive Turn (alive : Bool) (health : PersistenceStatus) :
    Command → List Event → Command → PersistenceStatus → Prop
  | commit {kind : CommandKind} {waiter : Waiter} : alive → kind.transacts →
      Turn alive health ⟨kind, .begun .untouched, waiter⟩ [.committed] ⟨kind, .begun .committed, waiter⟩ health
  /-- A replayed batch that is durable. -/
  | recognize {waiter : Waiter} : alive →
      Turn alive health ⟨.applyV6, .begun .untouched, waiter⟩ [.recognized]
        ⟨.applyV6, .begun .recognized, waiter⟩ health
  | finish {kind : CommandKind} {progress : Progress} {waiter : Waiter} {result : Reply} : alive →
      Outcome kind progress result →
      Turn alive health ⟨kind, .begun progress, waiter⟩ [.finished result] ⟨kind, .stored progress result, waiter⟩
        (health.afterResult kind result)
  /-- The thread is gone, and with it the other end of the channel. -/
  | close {kind : CommandKind} {place : Place} {waiter : Waiter} : alive = false →
      place = .queued ∨ (∃ progress, place = .begun progress) →
      Turn alive health ⟨kind, place, waiter⟩ [.closed] ⟨kind, .closed place.progress, waiter⟩ health
  /-- There is no reply yet. -/
  | look {kind : CommandKind} {place : Place} : kind.responseOnly = false →
      place = .queued ∨ place.busy → Turn alive health ⟨kind, place, .waiting⟩ [.looked] ⟨kind, place, .looked⟩ health
  /-- The health is fine; what comes first, a reply or a change of the health, is next. -/
  | rest {kind : CommandKind} {place : Place} : health = .healthy →
      Turn alive health ⟨kind, place, .looked⟩ [] ⟨kind, place, .waiting⟩ health
  | takeReply {kind : CommandKind} {progress : Progress} {result : Reply} :
      Turn alive health ⟨kind, .replied progress result, .waiting⟩ [.answered result]
        ⟨kind, .replied progress result, .returned⟩ health
  | takeHealth {kind : CommandKind} {place : Place} {failure : PersistenceFailure} : health = .degraded failure →
      Turn alive health ⟨kind, place, .looked⟩ [.answered (.error failure)] ⟨kind, place, .returned⟩ health
  /-- The channel is closed: what the health holds is the answer. -/
  | takeClosed {kind : CommandKind} {progress : Progress} {failure : PersistenceFailure} :
      kind.responseOnly = false →
      health.publishFailure (acknowledgementFailure kind.operation) = .degraded failure →
      Turn alive health ⟨kind, .closed progress, .waiting⟩ [.answered (.error failure)]
        ⟨kind, .closed progress, .returned⟩ (.degraded failure)
  | takeClosedOnly {kind : CommandKind} {progress : Progress} : kind.responseOnly = true →
      Turn alive health ⟨kind, .closed progress, .waiting⟩
        [.answered (.error (acknowledgementFailure kind.operation))] ⟨kind, .closed progress, .returned⟩
        (health.publishFailure (acknowledgementFailure kind.operation))
  /-- Nobody waits any longer. -/
  | abandon {kind : CommandKind} {place : Place} {waiter : Waiter} : waiter ≠ .returned →
      Turn alive health ⟨kind, place, waiter⟩ [] ⟨kind, place, .returned⟩
        (if kind.transacts then health.publishFailure (acknowledgementFailure kind.operation) else health)

namespace System

/-- The system with one command, and the health, changed. -/
def put (s : System) (id : ℕ) (c : Command) (health : PersistenceStatus) : System :=
  { s with commands := s.commands.set id c, health := health }

/-- The system with one more command. -/
def add (s : System) (c : Command) (health : PersistenceStatus) : System :=
  { s with commands := s.commands ++ [c], health := health }

end System

/-- A step of the system. -/
inductive Step : System → List (ℕ × Event) → System → Prop
  | send {s : System} (kind : CommandKind) :
      Step s [(s.commands.length, .sent kind)] (s.add ⟨kind, .queued, .waiting⟩ s.health)
  | refuse {s : System} (kind : CommandKind) : s.alive = false →
      Step s [(s.commands.length, .refused kind),
          (s.commands.length, .answered (.error (queueFailure kind.operation)))]
        (s.add ⟨kind, .refused, .returned⟩ (s.health.publishFailure (queueFailure kind.operation)))
  /-- A place in the queue was asked for. -/
  | refusePlace {s : System} : s.alive = false →
      Step s [(s.commands.length, .refused .apply)]
        (s.add ⟨.apply, .refused, .returned⟩ (s.health.publishFailure (queueFailure .apply)))
  /-- The thread takes the next command. -/
  | begin {s : System} {id : ℕ} {kind : CommandKind} {waiter : Waiter} : s.alive →
      s.commands[id]? = some ⟨kind, .queued, waiter⟩ → (∀ c ∈ s.commands, c.place.busy = false) →
      (∀ c ∈ s.commands.take id, c.place ≠ .queued) →
      Step s [(id, .began)] (s.put id ⟨kind, .begun .untouched, waiter⟩ s.health)
  | turn {s : System} {id : ℕ} {c c' : Command} {events : List Event} {health : PersistenceStatus} :
      s.commands[id]? = some c → Turn s.alive s.health c events c' health →
      Step s (events.map (id, ·)) (s.put id c' health)
  /-- The thread replies; after a shutdown it stops. -/
  | reply {s : System} {id : ℕ} {kind : CommandKind} {progress : Progress} {result : Reply} {waiter : Waiter} :
      s.alive → s.commands[id]? = some ⟨kind, .stored progress result, waiter⟩ →
      Step s [(id, .replied result)]
        { s.put id ⟨kind, .replied progress result, waiter⟩ s.health with alive := kind ≠ .shutdown }
  /-- The thread stops between commands. -/
  | stop {s : System} : s.alive → (∀ c ∈ s.commands, c.place.busy = false) → Step s [] { s with alive := false }
  /-- The thread stops in a command. -/
  | crash {s : System} {id : ℕ} {kind : CommandKind} {progress : Progress} {waiter : Waiter} : s.alive →
      s.commands[id]? = some ⟨kind, .begun progress, waiter⟩ →
      Step s [] { s with
        alive := false
        health := if kind.guarded then s.health.publishFailure (acknowledgementFailure kind.operation)
          else s.health }

/-! ### What the events of a command say -/

/-- The events of one command. -/
def eventsOf (id : ℕ) (ls : List (ℕ × Event)) : List Event :=
  (ls.filter fun label => label.1 = id).map Prod.snd

/-- Whether the failure of a command is published. -/
def CommandKind.publishes : CommandKind → PersistenceFailure → Prop
  | .probe, _ => False
  | .historyDrainFinalized, failure => failure.code = .sqlite ∨ failure.code = .io
  | _, _ => True

/-- A failure is published: a command has failed, or found the queue closed. -/
def Publishes (ls : List (ℕ × Event)) (failure : PersistenceFailure) (label : ℕ × Event) : Prop :=
  (label.2 = .finished (.error failure) ∧
      ∃ kind : CommandKind, (label.1, .sent kind) ∈ ls ∧ kind.publishes failure) ∨
    ∃ kind : CommandKind, label.2 = .refused kind ∧ failure = queueFailure kind.operation

/-- A probe has succeeded. -/
def Heals (ls : List (ℕ × Event)) (label : ℕ × Event) : Prop :=
  label.2 = .finished (.ok ()) ∧ (label.1, .sent .probe) ∈ ls

/-- Nothing was published since a probe has succeeded, or since the beginning. -/
def Fine (ls before : List (ℕ × Event)) : Prop :=
  ∃ healed quiet, before = healed ++ quiet ∧
    (healed = [] ∨ ∃ earlier label, healed = earlier ++ [label] ∧ Heals ls label) ∧
    ∀ label ∈ quiet, ∀ failure, ¬Publishes ls failure label

/-- The failure is the first that was published since a probe has succeeded, or since the beginning. -/
def FirstPublished (ls : List (ℕ × Event)) (failure : PersistenceFailure) (label : ℕ × Event) : Prop :=
  ∃ before after, ls = before ++ label :: after ∧ Publishes ls failure label ∧ Fine ls before ∧
    ∀ later ∈ after, ¬Heals ls later

/-- There was no reply when the one who waits looked, or its channel is closed. -/
def WithoutReply (events : List Event) : Prop :=
  (∃ before after, events = before ++ .looked :: after ∧ ∀ result, .replied result ∉ before) ∨ .closed ∈ events

/-- Where a command is, by its events. -/
structure Placed (events : List Event) (kind : CommandKind) (place : Place) : Prop where
  sent : ∀ kind', .sent kind' ∈ events ↔ kind' = kind ∧ place ≠ .refused
  refused : ∀ kind', .refused kind' ∈ events ↔ kind' = kind ∧ place = .refused
  committed : .committed ∈ events ↔ place.progress = .committed
  recognized : .recognized ∈ events ↔ place.progress = .recognized
  finished : ∀ result, .finished result ∈ events ↔ place.result = some result
  replied : ∀ result, .replied result ∈ events ↔ ∃ progress, place = .replied progress result
  closed : .closed ∈ events ↔ ∃ progress, place = .closed progress
  outcome : ∀ result, place.result = some result → Outcome kind place.progress result

/-- The events of a command, and what becomes of it. -/
structure Trace (events : List Event) (c : Command) : Prop where
  placed : Placed events c.kind c.place
  looked : c.waiter = .looked → WithoutReply events
  gone : c.place = .refused → c.waiter = .returned

variable {alive : Bool} {health health' : PersistenceStatus} {c c' : Command} {events past : List Event}
  {kind : CommandKind} {place : Place} {progress : Progress}

theorem WithoutReply.append (h : WithoutReply past) (events : List Event) : WithoutReply (past ++ events) := by
  rcases h with ⟨before, after, rfl, hbefore⟩ | hclosed
  · exact .inl ⟨before, after ++ events, by simp, hbefore⟩
  · exact .inr (List.mem_append_left _ hclosed)

/-- Events of the one who waits do not tell more about the place. -/
theorem Placed.idle (h : Placed past kind place) (hevents : ∀ event ∈ events, event.isIdle = true) :
    Placed (past ++ events) kind place := by
  have hnot : ∀ event : Event, event.isIdle = false → (event ∈ past ++ events ↔ event ∈ past) := by
    intro event hevent
    rw [List.mem_append, or_iff_left]
    intro hmem
    rw [hevents event hmem] at hevent
    cases hevent
  constructor
  · exact fun kind' => (hnot (.sent kind') rfl).trans (h.sent kind')
  · exact fun kind' => (hnot (.refused kind') rfl).trans (h.refused kind')
  · exact (hnot .committed rfl).trans h.committed
  · exact (hnot .recognized rfl).trans h.recognized
  · exact fun result => (hnot (.finished result) rfl).trans (h.finished result)
  · exact fun result => (hnot (.replied result) rfl).trans (h.replied result)
  · exact (hnot .closed rfl).trans h.closed
  · exact h.outcome

theorem Placed.begin (h : Placed past kind .queued) : Placed (past ++ [.began]) kind (.begun .untouched) := by
  obtain ⟨hsent, hrefused, hcommitted, hrecognized, hfinished, hreplied, hclosed, -⟩ := h
  constructor <;> simp_all [Place.progress, Place.result]

theorem Placed.commit (h : Placed past kind (.begun .untouched)) :
    Placed (past ++ [.committed]) kind (.begun .committed) := by
  obtain ⟨hsent, hrefused, hcommitted, hrecognized, hfinished, hreplied, hclosed, -⟩ := h
  constructor <;> simp_all [Place.progress, Place.result]

theorem Placed.recognize (h : Placed past kind (.begun .untouched)) :
    Placed (past ++ [.recognized]) kind (.begun .recognized) := by
  obtain ⟨hsent, hrefused, hcommitted, hrecognized, hfinished, hreplied, hclosed, -⟩ := h
  constructor <;> simp_all [Place.progress, Place.result]

theorem Placed.finish {result : Reply} (h : Placed past kind (.begun progress)) (houtcome : Outcome kind progress result) :
    Placed (past ++ [.finished result]) kind (.stored progress result) := by
  obtain ⟨hsent, hrefused, hcommitted, hrecognized, hfinished, hreplied, hclosed, -⟩ := h
  constructor <;> simp_all [Place.progress, Place.result, eq_comm]

theorem Placed.reply {result : Reply} (h : Placed past kind (.stored progress result)) :
    Placed (past ++ [.replied result]) kind (.replied progress result) := by
  obtain ⟨hsent, hrefused, hcommitted, hrecognized, hfinished, hreplied, hclosed, houtcome⟩ := h
  constructor <;> simp_all [Place.progress, Place.result, eq_comm]

theorem Placed.close (h : Placed past kind place) (hplace : place = .queued ∨ ∃ progress, place = .begun progress) :
    Placed (past ++ [.closed]) kind (.closed place.progress) := by
  obtain ⟨hsent, hrefused, hcommitted, hrecognized, hfinished, hreplied, hclosed, -⟩ := h
  rcases hplace with rfl | ⟨progress, rfl⟩
  · constructor <;> simp_all [Place.progress, Place.result]
  · constructor <;> simp_all [Place.progress, Place.result]

/-- A turn goes on with the trace of its command. -/
theorem Trace.turn (h : Trace past c) (hturn : Turn alive health c events c' health') :
    Trace (past ++ events) c' := by
  have hlooked : ∀ events : List Event, c.waiter = .looked → WithoutReply (past ++ events) :=
    fun events hwaiter => (h.looked hwaiter).append events
  cases hturn with
  | commit => exact ⟨h.placed.commit, hlooked _, nofun⟩
  | recognize => exact ⟨h.placed.recognize, hlooked _, nofun⟩
  | finish _ houtcome => exact ⟨h.placed.finish houtcome, hlooked _, nofun⟩
  | close _ hplace => exact ⟨h.placed.close hplace, hlooked _, nofun⟩
  | look _ hplace =>
    refine ⟨h.placed.idle (by simp [Event.isIdle]), fun _ => .inl ⟨past, [], rfl, fun result hmem => ?_⟩, ?_⟩
    · obtain ⟨progress, heq⟩ := (h.placed.replied result).mp hmem
      dsimp only at heq
      rcases hplace with rfl | hbusy
      · cases heq
      · rw [heq] at hbusy
        cases hbusy
    · rintro rfl
      exact hplace.elim nofun nofun
  | rest => exact ⟨h.placed.idle (by simp [Event.isIdle]), nofun, fun hplace => nomatch h.gone hplace⟩
  | takeReply => exact ⟨h.placed.idle (by simp [Event.isIdle]), nofun, nofun⟩
  | takeHealth => exact ⟨h.placed.idle (by simp [Event.isIdle]), nofun, fun _ => rfl⟩
  | takeClosed => exact ⟨h.placed.idle (by simp [Event.isIdle]), nofun, nofun⟩
  | takeClosedOnly => exact ⟨h.placed.idle (by simp [Event.isIdle]), nofun, nofun⟩
  | abandon => exact ⟨h.placed.idle (by simp [Event.isIdle]), nofun, fun _ => rfl⟩

/-! ### Runs -/

variable {s s' : System} {l ls : List (ℕ × Event)} {id : ℕ} {failure first : PersistenceFailure} {result : Reply}

theorem mem_eventsOf {event : Event} : event ∈ eventsOf id ls ↔ (id, event) ∈ ls := by
  simp [eventsOf]

theorem eventsOf_append (id : ℕ) (ls l : List (ℕ × Event)) :
    eventsOf id (ls ++ l) = eventsOf id ls ++ eventsOf id l := by
  simp [eventsOf]

theorem eventsOf_self (id : ℕ) (events : List Event) : eventsOf id (events.map (id, ·)) = events := by
  simp [eventsOf, List.filter_map, Function.comp_def]

theorem eventsOf_ne {other : ℕ} (h : other ≠ id) (events : List Event) :
    eventsOf id (events.map (other, ·)) = [] := by
  simp [eventsOf, List.filter_map, Function.comp_def, h]

theorem publishFailure_cases (h : health.publishFailure first = .degraded failure) :
    health = .degraded failure ∨ health = .healthy ∧ first = failure := by
  cases health with
  | healthy => exact .inr ⟨rfl, PersistenceStatus.degraded.inj h⟩
  | degraded kept => exact .inl h

theorem acknowledgementFailure_durability (operation : PersistenceOperation) :
    (acknowledgementFailure operation).durability ≠ .notCommitted := by
  cases operation <;> decide

/-! ### What the health holds -/

/-- What a step does to the health, and what its labels say about it. -/
inductive Shows (ls : List (ℕ × Event)) (health : PersistenceStatus) (l : List (ℕ × Event)) :
    PersistenceStatus → Prop
  | keeps (quiet : health = .healthy → ∀ label ∈ l, ∀ failure, ¬Publishes ls failure label)
      (held : health ≠ .healthy → ∀ label ∈ l, ¬Heals ls label) : Shows ls health l health
  | publishes {failure : PersistenceFailure} {label : ℕ × Event} {rest : List (ℕ × Event)} :
      health = .healthy → l = label :: rest → Publishes ls failure label → (∀ later ∈ rest, ¬Heals ls later) →
      Shows ls health l (.degraded failure)
  | heals {label : ℕ × Event} : l = [label] → Heals ls label → Shows ls health l .healthy
  /-- Someone has given up, or the thread has stopped. -/
  | lost {failure : PersistenceFailure} : failure.durability ≠ .notCommitted → Shows ls health l (.degraded failure)

/-- What the labels say about the health. -/
structure Holds (ls : List (ℕ × Event)) (health : PersistenceStatus) : Prop where
  fine : health = .healthy → Fine ls ls
  first : ∀ {failure}, health = .degraded failure → failure.durability = .notCommitted →
    ∃ label, FirstPublished ls failure label

/-- The commands of labels were sent before them. -/
def SentBefore (ls l : List (ℕ × Event)) : Prop :=
  ∀ label ∈ ls, ∀ kind, (label.1, .sent kind) ∈ ls ++ l → (label.1, .sent kind) ∈ ls

theorem SentBefore.publishes {label : ℕ × Event} (h : SentBefore ls l) (hmem : label ∈ ls) :
    Publishes (ls ++ l) failure label ↔ Publishes ls failure label := by
  refine or_congr_left (and_congr_right fun _ => exists_congr fun kind => and_congr_left fun _ => ?_)
  exact ⟨h label hmem kind, List.mem_append_left l⟩

theorem SentBefore.heals {label : ℕ × Event} (h : SentBefore ls l) (hmem : label ∈ ls) :
    Heals (ls ++ l) label ↔ Heals ls label :=
  and_congr_right fun _ => ⟨h label hmem .probe, List.mem_append_left l⟩

theorem SentBefore.fine {before : List (ℕ × Event)} (h : SentBefore ls l) (hsub : before ⊆ ls) (hfine : Fine ls before) :
    Fine (ls ++ l) before := by
  obtain ⟨healed, quiet, rfl, hhealed, hquiet⟩ := hfine
  refine ⟨healed, quiet, rfl, hhealed.imp_right ?_, fun label hlabel failure => ?_⟩
  · rintro ⟨earlier, label, rfl, hheals⟩
    exact ⟨earlier, label, rfl, (h.heals (hsub (by simp))).mpr hheals⟩
  · rw [h.publishes (hsub (List.mem_append_right _ hlabel))]
    exact hquiet label hlabel failure

/-- The labels go on saying what the health holds. -/
theorem Holds.step (h : Holds ls health) (hsent : SentBefore ls l) (hshows : Shows (ls ++ l) health l health') :
    Holds (ls ++ l) health' := by
  cases hshows with
  | keeps hquiet hheld =>
    constructor
    · intro hhealthy
      obtain ⟨healed, quiet, hls, hhealed, hnone⟩ := hsent.fine (List.Subset.refl _) (h.fine hhealthy)
      refine ⟨healed, quiet ++ l, by rw [hls, List.append_assoc], hhealed, fun label hlabel => ?_⟩
      exact (List.mem_append.mp hlabel).elim (hnone label) (hquiet hhealthy label)
    · intro failure hdegraded hdurability
      obtain ⟨label, before, after, rfl, hpublishes, hfine, hafter⟩ := h.first hdegraded hdurability
      refine ⟨label, before, after ++ l, by simp, (hsent.publishes (by simp)).mpr hpublishes,
        hsent.fine (by simp) hfine, fun later hlater => ?_⟩
      rcases List.mem_append.mp hlater with hlater | hlater
      · rw [hsent.heals (by simp [hlater])]
        exact hafter later hlater
      · exact hheld (by rw [hdegraded]; exact PersistenceStatus.noConfusion) later hlater
  | @publishes failure label rest hhealthy hl hpublishes hrest =>
    subst hl
    refine ⟨fun hhealthy => (by cases hhealthy), fun {other} hdegraded _ => ?_⟩
    cases hdegraded
    exact ⟨label, ls, rest, rfl, hpublishes, hsent.fine (List.Subset.refl _) (h.fine hhealthy), hrest⟩
  | @heals label hl hheals =>
    subst hl
    exact ⟨fun _ => ⟨ls ++ [label], [], by simp, .inr ⟨ls, label, rfl, hheals⟩, by simp⟩,
      fun hdegraded => by cases hdegraded⟩
  | @lost failure hother =>
    refine ⟨fun hhealthy => (by cases hhealthy), fun {other} hdegraded hdurability => ?_⟩
    cases hdegraded
    exact absurd hdurability hother

/-- What is published about someone who gives up keeps nothing from the health that it holds. -/
theorem Shows.acknowledgement (operation : PersistenceOperation) (hl : ∀ label ∈ l, ¬Heals ls label) :
    Shows ls health l (health.publishFailure (acknowledgementFailure operation)) := by
  cases health with
  | healthy => exact .lost (acknowledgementFailure_durability _)
  | degraded kept => exact .keeps (fun h => by cases h) fun _ => hl

/-- Labels that say nothing of the health. -/
theorem Shows.silent (hl : ∀ label ∈ l, (∀ result, label.2 ≠ .finished result) ∧ ∀ kind, label.2 ≠ .refused kind) :
    Shows ls health l health := by
  refine .keeps (fun _ label hlabel failure hpublishes => ?_) fun _ label hlabel hheals => ?_
  · rcases hpublishes with ⟨hfinished, -⟩ | ⟨kind, hrefused, -⟩
    · exact (hl label hlabel).1 _ hfinished
    · exact (hl label hlabel).2 kind hrefused
  · exact (hl label hlabel).1 _ hheals.1

/-- A result of a command, whose kind the labels tell. -/
theorem Shows.finish (hkind : ∀ kind', (id, .sent kind') ∈ ls ↔ kind' = kind) :
    Shows ls health [(id, .finished result)] (health.afterResult kind result) := by
  have hpublish : ∀ failure, result = .error failure → kind.publishes failure →
      Shows ls health [(id, .finished result)] (health.publishFailure failure) := by
    rintro failure rfl hpublishes
    cases health with
    | healthy => exact .publishes rfl rfl (.inl ⟨rfl, kind, (hkind kind).mpr rfl, hpublishes⟩) (by simp)
    | degraded kept =>
      refine .keeps (fun h => by cases h) fun _ label hlabel hheals => ?_
      rw [List.mem_singleton.mp hlabel] at hheals
      cases hheals.1
  have hkeep : (∀ failure, result = .error failure → ¬kind.publishes failure) → (kind = .probe → result ≠ .ok ()) →
      Shows ls health [(id, .finished result)] health := by
    intro hnot hprobe
    refine .keeps (fun _ label hlabel failure hpublishes => ?_) fun _ label hlabel hheals => ?_
    · rw [List.mem_singleton.mp hlabel] at hpublishes
      rcases hpublishes with ⟨hfinished, kind', hsent, hpublishes⟩ | ⟨kind', hrefused, -⟩
      · rw [(hkind kind').mp hsent] at hpublishes
        exact hnot failure (Event.finished.inj hfinished) hpublishes
      · cases hrefused
    · rw [List.mem_singleton.mp hlabel] at hheals
      exact hprobe ((hkind .probe).mp hheals.2).symm (Event.finished.inj hheals.1)
  cases result with
  | ok =>
    by_cases hprobe : kind = .probe
    · subst hprobe
      exact .heals rfl ⟨rfl, (hkind .probe).mpr rfl⟩
    · have hsame : health.afterResult kind (.ok ()) = health := by
        cases kind <;> first | rfl | exact absurd rfl hprobe
      rw [hsame]
      exact hkeep (fun failure h => by cases h) fun h => absurd h hprobe
  | error failure =>
    by_cases hpublishes : kind.publishes failure
    · have hsame : health.afterResult kind (.error failure) = health.publishFailure failure := by
        cases kind with
        | probe => exact absurd hpublishes not_false
        | historyDrainFinalized => exact if_pos hpublishes
        | _ => rfl
      rw [hsame]
      exact hpublish failure rfl hpublishes
    · have hsame : health.afterResult kind (.error failure) = health := by
        cases kind with
        | probe => rfl
        | historyDrainFinalized => exact if_neg hpublishes
        | _ => exact absurd trivial hpublishes
      rw [hsame]
      refine hkeep (fun other h => ?_) fun _ h => by cases h
      cases h
      exact hpublishes

/-- What a turn does to the health. -/
theorem turn_held {ls : List (ℕ × Event)} (hturn : Turn alive health c events c' health')
    (hkind : c.place ≠ .refused → ∀ kind', (id, .sent kind') ∈ ls ↔ kind' = c.kind) :
    Shows ls health (events.map (id, ·)) health' := by
  have hanswered : ∀ (operation : PersistenceOperation) (result : Reply),
      Shows ls health ([Event.answered result].map (id, ·))
        (health.publishFailure (acknowledgementFailure operation)) :=
    fun operation result => .acknowledgement operation fun label hlabel hheals => by
      rw [List.mem_singleton.mp hlabel] at hheals
      cases hheals.1
  cases hturn with
  | finish => exact .finish (hkind (by simp))
  | takeClosed _ hpublished =>
    rw [← hpublished]
    exact hanswered _ _
  | takeClosedOnly => exact hanswered _ _
  | abandon =>
    split_ifs
    · exact .acknowledgement _ (by simp)
    · exact .silent (by simp)
  | _ => exact .silent (by simp)

/-- The events of a run, and where it leads. -/
structure Traced (ls : List (ℕ × Event)) (s : System) : Prop where
  trace : ∀ {id c}, s.commands[id]? = some c → Trace (eventsOf id ls) c
  fresh : ∀ {id}, s.commands.length ≤ id → eventsOf id ls = []
  holds : Holds ls s.health

theorem Traced.lt (h : Traced ls s) {label : ℕ × Event} (hmem : label ∈ ls) : label.1 < s.commands.length := by
  by_contra hlength
  have hnone := h.fresh (Nat.not_lt.mp hlength)
  have hevent : label.2 ∈ eventsOf label.1 ls := mem_eventsOf.mpr hmem
  rw [hnone] at hevent
  cases hevent

/-- Labels of commands that were sent, or of the next one. -/
theorem Traced.sentBefore (h : Traced ls s) (hl : ∀ kind id, (id, Event.sent kind) ∈ l → id = s.commands.length) :
    SentBefore ls l := by
  intro label hlabel kind hsent
  refine (List.mem_append.mp hsent).resolve_right fun hnew => ?_
  have hlt := h.lt hlabel
  rw [hl kind _ hnew] at hlt
  exact Nat.lt_irrefl _ hlt

/-- One command and the health have changed. -/
theorem Traced.put (h : Traced ls s) (hget : s.commands[id]? = some c)
    (htrace : Trace (eventsOf id ls ++ events) c') {t : System} (hcommands : t.commands = s.commands.set id c')
    (hnone : ∀ kind, .sent kind ∉ events)
    (hshows : Shows (ls ++ events.map (id, ·)) s.health (events.map (id, ·)) t.health) :
    Traced (ls ++ events.map (id, ·)) t where
  trace := by
    intro other d hd
    rw [hcommands] at hd
    rw [eventsOf_append]
    by_cases hid : id = other
    · subst hid
      rw [List.getElem?_set_self (List.getElem?_eq_some_iff.mp hget).1] at hd
      obtain rfl := Option.some.inj hd
      rwa [eventsOf_self]
    · rw [List.getElem?_set_ne hid] at hd
      rw [eventsOf_ne hid, List.append_nil]
      exact h.trace hd
  fresh := by
    intro other hother
    rw [hcommands, List.length_set] at hother
    have hid : id ≠ other := by
      have hlt := (List.getElem?_eq_some_iff.mp hget).1
      omega
    rw [eventsOf_append, eventsOf_ne hid, List.append_nil]
    exact h.fresh hother
  holds := by
    refine h.holds.step (h.sentBefore fun kind other hsent => ?_) hshows
    obtain ⟨event, hevent, heq⟩ := List.mem_map.mp hsent
    obtain ⟨-, rfl⟩ := Prod.mk.inj heq
    exact absurd hevent (hnone kind)

/-- One command has come. -/
theorem Traced.add (h : Traced ls s) (htrace : Trace events c)
    (hshows : Shows (ls ++ events.map (s.commands.length, ·)) s.health (events.map (s.commands.length, ·)) health) :
    Traced (ls ++ events.map (s.commands.length, ·)) (s.add c health) where
  trace := by
    intro other d hd
    have hd' : (s.commands ++ [c])[other]? = some d := hd
    rw [eventsOf_append]
    by_cases hid : s.commands.length = other
    · subst hid
      rw [List.getElem?_concat_length] at hd'
      obtain rfl := Option.some.inj hd'
      rwa [eventsOf_self, h.fresh (Nat.le_refl _), List.nil_append]
    · have hlt : other < s.commands.length := by
        have hlength := (List.getElem?_eq_some_iff.mp hd').1
        rw [List.length_append, List.length_singleton] at hlength
        omega
      rw [List.getElem?_append_left hlt] at hd'
      rw [eventsOf_ne hid, List.append_nil]
      exact h.trace hd'
  fresh := by
    intro other hother
    have hother' : (s.commands ++ [c]).length ≤ other := hother
    rw [List.length_append, List.length_singleton] at hother'
    rw [eventsOf_append, eventsOf_ne (by omega), List.append_nil]
    exact h.fresh (by omega)
  holds := by
    refine h.holds.step (h.sentBefore fun kind other hsent => ?_) hshows
    obtain ⟨event, -, heq⟩ := List.mem_map.mp hsent
    exact (Prod.mk.inj heq).1.symm

/-- A command that was sent, or that was refused. -/
theorem Trace.sent (kind : CommandKind) : Trace [.sent kind] ⟨kind, .queued, .waiting⟩ := by
  refine ⟨?_, nofun, nofun⟩
  constructor <;> simp [Place.progress, Place.result]

theorem Trace.refused (kind : CommandKind) (hevents : ∀ event ∈ events, event.isIdle = true) :
    Trace (.refused kind :: events) ⟨kind, .refused, .returned⟩ := by
  have hplaced : Placed [.refused kind] kind .refused := by
    constructor <;> simp [Place.progress, Place.result]
  exact ⟨hplaced.idle hevents, nofun, fun _ => rfl⟩

/-- The turn of a command, whose kind its events tell. -/
theorem Trace.sent_iff (h : Trace (eventsOf id ls) c) (hplace : c.place ≠ .refused) (hnone : ∀ kind, .sent kind ∉ events)
    (kind : CommandKind) : (id, .sent kind) ∈ ls ++ events.map (id, ·) ↔ kind = c.kind := by
  have hsent : (id, Event.sent kind) ∈ events.map (id, ·) ↔ .sent kind ∈ events := by simp
  rw [List.mem_append, hsent, or_iff_left (hnone kind), ← mem_eventsOf, h.placed.sent kind]
  exact and_iff_left hplace

theorem turn_sends (hturn : Turn alive health c events c' health') (kind : CommandKind) : .sent kind ∉ events := by
  cases hturn <;> simp

theorem Traced.step (h : Traced ls s) (hstep : Step s l s') : Traced (ls ++ l) s' := by
  have hrefused : ∀ {kind : CommandKind} {events : List Event} {ls : List (ℕ × Event)},
      (∀ event ∈ events, event.isIdle = true) →
      Shows ls s.health ((.refused kind :: events).map (s.commands.length, ·))
        (s.health.publishFailure (queueFailure kind.operation)) := by
    intro kind events ls hidle
    have hquiet : ∀ label ∈ events.map (s.commands.length, ·), ¬Heals ls label := by
      intro label hlabel hheals
      obtain ⟨event, hevent, rfl⟩ := List.mem_map.mp hlabel
      have hidle := hidle event hevent
      obtain rfl : event = _ := hheals.1
      cases hidle
    cases hhealth : s.health with
    | healthy => exact .publishes rfl rfl (.inr ⟨kind, rfl, rfl⟩) hquiet
    | degraded kept =>
      refine .keeps (fun hhealthy => by cases hhealthy) fun _ label hlabel hheals => ?_
      rcases List.mem_cons.mp hlabel with rfl | hlabel
      · cases hheals.1
      · exact hquiet label hlabel hheals
  cases hstep with
  | send kind => exact h.add (.sent kind) (.silent (by simp))
  | refuse kind =>
    have hidle : ∀ event ∈ [Event.answered (.error (queueFailure kind.operation))], event.isIdle = true := by
      simp [Event.isIdle]
    exact h.add (Trace.refused kind hidle) (hrefused hidle)
  | refusePlace =>
    have hidle : ∀ event ∈ ([] : List Event), event.isIdle = true := by simp
    exact h.add (Trace.refused .apply hidle) (hrefused hidle)
  | @begin id kind waiter _ hget =>
    have htrace := h.trace hget
    have hbegun : Trace (eventsOf id ls ++ [.began]) ⟨kind, .begun .untouched, waiter⟩ :=
      ⟨htrace.placed.begin, fun hwaiter => (htrace.looked hwaiter).append _, nofun⟩
    exact h.put hget hbegun rfl (by simp) (.silent (by simp))
  | turn hget hturn =>
    have htrace := h.trace hget
    exact h.put hget (htrace.turn hturn) rfl (turn_sends hturn)
      (turn_held hturn fun hplace => htrace.sent_iff hplace (turn_sends hturn))
  | @reply id kind progress result waiter _ hget =>
    have htrace := h.trace hget
    have hreplied : Trace (eventsOf id ls ++ [.replied result]) ⟨kind, .replied progress result, waiter⟩ :=
      ⟨htrace.placed.reply, fun hwaiter => (htrace.looked hwaiter).append _, nofun⟩
    exact h.put hget hreplied rfl (by simp) (.silent (by simp))
  | stop =>
    rw [List.append_nil]
    exact ⟨h.trace, h.fresh, h.holds⟩
  | @crash id kind =>
    have hshows : Shows (ls ++ []) s.health []
        (if kind.guarded then s.health.publishFailure (acknowledgementFailure kind.operation) else s.health) := by
      split_ifs
      · exact .acknowledgement _ (by simp)
      · exact .silent (by simp)
    have hholds := h.holds.step (h.sentBefore (by simp)) hshows
    rw [List.append_nil] at hholds ⊢
    exact ⟨h.trace, h.fresh, hholds⟩

theorem traced (h : Runs Step {} ls s) : Traced ls s := by
  generalize hstart : ({} : System) = start at h
  induction h with
  | refl =>
    subst hstart
    exact ⟨nofun, fun _ => rfl, fun _ => ⟨[], [], rfl, .inl rfl, by simp⟩, nofun⟩
  | tail _ hstep ih =>
    subst hstart
    exact ih.step hstep

/-! ### What the answers tell -/

/-- The thread is done with a command, whose transaction has come this far. -/
def Settled (id : ℕ) (progress : Progress) (s : System) : Prop :=
  ∃ c, s.commands[id]? = some c ∧ c.place.progress = progress ∧ c.place ≠ .queued ∧
    ∀ progress, c.place ≠ .begun progress

/-- A turn leaves a settled command as it is. -/
theorem turn_settled (hturn : Turn alive health c events c' health') (hqueued : c.place ≠ .queued)
    (hbegun : ∀ progress, c.place ≠ .begun progress) :
    c'.place.progress = c.place.progress ∧ c'.place ≠ .queued ∧ ∀ progress, c'.place ≠ .begun progress := by
  cases hturn with
  | commit => exact absurd rfl (hbegun _)
  | recognize => exact absurd rfl (hbegun _)
  | finish => exact absurd rfl (hbegun _)
  | close _ hplace =>
    rcases hplace with rfl | ⟨progress, rfl⟩
    · exact absurd rfl hqueued
    · exact absurd rfl (hbegun progress)
  | _ => exact ⟨rfl, hqueued, hbegun⟩

theorem Settled.step (h : Settled id progress s) (hstep : Step s l s') : Settled id progress s' := by
  obtain ⟨c, hget, hprogress, hqueued, hbegun⟩ := h
  have hlt := (List.getElem?_eq_some_iff.mp hget).1
  -- another command changes, or this one in a way that keeps it settled
  have hput : ∀ {other d d' t}, s.commands[other]? = some d → t.commands = s.commands.set other d' →
      (other = id → d'.place.progress = progress ∧ d'.place ≠ .queued ∧ ∀ progress, d'.place ≠ .begun progress) →
      Settled id progress t := by
    intro other d d' t hd ht hsettled
    by_cases hid : other = id
    · subst hid
      exact ⟨d', by rw [ht, List.getElem?_set_self hlt], hsettled rfl⟩
    · exact ⟨c, by rw [ht, List.getElem?_set_ne hid, hget], hprogress, hqueued, hbegun⟩
  have hadd : ∀ d health, Settled id progress (s.add d health) := by
    intro d health
    refine ⟨c, ?_, hprogress, hqueued, hbegun⟩
    show (s.commands ++ [d])[id]? = some c
    rw [List.getElem?_append_left hlt, hget]
  have hsame : ∀ {other d}, s.commands[other]? = some d → other = id → d = c := by
    rintro other d hd rfl
    exact Option.some.inj (hd.symm.trans hget)
  cases hstep with
  | send => exact hadd _ _
  | refuse => exact hadd _ _
  | refusePlace => exact hadd _ _
  | begin _ hd =>
    refine hput hd rfl fun hid => ?_
    obtain rfl := hsame hd hid
    exact absurd rfl hqueued
  | turn hd hturn =>
    refine hput hd rfl fun hid => ?_
    obtain rfl := hsame hd hid
    rw [← hprogress]
    exact turn_settled hturn hqueued hbegun
  | reply _ hd =>
    refine hput hd rfl fun hid => ?_
    obtain rfl := hsame hd hid
    exact ⟨hprogress, nofun, nofun⟩
  | stop => exact ⟨c, hget, hprogress, hqueued, hbegun⟩
  | crash => exact ⟨c, hget, hprogress, hqueued, hbegun⟩

/-- A command that is settled without a change of the store changes nothing, now and later. -/
theorem never_durable {later : List (ℕ × Event)} {t : System} (hs : Traced ls s) (hsettled : Settled id .untouched s)
    (h : Runs Step s later t) : (id, .committed) ∉ ls ++ later ∧ (id, .recognized) ∉ ls ++ later := by
  have hruns : Traced (ls ++ later) t ∧ Settled id .untouched t := by
    induction h with
    | refl => exact ⟨by rwa [List.append_nil], hsettled⟩
    | tail _ hstep ih =>
      rw [← List.append_assoc]
      exact ⟨ih.1.step hstep, ih.2.step hstep⟩
  obtain ⟨htraced, c, hget, hprogress, -, -⟩ := hruns
  have hplaced := (htraced.trace hget).placed
  rw [← mem_eventsOf, hplaced.committed, ← mem_eventsOf, hplaced.recognized, hprogress]
  exact ⟨nofun, nofun⟩

/-- The step in which someone gets an answer. -/
theorem answer_step {before after : List (ℕ × Event)}
    (hstep : Step s (before ++ (id, .answered result) :: after) s') :
    (∃ kind, result = .error (queueFailure kind.operation) ∧ id = s.commands.length ∧
        s' = s.add ⟨kind, .refused, .returned⟩ (s.health.publishFailure (queueFailure kind.operation))) ∨
      ∃ c c' health, before = [] ∧ after = [] ∧ s.commands[id]? = some c ∧
        Turn s.alive s.health c [.answered result] c' health ∧ s' = s.put id c' health := by
  generalize hl : before ++ (id, Event.answered result) :: after = l at hstep
  have hmem : (id, Event.answered result) ∈ l := hl ▸ List.mem_append_right _ List.mem_cons_self
  cases hstep with
  | refuse kind =>
    refine .inl ⟨kind, ?_⟩
    simp only [List.mem_cons, Prod.mk.injEq, reduceCtorEq, and_false, List.not_mem_nil, or_false, false_or,
      Event.answered.injEq] at hmem
    exact ⟨hmem.2, hmem.1, rfl⟩
  | @turn other c c' events health hget hturn =>
    obtain ⟨event, hevent, heq⟩ := List.mem_map.mp hmem
    obtain ⟨rfl, rfl⟩ := Prod.mk.inj heq
    have hsingle : events = [.answered result] := by
      cases hturn <;> simp_all
    subst hsingle
    have hl' : before ++ (other, Event.answered result) :: after = [(other, .answered result)] := hl
    obtain ⟨rfl, htail⟩ | ⟨_, rfl, hnil⟩ := List.append_eq_cons_iff.mp hl'
    · exact .inr ⟨c, c', health, rfl, (List.cons.inj htail).2, hget, hturn, rfl⟩
    · exact absurd hnil.symm (by simp)
  | _ => simp at hmem

theorem Outcome.ok_durable (h : Outcome kind progress (.ok ())) (hkind : kind.transacts = true) :
    progress = .committed ∨ progress = .recognized := by
  cases h with
  | applied _ hprogress =>
    cases progress with
    | untouched => exact absurd rfl hprogress
    | committed => exact .inl rfl
    | recognized => exact .inr rfl
  | single => exact .inl rfl
  | answered hnot =>
    rw [hnot] at hkind
    cases hkind

theorem Outcome.notCommitted (h : Outcome kind progress (.error failure))
    (hdurability : failure.durability = .notCommitted) :
    progress = .untouched ∨ kind = .finalizeHistoryDrain ∧ progress = .committed := by
  cases h with
  | cleanupAfter => cases hdurability
  | failed => exact .inl rfl
  | unread => exact .inr ⟨rfl, rfl⟩
  | unanswered => cases hdurability

/-- A drain that committed and whose page cannot be read. -/
def Unread (id : ℕ) (failure : PersistenceFailure) (ls : List (ℕ × Event)) : Prop :=
  (id, .sent .finalizeHistoryDrain) ∈ ls ∧ (id, .committed) ∈ ls ∧ (id, .finished (.error failure)) ∈ ls

/-- A command whose result is this failure was not durable, unless it was a drain that committed. -/
theorem Trace.own_failure (h : Trace (eventsOf id ls) c) (hresult : c.place.result = some (.error failure))
    (hdurability : failure.durability = .notCommitted) (hget : s.commands[id]? = some c) :
    Settled id .untouched s ∨ Unread id failure ls := by
  have hplace : c.place ≠ .refused ∧ c.place ≠ .queued ∧ ∀ progress, c.place ≠ .begun progress := by
    refine ⟨?_, ?_, fun progress => ?_⟩
    all_goals
      intro hplace
      rw [hplace] at hresult
      cases hresult
  rcases (h.placed.outcome _ hresult).notCommitted hdurability with huntouched | ⟨hdrain, hcommitted⟩
  · exact .inl ⟨c, hget, huntouched, hplace.2⟩
  · exact .inr ⟨mem_eventsOf.mp ((h.placed.sent _).mpr ⟨hdrain.symm, hplace.1⟩),
      mem_eventsOf.mp (h.placed.committed.mpr hcommitted), mem_eventsOf.mp ((h.placed.finished _).mpr hresult)⟩

/-- A failure that the health holds, for one who has no reply. -/
theorem Traced.held_failure (h : Traced ls s) (hget : s.commands[id]? = some c)
    (hhealth : s.health = .degraded failure) (hdurability : failure.durability = .notCommitted)
    (hplace : c.place ≠ .refused) :
    Settled id .untouched s ∨ Unread id failure ls ∨ ∃ label, label.1 ≠ id ∧ FirstPublished ls failure label := by
  obtain ⟨⟨other, event⟩, hfirst⟩ := h.holds.first hhealth hdurability
  by_cases hid : other = id
  · subst hid
    have htrace := h.trace hget
    obtain ⟨before, after, hls, hpublishes, -⟩ := hfirst
    have hlabel : (other, event) ∈ ls := by simp [hls]
    rcases hpublishes with ⟨hfinished, -⟩ | ⟨kind, hrefused, -⟩
    · obtain rfl : event = .finished (.error failure) := hfinished
      have hresult := (htrace.placed.finished _).mp (mem_eventsOf.mpr hlabel)
      exact (htrace.own_failure hresult hdurability hget).imp_right .inl
    · obtain rfl : event = .refused kind := hrefused
      exact absurd ((htrace.placed.refused kind).mp (mem_eventsOf.mpr hlabel)).2 hplace
  · exact .inr (.inr ⟨(other, event), hid, hfirst⟩)

/-- Who is told that a command is done is told so by the command itself, whose transaction committed, or whose
batch was durable. Who is told that it is not durable is told the truth, now and later, unless it is a drain that
committed and whose page cannot be read, or there was no reply and the failure is one of another command: the first
that was published since the health was last fine. -/
theorem answers_told {before after : List (ℕ × Event)} (h : Runs Step {} ls s)
    (hls : ls = before ++ (id, .answered result) :: after) :
    (result = .ok () → (id, .replied (.ok ())) ∈ before ∧ ∀ kind, (id, .sent kind) ∈ before → kind.transacts →
      (id, .committed) ∈ before ∨ (id, .recognized) ∈ before) ∧
    ∀ failure, result = .error failure → failure.durability = .notCommitted →
      (id, .committed) ∉ ls ∧ (id, .recognized) ∉ ls ∨
      Unread id failure before ∨
      WithoutReply (eventsOf id before) ∧ ∃ label, label.1 ≠ id ∧ FirstPublished before failure label := by
  obtain ⟨u, v, earlier, later, l₁, l₂, hearlier, hstep, hlater, hbefore, hafter⟩ := h.around hls
  have htraced := traced hearlier
  have hsplit : ls = earlier ++ (l₁ ++ (id, .answered result) :: l₂) ++ later := by
    rw [hls, hbefore, hafter]
    simp
  rcases answer_step hstep with ⟨kind, hresult, hid, hv⟩ | ⟨c, c', health, rfl, -, hget, hturn, -⟩
  · refine ⟨fun hok => ?_, fun failure _ _ => .inl ?_⟩
    · rw [hresult] at hok
      cases hok
    · have hrefused : Settled id .untouched v := by
        refine ⟨⟨kind, .refused, .returned⟩, ?_, rfl, nofun, nofun⟩
        rw [hv, hid]
        exact List.getElem?_concat_length
      rw [hsplit]
      exact never_durable (htraced.step hstep) hrefused hlater
  rw [List.append_nil] at hbefore
  subst hbefore
  have htrace := htraced.trace hget
  have huntouched : Settled id .untouched u → (id, .committed) ∉ ls ∧ (id, .recognized) ∉ ls := by
    intro hsettled
    rw [hsplit, List.append_assoc]
    exact never_durable htraced hsettled ((Runs.one hstep).trans hlater)
  -- a failure that the health holds
  have hheld : ∀ failure, u.health = .degraded failure → failure.durability = .notCommitted →
      c.place ≠ .refused → WithoutReply (eventsOf id before) →
      (id, .committed) ∉ ls ∧ (id, .recognized) ∉ ls ∨ Unread id failure before ∨
        WithoutReply (eventsOf id before) ∧ ∃ label, label.1 ≠ id ∧ FirstPublished before failure label := by
    intro failure hhealth hdurability hplace hwithout
    exact (htraced.held_failure hget hhealth hdurability hplace).imp huntouched
      (Or.imp_right fun hother => ⟨hwithout, hother⟩)
  cases hturn with
  | @takeReply kind progress =>
    constructor
    · rintro rfl
      refine ⟨mem_eventsOf.mp ((htrace.placed.replied _).mpr ⟨progress, rfl⟩), fun kind' hsent hkind => ?_⟩
      obtain ⟨rfl, -⟩ := (htrace.placed.sent kind').mp (mem_eventsOf.mpr hsent)
      exact ((htrace.placed.outcome _ rfl).ok_durable hkind).imp
        (fun heq => mem_eventsOf.mp (htrace.placed.committed.mpr heq))
        (fun heq => mem_eventsOf.mp (htrace.placed.recognized.mpr heq))
    · rintro failure rfl hdurability
      exact (htrace.own_failure rfl hdurability hget).imp huntouched .inl
  | takeHealth hhealth =>
    refine ⟨nofun, fun failure heq hdurability => ?_⟩
    cases heq
    exact hheld _ hhealth hdurability (fun hplace => nomatch htrace.gone hplace) (htrace.looked rfl)
  | takeClosed _ hpublished =>
    refine ⟨nofun, fun failure heq hdurability => ?_⟩
    cases heq
    rcases publishFailure_cases hpublished with hhealth | ⟨-, rfl⟩
    · exact hheld _ hhealth hdurability nofun (.inr (htrace.placed.closed.mpr ⟨_, rfl⟩))
    · exact absurd hdurability (acknowledgementFailure_durability _)
  | takeClosedOnly =>
    refine ⟨nofun, fun failure heq hdurability => ?_⟩
    cases heq
    exact absurd hdurability (acknowledgementFailure_durability _)

def sqliteFailure : PersistenceFailure := ⟨.apply, .commandExecution, .sqlite, .notCommitted⟩

/-- The events up to the answer for the second of two batches, of which the first fails. -/
def siblingFails : List (ℕ × Event) :=
  [(0, .sent .apply), (1, .sent .apply), (0, .began), (0, .finished (.error sqliteFailure)), (1, .looked)]

/-- The second batch is answered with the failure of the first, and commits. -/
def siblingRun : List (ℕ × Event) :=
  siblingFails ++ (1, .answered (.error sqliteFailure)) ::
    [(0, .replied (.error sqliteFailure)), (1, .began), (1, .committed)]

theorem runs_sibling : ∃ s, Runs Step {} siblingRun s := by
  have hsent := ((Runs.refl _).tail (Step.send (s := {}) .apply)).tail (.send .apply)
  have hfailed := (hsent.tail (@Step.begin _ 0 _ _ rfl rfl (by decide) (by decide))).tail
    (@Step.turn _ 0 _ _ _ _ rfl (.finish rfl (.failed .sqlite rfl)))
  have hanswered := (hfailed.tail (@Step.turn _ 1 _ _ _ _ rfl (.look rfl (.inl rfl)))).tail
    (@Step.turn _ 1 _ _ _ _ rfl (.takeHealth rfl))
  have hreplied := hanswered.tail (@Step.reply _ 0 _ _ _ _ rfl rfl)
  exact ⟨_, (hreplied.tail (@Step.begin _ 1 _ _ rfl rfl (by decide) (by decide))).tail
    (@Step.turn _ 1 _ _ _ _ rfl (.commit rfl rfl))⟩

theorem answers_told_sibling : WithoutReply (eventsOf 1 siblingFails) ∧
    ∃ label, label.1 ≠ 1 ∧ FirstPublished siblingFails sqliteFailure label := by
  obtain ⟨s, hrun⟩ := runs_sibling
  rcases (answers_told hrun rfl).2 sqliteFailure rfl rfl with ⟨hnever, -⟩ | ⟨hdrain, -⟩ | hother
  · exact absurd (by decide) hnever
  · exact absurd hdrain (by decide)
  · exact hother

/-- An answer that a batch is not durable can be wrong. -/
theorem sibling_failure_taken :
    ¬∀ ls s before after id failure, Runs Step {} ls s → ls = before ++ (id, .answered (.error failure)) :: after →
      failure.durability = .notCommitted → (id, .committed) ∉ ls := by
  intro h
  obtain ⟨s, hrun⟩ := runs_sibling
  exact absurd (by decide) (h siblingRun s _ _ 1 sqliteFailure hrun rfl rfl)

end HerdrTop.Acknowledgement
