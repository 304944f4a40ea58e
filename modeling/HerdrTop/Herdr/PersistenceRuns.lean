import HerdrTop.Library.Monitor
import HerdrTop.Herdr.RuntimePersistence
import HerdrTop.Store.SingleClient

/-!
# The collector and the writer

The collector writes through the facade, one write after the other, while the thread of the writer works at its own
pace. A step is one operation of the facade with all that the thread does meanwhile, or some work of the thread in
between; its labels say what happened, in order. Operations that wait may take any time.

For the facade alone a step is a sequence of beats, each of which changes the facade in one way. Everything about the
facade is proved for one beat and so for every run.

## What is proved

* `World.Step.sound`: an operation keeps the facade and the health together, and goes in beats.
* `World.Reached.sound`: so does every run from the start.
-/

namespace HerdrTop.RuntimePersistence

open Acknowledgement

/-! ### Operations -/

/-- What happens, on either side. -/
inductive Label
  | writer (id : ℕ) (event : Event)
  /-- An outage begins. -/
  | degraded (failure : PersistenceFailure) (cls : RuntimeCommandClass) (now : ℕ)
  | recovered
  | probing (now : ℕ)
  /-- The outcome of a command. -/
  | told (id : ℕ) (outcome : RuntimeWriteOutcome)
  | skipped (cls : RuntimeCommandClass)
  | enqueueSkipped
  | acceptorStopped
  /-- What became of a marker of a gap. -/
  | marked (outcome : RuntimeWriteOutcome)
  deriving DecidableEq

/-- Events of the writer, as labels. -/
def fromWriter (ls : List (ℕ × Event)) : List Label := ls.map fun label => .writer label.1 label.2

structure World where
  facade : RuntimePersistence
  writer : System
  now : ℕ

variable {w w' w₁ w₂ : World} {p p' : RuntimePersistence} {ls ls' l : List Label} {id : ℕ}

namespace World

/-- The outage that begins, or ends, when the facade changes. -/
def edge (cls : RuntimeCommandClass) (now : ℕ) (p p' : RuntimePersistence) : List Label :=
  match p.snapshot.persistence, p'.snapshot.persistence with
  | .healthy, .degraded failure => [.degraded failure cls now]
  | .degraded _, .healthy => [.recovered]
  | _, _ => []

/-- The facade looks at the writer's health. -/
inductive Observes : World → List Label → World → Prop
  | mk {w : World} (logTakes : Bool) :
      Observes w
        (edge (ingestClass w.writer.health) w.now w.facade
          (w.facade.observeWriterHealth w.writer.health ⟨w.now, logTakes⟩))
        { w with facade := w.facade.observeWriterHealth w.writer.health ⟨w.now, logTakes⟩ }

/-- A command, and the wait for its answer. The thread works before and after. -/
inductive Asks (kind : CommandKind) : World → List Label → Reply → World → Prop
  | mk {w : World} {ls₁ ls₂ ls₃ : List (ℕ × Event)} {reply : Reply} {s₁ s₂ s₃ : System} {now : ℕ} :
      Runs Working w.writer ls₁ s₁ → Call kind s₁ ls₂ reply s₂ → Runs Working s₂ ls₃ s₃ → w.now ≤ now →
      Asks kind w (fromWriter (ls₁ ++ ls₂ ++ ls₃)) reply { w with writer := s₃, now := now }

inductive DriveProbeIfDue : World → List Label → World → Prop
  | early {w : World} : (∀ next, w.facade.recovery.nextProbeAt = some next → w.now < next) →
      DriveProbeIfDue w [] w
  | due {w w₁ w₂ : World} {next now : ℕ} {ls ls' : List Label} {reply : Reply} :
      w.facade.recovery.nextProbeAt = some next → next ≤ w.now → Asks .probe w ls reply w₁ → Observes w₁ ls' w₂ →
      w₂.now ≤ now →
      DriveProbeIfDue w (.probing w.now :: ls ++ ls')
        (if reply ≠ .ok () ∧ w₂.facade.snapshot.persistence ≠ .healthy then
          { w₂ with facade := w₂.facade.armCooldown now, now := now }
        else w₂)

/-- Whether a write is skipped; only one that may wait drives the probe. -/
inductive SkipIfDegraded : RuntimeCommandClass → World → List Label → Bool → World → Prop
  | healthy {cls : RuntimeCommandClass} {w w' : World} {ls : List Label} : Observes w ls w' →
      w'.facade.snapshot.persistence = .healthy → SkipIfDegraded cls w ls false w'
  | batch {w w₁ w₂ : World} {ls ls' : List Label} : Observes w ls w₁ → w₁.facade.snapshot.persistence ≠ .healthy →
      DriveProbeIfDue w₁ ls' w₂ →
      SkipIfDegraded .batch w (ls ++ ls' ++ [.skipped .batch]) true { w₂ with facade := w₂.facade.recordSkip .batch }
  | ownerLocation {w w₁ : World} {ls : List Label} : Observes w ls w₁ → w₁.facade.snapshot.persistence ≠ .healthy →
      SkipIfDegraded .ownerLocation w (ls ++ [.skipped .ownerLocation]) true
        { w₁ with facade := w₁.facade.recordSkip .ownerLocation }

/-- A command that is sent, and its outcome. -/
inductive Submits (kind : CommandKind) (cls : RuntimeCommandClass) :
    World → List Label → RuntimeWriteOutcome → World → Prop
  | mk {w w₁ : World} {ls : List Label} {reply : Reply} (logTakes : Bool) : Asks kind w ls reply w₁ →
      Submits kind cls w
        (ls ++ edge cls w₁.now w₁.facade (w₁.facade.classifyResult reply cls ⟨w₁.now, logTakes⟩).1 ++
          [.told w.writer.commands.length (w₁.facade.classifyResult reply cls ⟨w₁.now, logTakes⟩).2])
        (w₁.facade.classifyResult reply cls ⟨w₁.now, logTakes⟩).2
        { w₁ with facade := (w₁.facade.classifyResult reply cls ⟨w₁.now, logTakes⟩).1 }

/-- `apply`, `apply_v6`, `cleanup` and `update_owner_location`. -/
inductive Writes (kind : CommandKind) (cls : RuntimeCommandClass) :
    World → List Label → RuntimeWriteOutcome → World → Prop
  | skipped {w w' : World} {ls : List Label} : SkipIfDegraded cls w ls true w' → Writes kind cls w ls .skipped w'
  | sent {w w₁ w₂ : World} {ls ls' : List Label} {outcome : RuntimeWriteOutcome} : SkipIfDegraded cls w ls false w₁ →
      Submits kind cls w₁ ls' outcome w₂ → Writes kind cls w (ls ++ ls') outcome w₂

/-- `finalize_history_drain`: the page of a drain that may be completed is read back, also during an outage. -/
inductive FinalizeHistoryDrain : World → List Label → RuntimeWriteOutcome → World → Prop
  | done {w w' : World} {ls : List Label} {outcome : RuntimeWriteOutcome} :
      Writes .finalizeHistoryDrain .batch w ls outcome w' →
      outcome ≠ .committedButDegraded → outcome ≠ .durabilityUnknown → FinalizeHistoryDrain w ls outcome w'
  | readBack {w w₁ w₂ : World} {ls ls' : List Label} {outcome : RuntimeWriteOutcome} {reply : Reply} :
      Writes .finalizeHistoryDrain .batch w ls outcome w₁ →
      outcome = .committedButDegraded ∨ outcome = .durabilityUnknown →
      Asks .historyDrainFinalization w₁ ls' reply w₂ → FinalizeHistoryDrain w (ls ++ ls') outcome w₂

/-- `reserve_enqueue`, and with a place in the queue the batch and `finish_pending`. -/
inductive Enqueues : World → List Label → World → Prop
  | degraded {w w₁ : World} {ls : List Label} : Observes w ls w₁ → w₁.facade.snapshot.persistence ≠ .healthy →
      Enqueues w (ls ++ [.enqueueSkipped]) { w₁ with facade := w₁.facade.recordSkippedEnqueue }
  /-- The queue is full. -/
  | full {w w₁ w₂ : World} {ls ls' : List Label} : Observes w ls w₁ → w₁.facade.snapshot.persistence = .healthy →
      w₁.writer.health = .healthy → Observes w₁ ls' w₂ →
      Enqueues w (ls ++ ls' ++ [.enqueueSkipped]) { w₂ with facade := w₂.facade.recordSkippedEnqueue }
  /-- The queue is closed, and the health says so. -/
  | closed {w w₁ w₂ : World} {ls ls' : List Label} {ls₁ : List (ℕ × Event)} {s : System} : Observes w ls w₁ →
      w₁.facade.snapshot.persistence = .healthy → Runs Working w₁.writer ls₁ s → s.health = .healthy →
      s.alive = false →
      Observes { w₁ with
        writer := s.add ⟨.apply, .refused, .returned⟩ (s.health.publishFailure (queueFailure .apply)) } ls' w₂ →
      Enqueues w (ls ++ fromWriter (ls₁ ++ [(s.commands.length, .refused .apply)]) ++ ls' ++ [.enqueueSkipped])
        { w₂ with facade := w₂.facade.recordSkippedEnqueue }
  | permit {w w₁ w₂ : World} {ls ls' : List Label} {outcome : RuntimeWriteOutcome} : Observes w ls w₁ →
      w₁.facade.snapshot.persistence = .healthy → w₁.writer.health = .healthy →
      Submits .applyV6 .batch w₁ ls' outcome w₂ → Enqueues w (ls ++ ls') w₂

/-- `persist_recovery_marker_if_pending`: the marker is claimed before it is written. -/
inductive PersistRecoveryMarkerIfPending : World → List Label → World → Prop
  | notPending {w : World} : w.facade.recovery.markerPending = false → PersistRecoveryMarkerIfPending w [] w
  | pending {w w₁ : World} {ls : List Label} {outcome : RuntimeWriteOutcome} : w.facade.recovery.markerPending = true →
      Writes .apply .batch { w with facade := w.facade.setMarkerPending false } ls outcome w₁ →
      PersistRecoveryMarkerIfPending w (ls ++ [.marked outcome])
        (if outcome.isCommitted then w₁ else { w₁ with facade := w₁.facade.setMarkerPending true })

/-- One operation of the collector, or some work of the thread. The availability of the listener does not change. -/
inductive Step (listener : SourceAvailability) : World → List Label → World → Prop
  | work {w : World} {ls : List (ℕ × Event)} {s : System} : Working w.writer ls s →
      Step listener w (fromWriter ls) { w with writer := s }
  | tick {w : World} {now : ℕ} : w.now ≤ now → Step listener w [] { w with now := now }
  | observe {w w' : World} {ls : List Label} : Observes w ls w' → Step listener w ls w'
  | apply {w w' : World} {ls : List Label} {outcome : RuntimeWriteOutcome} : Writes .apply .batch w ls outcome w' →
      Step listener w ls w'
  | applyV6 {w w' : World} {ls : List Label} {outcome : RuntimeWriteOutcome} : Writes .applyV6 .batch w ls outcome w' →
      Step listener w ls w'
  | cleanup {w w' : World} {ls : List Label} {outcome : RuntimeWriteOutcome} : Writes .cleanup .batch w ls outcome w' →
      Step listener w ls w'
  | updateOwnerLocation {w w' : World} {ls : List Label} {outcome : RuntimeWriteOutcome} :
      Writes .updateOwnerLocation .ownerLocation w ls outcome w' → Step listener w ls w'
  | finalize {w w' : World} {ls : List Label} {outcome : RuntimeWriteOutcome} : FinalizeHistoryDrain w ls outcome w' →
      Step listener w ls w'
  | enqueue {w w' : World} {ls : List Label} : Enqueues w ls w' → Step listener w ls w'
  | marker {w w' : World} {ls : List Label} : PersistRecoveryMarkerIfPending w ls w' → Step listener w ls w'
  | refresh {w : World} {coverage : SourceCoverageRegistry} : coverage.controller = listener →
      Step listener w [] { w with facade := w.facade.refreshSnapshot coverage }
  | acceptorStopped {w : World} :
      Step listener w [.acceptorStopped] { w with facade := w.facade.markAcceptorStopped }

/-- A run from the start of the collector, which has written the owner and then makes the facade. -/
inductive Reached (coverage : SourceCoverageRegistry) (retryInterval : ℕ) : List Label → World → Prop
  | mk {ls : List (ℕ × Event)} {ls' : List Label} {s : System} {now : ℕ} {w : World} :
      Call .replaceOwner {} ls (.ok ()) s →
      Runs (Step coverage.controller) ⟨new s.health coverage retryInterval, s, now⟩ ls' w →
      Reached coverage retryInterval (fromWriter ls ++ ls') w

end World

/-! ### Beats -/

/-- The kind of a command that an event sends, or tries to. -/
def commandKind : Event → Option CommandKind
  | .sent kind | .refused kind => some kind
  | _ => none

/-- What the facade asks the writer for: anything that changes the store while all is well, and the page of a drain
during an outage. -/
def Allows (p : RuntimePersistence) (kind : CommandKind) : Prop :=
  p.snapshot.persistence = .healthy ∧ kind.responseOnly = false ∨
    p.snapshot.persistence ≠ .healthy ∧ kind = .historyDrainFinalization

/-- One change of the facade, with the labels that tell of it; `claims` is whether a marker is claimed. -/
inductive Beat (listener : SourceAvailability) (claims : Bool) : RuntimePersistence → List Label → RuntimePersistence → Prop
  | writer {p : RuntimePersistence} {ls : List (ℕ × Event)} :
      (∀ label ∈ ls, ∀ kind, commandKind label.2 = some kind → p.Allows kind) → Beat listener claims p (fromWriter ls) p
  | degrade {p : RuntimePersistence} {failure : PersistenceFailure} {cls : RuntimeCommandClass} (moment : Moment) :
      p.snapshot.persistence = .healthy →
      Beat listener claims p [.degraded failure cls moment.now] (p.recordFacadeFailure failure cls moment).1
  | probeFailed {p : RuntimePersistence} {next now now' : ℕ} {ls : List (ℕ × Event)} :
      p.snapshot.persistence ≠ .healthy → p.recovery.nextProbeAt = some next → next ≤ now →
      (∀ label ∈ ls, ∀ kind, commandKind label.2 = some kind → kind = .probe) → now ≤ now' →
      Beat listener claims p (.probing now :: fromWriter ls) (p.armCooldown now')
  | probed {p : RuntimePersistence} {next : ℕ} {now : ℕ} {ls : List (ℕ × Event)} {moment : Moment} :
      p.snapshot.persistence ≠ .healthy → p.recovery.nextProbeAt = some next → next ≤ now →
      (∀ label ∈ ls, ∀ kind, commandKind label.2 = some kind → kind = .probe) →
      Beat listener claims p (.probing now :: fromWriter ls ++ [.recovered]) (p.observeWriterHealth .healthy moment)
  | told {p : RuntimePersistence} (id : ℕ) (outcome : RuntimeWriteOutcome) : Beat listener claims p [.told id outcome] p
  /-- The write that drives the probe is skipped, also if the probe succeeds. -/
  | skip {p : RuntimePersistence} {cls : RuntimeCommandClass} : Beat listener claims p [.skipped cls] (p.recordSkip cls)
  | skipEnqueue {p : RuntimePersistence} : Beat listener claims p [.enqueueSkipped] p.recordSkippedEnqueue
  | refresh {p : RuntimePersistence} {coverage : SourceCoverageRegistry} : coverage.controller = listener →
      Beat listener claims p [] (p.refreshSnapshot coverage)
  | stop {p : RuntimePersistence} : Beat listener claims p [.acceptorStopped] p.markAcceptorStopped
  | claim {p : RuntimePersistence} : claims = true → Beat listener claims p [] (p.setMarkerPending false)
  | mark {p : RuntimePersistence} (outcome : RuntimeWriteOutcome) : claims = true →
      Beat listener claims p [.marked outcome]
        (if outcome.isCommitted then p else p.setMarkerPending true)

variable {listener : SourceAvailability} {claims : Bool} {kind : CommandKind} {cls : RuntimeCommandClass}
  {outcome : RuntimeWriteOutcome} {reply : Reply} {failure : PersistenceFailure}

namespace World

/-- Between two operations: the facade says what the health says. -/
structure Synced (w : World) : Prop where
  rested : Rested w.writer
  agrees : w.facade.snapshot.persistence = w.writer.health

/-- An operation that goes from a synced world to another one, in beats. -/
def Sound (listener : SourceAvailability) (claims : Bool) (w : World) (ls : List Label) (w' : World) : Prop :=
  w'.Synced ∧ Runs (Beat listener claims) w.facade ls w'.facade

theorem Sound.trans (h : Sound listener claims w ls w₁) (h' : w₁.Synced → Sound listener claims w₁ ls' w') :
    Sound listener claims w (ls ++ ls') w' := by
  obtain ⟨hsynced, hruns⟩ := h
  obtain ⟨hsynced', hruns'⟩ := h' hsynced
  exact ⟨hsynced', hruns.trans hruns'⟩

theorem fromWriter_append (ls ls' : List (ℕ × Event)) : fromWriter (ls ++ ls') = fromWriter ls ++ fromWriter ls' :=
  List.map_append

/-- A look at the health tells the facade nothing new. -/
theorem Observes.synced (h : Observes w ls w') (hw : w.facade.snapshot.persistence = w.writer.health) :
    w' = w ∧ ls = [] := by
  cases h with
  | mk logTakes =>
    rw [observeWriterHealth_same hw]
    refine ⟨rfl, ?_⟩
    unfold edge
    cases w.facade.snapshot.persistence <;> rfl

/-- A look that finds a failure. -/
theorem Observes.degrade (h : Observes w ls w') (hhealthy : w.facade.snapshot.persistence = .healthy)
    (hhealth : w.writer.health = .degraded failure) :
    w'.writer = w.writer ∧ w'.facade.snapshot.persistence = .degraded failure ∧
      Runs (Beat listener claims) w.facade ls w'.facade := by
  cases h with
  | mk logTakes =>
    have hpersistence := recordFacadeFailure_persistence failure (ingestClass (.degraded failure)) ⟨w.now, logTakes⟩
      hhealthy
    have hobserved : w.facade.observeWriterHealth w.writer.health ⟨w.now, logTakes⟩ =
        (w.facade.recordFacadeFailure failure (ingestClass (.degraded failure)) ⟨w.now, logTakes⟩).1 := by
      rw [hhealth, observeWriterHealth_healthy hhealthy]
    rw [hobserved]
    refine ⟨rfl, hpersistence, ?_⟩
    unfold edge
    rw [hhealthy, hpersistence, hhealth]
    exact .one (.degrade ⟨w.now, logTakes⟩ hhealthy)

/-- A look that finds that the outage is over. -/
theorem Observes.recover (h : Observes w ls w') (hdegraded : w.facade.snapshot.persistence = .degraded failure)
    (hhealth : w.writer.health = .healthy) :
    w'.writer = w.writer ∧ w'.facade.snapshot.persistence = .healthy ∧ ls = [.recovered] ∧
      ∃ moment, w'.facade = w.facade.observeWriterHealth .healthy moment := by
  cases h with
  | mk logTakes =>
    have hpersistence : (w.facade.observeWriterHealth w.writer.health ⟨w.now, logTakes⟩).snapshot.persistence =
        .healthy := by
      rw [hhealth, observeWriterHealth_recovered (by simp [hdegraded])]
      rfl
    refine ⟨rfl, hpersistence, ?_, ⟨w.now, logTakes⟩, by rw [← hhealth]⟩
    unfold edge
    rw [hdegraded, hpersistence]

theorem no_commands {s s' : System} {ls : List (ℕ × Event)} (h : Runs Working s ls s') :
    ∀ label ∈ ls, commandKind label.2 = none := by
  induction h with
  | refl => simp
  | tail _ hstep ih =>
    intro label hlabel
    rcases List.mem_append.mp hlabel with hlabel | hlabel
    · exact ih label hlabel
    · have hsend := hstep.2 label hlabel
      cases hevent : label.2 <;> simp_all [Event.isSend, commandKind]

/-- A call sends one command. -/
theorem call_commands {s s' : System} {ls : List (ℕ × Event)} (h : Call kind s ls reply s') :
    ∀ label ∈ ls, ∀ kind', commandKind label.2 = some kind' → kind' = kind := by
  cases h with
  | refused =>
    intro label hlabel kind' hkind
    simp only [List.mem_cons, List.not_mem_nil, or_false] at hlabel
    rcases hlabel with rfl | rfl
    · exact (Option.some.inj hkind).symm
    · cases hkind
  | answered hruns =>
    intro label hlabel kind' hkind
    simp only [List.mem_append, List.mem_cons, List.not_mem_nil, or_false] at hlabel
    rcases hlabel with (rfl | hlabel) | rfl
    · exact (Option.some.inj hkind).symm
    · rw [no_commands hruns label hlabel] at hkind
      cases hkind
    · cases hkind

theorem rested_runs {s s' : System} {ls : List (ℕ × Event)} (h : Runs Working s ls s') (hs : Rested s) :
    Rested s' ∧ s'.health = s.health := by
  induction h with
  | refl => exact ⟨hs, rfl⟩
  | tail _ hstep ih =>
    obtain ⟨hrested, hhealth⟩ := ih
    obtain ⟨hrested', hhealth'⟩ := hrested.working hstep
    exact ⟨hrested', hhealth'.trans hhealth⟩

/-- What a question for the writer tells, whichever command it is. -/
structure Answered (kind : CommandKind) (w : World) (ls : List Label) (w' : World) : Prop where
  facade : w'.facade = w.facade
  now : w.now ≤ w'.now
  rested : Rested w'.writer
  labels : ∃ l, ls = fromWriter l ∧ ∀ label ∈ l, ∀ kind', commandKind label.2 = some kind' → kind' = kind

theorem asks_commands {s₀ s₁ s₂ s₃ : System} {ls₁ ls₂ ls₃ : List (ℕ × Event)} (h₁ : Runs Working s₀ ls₁ s₁)
    (h₂ : Call kind s₁ ls₂ reply s₂) (h₃ : Runs Working s₂ ls₃ s₃) :
    ∀ label ∈ ls₁ ++ ls₂ ++ ls₃, ∀ kind', commandKind label.2 = some kind' → kind' = kind := by
  intro label hlabel kind' hkind
  rcases List.mem_append.mp hlabel with hlabel | hlabel
  · rcases List.mem_append.mp hlabel with hlabel | hlabel
    · rw [no_commands h₁ label hlabel] at hkind
      cases hkind
    · exact call_commands h₂ label hlabel kind' hkind
  · rw [no_commands h₃ label hlabel] at hkind
    cases hkind

/-- A write while all is well. -/
theorem Asks.healthy (h : Asks kind w ls reply w') (hw : w.Synced)
    (hhealthy : w.facade.snapshot.persistence = .healthy) (hkind : kind.responseOnly = false) :
    Answered kind w ls w' ∧ (reply = .ok () → w'.writer.health = .healthy) ∧
      ∀ failure, reply = .error failure → w'.writer.health = .degraded failure := by
  cases h with
  | mk h₁ h₂ h₃ hnow =>
    obtain ⟨hrested₁, hhealth₁⟩ := rested_runs h₁ hw.rested
    have hhealth : _ = PersistenceStatus.healthy := hhealth₁.trans (hw.agrees.symm.trans hhealthy)
    obtain ⟨hrested₂, c, -, -, hok, herror⟩ := hrested₁.call hhealth hkind h₂
    obtain ⟨hrested₃, hhealth₃⟩ := rested_runs h₃ hrested₂
    refine ⟨⟨rfl, hnow, hrested₃, _, rfl, asks_commands h₁ h₂ h₃⟩, ?_, ?_⟩
    · intro hreply
      exact hhealth₃.trans (hok hreply).2
    · intro failure hreply
      exact hhealth₃.trans (herror failure hreply).1

/-- A probe, or a page that is read back, during an outage. -/
theorem Asks.degraded (h : Asks kind w ls reply w') (hw : w.Synced)
    (hdegraded : w.facade.snapshot.persistence = .degraded failure) (hkind : kind.responseOnly = true) :
    Answered kind w ls w' ∧
      w'.writer.health = if kind = .probe ∧ reply = .ok () then .healthy else .degraded failure := by
  cases h with
  | mk h₁ h₂ h₃ hnow =>
    obtain ⟨hrested₁, hhealth₁⟩ := rested_runs h₁ hw.rested
    obtain ⟨hrested₂, hhealth₂⟩ :=
      hrested₁.ask (hhealth₁.trans (hw.agrees.symm.trans hdegraded)) hkind h₂
    obtain ⟨hrested₃, hhealth₃⟩ := rested_runs h₃ hrested₂
    exact ⟨⟨rfl, hnow, hrested₃, _, rfl, asks_commands h₁ h₂ h₃⟩, hhealth₃.trans hhealth₂⟩

/-- Labels of the writer that the facade allows are one beat. -/
theorem beat_writer {l : List (ℕ × Event)} (hallows : p.Allows kind)
    (hl : ∀ label ∈ l, ∀ kind', commandKind label.2 = some kind' → kind' = kind) :
    Runs (Beat listener claims) p (fromWriter l) p := by
  refine .one (.writer fun label hlabel kind' hkind => ?_)
  rw [hl label hlabel kind' hkind]
  exact hallows

theorem Submits.sound (h : Submits kind cls w ls outcome w') (hw : w.Synced)
    (hhealthy : w.facade.snapshot.persistence = .healthy) (hkind : kind.responseOnly = false) :
    Sound listener claims w ls w' := by
  cases h with
  | @mk w₁ ls reply logTakes hasks =>
    obtain ⟨⟨hfacade, -, hrested, l, rfl, hl⟩, hok, herror⟩ := hasks.healthy hw hhealthy hkind
    have hwriter : Runs (Beat listener claims) w.facade (fromWriter l) w₁.facade := by
      rw [hfacade]
      exact beat_writer (.inl ⟨hhealthy, hkind⟩) hl
    have hhealthy₁ : w₁.facade.snapshot.persistence = .healthy := by
      rw [hfacade]
      exact hhealthy
    cases reply with
    | ok =>
      have hnone : edge cls w₁.now w₁.facade w₁.facade = [] := by
        unfold edge
        rw [hhealthy₁]
      refine ⟨⟨hrested, hhealthy₁.trans (hok rfl).symm⟩, ?_⟩
      show Runs _ _ (fromWriter l ++ edge cls w₁.now w₁.facade w₁.facade ++ _) w₁.facade
      rw [hnone, List.append_nil]
      exact hwriter.tail (.told _ _)
    | error failure =>
      have hpersistence := recordFacadeFailure_persistence failure cls ⟨w₁.now, logTakes⟩ hhealthy₁
      have hedge : edge cls w₁.now w₁.facade (w₁.facade.recordFacadeFailure failure cls ⟨w₁.now, logTakes⟩).1 =
          [.degraded failure cls w₁.now] := by
        unfold edge
        rw [hhealthy₁, hpersistence]
      refine ⟨⟨hrested, hpersistence.trans (herror failure rfl).symm⟩, ?_⟩
      show Runs _ _ (fromWriter l ++ edge cls w₁.now w₁.facade
        (w₁.facade.recordFacadeFailure failure cls ⟨w₁.now, logTakes⟩).1 ++ _) _
      rw [hedge]
      exact (hwriter.tail (.degrade ⟨w₁.now, logTakes⟩ hhealthy₁)).tail (.told _ _)

theorem SkipIfDegraded.healthy_sound (h : SkipIfDegraded cls w ls false w') (hw : w.Synced) :
    w' = w ∧ ls = [] ∧ w.facade.snapshot.persistence = .healthy := by
  cases h with
  | healthy hobserves hhealthy =>
    obtain ⟨rfl, rfl⟩ := hobserves.synced hw.agrees
    exact ⟨rfl, rfl, hhealthy⟩

/-- The probe of an outage: it fails and the next one is put off, or the outage is over. -/
theorem DriveProbeIfDue.sound (h : DriveProbeIfDue w ls w') (hw : w.Synced)
    (hdegraded : w.facade.snapshot.persistence ≠ .healthy) : Sound listener claims w ls w' := by
  cases h with
  | early => exact ⟨hw, .refl _⟩
  | @due w₁ w₂ next now ls ls' reply hnext hdue hasks hobserves hnow =>
    cases hfailure : w.facade.snapshot.persistence with
    | healthy => exact absurd hfailure hdegraded
    | degraded failure =>
      obtain ⟨⟨hfacade, hpast, hrested, l, rfl, hl⟩, hhealth⟩ := hasks.degraded hw hfailure rfl
      have hpersistence₁ : w₁.facade.snapshot.persistence = .degraded failure := by
        rw [hfacade]
        exact hfailure
      by_cases hreply : reply = .ok ()
      · rw [if_pos ⟨rfl, hreply⟩] at hhealth
        obtain ⟨hwriter, hhealthy, rfl, moment, hrecovered⟩ := hobserves.recover hpersistence₁ hhealth
        rw [if_neg (by simp [hreply])]
        refine ⟨⟨hwriter ▸ hrested, ?_⟩, ?_⟩
        · rw [hhealthy, hwriter, hhealth]
        · rw [hrecovered, hfacade]
          exact .one (.probed hdegraded hnext hdue hl)
      · rw [if_neg (by simp [hreply])] at hhealth
        obtain ⟨rfl, rfl⟩ := hobserves.synced (hpersistence₁.trans hhealth.symm)
        rw [if_pos ⟨hreply, by rw [hpersistence₁]; simp⟩, List.append_nil]
        refine ⟨⟨hrested, hpersistence₁.trans hhealth.symm⟩, ?_⟩
        show Runs _ w.facade _ (w₂.facade.armCooldown now)
        rw [hfacade]
        exact .one (.probeFailed hdegraded hnext hdue hl (by omega))

theorem Sound.skip (h : Sound listener claims w ls w') (cls : RuntimeCommandClass) :
    Sound listener claims w (ls ++ [.skipped cls]) { w' with facade := w'.facade.recordSkip cls } :=
  ⟨⟨h.1.rested, recordSkip_persistence.trans h.1.agrees⟩, h.2.tail .skip⟩

theorem Sound.skipEnqueue (h : Sound listener claims w ls w') :
    Sound listener claims w (ls ++ [.enqueueSkipped]) { w' with facade := w'.facade.recordSkippedEnqueue } :=
  ⟨⟨h.1.rested, h.1.agrees⟩, h.2.tail .skipEnqueue⟩

theorem Synced.refl (h : w.Synced) : Sound listener claims w [] w := ⟨h, .refl _⟩

theorem SkipIfDegraded.skipped_sound (h : SkipIfDegraded cls w ls true w') (hw : w.Synced) :
    Sound listener claims w ls w' := by
  cases h with
  | batch hobserves hdegraded hprobe =>
    obtain ⟨rfl, rfl⟩ := hobserves.synced hw.agrees
    rw [List.nil_append]
    exact (hprobe.sound hw hdegraded).skip .batch
  | ownerLocation hobserves =>
    obtain ⟨rfl, rfl⟩ := hobserves.synced hw.agrees
    exact hw.refl.skip .ownerLocation

theorem persistence_degraded (h : p.snapshot.persistence ≠ .healthy) :
    ∃ failure, p.snapshot.persistence = .degraded failure := by
  cases hpersistence : p.snapshot.persistence with
  | healthy => exact absurd hpersistence h
  | degraded failure => exact ⟨failure, rfl⟩

theorem Writes.sound (h : Writes kind cls w ls outcome w') (hw : w.Synced) (hkind : kind.responseOnly = false) :
    Sound listener claims w ls w' := by
  cases h with
  | skipped hskip => exact hskip.skipped_sound hw
  | sent hskip hsubmits =>
    obtain ⟨rfl, rfl, hhealthy⟩ := hskip.healthy_sound hw
    exact hsubmits.sound hw hhealthy hkind

/-- An outcome that is neither known nor certain to have failed comes with an outage. -/
theorem Writes.degraded (h : Writes kind cls w ls outcome w') (hw : w.Synced) (hkind : kind.responseOnly = false)
    (houtcome : outcome = .committedButDegraded ∨ outcome = .durabilityUnknown) :
    w'.facade.snapshot.persistence ≠ .healthy := by
  cases h with
  | skipped => simp at houtcome
  | sent hskip hsubmits =>
    obtain ⟨rfl, rfl, hhealthy⟩ := hskip.healthy_sound hw
    cases hsubmits with
    | @mk w₁ ls reply logTakes hasks =>
      obtain ⟨⟨hfacade, -⟩, -⟩ := hasks.healthy hw hhealthy hkind
      cases reply with
      | ok => simp [classifyResult] at houtcome
      | error failure =>
        have hhealthy₁ : w₁.facade.snapshot.persistence = .healthy := by
          rw [hfacade]
          exact hhealthy
        have hpersistence := recordFacadeFailure_persistence failure cls ⟨w₁.now, logTakes⟩ hhealthy₁
        show (w₁.facade.recordFacadeFailure failure cls ⟨w₁.now, logTakes⟩).1.snapshot.persistence ≠ _
        rw [hpersistence]
        simp

theorem FinalizeHistoryDrain.sound (h : FinalizeHistoryDrain w ls outcome w') (hw : w.Synced) :
    Sound listener claims w ls w' := by
  cases h with
  | done hwrites => exact hwrites.sound hw rfl
  | readBack hwrites houtcome hasks =>
    refine (hwrites.sound hw rfl).trans fun hw₁ => ?_
    have hdegraded := hwrites.degraded hw rfl houtcome
    obtain ⟨failure, hfailure⟩ := persistence_degraded hdegraded
    obtain ⟨⟨hfacade, -, hrested, l, rfl, hl⟩, hhealth⟩ := hasks.degraded hw₁ hfailure rfl
    refine ⟨⟨hrested, ?_⟩, ?_⟩
    · rw [hfacade, hfailure, hhealth]
      simp
    · rw [hfacade]
      exact beat_writer (.inr ⟨hdegraded, rfl⟩) hl

theorem Enqueues.sound (h : Enqueues w ls w') (hw : w.Synced) : Sound listener claims w ls w' := by
  cases h with
  | degraded hobserves =>
    obtain ⟨rfl, rfl⟩ := hobserves.synced hw.agrees
    exact hw.refl.skipEnqueue
  | full hobserves _ _ hobserves' =>
    obtain ⟨rfl, rfl⟩ := hobserves.synced hw.agrees
    obtain ⟨rfl, rfl⟩ := hobserves'.synced hw.agrees
    exact hw.refl.skipEnqueue
  | permit hobserves hhealthy _ hsubmits =>
    obtain ⟨rfl, rfl⟩ := hobserves.synced hw.agrees
    exact hsubmits.sound hw hhealthy rfl
  | @closed w₁ w₂ ls ls' ls₁ s hobserves hhealthy hruns hhealth _ hobserves' =>
    obtain ⟨rfl, rfl⟩ := hobserves.synced hw.agrees
    rw [List.nil_append]
    refine Sound.skipEnqueue ?_
    have hpublished : s.health.publishFailure (queueFailure .apply) = .degraded (queueFailure .apply) := by
      rw [hhealth]
      rfl
    have hrested : Rested (s.add ⟨.apply, .refused, .returned⟩ (s.health.publishFailure (queueFailure .apply))) :=
      (rested_runs hruns hw.rested).1.refused .apply fun _ => hhealth
    have hlabels : ∀ label ∈ ls₁ ++ [(s.commands.length, Event.refused .apply)], ∀ kind,
        commandKind label.2 = some kind → kind = .apply := by
      intro label hlabel kind hkind
      rcases List.mem_append.mp hlabel with hlabel | hlabel
      · rw [no_commands hruns label hlabel] at hkind
        cases hkind
      · rw [List.mem_singleton.mp hlabel] at hkind
        exact (Option.some.inj hkind).symm
    obtain ⟨hwriter, hpersistence, hbeats⟩ := hobserves'.degrade hhealthy hpublished
    refine ⟨⟨hwriter ▸ hrested, ?_⟩, (beat_writer (.inl ⟨hhealthy, rfl⟩) hlabels).trans hbeats⟩
    rw [hpersistence, hwriter]
    exact hpublished.symm

theorem PersistRecoveryMarkerIfPending.sound (h : PersistRecoveryMarkerIfPending w ls w') (hw : w.Synced) :
    Sound listener true w ls w' := by
  cases h with
  | notPending => exact hw.refl
  | @pending w₁ ls outcome hpending hwrites =>
    have hclaimed : Sound listener true w [] { w with facade := w.facade.setMarkerPending false } :=
      ⟨⟨hw.rested, hw.agrees⟩, .one (.claim rfl)⟩
    obtain ⟨hw₁, hruns⟩ := hclaimed.trans fun hclaimed => hwrites.sound hclaimed rfl
    have hmarked := hruns.tail (.mark outcome rfl)
    by_cases hcommitted : outcome.isCommitted
    · rw [if_pos hcommitted] at hmarked ⊢
      exact ⟨hw₁, hmarked⟩
    · rw [if_neg hcommitted] at hmarked ⊢
      exact ⟨⟨hw₁.rested, hw₁.agrees⟩, hmarked⟩

theorem fromWriter_work {s s' : System} {ls : List (ℕ × Event)} (h : Working s ls s') :
    Runs (Beat listener claims) p (fromWriter ls) p := by
  refine .one (.writer fun label hlabel kind hkind => ?_)
  rw [no_commands (.one h) label hlabel] at hkind
  cases hkind

/-- Every operation goes from a synced world to another one, in beats. -/
theorem Step.sound (h : Step listener w ls w') (hw : w.Synced) : Sound listener true w ls w' := by
  cases h with
  | work hstep =>
    obtain ⟨hrested, hhealth⟩ := hw.rested.working hstep
    exact ⟨⟨hrested, hw.agrees.trans hhealth.symm⟩, fromWriter_work hstep⟩
  | tick => exact ⟨⟨hw.rested, hw.agrees⟩, .refl _⟩
  | observe hobserves =>
    obtain ⟨rfl, rfl⟩ := hobserves.synced hw.agrees
    exact hw.refl
  | apply hwrites => exact hwrites.sound hw rfl
  | applyV6 hwrites => exact hwrites.sound hw rfl
  | cleanup hwrites => exact hwrites.sound hw rfl
  | updateOwnerLocation hwrites => exact hwrites.sound hw rfl
  | finalize hfinalize => exact hfinalize.sound hw
  | enqueue henqueues => exact henqueues.sound hw
  | marker hmarker => exact hmarker.sound hw
  | refresh hcoverage => exact ⟨⟨hw.rested, hw.agrees⟩, .one (.refresh hcoverage)⟩
  | acceptorStopped => exact ⟨⟨hw.rested, markAcceptorStopped_persistence.trans hw.agrees⟩, .one .stop⟩

variable {coverage : SourceCoverageRegistry} {retryInterval : ℕ}

/-- What holds of every run from the start. -/
theorem Reached.sound (h : Reached coverage retryInterval ls w) :
    w.Synced ∧ ∃ l ls', ls = fromWriter l ++ ls' ∧
      (∀ label ∈ l, ∀ kind, commandKind label.2 = some kind → kind = .replaceOwner) ∧
      Runs (Beat coverage.controller true) (new .healthy coverage retryInterval) ls' w.facade := by
  cases h with
  | @mk l ls' s now w hcall hruns =>
    obtain ⟨hrested, _, -, -, hok, -⟩ := rested_empty.call rfl rfl hcall
    obtain ⟨-, hhealth⟩ := hok rfl
    rw [hhealth] at hruns
    have hstart : World.Synced ⟨new .healthy coverage retryInterval, s, now⟩ := ⟨hrested, hhealth.symm⟩
    obtain ⟨hsynced, hbeats⟩ := hruns.lift (f := World.facade) (I := Synced)
      (fun hstep hs => hstep.sound hs) hstart
    exact ⟨hsynced, l, ls', rfl, call_commands hcall, hbeats⟩

end World

end HerdrTop.RuntimePersistence
