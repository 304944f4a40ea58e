import HerdrTop.Herdr.PersistenceRuns

/-!
# What holds of every run of the collector's persistence

* `status_published`: between two operations those who watch see of the store what the writer says, and of the input
  of the Controller whether it can be used.
* `outcomes_told`: what the facade says about a write is true, now and later.
* `outage_quiet`: during an outage the writer is only asked to probe, now and then, and for pages.
* `gap_owed`: the gap of an outage is owed to the store from its end until a marker is committed.
* `writes_counted`: the counters count, and the occurrence log is asked once.
-/

namespace HerdrTop.RuntimePersistence

open Acknowledgement World

variable {listener : SourceAvailability} {claims : Bool} {p p' : RuntimePersistence} {l ls ls' : List Label}
  {w w' w₁ w₂ : World} {coverage : SourceCoverageRegistry} {retryInterval : ℕ} {failure : PersistenceFailure}
  {cls : RuntimeCommandClass} {moment : Moment} {kind : CommandKind} {outcome : RuntimeWriteOutcome} {id : ℕ}

/-! ### A run with an outage -/

/-- A collector with a listener. -/
def listening : SourceCoverageRegistry := ⟨.available, .available, .notApplicable, .notApplicable⟩

/-- A thread that has served everything. -/
structure Serves (s : System) : Prop where
  alive : s.alive = true
  done : ∀ c ∈ s.commands, c.place.done = true

/-- No drain is completed. -/
def Undrained (l : List (ℕ × Event)) : Prop := ∀ label ∈ l, label.2 ≠ .sent .finalizeHistoryDrain

theorem Serves.call {s : System} {progress : Progress} {reply : Reply} (kind : CommandKind) (h : Serves s)
    (hkind : kind ≠ .shutdown ∧ kind ≠ .finalizeHistoryDrain)
    (hprogress : progress = .untouched ∨ progress = .committed ∧ kind.transacts = true)
    (houtcome : Outcome kind progress reply) :
    ∃ l s', Call kind s l reply s' ∧ Serves s' ∧ Undrained l ∧ s'.health = s.health.afterResult kind reply ∧
      s'.commands.length = s.commands.length + 1 := by
  obtain ⟨l, s', hcall, halive, hdone, hlength, hhealth⟩ := call_served h.alive h.done hkind.1 hprogress houtcome
  refine ⟨l, s', hcall, ⟨halive, hdone⟩, fun label hlabel hsent => ?_, hhealth, hlength⟩
  exact hkind.2 (call_commands hcall label hlabel .finalizeHistoryDrain (by rw [hsent]; rfl)).symm

theorem observes_refl (h : w.facade.snapshot.persistence = w.writer.health) : Observes w [] w := by
  have hobserves := Observes.mk (w := w) true
  rw [observeWriterHealth_same h] at hobserves
  have hedge : edge (ingestClass w.writer.health) w.now w.facade w.facade = [] := by
    unfold edge
    cases w.facade.snapshot.persistence <;> rfl
  rw [hedge] at hobserves
  exact hobserves

theorem degrade_recovery (failure : PersistenceFailure) (cls : RuntimeCommandClass) (moment : Moment)
    (hhealthy : p.snapshot.persistence = .healthy) :
    (p.recordFacadeFailure failure cls moment).1.recovery.retryInterval = p.recovery.retryInterval ∧
      (p.recordFacadeFailure failure cls moment).1.recovery.nextProbeAt =
        some (moment.now + p.recovery.retryInterval) := by
  rw [recordFacadeFailure_healthy hhealthy]
  simp only [publish_recovery, logOccurrence_recovery, degradedRecovery]
  split_ifs <;> exact ⟨rfl, rfl⟩

/-- A batch can fail. -/
theorem failed_step (listener : SourceAvailability) (hw : w.Synced) (hserves : Serves w.writer)
    (hhealthy : w.writer.health = .healthy) :
    ∃ l s, World.Step listener w
        (fromWriter l ++ [.degraded sqliteFailure .batch w.now, .told w.writer.commands.length .notCommitted])
        ⟨(w.facade.recordFacadeFailure sqliteFailure .batch ⟨w.now, true⟩).1, s, w.now⟩ ∧
      Serves s ∧ Undrained l ∧ s.health = .degraded sqliteFailure := by
  have hpersistence : w.facade.snapshot.persistence = .healthy := hw.agrees.trans hhealthy
  obtain ⟨l, s, hcall, hserves', hl, hhealth, -⟩ := hserves.call .apply (by simp) (.inl rfl) (.failed .sqlite rfl)
  refine ⟨l, s, ?_, hserves', hl, by rw [hhealth, hhealthy]; rfl⟩
  have hasks : Asks .apply w (fromWriter ([] ++ l ++ [])) (.error sqliteFailure) ⟨w.facade, s, w.now⟩ :=
    .mk (.refl _) hcall (.refl _) le_rfl
  have hfailed := recordFacadeFailure_persistence sqliteFailure .batch ⟨w.now, true⟩ hpersistence
  have hedge : edge .batch w.now w.facade (w.facade.recordFacadeFailure sqliteFailure .batch ⟨w.now, true⟩).1 =
      [.degraded sqliteFailure .batch w.now] := by
    unfold edge
    rw [hpersistence, hfailed]
  have hsubmits : Submits .apply .batch w
      (fromWriter ([] ++ l ++ []) ++
        edge .batch w.now w.facade (w.facade.recordFacadeFailure sqliteFailure .batch ⟨w.now, true⟩).1 ++
        [.told w.writer.commands.length .notCommitted]) .notCommitted
      ⟨(w.facade.recordFacadeFailure sqliteFailure .batch ⟨w.now, true⟩).1, s, w.now⟩ := .mk true hasks
  rw [hedge] at hsubmits
  have hwrites := Writes.sent (.healthy (observes_refl hw.agrees) hpersistence) hsubmits
  simpa using World.Step.apply hwrites

/-- During an outage the next batch probes, when it is time. -/
theorem probed_step (listener : SourceAvailability) (hw : w.Synced) (hserves : Serves w.writer)
    (hdegraded : w.writer.health = .degraded failure) {next : ℕ} (hnext : w.facade.recovery.nextProbeAt = some next)
    (hdue : next ≤ w.now) :
    ∃ l w', World.Step listener w (.probing w.now :: fromWriter l ++ [.recovered, .skipped .batch]) w' ∧
      Undrained l ∧ w'.writer.health = .healthy := by
  obtain ⟨l, s, hcall, -, hl, hhealth, -⟩ := hserves.call .probe (by simp) (.inr ⟨rfl, rfl⟩) (.single (by simp))
  have hpersistence : w.facade.snapshot.persistence = .degraded failure := hw.agrees.trans hdegraded
  have hhealthy : s.health = .healthy := by
    rw [hhealth, hdegraded]
    rfl
  have hasks : Asks .probe w (fromWriter ([] ++ l ++ [])) (.ok ()) ⟨w.facade, s, w.now⟩ :=
    .mk (.refl _) hcall (.refl _) le_rfl
  have hobserves : Observes ⟨w.facade, s, w.now⟩ _ ⟨w.facade.observeWriterHealth s.health ⟨w.now, true⟩, s, w.now⟩ :=
    .mk true
  obtain ⟨-, -, hrecovered, -⟩ := hobserves.recover hpersistence hhealthy
  rw [hrecovered] at hobserves
  have hunhealthy : w.facade.snapshot.persistence ≠ .healthy := by simp [hpersistence]
  have hprobe := DriveProbeIfDue.due hnext hdue hasks hobserves le_rfl
  rw [if_neg (by simp)] at hprobe
  have hskips := SkipIfDegraded.batch (observes_refl hw.agrees) hunhealthy hprobe
  refine ⟨l, ⟨(w.facade.observeWriterHealth s.health ⟨w.now, true⟩).recordSkip .batch, s, w.now⟩, ?_, hl, hhealthy⟩
  simpa using World.Step.apply (.skipped hskips)

/-- What happens when a batch fails, and the next one probes after the interval. -/
def outageLabels (l l' : List (ℕ × Event)) : List Label :=
  fromWriter l ++ .degraded sqliteFailure .batch 0 :: ([.told 1 .notCommitted] ++
    .probing 10 :: (fromWriter l' ++ [.recovered, .skipped .batch]))

theorem reached_outage : ∃ l l' w, World.Reached listening 10 (outageLabels l l') w ∧ Undrained (l ++ l') ∧
    w.writer.health = .healthy := by
  have hnone : Serves {} := ⟨rfl, by simp⟩
  obtain ⟨l₀, s₀, hcall, hserves, hl₀, hhealth, hlength⟩ :=
    hnone.call .replaceOwner (by simp) (.inr ⟨rfl, rfl⟩) (.single (by simp))
  have hhealthy : s₀.health = .healthy := hhealth
  obtain ⟨hrested, -⟩ := rested_empty.call rfl rfl hcall
  have hsynced : World.Synced ⟨new s₀.health listening 10, s₀, 0⟩ := ⟨hrested, rfl⟩
  obtain ⟨l₁, s₁, hfails, hserves₁, hl₁, hdegraded⟩ := failed_step .available hsynced hserves hhealthy
  have hwait : World.Step .available
      ⟨((new s₀.health listening 10).recordFacadeFailure sqliteFailure .batch ⟨0, true⟩).1, s₁, 0⟩ []
      ⟨((new s₀.health listening 10).recordFacadeFailure sqliteFailure .batch ⟨0, true⟩).1, s₁, 10⟩ := .tick (by simp)
  have hnext := (degrade_recovery (p := new s₀.health listening 10) sqliteFailure .batch ⟨0, true⟩ hhealthy).2
  obtain ⟨l₂, w, hprobes, hl₂, hrecovered⟩ :=
    probed_step .available (hwait.sound (hfails.sound hsynced).1).1 hserves₁ hdegraded hnext (by simp [new])
  refine ⟨l₀ ++ l₁, l₂, w, ?_, ?_, hrecovered⟩
  · have hreached : World.Reached listening 10 _ w := .mk hcall (((Runs.one hfails).tail hwait).tail hprobes)
    simpa [outageLabels, hlength, fromWriter_append] using hreached
  · intro label hlabel
    rcases List.mem_append.mp hlabel with hlabel | hlabel
    · exact (List.mem_append.mp hlabel).elim (hl₀ label) (hl₁ label)
    · exact hl₂ label hlabel

/-! ### The input of the Controller -/

/-- The input during an outage that began while it was this one. -/
def outageInput (input : ControllerInputStatus) : ControllerInputStatus :=
  if input = .available then .unavailable .persistenceUnavailable else input

/-- The facade keeps what it knew of the input before the outages, and that the acceptor stopped. -/
structure InputKept (listener : SourceAvailability) (stopped : Bool) (p : RuntimePersistence) : Prop where
  published : p.published = p.snapshot
  healthy : p.snapshot.persistence = .healthy → p.recovery.acceptorStopPending = false ∧
    p.snapshot.controllerInput =
      if stopped then .unavailable .acceptorStopped else controllerInputFromCoverage listener
  degraded : p.snapshot.persistence ≠ .healthy → p.recovery.acceptorStopPending = stopped ∧
    (p.snapshot.controllerInput = .unavailable .acceptorStopped ∧ stopped = true ∨
      p.snapshot.controllerInput = outageInput (controllerInputFromCoverage listener))
  coverage : controllerCoverage p.snapshot.sourceCoverage =
    some (if p.snapshot.controllerInput = .available then .available else .unavailable)

theorem controllerInputFromCoverage_ne (listener : SourceAvailability) :
    controllerInputFromCoverage listener ≠ .unavailable .acceptorStopped ∧
      controllerInputFromCoverage listener ≠ .unavailable .persistenceUnavailable := by
  cases listener with
  | available => simp [controllerInputFromCoverage]
  | notApplicable => simp [controllerInputFromCoverage]
  | unavailable detail =>
    simp only [controllerInputFromCoverage]
    split_ifs <;> simp

theorem outageInput_ne (input : ControllerInputStatus) : outageInput input ≠ .available := by
  unfold outageInput
  split_ifs with h
  · simp
  · exact h

theorem inputKept_new (coverage : SourceCoverageRegistry) (retryInterval : ℕ) :
    InputKept coverage.controller false (new .healthy coverage retryInterval) := by
  refine ⟨rfl, fun _ => ⟨rfl, rfl⟩, fun h => absurd rfl h, ?_⟩
  show controllerCoverage (diagnosticSourceCoverage coverage (controllerInputFromCoverage coverage.controller)) = _
  rw [controllerCoverage_diagnostic]
  show _ = some (if controllerInputFromCoverage coverage.controller = .available then _ else _)
  simp [controllerInputFromCoverage_available]

/-- Nothing that the facade keeps of the input changes. -/
theorem InputKept.congr {stopped : Bool} (h : InputKept listener stopped p) (hpublished : p'.published = p'.snapshot)
    (hpersistence : p'.snapshot.persistence = p.snapshot.persistence)
    (hinput : p'.snapshot.controllerInput = p.snapshot.controllerInput)
    (hpending : p'.recovery.acceptorStopPending = p.recovery.acceptorStopPending)
    (hcoverage : p'.snapshot.sourceCoverage = p.snapshot.sourceCoverage) : InputKept listener stopped p' := by
  refine ⟨hpublished, ?_, ?_, ?_⟩
  · rw [hpersistence, hinput, hpending]
    exact h.healthy
  · rw [hpersistence, hinput, hpending]
    exact h.degraded
  · rw [hcoverage, hinput]
    exact h.coverage

theorem InputKept.degrade {stopped : Bool} (h : InputKept listener stopped p)
    (hhealthy : p.snapshot.persistence = .healthy) :
    InputKept listener stopped (p.recordFacadeFailure failure cls moment).1 := by
  obtain ⟨hpending, hinput⟩ := h.healthy hhealthy
  have hpersistence := recordFacadeFailure_persistence failure cls moment hhealthy
  have hne := (controllerInputFromCoverage_ne listener).1
  refine ⟨?_, ?_, fun _ => ?_, ?_⟩
  · rw [recordFacadeFailure_healthy hhealthy]
    rfl
  · intro hhealthy'
    rw [hpersistence] at hhealthy'
    cases hhealthy'
  · rw [recordFacadeFailure_healthy hhealthy]
    simp only [publish_recovery, publish_snapshot, logOccurrence_recovery, logOccurrence_controllerInput,
      degradedSnapshot_controllerInput, degradedRecovery, hinput]
    cases stopped with
    | true => simp
    | false => simp [hne, PersistenceRecovery.armCooldown, hpending, outageInput]
  · rw [recordFacadeFailure_healthy hhealthy]
    simp only [publish_snapshot, logOccurrence_controllerInput, logOccurrence_sourceCoverage,
      degradedSnapshot_controllerInput, degradedSnapshot_sourceCoverage, setControllerCoverageUnavailable,
      controllerCoverage_set, h.coverage]
    by_cases havailable : p.snapshot.controllerInput = .available <;> simp [havailable]

theorem InputKept.recover {stopped : Bool} (h : InputKept listener stopped p)
    (hdegraded : p.snapshot.persistence ≠ .healthy) :
    InputKept listener stopped (p.observeWriterHealth .healthy moment) := by
  obtain ⟨hpending, hinput⟩ := h.degraded hdegraded
  obtain ⟨hne, hne'⟩ := controllerInputFromCoverage_ne listener
  rw [observeWriterHealth_recovered hdegraded]
  refine ⟨rfl, fun _ => ⟨rfl, ?_⟩, fun hunhealthy => absurd rfl hunhealthy, ?_⟩
  · show p.recoveredInput = _
    unfold recoveredInput
    rw [hpending]
    cases stopped with
    | true => simp
    | false =>
      obtain ⟨-, hfalse⟩ | hinput := hinput
      · cases hfalse
      · rw [hinput]
        unfold outageInput
        by_cases havailable : controllerInputFromCoverage listener = .available
        · simp [havailable]
        · simp [havailable, hne']
  · show controllerCoverage (if p.recoveredInput = .available then _ else _) =
      some (if p.recoveredInput = .available then _ else _)
    split_ifs
    · rw [setControllerCoverageAvailable, controllerCoverage_set, h.coverage]
      rfl
    · rw [setControllerCoverageUnavailable, controllerCoverage_set, h.coverage]
      rfl

theorem InputKept.stop {stopped : Bool} (h : InputKept listener stopped p) :
    InputKept listener true p.markAcceptorStopped := by
  unfold markAcceptorStopped
  split_ifs with hhealthy
  · refine ⟨rfl, fun _ => ⟨(h.healthy hhealthy).1, rfl⟩, fun hunhealthy => absurd hhealthy hunhealthy, ?_⟩
    show controllerCoverage (setControllerCoverageUnavailable p.snapshot.sourceCoverage) = _
    rw [setControllerCoverageUnavailable, controllerCoverage_set, h.coverage]
    rfl
  · refine ⟨h.published, fun hhealthy' => absurd hhealthy' hhealthy, fun _ => ⟨rfl, ?_⟩, h.coverage⟩
    exact (h.degraded hhealthy).2.imp_left fun hinput => ⟨hinput.1, rfl⟩

theorem InputKept.refresh {stopped : Bool} {coverage : SourceCoverageRegistry} (h : InputKept listener stopped p)
    (hlistener : coverage.controller = listener) : InputKept listener stopped (p.refreshSnapshot coverage) := by
  refine ⟨rfl, h.healthy, h.degraded, ?_⟩
  show controllerCoverage (diagnosticSourceCoverage coverage p.snapshot.controllerInput) =
    some (if p.snapshot.controllerInput = .available then _ else _)
  rw [controllerCoverage_diagnostic, hlistener]
  -- an input that is available is that of a listener that is
  have hlistens : p.snapshot.controllerInput = .available → listener = .available := by
    intro havailable
    by_cases hhealthy : p.snapshot.persistence = .healthy
    · have hinput := (h.healthy hhealthy).2
      rw [havailable] at hinput
      split_ifs at hinput
      exact controllerInputFromCoverage_available.mp hinput.symm
    · rcases (h.degraded hhealthy).2 with ⟨hinput, -⟩ | hinput
      · rw [havailable] at hinput
        cases hinput
      · rw [havailable] at hinput
        exact absurd hinput.symm (outageInput_ne _)
  by_cases havailable : p.snapshot.controllerInput = .available
  · simp [havailable, hlistens havailable]
  · simp [havailable]

theorem not_stopped_fromWriter (ls : List (ℕ × Event)) : Label.acceptorStopped ∉ fromWriter ls := by
  simp [fromWriter]

theorem InputKept.beat {stopped : Bool} (h : InputKept listener stopped p) (hbeat : Beat listener claims p l p') :
    InputKept listener (stopped || decide (.acceptorStopped ∈ l)) p' := by
  cases hbeat with
  | writer => simpa [not_stopped_fromWriter] using h
  | degrade moment hhealthy => simpa using h.degrade hhealthy
  | probeFailed =>
    simp only [List.mem_cons, reduceCtorEq, not_stopped_fromWriter, or_self, decide_false, Bool.or_false]
    exact h.congr h.published rfl rfl rfl rfl
  | probed hdegraded =>
    simp only [List.mem_append, List.mem_cons, reduceCtorEq, not_stopped_fromWriter, List.not_mem_nil, or_self,
      decide_false, Bool.or_false]
    exact h.recover hdegraded
  | told => simpa using h
  | @skip cls =>
    simp only [List.mem_cons, reduceCtorEq, List.not_mem_nil, or_self, decide_false, Bool.or_false]
    cases cls <;> exact h.congr rfl rfl rfl rfl rfl
  | skipEnqueue =>
    simp only [List.mem_cons, reduceCtorEq, List.not_mem_nil, or_self, decide_false, Bool.or_false]
    exact h.congr rfl rfl rfl rfl rfl
  | refresh hlistener => simpa using h.refresh hlistener
  | stop => simpa using h.stop
  | claim =>
    simp only [List.not_mem_nil, decide_false, Bool.or_false]
    exact h.congr h.published rfl rfl rfl rfl
  | mark outcome =>
    simp only [List.mem_cons, reduceCtorEq, List.not_mem_nil, or_self, decide_false, Bool.or_false]
    split_ifs
    · exact h
    · exact h.congr h.published rfl rfl rfl rfl

theorem InputKept.run (h : InputKept listener false p) (hruns : Runs (Beat listener claims) p ls p') :
    InputKept listener (decide (.acceptorStopped ∈ ls)) p' := by
  induction hruns with
  | refl => simpa using h
  | tail _ hbeat ih => simpa using ih.beat hbeat

/-- In every run, between two operations: those who watch the diagnostics see the health of the writer. While it is
fine they see the input of the Controller as it was when the collector started, unless the acceptor has stopped, which
no outage makes forgotten. During an outage no input is available, and none is available again that was not before. The
coverage of the Controller says whether the input is available. -/
theorem status_published (h : World.Reached coverage retryInterval ls w) :
    w.facade.published.persistence = w.writer.health ∧
    (w.writer.health = .healthy → w.facade.published.controllerInput =
      if .acceptorStopped ∈ ls then .unavailable .acceptorStopped
      else controllerInputFromCoverage coverage.controller) ∧
    (w.writer.health ≠ .healthy → w.facade.published.controllerInput ≠ .available ∧
      (.acceptorStopped ∉ ls →
        w.facade.published.controllerInput = outageInput (controllerInputFromCoverage coverage.controller))) ∧
    controllerCoverage w.facade.published.sourceCoverage =
      some (if w.facade.published.controllerInput = .available then .available else .unavailable) := by
  obtain ⟨hsynced, l, ls', rfl, -, hbeats⟩ := h.sound
  have hkept := (inputKept_new coverage retryInterval).run hbeats
  have hstopped : Label.acceptorStopped ∈ fromWriter l ++ ls' ↔ Label.acceptorStopped ∈ ls' := by
    simp [not_stopped_fromWriter]
  simp only [hkept.published, hstopped]
  refine ⟨hsynced.agrees, ?_, ?_, hkept.coverage⟩
  · intro hhealth
    simpa using (hkept.healthy (hsynced.agrees.trans hhealth)).2
  · intro hhealth
    rw [← hsynced.agrees] at hhealth
    rcases (hkept.degraded hhealth).2 with ⟨hinput, hstopped⟩ | hinput
    · refine ⟨by simp [hinput], fun hnot => ?_⟩
      simp [hnot] at hstopped
    · exact ⟨hinput ▸ outageInput_ne _, fun _ => hinput⟩

theorem status_published_outage : ∃ ls w, World.Reached listening 10 ls w ∧ .recovered ∈ ls ∧
    w.facade.published.controllerInput = .available := by
  obtain ⟨l, l', w, h, -, hhealth⟩ := reached_outage
  refine ⟨_, w, h, by simp [outageLabels], ?_⟩
  have hinput := (status_published h).2.1 hhealth
  rwa [if_neg (by simp [outageLabels, not_stopped_fromWriter])] at hinput

/-! ### What the outcomes tell -/

/-- The event of the writer that a label tells of. -/
def Label.writerEvent : Label → Option (ℕ × Event)
  | .writer id event => some (id, event)
  | _ => none

/-- The events of the writer among the labels. -/
def writerEvents (ls : List Label) : List (ℕ × Event) := ls.filterMap Label.writerEvent

@[simp] theorem writerEvents_nil : writerEvents [] = [] := rfl

@[simp] theorem writerEvents_append (ls ls' : List Label) :
    writerEvents (ls ++ ls') = writerEvents ls ++ writerEvents ls' := by
  simp [writerEvents]

@[simp] theorem writerEvents_fromWriter (ls : List (ℕ × Event)) : writerEvents (fromWriter ls) = ls := by
  induction ls with
  | nil => rfl
  | cons label ls ih =>
    show label :: writerEvents (fromWriter ls) = _
    rw [ih]

theorem not_told_fromWriter (ls : List (ℕ × Event)) (id : ℕ) (outcome : RuntimeWriteOutcome) :
    Label.told id outcome ∉ fromWriter ls := by
  simp [fromWriter]

/-- What an outcome says about the store. A drain that is completed and whose page cannot be read is taken for one
that is not. -/
def Truthful (events : List (ℕ × Event)) (s : System) (id : ℕ) (outcome : RuntimeWriteOutcome) : Prop :=
  (outcome.isCommitted = true → Stored id events) ∧
    (outcome = .notCommitted → Settled id .untouched s ∨ ∃ failure, Unread id failure events)

theorem Unread.append {events : List (ℕ × Event)} (h : Unread id failure events) (l : List (ℕ × Event)) :
    Unread id failure (events ++ l) :=
  ⟨List.mem_append_left _ h.1, List.mem_append_left _ h.2.1, List.mem_append_left _ h.2.2⟩

theorem Truthful.runs {events l : List (ℕ × Event)} {s s' : System} (h : Truthful events s id outcome)
    (hruns : Runs Acknowledgement.Step s l s') : Truthful (events ++ l) s' id outcome := by
  constructor
  · intro hcommitted
    exact (h.1 hcommitted).imp (List.mem_append_left _) (List.mem_append_left _)
  · intro hnot
    refine (h.2 hnot).imp (fun hsettled => ?_) (Exists.imp fun failure hunread => Unread.append hunread _)
    exact hruns.invariant (fun hstep hs => hs.step hstep) hsettled

variable {past : List (ℕ × Event)} {s₀ : System}

/-- All outcomes since some state of the writer are true. -/
structure Tells (past : List (ℕ × Event)) (s₀ : System) (ls : List Label) (w : World) : Prop where
  start : Traced past s₀
  runs : Runs Acknowledgement.Step s₀ (writerEvents ls) w.writer
  told : ∀ {id outcome}, .told id outcome ∈ ls → Truthful (past ++ writerEvents ls) w.writer id outcome

theorem Tells.traced (h : Tells past s₀ ls w) : Traced (past ++ writerEvents ls) w.writer := h.start.runs h.runs

theorem tells_start (h : Traced past s₀) (hwriter : w.writer = s₀) : Tells past s₀ [] w :=
  ⟨h, hwriter ▸ .refl _, fun hmem => absurd hmem List.not_mem_nil⟩

/-- Work of the writer. -/
theorem Tells.work (h : Tells past s₀ ls w) (hruns : Runs Acknowledgement.Step w.writer (writerEvents l) w'.writer)
    (hnone : ∀ id outcome, .told id outcome ∉ l) : Tells past s₀ (ls ++ l) w' := by
  refine ⟨h.start, ?_, ?_⟩
  · rw [writerEvents_append]
    exact h.runs.trans hruns
  · intro id outcome hmem
    rw [writerEvents_append, ← List.append_assoc]
    rcases List.mem_append.mp hmem with hmem | hmem
    · exact (h.told hmem).runs hruns
    · exact absurd hmem (hnone id outcome)

/-- Labels of the facade only. -/
theorem Tells.tell (h : Tells past s₀ ls w) (hwriter : w'.writer = w.writer) (hevents : writerEvents l = [])
    (htold : ∀ id outcome, .told id outcome ∈ l → Truthful (past ++ writerEvents ls) w.writer id outcome) :
    Tells past s₀ (ls ++ l) w' := by
  refine ⟨h.start, ?_, ?_⟩
  · rw [writerEvents_append, hevents, List.append_nil, hwriter]
    exact h.runs
  · intro id outcome hmem
    rw [writerEvents_append, hevents, List.append_nil, hwriter]
    rcases List.mem_append.mp hmem with hmem | hmem
    · exact h.told hmem
    · exact htold id outcome hmem

theorem edge_quiet (cls : RuntimeCommandClass) (now : ℕ) (p p' : RuntimePersistence) :
    writerEvents (edge cls now p p') = [] ∧ ∀ id outcome, .told id outcome ∉ edge cls now p p' := by
  unfold edge
  cases p.snapshot.persistence <;> cases p'.snapshot.persistence <;> simp [writerEvents, Label.writerEvent]

theorem asks_runs {reply : Reply} (h : Asks kind w l reply w') :
    Runs Acknowledgement.Step w.writer (writerEvents l) w'.writer ∧ ∀ id outcome, .told id outcome ∉ l := by
  cases h with
  | mk h₁ h₂ h₃ =>
    rw [writerEvents_fromWriter]
    exact ⟨((Working.runs h₁).trans h₂.runs).trans (Working.runs h₃), not_told_fromWriter _⟩

theorem working_length {s s' : System} {ls : List (ℕ × Event)} (h : Runs Working s ls s') :
    s'.commands.length = s.commands.length := by
  refine h.invariant (I := fun s' => s'.commands.length = s.commands.length) ?_ rfl
  intro u l v hstep hu
  rcases hstep.moves with ⟨hcommands, -⟩ | ⟨id, c, c', -, hcommands, -⟩
  · rw [hcommands, hu]
  · rw [hcommands, List.length_set, hu]

/-- The outcome that a reply stands for is true if the reply is. -/
theorem truthful_classify (p : RuntimePersistence) (cls : RuntimeCommandClass) (moment : Moment)
    {events : List (ℕ × Event)} {s : System} {reply : Reply}
    (hok : reply = .ok () → Stored id events)
    (herror : ∀ failure, reply = .error failure → failure.durability = .committed ∧ Stored id events ∨
      failure.durability = .unknown ∨
      failure.durability = .notCommitted ∧ (Settled id .untouched s ∨ Unread id failure events)) :
    Truthful events s id (p.classifyResult reply cls moment).2 := by
  cases reply with
  | ok => exact ⟨fun _ => hok rfl, by simp [classifyResult]⟩
  | error failure =>
    show Truthful events s id (outcomeOfFailure failure)
    unfold outcomeOfFailure
    rcases herror failure rfl with ⟨hdurability, hstored⟩ | hdurability | ⟨hdurability, hnot⟩
    · rw [hdurability]
      exact ⟨fun _ => hstored, by simp⟩
    · rw [hdurability]
      exact ⟨by simp [RuntimeWriteOutcome.isCommitted], by simp⟩
    · rw [hdurability]
      exact ⟨by simp [RuntimeWriteOutcome.isCommitted], fun _ => hnot.imp_right fun hunread => ⟨failure, hunread⟩⟩

/-- A command that was sent while all was well, and its outcome. -/
theorem submits_tells (h : Submits kind cls w l outcome w') (hw : w.Synced)
    (hhealthy : w.facade.snapshot.persistence = .healthy) (honly : kind.responseOnly = false)
    (hkind : kind.transacts = true) (ht : Tells past s₀ ls w) : Tells past s₀ (ls ++ l) w' := by
  cases h with
  | @mk w₁ l reply logTakes hasks =>
    obtain ⟨hruns, hnone⟩ := asks_runs hasks
    have ht₁ : Tells past s₀ (ls ++ l) w₁ := ht.work hruns hnone
    cases hasks with
    | @mk ls₁ ls₂ ls₃ _ s₁ s₂ s₃ now h₁ h₂ h₃ hnow =>
      have hlength : s₁.commands.length = w.writer.commands.length := working_length h₁
      obtain ⟨hrested, hhealth⟩ := rested_runs h₁ hw.rested
      have hanswer := Call.told (ht.traced.runs (Working.runs h₁)) hrested
        (hhealth.trans (hw.agrees.symm.trans hhealthy)) honly hkind h₂
      rw [hlength] at hanswer
      have htruth := truthful_classify w.facade cls ⟨now, logTakes⟩ hanswer.1 hanswer.2
      have htruth₃ := htruth.runs (Working.runs h₃)
      obtain ⟨hevents, hedge⟩ :=
        edge_quiet cls now w.facade (w.facade.classifyResult reply cls ⟨now, logTakes⟩).1
      rw [List.append_assoc, ← List.append_assoc ls]
      refine ht₁.tell rfl ?_ ?_
      · rw [writerEvents_append, hevents]
        rfl
      · intro id outcome hmem
        rcases List.mem_append.mp hmem with hmem | hmem
        · exact absurd hmem (hedge id outcome)
        · obtain ⟨rfl, rfl⟩ := Label.told.inj (List.mem_singleton.mp hmem)
          simpa using htruth₃

theorem drive_tells (h : DriveProbeIfDue w l w') (ht : Tells past s₀ ls w) : Tells past s₀ (ls ++ l) w' := by
  cases h with
  | early => simpa using ht
  | @due w₁ w₂ next now ls₁ ls₂ reply hnext hdue hasks hobserves hnow =>
    obtain ⟨hruns, hnone⟩ := asks_runs hasks
    have hprobing : Tells past s₀ (ls ++ [.probing w.now]) w := ht.tell rfl rfl (by simp)
    have ht₁ : Tells past s₀ (ls ++ [.probing w.now] ++ ls₁) w₁ := hprobing.work hruns hnone
    have hobserved : w₂.writer = w₁.writer ∧ writerEvents ls₂ = [] ∧ ∀ id outcome, .told id outcome ∉ ls₂ := by
      cases hobserves
      exact ⟨rfl, edge_quiet _ _ _ _⟩
    obtain ⟨hwriter, hevents, hquiet⟩ := hobserved
    have hlabels : ls ++ (.probing w.now :: ls₁ ++ ls₂) = ls ++ [.probing w.now] ++ ls₁ ++ ls₂ := by simp
    rw [hlabels]
    refine ht₁.tell ?_ hevents fun id outcome hmem => absurd hmem (hquiet id outcome)
    split_ifs <;> exact hwriter

theorem writes_tells (h : Writes kind cls w l outcome w') (hw : w.Synced) (honly : kind.responseOnly = false)
    (hkind : kind.transacts = true) (ht : Tells past s₀ ls w) : Tells past s₀ (ls ++ l) w' := by
  cases h with
  | sent hskip hsubmits =>
    obtain ⟨rfl, rfl, hhealthy⟩ := hskip.healthy_sound hw
    exact submits_tells hsubmits hw hhealthy honly hkind ht
  | skipped hskip =>
    cases hskip with
    | batch hobserves _ hprobe =>
      obtain ⟨rfl, rfl⟩ := hobserves.synced hw.agrees
      rw [List.nil_append, ← List.append_assoc]
      exact (drive_tells hprobe ht).tell rfl rfl (by simp)
    | ownerLocation hobserves =>
      obtain ⟨rfl, rfl⟩ := hobserves.synced hw.agrees
      exact ht.tell rfl rfl (by simp)

theorem enqueues_tells (h : Enqueues w l w') (hw : w.Synced) (ht : Tells past s₀ ls w) :
    Tells past s₀ (ls ++ l) w' := by
  cases h with
  | degraded hobserves =>
    obtain ⟨rfl, rfl⟩ := hobserves.synced hw.agrees
    exact ht.tell rfl rfl (by simp)
  | full hobserves _ _ hobserves' =>
    obtain ⟨rfl, rfl⟩ := hobserves.synced hw.agrees
    obtain ⟨rfl, rfl⟩ := hobserves'.synced hw.agrees
    exact ht.tell rfl rfl (by simp)
  | permit hobserves hhealthy _ hsubmits =>
    obtain ⟨rfl, rfl⟩ := hobserves.synced hw.agrees
    exact submits_tells hsubmits hw hhealthy rfl rfl ht
  | @closed w₁ w₂ ls₁ ls₂ events s hobserves hhealthy hruns hhealth hstopped hobserves' =>
    obtain ⟨rfl, rfl⟩ := hobserves.synced hw.agrees
    have hrefused : Tells past s₀ (ls ++ fromWriter (events ++ [(s.commands.length, .refused .apply)]))
        { w₁ with writer := s.add ⟨.apply, .refused, .returned⟩ (s.health.publishFailure (queueFailure .apply)) } := by
      refine ht.work ?_ (not_told_fromWriter _)
      rw [writerEvents_fromWriter]
      exact (Working.runs hruns).tail (.refusePlace hstopped)
    have hobserved : w₂.writer = s.add ⟨.apply, .refused, .returned⟩ (s.health.publishFailure (queueFailure .apply)) ∧
        writerEvents ls₂ = [] ∧ ∀ id outcome, .told id outcome ∉ ls₂ := by
      cases hobserves'
      exact ⟨rfl, edge_quiet _ _ _ _⟩
    obtain ⟨hwriter, hevents, hquiet⟩ := hobserved
    rw [List.nil_append, List.append_assoc, ← List.append_assoc]
    refine hrefused.tell hwriter ?_ ?_
    · rw [writerEvents_append, hevents]
      rfl
    · intro id outcome hmem
      rcases List.mem_append.mp hmem with hmem | hmem
      · exact absurd hmem (hquiet id outcome)
      · simp at hmem

theorem step_tells (h : World.Step listener w l w') (hw : w.Synced) (ht : Tells past s₀ ls w) :
    Tells past s₀ (ls ++ l) w' := by
  cases h with
  | work hstep =>
    refine ht.work ?_ (not_told_fromWriter _)
    rw [writerEvents_fromWriter]
    exact .one hstep.1
  | tick => exact ht.tell rfl rfl (by simp)
  | observe hobserves =>
    obtain ⟨rfl, rfl⟩ := hobserves.synced hw.agrees
    exact ht.tell rfl rfl (by simp)
  | apply hwrites => exact writes_tells hwrites hw rfl rfl ht
  | applyV6 hwrites => exact writes_tells hwrites hw rfl rfl ht
  | cleanup hwrites => exact writes_tells hwrites hw rfl rfl ht
  | updateOwnerLocation hwrites => exact writes_tells hwrites hw rfl rfl ht
  | enqueue henqueues => exact enqueues_tells henqueues hw ht
  | refresh => exact ht.tell rfl rfl (by simp)
  | acceptorStopped => exact ht.tell rfl rfl (by simp)
  | finalize hfinalize =>
    cases hfinalize with
    | done hwrites => exact writes_tells hwrites hw rfl rfl ht
    | readBack hwrites _ hasks =>
      obtain ⟨hruns, hnone⟩ := asks_runs hasks
      rw [← List.append_assoc]
      exact (writes_tells hwrites hw rfl rfl ht).work hruns hnone
  | marker hmarker =>
    cases hmarker with
    | notPending => simpa using ht
    | @pending w₁ l outcome _ hwrites =>
      have hclaimed : Tells past s₀ ls { w with facade := w.facade.setMarkerPending false } :=
        ⟨ht.start, ht.runs, ht.told⟩
      have ht₁ := writes_tells hwrites ⟨hw.rested, hw.agrees⟩ rfl rfl hclaimed
      rw [← List.append_assoc]
      refine ht₁.tell ?_ rfl (by simp)
      split_ifs <;> rfl

theorem runs_tells (h : Runs (World.Step listener) w l w') (hw : w.Synced) (ht : Tells past s₀ ls w) :
    w'.Synced ∧ Tells past s₀ (ls ++ l) w' := by
  induction h with
  | refl => exact ⟨hw, by simpa using ht⟩
  | tail _ hstep ih =>
    obtain ⟨hsynced, htells⟩ := ih
    rw [← List.append_assoc]
    exact ⟨(hstep.sound hsynced).1, step_tells hstep hsynced htells⟩

theorem reached_tells (h : World.Reached coverage retryInterval ls w) : w.Synced ∧ Tells [] {} ls w := by
  cases h with
  | @mk l ls' s now w hcall hruns =>
    obtain ⟨hrested, _, -, -, hok, -⟩ := rested_empty.call rfl rfl hcall
    have hstart : World.Synced ⟨new s.health coverage retryInterval, s, now⟩ := ⟨hrested, rfl⟩
    refine runs_tells hruns hstart ⟨traced (.refl _), ?_, fun hmem => absurd hmem (not_told_fromWriter _ _ _)⟩
    rw [writerEvents_fromWriter]
    exact hcall.runs

/-- The facade tells the truth about every write, in every run, whatever the thread of the writer does meanwhile and
also across outages: what it calls durable, or committed, is in the store, and what it calls not committed is not
there, and never will be. The only exception is a drain that was completed and whose page could not be read. -/
theorem outcomes_told {later : List Label} (h : World.Reached coverage retryInterval ls w) (hmem : .told id outcome ∈ ls)
    (hlater : Runs (World.Step coverage.controller) w later w') :
    (outcome.isCommitted = true → Stored id (writerEvents ls)) ∧
      (outcome = .notCommitted → (¬∃ failure, Unread id failure (writerEvents ls)) →
        ¬ Stored id (writerEvents (ls ++ later))) := by
  obtain ⟨hsynced, htells⟩ := reached_tells h
  obtain ⟨hcommitted, hnot⟩ := htells.told hmem
  refine ⟨hcommitted, fun houtcome hread hstored => ?_⟩
  have hsettled := (hnot houtcome).resolve_right hread
  have hruns := (runs_tells hlater hsynced (tells_start htells.traced rfl)).2.runs
  obtain ⟨hcommitted, hrecognized⟩ := never_durable htells.traced hsettled hruns
  rw [writerEvents_append] at hstored
  exact hstored.elim hcommitted hrecognized

theorem outcomes_told_outage : ∃ ls w, World.Reached listening 10 ls w ∧ .told 1 .notCommitted ∈ ls ∧
    ¬ Stored 1 (writerEvents ls) := by
  obtain ⟨l, l', w, h, hdrain, -⟩ := reached_outage
  refine ⟨_, w, h, by simp [outageLabels], ?_⟩
  have hmem : .told 1 .notCommitted ∈ outageLabels l l' := by simp [outageLabels]
  have htold := (outcomes_told h hmem (.refl _)).2 rfl
  have hevents : writerEvents (outageLabels l l') = l ++ l' := by
    show writerEvents (fromWriter l ++ _) = _
    rw [writerEvents_append, writerEvents_fromWriter]
    show l ++ writerEvents (fromWriter l' ++ _) = _
    rw [writerEvents_append, writerEvents_fromWriter]
    simp [writerEvents, Label.writerEvent]
  rw [hevents, List.append_nil, hevents] at htold
  rw [hevents]
  refine htold ?_
  rintro ⟨failure, hsent, -⟩
  exact hdrain _ hsent rfl

/-! ### Outages -/

/-- Watches what the writer is asked for. The state is the time before which there is no probe, during an outage. -/
def outageMonitor (retryInterval : ℕ) : Monitor Label (Option ℕ) where
  next
    | none, .degraded _ _ now => some (some (now + retryInterval))
    | none, .probing _ | none, .recovered => none
    | none, .writer _ event => if ∀ kind ∈ commandKind event, kind.responseOnly = false then some none else none
    | some _, .degraded _ _ _ => none
    | some earliest, .probing now => if earliest ≤ now then some (some (now + retryInterval)) else none
    | some _, .recovered => some none
    | some earliest, .writer _ event =>
      if ∀ kind ∈ commandKind event, kind = .probe ∨ kind = .historyDrainFinalization then some (some earliest)
      else none
    | q, _ => some q

/-- What the monitor knows of the facade. -/
def Watched (retryInterval : ℕ) (p : RuntimePersistence) (q : Option ℕ) : Prop :=
  p.recovery.retryInterval = retryInterval ∧
    (p.snapshot.persistence = .healthy ∧ q = none ∨
      p.snapshot.persistence ≠ .healthy ∧ ∃ earliest next, q = some earliest ∧
        p.recovery.nextProbeAt = some next ∧ earliest ≤ next)

/-- Events of the writer that send nothing but what is allowed. -/
theorem watch_fromWriter {q : Option ℕ} {l : List (ℕ × Event)}
    (h : ∀ label ∈ l, ∀ kind, commandKind label.2 = some kind → (q = none ∧ kind.responseOnly = false) ∨
      q ≠ none ∧ (kind = .probe ∨ kind = .historyDrainFinalization)) :
    (outageMonitor retryInterval).watch q (fromWriter l) = some q := by
  induction l with
  | nil => rfl
  | cons label l ih =>
    refine Monitor.watch_cons.mpr ⟨q, ?_, ih fun label hlabel => h label (List.mem_cons_of_mem _ hlabel)⟩
    have hlabel := h label List.mem_cons_self
    cases q with
    | none =>
      refine if_pos fun kind hkind => ?_
      simpa using hlabel kind hkind
    | some earliest =>
      refine if_pos fun kind hkind => ?_
      simpa using hlabel kind hkind

/-- Nothing that the monitor watches changes. -/
theorem Watched.congr {q : Option ℕ} (h : Watched retryInterval p q)
    (hpersistence : p'.snapshot.persistence = p.snapshot.persistence)
    (hinterval : p'.recovery.retryInterval = p.recovery.retryInterval)
    (hnext : p'.recovery.nextProbeAt = p.recovery.nextProbeAt) : Watched retryInterval p' q := by
  unfold Watched
  rw [hpersistence, hinterval, hnext]
  exact h

/-- One label that the monitor lets pass. -/
theorem watch_one {q q' : Option ℕ} {label : Label} (h : (outageMonitor retryInterval).next q label = some q') :
    (outageMonitor retryInterval).watch q [label] = some q' :=
  Monitor.watch_cons.mpr ⟨q', h, rfl⟩

/-- A probe that is due, with what the writer does meanwhile. -/
theorem watch_probe {earliest next now : ℕ} {l : List (ℕ × Event)} (hearliest : earliest ≤ next) (hdue : next ≤ now)
    (hl : ∀ label ∈ l, ∀ kind, commandKind label.2 = some kind → kind = .probe) :
    (outageMonitor retryInterval).watch (some earliest) (.probing now :: fromWriter l) =
      some (some (now + retryInterval)) := by
  refine Monitor.watch_cons.mpr ⟨some (now + retryInterval), if_pos (by omega), watch_fromWriter ?_⟩
  intro label hlabel kind hkind
  exact .inr ⟨by simp, .inl (hl label hlabel kind hkind)⟩

theorem watched_beat {q : Option ℕ} (h : Beat listener claims p l p') (hq : Watched retryInterval p q) :
    ∃ q', (outageMonitor retryInterval).watch q l = some q' ∧ Watched retryInterval p' q' := by
  obtain ⟨hinterval, hstatus⟩ := hq
  cases h with
  | writer hallows =>
    refine ⟨q, watch_fromWriter fun label hlabel kind hkind => ?_, hinterval, hstatus⟩
    rcases hstatus with ⟨hhealthy, rfl⟩ | ⟨hdegraded, earliest, next, rfl, -⟩
    · rcases hallows label hlabel kind hkind with ⟨-, honly⟩ | ⟨hdegraded, -⟩
      · exact .inl ⟨rfl, honly⟩
      · exact absurd hhealthy hdegraded
    · rcases hallows label hlabel kind hkind with ⟨hhealthy, -⟩ | ⟨-, hreadBack⟩
      · exact absurd hhealthy hdegraded
      · exact .inr ⟨by simp, .inr hreadBack⟩
  | @degrade failure cls moment hhealthy =>
    have hnone : q = none := by
      rcases hstatus with ⟨-, hnone⟩ | ⟨hdegraded, -⟩
      · exact hnone
      · exact absurd hhealthy hdegraded
    subst hnone
    obtain ⟨hkept, hnext⟩ := degrade_recovery failure cls moment hhealthy
    refine ⟨some (moment.now + retryInterval), watch_one rfl, hkept.trans hinterval, .inr ⟨?_, ?_⟩⟩
    · rw [recordFacadeFailure_persistence failure cls moment hhealthy]
      simp
    · exact ⟨_, _, rfl, hnext, by rw [hinterval]⟩
  | @probeFailed next now now' ls hdegraded hnext hdue hl hnow =>
    obtain ⟨hhealthy, -⟩ | ⟨-, earliest, next', rfl, hnext', hearliest⟩ := hstatus
    · exact absurd hhealthy hdegraded
    · obtain rfl := Option.some.inj (hnext.symm.trans hnext')
      refine ⟨_, watch_probe hearliest hdue hl, hinterval, .inr ⟨hdegraded, _, _, rfl, rfl, ?_⟩⟩
      rw [hinterval]
      omega
  | @probed next now ls moment hdegraded hnext hdue hl =>
    obtain ⟨hhealthy, -⟩ | ⟨-, earliest, next', rfl, hnext', hearliest⟩ := hstatus
    · exact absurd hhealthy hdegraded
    · obtain rfl := Option.some.inj (hnext.symm.trans hnext')
      refine ⟨none, ?_, ?_⟩
      · exact Monitor.watch_append.mpr ⟨_, watch_probe hearliest hdue hl, watch_one rfl⟩
      · rw [observeWriterHealth_recovered hdegraded]
        exact ⟨hinterval, .inl ⟨rfl, rfl⟩⟩
  | told => exact ⟨q, watch_one (by cases q <;> rfl), hinterval, hstatus⟩
  | @skip cls =>
    refine ⟨q, watch_one (by cases q <;> rfl), Watched.congr ⟨hinterval, hstatus⟩ recordSkip_persistence ?_ ?_⟩
    · rw [recordSkip_recovery]
    · rw [recordSkip_recovery]
  | skipEnqueue => exact ⟨q, watch_one (by cases q <;> rfl), hinterval, hstatus⟩
  | refresh => exact ⟨q, rfl, hinterval, hstatus⟩
  | stop =>
    refine ⟨q, watch_one (by cases q <;> rfl), Watched.congr ⟨hinterval, hstatus⟩ markAcceptorStopped_persistence ?_ ?_⟩
    · unfold markAcceptorStopped
      split_ifs <;> rfl
    · unfold markAcceptorStopped
      split_ifs <;> rfl
  | claim => exact ⟨q, rfl, hinterval, hstatus⟩
  | mark outcome =>
    refine ⟨q, watch_one (by cases q <;> rfl), ?_⟩
    split_ifs
    · exact ⟨hinterval, hstatus⟩
    · exact ⟨hinterval, hstatus⟩

theorem reached_watched (h : World.Reached coverage retryInterval ls w) :
    ∃ q, (outageMonitor retryInterval).watch none ls = some q := by
  obtain ⟨-, l, ls', rfl, hl, hbeats⟩ := h.sound
  obtain ⟨q, hwatch, -⟩ := Monitor.accepts (m := outageMonitor retryInterval) (I := Watched retryInterval)
    (fun hbeat hq => watched_beat hbeat hq) hbeats (q := none) ⟨rfl, .inl ⟨rfl, rfl⟩⟩
  refine ⟨q, Monitor.watch_append.mpr ⟨none, watch_fromWriter ?_, hwatch⟩⟩
  intro label hlabel kind hkind
  rw [hl label hlabel kind hkind]
  exact .inl ⟨rfl, rfl⟩

/-- The label with which an outage ends. -/
def EndsOutage (label : Label) : Prop := label = .recovered

/-- What the monitor keeps in an outage. -/
theorem outage_keeps {t : ℕ} {q q' : Option ℕ} {label : Label} (hq : ∃ earliest, q = some earliest ∧ t ≤ earliest)
    (hlabel : ¬ EndsOutage label) (hnext : (outageMonitor retryInterval).next q label = some q') :
    ∃ earliest, q' = some earliest ∧ t ≤ earliest := by
  obtain ⟨earliest, rfl, ht⟩ := hq
  cases label with
  | degraded => cases hnext
  | recovered => exact absurd rfl hlabel
  | probing now =>
    obtain ⟨hdue, heq⟩ := Option.ite_none_right_eq_some.mp hnext
    cases heq
    exact ⟨_, rfl, by omega⟩
  | writer id event =>
    obtain ⟨-, heq⟩ := Option.ite_none_right_eq_some.mp hnext
    cases heq
    exact ⟨_, rfl, ht⟩
  | _ =>
    cases hnext
    exact ⟨_, rfl, ht⟩

/-- From the beginning of an outage, or from a probe, until the outage is over, in every run: the writer gets no
command but probes and requests for the page of a drain, and the next probe is not before the interval has passed. -/
theorem outage_quiet {before between after : List Label} {label next : Label} {t : ℕ}
    (h : World.Reached coverage retryInterval ls w) (hls : ls = before ++ label :: (between ++ next :: after))
    (hlabel : (∃ failure cls, label = .degraded failure cls t) ∨ label = .probing t)
    (houtage : .recovered ∉ between) :
    (∀ now, next = .probing now → t + retryInterval ≤ now) ∧
      ∀ id event kind, next = .writer id event → commandKind event = some kind →
        kind = .probe ∨ kind = .historyDrainFinalization := by
  obtain ⟨q, hwatch⟩ := reached_watched h
  rw [hls] at hwatch
  obtain ⟨q₁, -, hwatch⟩ := Monitor.watch_append.mp hwatch
  obtain ⟨q₂, hfirst, hwatch⟩ := Monitor.watch_cons.mp hwatch
  obtain ⟨q₃, hbetween, hwatch⟩ := Monitor.watch_append.mp hwatch
  obtain ⟨q₄, hnext, -⟩ := Monitor.watch_cons.mp hwatch
  have hopen : ∃ earliest, q₂ = some earliest ∧ t + retryInterval ≤ earliest := by
    rcases hlabel with ⟨failure, cls, rfl⟩ | rfl
    · cases q₁ with
      | none =>
        cases hfirst
        exact ⟨_, rfl, le_rfl⟩
      | some earliest => cases hfirst
    · cases q₁ with
      | none => cases hfirst
      | some earliest =>
        obtain ⟨-, heq⟩ := Option.ite_none_right_eq_some.mp hfirst
        cases heq
        exact ⟨_, rfl, le_rfl⟩
  have hopen' : ∀ label ∈ between, ¬ EndsOutage label := by
    rintro label hmem rfl
    exact houtage hmem
  obtain ⟨earliest, rfl, ht⟩ := Monitor.watch_keeps outage_keeps hopen' hbetween hopen
  constructor
  · rintro now rfl
    have hdue := (Option.ite_none_right_eq_some.mp hnext).1
    omega
  · rintro id event kind rfl hkind
    exact (Option.ite_none_right_eq_some.mp hnext).1 kind hkind

theorem outage_quiet_outage : ∃ ls w before between after, World.Reached listening 10 ls w ∧
    ls = before ++ .degraded sqliteFailure .batch 0 :: (between ++ .probing 10 :: after) ∧ 0 + 10 ≤ 10 := by
  obtain ⟨l, l', w, h, -⟩ := reached_outage
  refine ⟨_, w, _, _, _, h, rfl, ?_⟩
  exact (outage_quiet h rfl (.inl ⟨sqliteFailure, .batch, rfl⟩) (by simp)).1 10 rfl

/-! ### The gap of an outage -/

/-- Whether a gap is owed to the store after a label. -/
def owe (owed : Bool) : Label → Bool
  | .recovered => true
  | .marked outcome => if outcome.isCommitted then false else owed
  | _ => owed

/-- Whether a gap is owed to the store after labels. -/
def owes : Bool → List Label → Bool := List.foldl owe

theorem owes_append (owed : Bool) (ls ls' : List Label) : owes owed (ls ++ ls') = owes (owes owed ls) ls' :=
  List.foldl_append

theorem owes_fromWriter (owed : Bool) (ls : List (ℕ × Event)) : owes owed (fromWriter ls) = owed := by
  induction ls with
  | nil => rfl
  | cons label ls ih => exact ih

/-- A gap is owed when there was a recovery since which no marker was committed. -/
theorem owes_iff : owes false ls = true ↔ ∃ before after, ls = before ++ .recovered :: after ∧
    ∀ outcome, .marked outcome ∈ after → outcome.isCommitted = false := by
  induction ls using List.reverseRecOn with
  | nil => simp [owes]
  | append_singleton ls label ih =>
    rw [owes_append]
    show owe (owes false ls) label = true ↔ _
    constructor
    · intro howes
      -- the label is the recovery, or it leaves the gap owed
      have hkeeps : label = .recovered ∨
          owes false ls = true ∧ ∀ outcome, label = .marked outcome → outcome.isCommitted = false := by
        cases label with
        | recovered => exact .inl rfl
        | marked outcome =>
          simp only [owe] at howes
          split_ifs at howes with hcommitted
          refine .inr ⟨howes, fun outcome' heq => ?_⟩
          cases heq
          simpa using hcommitted
        | _ => exact .inr ⟨howes, by simp⟩
      rcases hkeeps with rfl | ⟨howes', hmarked⟩
      · exact ⟨ls, [], rfl, by simp⟩
      · obtain ⟨before, after, rfl, hafter⟩ := ih.mp howes'
        refine ⟨before, after ++ [label], by simp, fun outcome hmem => ?_⟩
        rcases List.mem_append.mp hmem with hmem | hmem
        · exact hafter outcome hmem
        · exact hmarked outcome (List.mem_singleton.mp hmem).symm
    · rintro ⟨before, after, hls, hafter⟩
      rcases List.eq_nil_or_concat after with rfl | ⟨after, label', rfl⟩
      · obtain ⟨rfl, hlabel⟩ := List.append_inj' hls rfl
        obtain rfl := List.singleton_inj.mp hlabel
        rfl
      · rw [List.concat_eq_append, ← List.cons_append, ← List.append_assoc] at hls
        obtain ⟨rfl, hlabel⟩ := List.append_inj' hls rfl
        obtain rfl := List.singleton_inj.mp hlabel
        have howes : owes false (before ++ .recovered :: after) = true :=
          ih.mpr ⟨before, after, rfl, fun outcome hmem => hafter outcome (by simp [hmem])⟩
        rw [howes]
        cases label with
        | marked outcome =>
          have hnot := hafter outcome (by simp)
          simp [owe, hnot]
        | _ => rfl

/-- Beats that claim no marker. -/
theorem owes_beat (h : Beat listener false p l p') : p'.recovery.markerPending = owes p.recovery.markerPending l := by
  cases h with
  | writer => rw [owes_fromWriter]
  | degrade moment hhealthy =>
    rw [recordFacadeFailure_healthy hhealthy]
    simp only [publish_recovery, logOccurrence_recovery, degradedRecovery]
    split_ifs <;> rfl
  | probeFailed =>
    show _ = owes _ (fromWriter _)
    rw [owes_fromWriter]
    rfl
  | probed hdegraded =>
    rw [observeWriterHealth_recovered hdegraded, owes_append]
    rfl
  | told => rfl
  | skip =>
    rw [recordSkip_recovery]
    rfl
  | skipEnqueue => rfl
  | refresh => rfl
  | stop =>
    unfold markAcceptorStopped
    split_ifs <;> rfl
  | claim hclaims => cases hclaims
  | mark _ hclaims => cases hclaims

theorem unmarked_beat (h : Beat listener false p l p') (outcome : RuntimeWriteOutcome) : .marked outcome ∉ l := by
  cases h with
  | claim hclaims => cases hclaims
  | mark _ hclaims => cases hclaims
  | _ => simp [fromWriter]

theorem owes_runs (h : Runs (Beat listener false) p ls p') :
    p'.recovery.markerPending = owes p.recovery.markerPending ls ∧ ∀ outcome, .marked outcome ∉ ls := by
  induction h with
  | refl => exact ⟨rfl, by simp⟩
  | tail _ hbeat ih =>
    constructor
    · rw [owes_beat hbeat, ih.1, owes_append]
    · intro outcome hmem
      rcases List.mem_append.mp hmem with hmem | hmem
      · exact ih.2 outcome hmem
      · exact unmarked_beat hbeat outcome hmem

/-- Without a marker that is committed what is owed stays owed. -/
theorem owes_true (h : ∀ outcome, .marked outcome ∉ ls) : owes true ls = true := by
  induction ls with
  | nil => rfl
  | cons label ls ih =>
    have hrest := ih fun outcome hmem => h outcome (List.mem_cons_of_mem _ hmem)
    cases label with
    | marked outcome => exact absurd List.mem_cons_self (h outcome)
    | _ => exact hrest

/-- A write that is sent comes without a recovery. -/
theorem sent_unrecovered (h : Writes kind cls w l outcome w') (hw : w.Synced) (hkind : kind.responseOnly = false)
    (houtcome : outcome ≠ .skipped) : .recovered ∉ l := by
  cases h with
  | skipped => exact absurd rfl houtcome
  | sent hskip hsubmits =>
    obtain ⟨rfl, rfl, hhealthy⟩ := hskip.healthy_sound hw
    cases hsubmits with
    | @mk w₁ l reply logTakes hasks =>
      obtain ⟨⟨hfacade, -, -, l', rfl, -⟩, -⟩ := hasks.healthy hw hhealthy hkind
      have hedge : ∀ p' : RuntimePersistence, Label.recovered ∉ edge cls w₁.now w₁.facade p' := by
        intro p'
        unfold edge
        rw [hfacade, hhealthy]
        cases p'.snapshot.persistence <;> simp
      simp [fromWriter, hedge]

theorem owes_unrecovered (hrecovered : .recovered ∉ ls) : owes false ls = false := by
  rw [← Bool.not_eq_true, owes_iff]
  rintro ⟨before, after, rfl, -⟩
  simp at hrecovered

theorem owes_step (h : World.Step listener w l w') (hw : w.Synced) :
    w'.facade.recovery.markerPending = owes w.facade.recovery.markerPending l := by
  by_cases hmarker : PersistRecoveryMarkerIfPending w l w'
  · cases hmarker with
    | notPending => rfl
    | @pending w₁ l outcome hpending hwrites =>
      have hclaimed : World.Synced { w with facade := w.facade.setMarkerPending false } := ⟨hw.rested, hw.agrees⟩
      have hsound : Sound listener false { w with facade := w.facade.setMarkerPending false } l w₁ :=
        hwrites.sound hclaimed rfl
      obtain ⟨howes, hunmarked⟩ := owes_runs hsound.2
      have howes : w₁.facade.recovery.markerPending = owes false l := howes
      rw [hpending, owes_append, owes_true hunmarked]
      by_cases hcommitted : outcome.isCommitted
      · have hsent : outcome ≠ .skipped := by
          rintro rfl
          cases hcommitted
        rw [if_pos hcommitted, howes, owes_unrecovered (sent_unrecovered hwrites hclaimed rfl hsent)]
        simp [owes, owe, hcommitted]
      · rw [if_neg hcommitted]
        simp [owes, owe, hcommitted, setMarkerPending]
  · have hbeats : Runs (Beat listener false) w.facade l w'.facade := by
      cases h with
      | work hstep => exact fromWriter_work hstep
      | tick => exact .refl _
      | observe hobserves =>
        obtain ⟨rfl, rfl⟩ := hobserves.synced hw.agrees
        exact .refl _
      | apply hwrites => exact (hwrites.sound hw rfl).2
      | applyV6 hwrites => exact (hwrites.sound hw rfl).2
      | cleanup hwrites => exact (hwrites.sound hw rfl).2
      | updateOwnerLocation hwrites => exact (hwrites.sound hw rfl).2
      | finalize hfinalize => exact (hfinalize.sound hw).2
      | enqueue henqueues => exact (henqueues.sound hw).2
      | marker hmarker' => exact absurd hmarker' hmarker
      | refresh hcoverage => exact .one (.refresh hcoverage)
      | acceptorStopped => exact .one .stop
    exact (owes_runs hbeats).1

theorem owes_steps (h : Runs (World.Step listener) w l w') (hw : w.Synced) :
    w'.Synced ∧ w'.facade.recovery.markerPending = owes w.facade.recovery.markerPending l := by
  induction h with
  | refl => exact ⟨hw, rfl⟩
  | tail _ hstep ih =>
    obtain ⟨hsynced, howes⟩ := ih
    refine ⟨(hstep.sound hsynced).1, ?_⟩
    rw [owes_step hstep hsynced, howes, owes_append]

/-- In every run, between two operations: a marker of the gap is pending exactly when an outage has ended since which
no marker was committed. So no attempt at a marker that fails, is skipped, or falls into another outage makes the gap
forgotten. -/
theorem gap_owed (h : World.Reached coverage retryInterval ls w) :
    w.facade.recovery.markerPending = true ↔ ∃ before after, ls = before ++ .recovered :: after ∧
      ∀ outcome, .marked outcome ∈ after → outcome.isCommitted = false := by
  rw [← owes_iff]
  cases h with
  | @mk l ls' s now w hcall hruns =>
    obtain ⟨hrested, _, -, -, hok, -⟩ := rested_empty.call rfl rfl hcall
    rw [(owes_steps hruns ⟨hrested, rfl⟩).2, owes_append, owes_fromWriter]
    rfl

theorem gap_owed_outage : ∃ ls w, World.Reached listening 10 ls w ∧ w.facade.recovery.markerPending = true := by
  obtain ⟨l, l', w, h, -⟩ := reached_outage
  refine ⟨_, w, h, (gap_owed h).mpr ⟨fromWriter l ++ .degraded sqliteFailure .batch 0 :: .told 1 .notCommitted ::
    .probing 10 :: fromWriter l', [.skipped .batch], ?_, by simp⟩⟩
  simp [outageLabels]

/-! ### The counters -/

/-- The outages that began with a batch of this outcome. -/
def Label.beganWith (outcome : RuntimeWriteOutcome) : Label → Bool
  | .degraded failure .batch _ => outcomeOfFailure failure = outcome
  | _ => false

/-- The failure with which an outage began. -/
def Label.outageFailure : Label → Option PersistenceFailure
  | .degraded failure _ _ => some failure
  | _ => none

/-- What the facade counts when something happens. -/
def tally (counters : PersistenceCounters) : Label → PersistenceCounters
  | .degraded failure .batch _ => counters.recordFailure (outcomeOfFailure failure)
  | .skipped .batch => { counters with skippedBatches := satAddU64 counters.skippedBatches 1 }
  | .skipped .ownerLocation => { counters with skippedOwnerUpdates := satAddU64 counters.skippedOwnerUpdates 1 }
  | .enqueueSkipped => { counters with skippedEnqueues := satAddU64 counters.skippedEnqueues 1 }
  | _ => counters

theorem tally_fromWriter (counters : PersistenceCounters) (ls : List (ℕ × Event)) :
    (fromWriter ls).foldl tally counters = counters := by
  induction ls with
  | nil => rfl
  | cons label ls ih => exact ih

theorem findSome_fromWriter (ls : List (ℕ × Event)) : (fromWriter ls).findSome? Label.outageFailure = none := by
  induction ls with
  | nil => rfl
  | cons label ls ih => exact ih

/-- What the facade has counted and what it asked the occurrence log for, once. -/
structure Tallied (ls : List Label) (p : RuntimePersistence) : Prop where
  counters : p.snapshot.persistenceCounters = ls.foldl tally {}
  occurrences : p.occurrences.map PersistenceOccurrence.failure = (ls.findSome? Label.outageFailure).toList
  attempted : p.occurrenceAttempted = (ls.findSome? Label.outageFailure).isSome

/-- Labels that tell of no outage that begins. -/
theorem Tallied.append (h : Tallied ls p) (hl : l.findSome? Label.outageFailure = none)
    (hcounters : p'.snapshot.persistenceCounters = l.foldl tally p.snapshot.persistenceCounters)
    (hoccurrences : p'.occurrences = p.occurrences) (hattempted : p'.occurrenceAttempted = p.occurrenceAttempted) :
    Tallied (ls ++ l) p' := by
  refine ⟨?_, ?_, ?_⟩
  · rw [hcounters, h.counters, List.foldl_append]
  · rw [hoccurrences, h.occurrences, List.findSome?_append, hl, Option.or_none]
  · rw [hattempted, h.attempted, List.findSome?_append, hl, Option.or_none]

theorem degradedSnapshot_counters (s : RuntimeDiagnosticsSnapshot) (now : ℕ) :
    (degradedSnapshot s failure cls).persistenceCounters = tally s.persistenceCounters (.degraded failure cls now) := by
  cases cls <;> rfl

/-- The log is asked for the first failure only. -/
theorem degrade_log (failure : PersistenceFailure) (cls : RuntimeCommandClass) (moment : Moment)
    (hhealthy : p.snapshot.persistence = .healthy) :
    (p.recordFacadeFailure failure cls moment).1.occurrences.map PersistenceOccurrence.failure =
        (if p.occurrenceAttempted then p.occurrences.map PersistenceOccurrence.failure
        else p.occurrences.map PersistenceOccurrence.failure ++ [failure]) ∧
      (p.recordFacadeFailure failure cls moment).1.occurrenceAttempted = true := by
  rw [recordFacadeFailure_healthy hhealthy]
  cases hattempted : p.occurrenceAttempted <;> simp [logOccurrence, publish]

theorem Tallied.degrade (h : Tallied ls p) (hhealthy : p.snapshot.persistence = .healthy) :
    Tallied (ls ++ [.degraded failure cls moment.now]) (p.recordFacadeFailure failure cls moment).1 := by
  obtain ⟨hoccurrences, hattempted⟩ := degrade_log failure cls moment hhealthy
  refine ⟨?_, ?_, ?_⟩
  · rw [recordFacadeFailure_healthy hhealthy, publish_snapshot, logOccurrence_counters, List.foldl_append,
      ← h.counters]
    exact degradedSnapshot_counters _ _
  · rw [hoccurrences, h.attempted, h.occurrences, List.findSome?_append]
    cases ls.findSome? Label.outageFailure <;> rfl
  · rw [hattempted, List.findSome?_append]
    cases ls.findSome? Label.outageFailure <;> rfl

theorem Tallied.beat (h : Tallied ls p) (hbeat : Beat listener claims p l p') : Tallied (ls ++ l) p' := by
  cases hbeat with
  | writer => exact h.append (findSome_fromWriter _) (tally_fromWriter _ _).symm rfl rfl
  | degrade moment hhealthy => exact h.degrade hhealthy
  | @probeFailed next now now' events =>
    exact h.append (findSome_fromWriter events) (tally_fromWriter _ events).symm rfl rfl
  | @probed next now events moment hdegraded =>
    rw [observeWriterHealth_recovered hdegraded]
    refine h.append ?_ ?_ rfl rfl
    · rw [List.findSome?_append, show (Label.probing now :: fromWriter events).findSome? Label.outageFailure = none
        from findSome_fromWriter events]
      rfl
    · rw [List.foldl_append]
      exact (tally_fromWriter _ events).symm
  | told => exact h.append rfl rfl rfl rfl
  | @skip cls => cases cls <;> exact h.append rfl rfl rfl rfl
  | skipEnqueue => exact h.append rfl rfl rfl rfl
  | refresh => exact h.append rfl rfl rfl rfl
  | stop =>
    unfold markAcceptorStopped
    split_ifs <;> exact h.append rfl rfl rfl rfl
  | claim => exact h.append rfl rfl rfl rfl
  | mark outcome => split_ifs <;> exact h.append rfl rfl rfl rfl

theorem Tallied.run (h : Tallied [] p) (hruns : Runs (Beat listener claims) p ls p') : Tallied ls p' := by
  induction hruns with
  | refl => exact h
  | tail _ hbeat ih => exact ih.beat hbeat

theorem satAddU64_one (n : ℕ) : satAddU64 (min n u64Max) 1 = min (n + 1) u64Max := by
  unfold satAddU64
  omega

/-- The counters, up to their bound. -/
theorem tally_counts (ls : List Label) : ls.foldl tally {} =
    { notCommittedBatches := min (ls.countP (Label.beganWith .notCommitted)) u64Max
      durabilityUnknownBatches := min (ls.countP (Label.beganWith .durabilityUnknown)) u64Max
      committedButDegradedBatches := min (ls.countP (Label.beganWith .committedButDegraded)) u64Max
      skippedBatches := min (ls.count (.skipped .batch)) u64Max
      skippedOwnerUpdates := min (ls.count (.skipped .ownerLocation)) u64Max
      skippedEnqueues := min (ls.count .enqueueSkipped) u64Max } := by
  induction ls using List.reverseRecOn with
  | nil => simp
  | append_singleton ls label ih =>
    rw [List.foldl_append, ih]
    cases label with
    | degraded failure cls now =>
      cases cls with
      | ownerLocation => simp [tally, Label.beganWith]
      | batch =>
        cases houtcome : outcomeOfFailure failure <;>
          simp [tally, Label.beganWith, houtcome, PersistenceCounters.recordFailure, satAddU64_one]
    | skipped cls => cases cls <;> simp [tally, Label.beganWith, satAddU64_one]
    | enqueueSkipped => simp [tally, Label.beganWith, satAddU64_one]
    | _ => simp [tally, Label.beganWith]

/-- In every run the counters are, up to the bound of 64 bits, the numbers of the writes that were skipped and of the
outages that began with a batch of each outcome, and the occurrence log was asked exactly for the first outage. -/
theorem writes_counted (h : World.Reached coverage retryInterval ls w) :
    w.facade.snapshot.persistenceCounters =
      { notCommittedBatches := min (ls.countP (Label.beganWith .notCommitted)) u64Max
        durabilityUnknownBatches := min (ls.countP (Label.beganWith .durabilityUnknown)) u64Max
        committedButDegradedBatches := min (ls.countP (Label.beganWith .committedButDegraded)) u64Max
        skippedBatches := min (ls.count (.skipped .batch)) u64Max
        skippedOwnerUpdates := min (ls.count (.skipped .ownerLocation)) u64Max
        skippedEnqueues := min (ls.count .enqueueSkipped) u64Max } ∧
    w.facade.occurrences.map PersistenceOccurrence.failure = (ls.findSome? Label.outageFailure).toList := by
  obtain ⟨-, l, ls', rfl, -, hbeats⟩ := h.sound
  have htallied : Tallied ls' w.facade := Tallied.run ⟨rfl, rfl, rfl⟩ hbeats
  constructor
  · rw [← tally_counts, List.foldl_append, tally_fromWriter]
    exact htallied.counters
  · rw [List.findSome?_append, findSome_fromWriter, Option.none_or]
    exact htallied.occurrences

theorem writes_counted_outage : ∃ ls w, World.Reached listening 10 ls w ∧
    w.facade.snapshot.persistenceCounters = { notCommittedBatches := 1, skippedBatches := 1 } := by
  obtain ⟨l, l', w, h, -⟩ := reached_outage
  refine ⟨_, w, h, ?_⟩
  have hcounted := (writes_counted h).1
  rw [← tally_counts] at hcounted
  simp only [outageLabels, List.foldl_append, List.foldl_cons, tally_fromWriter] at hcounted
  exact hcounted

end HerdrTop.RuntimePersistence
