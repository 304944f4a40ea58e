import HerdrTop.Reducer.Effects
import HerdrTop.Reducer.Controller

/-!
# Events and their merges

The functions that bind identities go on by writes too, and the merges they make are just those
they hand to the store. From them the two ways of applying an event are read off: an observation
of the collector, and a Controller event that passed its validation.
-/

namespace HerdrTop

namespace Tx

/-- A transaction went on by writes, and handed their merges to the store. -/
def Mutates (scope : Scope) (tx tx' : Tx) : Prop :=
  tx.model.Filed → ∃ ls, Mutations scope tx.toCore ls tx'.toCore ∧
    mergesOf tx'.persist = mergesOf tx.persist ++ ls

section

variable {scope : Scope} {tx tx' tx'' : Tx}

theorem Writes.mutates (h : tx.Writes scope tx') : tx.Mutates scope tx' := fun hf =>
  ⟨[], (h hf).1, by simpa using (h hf).2⟩

theorem Mutates.refl (tx : Tx) : tx.Mutates scope tx := (Writes.refl tx).mutates

theorem Mutates.trans (h : tx.Mutates scope tx') (h' : tx'.Mutates scope tx'') :
    tx.Mutates scope tx'' := fun hf => by
  obtain ⟨ls, hm, hp⟩ := h hf
  obtain ⟨ls', hm', hp'⟩ := h' (hm.filed hf)
  exact ⟨ls ++ ls', hm.trans hm', by rw [hp', hp, List.append_assoc]⟩

/-! ### Identity evidence -/

theorem applyBinding_mutates {evidence : BindingEvidence} {t : ℤ} {aliasRunId : RunId}
    (h : tx.applyBinding evidence t aliasRunId = .ok tx') : tx.Mutates scope tx' := by
  unfold applyBinding at h
  split at h
  · rename_i model persist happ
    cases h
    exact fun _ => ⟨_, .one (.binding happ), mergesOf_append _ _⟩
  · cases h

theorem bindSession_mutates {metadata : EventMetadata} {runId : RunId} {key : RunKey}
    {aliasRunId : RunId} (h : tx.bindSession metadata runId key aliasRunId = .ok tx') :
    tx.Mutates scope tx' := by
  unfold bindSession at h
  split at h
  · exact applyBinding_mutates h
  · cases h
    exact .refl _

theorem bindTerminal_mutates {metadata : EventMetadata} {runId : RunId} {aliasRunId : RunId}
    (h : tx.bindTerminal metadata runId aliasRunId = .ok tx') : tx.Mutates scope tx' := by
  unfold bindTerminal at h
  split at h
  · split_ifs at h
    · exact applyBinding_mutates h
    · cases h
      exact .refl _
  · cases h
    exact .refl _

theorem activateBegun_writes (tx : Tx) (event : NormalizedEvent) (t : ℤ) :
    tx.Writes scope (tx.activateBegun event t) := by
  unfold activateBegun
  split
  · split
    · rename_i current hcurrent
      split_ifs
      · exact .refl tx
      · exact activateForLiveExecution_writes _ _ _ fun _ => ⟨_, current, hcurrent, rfl⟩
    · exact .refl tx
  · exact .refl tx

theorem applyIdentityMetadata_mutates {event : NormalizedEvent} {metadata : EventMetadata}
    {aliasRunId : RunId} (h : tx.applyIdentityMetadata event metadata aliasRunId = .ok tx') :
    tx.Mutates scope tx' := by
  unfold applyIdentityMetadata at h
  split at h
  · cases h
    exact .refl _
  · split at h
    · cases h
      exact .refl _
    · obtain ⟨tx₁, h₁, h⟩ := bind_eq_ok.mp h
      obtain ⟨tx₂, h₂, h⟩ := bind_eq_ok.mp h
      cases h
      exact ((bindSession_mutates h₁).trans (bindTerminal_mutates h₂)).trans
        (activateBegun_writes _ _ _).mutates

/-! ### The Controller part -/

theorem preflightExecutionEdge_congr {m m' : DomainModel} (h : m'.executionEdges = m.executionEdges)
    (edge : ExecutionEdge) : preflightExecutionEdge m' edge = preflightExecutionEdge m edge := by
  unfold preflightExecutionEdge
  rw [h]

theorem preflightDependencyEdge_congr {m m' : DomainModel} (h : m'.dependencyEdges = m.dependencyEdges)
    (edge : DependencyEdge) : preflightDependencyEdge m' edge = preflightDependencyEdge m edge := by
  unfold preflightDependencyEdge
  rw [h]

/-- The task state of an event leaves the graphs alone. -/
theorem applyTaskState_edges (tx : Tx) (metadata : EventMetadata) (reopen : Bool) :
    (tx.applyTaskState metadata reopen).model.executionEdges = tx.model.executionEdges ∧
      (tx.applyTaskState metadata reopen).model.dependencyEdges = tx.model.dependencyEdges := by
  unfold applyTaskState
  split
  · split
    · exact ⟨rfl, rfl⟩
    · simp [storeRun, Tx.push, withModel, DomainModel.insertTaskRun]
  · exact ⟨rfl, rfl⟩

theorem addExecutionEdge_dependencyEdges (tx : Tx) (edge : ExecutionEdge) (t : ℤ) :
    (tx.addExecutionEdge edge t).model.dependencyEdges = tx.model.dependencyEdges := by
  unfold addExecutionEdge
  split_ifs <;> rfl

/-- A dispatch edge that may be added: its runs exist and it passes its check. -/
structure AddableExecutionEdge (m : DomainModel) (edge : ExecutionEdge) : Prop where
  /-- The parent exists. -/
  parent : m.HasRun edge.parentRunId
  /-- The child exists. -/
  child : m.HasRun edge.childRunId
  /-- The graph stays well formed. -/
  checked : preflightExecutionEdge m edge = .ok ()

/-- A dependency edge that may be added: its runs exist and it passes its check. -/
structure AddableDependencyEdge (m : DomainModel) (edge : DependencyEdge) : Prop where
  /-- The prerequisite exists. -/
  prerequisite : m.HasRun edge.prerequisiteRunId
  /-- The dependent run exists. -/
  dependent : m.HasRun edge.dependentRunId
  /-- The graph stays well formed. -/
  checked : preflightDependencyEdge m edge = .ok ()

theorem applyControllerMetadata_writes {metadata : EventMetadata}
    (hexecution : ∀ edge, metadata.executionParent = some edge → AddableExecutionEdge tx.model edge)
    (hdependency : ∀ edge, metadata.dependency = some edge → AddableDependencyEdge tx.model edge) :
    tx.Writes scope (tx.applyControllerMetadata metadata false) := by
  unfold applyControllerMetadata
  dsimp only
  intro hf
  have hstate : tx.Writes scope _ := applyTaskState_writes tx metadata
  obtain ⟨he, hd⟩ := applyTaskState_edges tx metadata false
  have hadd : (tx.applyTaskState metadata false).Writes scope
      (metadata.executionParent.elim (tx.applyTaskState metadata false) fun edge =>
        (tx.applyTaskState metadata false).addExecutionEdge edge metadata.receiptTimeMs) := by
    cases hedge : metadata.executionParent with
    | none => exact .refl _
    | some edge =>
      have hok := hexecution edge hedge
      refine addExecutionEdge_writes _ _ _ (hstate.keeps_run hf hok.parent)
        (hstate.keeps_run hf hok.child) ?_
      rw [preflightExecutionEdge_congr he]
      exact hok.checked
  have hkept : (metadata.executionParent.elim (tx.applyTaskState metadata false) fun edge =>
      (tx.applyTaskState metadata false).addExecutionEdge edge
        metadata.receiptTimeMs).model.dependencyEdges = tx.model.dependencyEdges := by
    cases metadata.executionParent with
    | none => exact hd
    | some edge => exact (addExecutionEdge_dependencyEdges _ _ _).trans hd
  refine (hstate.trans (hadd.trans ?_)) hf
  cases hedge : metadata.dependency with
  | none => exact .refl _
  | some edge =>
    have hok := hdependency edge hedge
    have hboth := hstate.trans hadd
    refine addDependencyEdge_writes _ _ _ (hboth.keeps_run hf hok.prerequisite)
      (hboth.keeps_run hf hok.dependent) ?_
    rw [preflightDependencyEdge_congr hkept]
    exact hok.checked

/-! ### An observation of the collector -/

/-- The source of an end is noted unless it is that of a session. -/
theorem noteTerminalSource_writes (tx : Tx) (event : NormalizedEvent) (laneNativeEnd : Bool) :
    tx.Writes scope (if laneNativeEnd then tx else tx.updateTerminalEventSource event) := by
  split_ifs
  · exact .refl tx
  · exact updateTerminalEventSource_writes tx event

theorem recordEvent_writes (tx : Tx) (event : NormalizedEvent) (t : ℤ) :
    tx.Writes scope (tx.push (.recordEvent event t)) := .push _ _ rfl

/-- Only a Controller event loses its task state. -/
theorem withoutLaneTaskState_cases (event : NormalizedEvent) : withoutLaneTaskState event = event ∨
    ∃ metadata kind, event = .controllerEvent metadata kind ∧
      withoutLaneTaskState event = .controllerEvent { metadata with taskState := none } kind := by
  unfold withoutLaneTaskState
  split_ifs with hlane
  · cases event with
    | controllerEvent metadata kind => exact .inr ⟨metadata, kind, rfl, rfl⟩
    | _ => cases hlane
  · exact .inl rfl

theorem Observed.withoutLaneTaskState {strict : Bool} {event : NormalizedEvent}
    (h : Observed strict event) : Observed strict (withoutLaneTaskState event) := by
  rcases withoutLaneTaskState_cases event with he | ⟨metadata, kind, rfl, he⟩ <;> rw [he]
  · exact h
  · exact ⟨h.executionParent, h.dependency, fun _ => rfl, fun _ _ _ _ hnode => by cases hnode⟩

theorem Allowed.withoutLaneTaskState {rows : RowScope} {event : NormalizedEvent}
    (h : Allowed rows event) : Allowed rows (withoutLaneTaskState event) := by
  rcases withoutLaneTaskState_cases event with he | ⟨metadata, kind, rfl, he⟩ <;> rw [he]
  · exact h
  · trivial

theorem applyNativeLifecycle_executions (tx : Tx) (runId : RunId)
    (endStatus : Option NativeSessionEndStatus) (watermark : NativeLifecycleWatermark) :
    (tx.applyNativeLifecycle runId endStatus watermark).model.executions = tx.model.executions := by
  unfold applyNativeLifecycle
  dsimp only
  split_ifs
  · rfl
  · rfl
  · split <;> rfl

theorem applyEventLifecycle_executions (tx : Tx) (event : NormalizedEvent) (metadata : EventMetadata) :
    (tx.applyEventLifecycle event metadata).model.executions = tx.model.executions := by
  cases event with
  | controllerEvent md kind =>
    simp only [applyEventLifecycle]
    generalize (if laneNativeTerminal metadata kind = true then terminalEndStatus kind else none) = lifecycleEnd
    split_ifs
    · split
      · exact applyNativeLifecycle_executions _ _ _ _
      · rfl
    · rfl
  | _ => rfl

theorem applyLiveEvidence_executions (tx : Tx) (event : NormalizedEvent) (metadata : EventMetadata) :
    (tx.applyLiveEvidence event metadata).model.executions = tx.model.executions := by
  unfold applyLiveEvidence
  split_ifs
  · split
    · exact applyNativeLifecycle_executions _ _ _ _
    · rfl
  · rfl

/-- What follows the identity evidence of an event leaves the executions alone. -/
theorem applyEventRest_executions (tx : Tx) (event : NormalizedEvent) :
    let tx' := ((tx.applyEventLifecycle event event.metadata).applyLiveEvidence event event.metadata)
      |>.persistEventExecution event event.metadata.receiptTimeMs
    ((if isLaneNativeTerminal event then tx' else tx'.updateTerminalEventSource event).push
      (.recordEvent event event.metadata.receiptTimeMs)).model.executions = tx.model.executions := by
  dsimp only
  have hpersist : ∀ tx : Tx, (tx.persistEventExecution event event.metadata.receiptTimeMs).model =
      tx.model := by
    intro tx
    unfold persistEventExecution
    dsimp only
    split <;> rfl
  have hsource : ∀ tx : Tx, (tx.updateTerminalEventSource event).model = tx.model := by
    intro tx
    unfold updateTerminalEventSource
    split
    · split
      · rfl
      · split_ifs <;> rfl
    · rfl
  have hrest : ∀ tx : Tx, (if isLaneNativeTerminal event = true then tx
      else tx.updateTerminalEventSource event).model = tx.model := by
    intro tx
    split_ifs
    · rfl
    · exact hsource tx
  show (if isLaneNativeTerminal event = true then _ else _ : Tx).model.executions = _
  rw [hrest, hpersist, applyLiveEvidence_executions, applyEventLifecycle_executions]

/-- The parts of an event of an observation: the runs it names, what it states itself, its evidence about
identities, and the rest, which leaves the executions alone. -/
theorem applyInner_steps {core : Core} {event : NormalizedEvent} {aliasRunId : RunId}
    (h : applyInner core event aliasRunId = .ok tx') :
    ∃ tx₁ tx₂ tx₃, ({ core with persist := [] } : Tx).ensureEventRuns (withoutLaneTaskState event)
        (withoutLaneTaskState event).metadata = .ok tx₁ ∧
      (tx₁.applyControllerMetadata (withoutLaneTaskState event).metadata false).applyEventBody
        (withoutLaneTaskState event) (withoutLaneTaskState event).metadata = .ok tx₂ ∧
      tx₂.applyIdentityMetadata (withoutLaneTaskState event) (withoutLaneTaskState event).metadata
        aliasRunId = .ok tx₃ ∧ (∀ scope, tx₂.Mutates scope tx') ∧ tx'.model.executions = tx₃.model.executions := by
  unfold applyInner at h
  dsimp only at h
  revert h
  generalize Tx.withoutLaneTaskState event = event'
  intro h
  obtain ⟨tx₁, h₁, h⟩ := bind_eq_ok.mp h
  obtain ⟨tx₂, h₂, h⟩ := bind_eq_ok.mp h
  obtain ⟨tx₃, h₃, h⟩ := bind_eq_ok.mp h
  cases h
  refine ⟨tx₁, tx₂, tx₃, h₁, h₂, h₃, fun scope => ?_, applyEventRest_executions tx₃ event'⟩
  have hlife : tx₃.Writes scope (((tx₃.applyEventLifecycle event' event'.metadata)
      |>.applyLiveEvidence event' event'.metadata)
      |>.persistEventExecution event' event'.metadata.receiptTimeMs) :=
    (applyEventLifecycle_writes _ _ _).trans ((applyLiveEvidence_writes _ _ _).trans
      (persistEventExecution_writes _ _ _))
  exact (applyIdentityMetadata_mutates h₃).trans
    ((hlife.trans (noteTerminalSource_writes _ event' _)).trans (recordEvent_writes _ event' _)).mutates

/-- One event of an observation: the topology changes with its body only, and executions change with its
body and with the runs that its evidence merges. -/
theorem applyInner_parts {strict : Bool} {core : Core} {event : NormalizedEvent} {aliasRunId : RunId}
    (hobs : Observed strict event) (hf : core.model.Filed)
    (h : applyInner core event aliasRunId = .ok tx') :
    ∃ tx₁ tx₂, (∀ rows, ({ core with persist := [] } : Tx).Writes (.wide strict rows) tx₁) ∧
      tx₁.applyEventBody (withoutLaneTaskState event) (withoutLaneTaskState event).metadata = .ok tx₂ ∧
      (∀ rows, Allowed rows event → tx₁.Writes (.wide strict rows) tx₂) ∧
      (∀ rows, tx₂.Mutates (.wide strict rows) tx') ∧
      ∃ tx₃, tx₂.applyIdentityMetadata (withoutLaneTaskState event) (withoutLaneTaskState event).metadata
        aliasRunId = .ok tx₃ ∧ tx'.model.executions = tx₃.model.executions := by
  obtain ⟨tx₁, tx₂, tx₃, h₁, h₂, h₃, hrest, hexecutions⟩ := applyInner_steps h
  have hobs' := hobs.withoutLaneTaskState
  have hrows' := fun rows => @Allowed.withoutLaneTaskState rows event
  have hw₁ := fun rows => @ensureEventRuns_writes _ _ strict rows _ hobs' h₁
  have hw : ∀ rows, tx₁.Writes (.wide strict rows)
      (tx₁.applyControllerMetadata (withoutLaneTaskState event).metadata false) :=
    fun rows => applyControllerMetadata_writes
      (fun edge he => by rw [hobs'.executionParent] at he; cases he)
      (fun edge he => by rw [hobs'.dependency] at he; cases he)
  refine ⟨_, tx₂, fun rows => (hw₁ rows).1.trans (hw rows), h₂, fun rows hrows => ?_, fun rows => hrest _,
    tx₃, h₃, hexecutions⟩
  exact applyEventBody_writes rfl (hrows' rows hrows) hobs'.agent (fun md execution he =>
    (hw rows).keeps_run ((hw₁ rows).1.filed hf) ((hw₁ rows).2 hf md execution he))
    (fun hb => by cases hb) h₂

theorem applyInner_mutations {strict : Bool} {rows : RowScope} {core : Core} {event : NormalizedEvent}
    {aliasRunId : RunId} (hobs : Observed strict event) (hrows : Allowed rows event)
    (hf : core.model.Filed) (h : applyInner core event aliasRunId = .ok tx') :
    Mutations (.wide strict rows) core (mergesOf tx'.persist) tx'.toCore := by
  obtain ⟨tx₁, tx₂, hw₁, -, hw₂, hm, -⟩ := applyInner_parts hobs hf h
  obtain ⟨ls, hls, hp⟩ := (((hw₁ rows).trans (hw₂ rows hrows)).mutates.trans (hm rows)) hf
  have hmerges : mergesOf tx'.persist = ls := hp
  rw [hmerges]
  exact hls

/-- The events of an observation. -/
theorem applyEvents_mutations {strict : Bool} {rows : RowScope} {core : Core}
    {events : List (NormalizedEvent × RunId)} (hobs : ∀ e ∈ events, Observed strict e.1)
    (hrows : ∀ e ∈ events, Allowed rows e.1) (hf : core.model.Filed)
    (h : applyEvents core events = .ok tx') :
    Mutations (.wide strict rows) core (mergesOf tx'.persist) tx'.toCore := by
  induction events generalizing core tx' with
  | nil =>
    cases h
    exact .refl core
  | cons e events ih =>
    obtain ⟨tx₁, h₁, h⟩ := bind_eq_ok.mp h
    obtain ⟨later, h₂, h⟩ := bind_eq_ok.mp h
    cases h
    have hfirst := applyInner_mutations (hobs e List.mem_cons_self) (hrows e List.mem_cons_self) hf h₁
    rw [mergesOf_append]
    exact hfirst.trans (ih (fun e' he => hobs e' (List.mem_cons_of_mem _ he))
      (fun e' he => hrows e' (List.mem_cons_of_mem _ he)) (hfirst.filed hf) h₂)

/-! ### A validated Controller event -/

theorem resolveControllerRun_hasRun {m : DomainModel} (hf : m.Filed) {raw : String} {id : RunId}
    (h : resolveControllerRun m raw = some id) : m.HasRun id := by
  unfold resolveControllerRun at h
  split at h
  · rename_i run hrun
    cases h
    exact .of_get (hf.taskRunByKey hrun)
  · dsimp only at h
    split_ifs at h
    obtain ⟨run, hrun, rfl⟩ := Option.map_eq_some_iff.mp h
    exact .of_get (hf.taskRunByKey (Option.filter_eq_some_iff.mp hrun).1)

/-- A name that leads to no run is not the key of one. -/
theorem resolveControllerRun_none {m : DomainModel} {raw : String}
    (h : resolveControllerRun m raw = none) : m.taskRunByKey (.controller raw) = none := by
  unfold resolveControllerRun at h
  split at h
  · cases h
  · assumption

/-- A key that nobody has and that a new run does not get stays free. -/
theorem createUnless_names {runId : RunId} {t : ℤ} {run : DisplayOrdinal → TaskRun} {k : RunKey}
    (hk : ∀ o, (run o).key ≠ k) (hnone : tx.model.runIdsByKey.get k = none)
    (h : tx.createUnless runId t run = .ok tx') : tx'.model.runIdsByKey.get k = none := by
  unfold createUnless at h
  split_ifs at h
  · cases h
    exact hnone
  · obtain ⟨⟨o, tx₁⟩, h₁, h₂⟩ := bind_eq_ok.mp h
    obtain ⟨rfl, rfl⟩ := allocateOrdinal_ok h₁
    cases h₂
    simp only [storeRun, Tx.push, withModel, DomainModel.insertTaskRun, HashMap.get_insert,
      stampNewTaskRun_key, if_neg (hk _).symm, DomainModel.get_withoutFormerKey, hnone]
    simp

/-- What a Controller event says about another run than its subject. -/
inductive Relates (m : DomainModel) (event : ControllerEvent) (subject fresh : RunId)
    (metadata : EventMetadata) : Prop
  /-- The other run dispatched the subject. -/
  | dispatch (name : String) (kind : event.event = .dispatch name)
      (parent : metadata.executionParent = some ⟨relatedRun m event name subject fresh, subject⟩)
      (dependency : metadata.dependency = none)
  /-- The subject waits for the other run. -/
  | dependsOn (name : String) (kind : event.event = .dependsOn name)
      (parent : metadata.executionParent = none)
      (dependency : metadata.dependency = some ⟨relatedRun m event name subject fresh, subject⟩)
  /-- Nothing. -/
  | alone (parent : metadata.executionParent = none) (dependency : metadata.dependency = none)

theorem relateMetadata_relates {m : DomainModel} {event : ControllerEvent} {subject fresh : RunId}
    {metadata : EventMetadata}
    (h : relateMetadata m event (stagedMetadata event subject) subject fresh = .ok metadata) :
    Relates m event subject fresh metadata := by
  unfold relateMetadata at h
  split at h
  · rename_i name hkind
    split_ifs at h
    cases h
    exact .dispatch name hkind rfl rfl
  · rename_i name hkind
    split_ifs at h
    cases h
    exact .dependsOn name hkind rfl rfl
  · cases h
    exact .alone rfl rfl

/-- The run that an event relates to its subject is known, or its name is free. -/
theorem relatedRun_free {event : ControllerEvent} {metadata : EventMetadata} {state : TaskState}
    {subject fresh : RunId} {name : String} (hf : tx.model.Filed) (hc : tx.model.IndexSound)
    (hw : tx.Writes scope tx') (hsubject : tx'.model.HasRun subject)
    (h : tx.ensureMetadataRun subject metadata true (some event.taskRunId) state = .ok tx')
    (hnone : tx'.model.taskRuns.get (relatedRun tx.model event name subject fresh) = none) :
    tx'.model.taskRunByKey (.controller name) = none := by
  have habsent : ∀ id, tx'.model.HasRun id → relatedRun tx.model event name subject fresh ≠ id := by
    intro id hid e
    obtain ⟨run, hrun⟩ := hid.exists
    rw [e, hrun] at hnone
    cases hnone
  unfold relatedRun at habsent
  split_ifs at habsent with hname
  · exact absurd rfl (habsent subject hsubject)
  · cases hr : resolveControllerRun tx.model name with
    | some id =>
      rw [hr] at habsent
      exact absurd rfl (habsent id (hw.keeps_run hf (resolveControllerRun_hasRun hf hr)))
    | none =>
      have hfree := hc.names_eq_none (resolveControllerRun_none hr)
      have hkept : tx'.model.runIdsByKey.get (.controller name) = none := by
        dsimp only [ensureMetadataRun] at h
        refine createUnless_names (fun o => ?_) hfree h
        simp only [newTaskRun, if_true, Option.getD_some, ne_eq, RunKey.controller.injEq]
        exact fun e => hname e.symm
      rw [DomainModel.taskRunByKey, hkept, Option.bind_none]

theorem orConflict_ok {result : Except ReducerFailure Tx} (h : orConflict result = .ok tx) :
    result = .ok tx := by
  cases result with
  | error e => cases h
  | ok tx' =>
    cases h
    rfl

/-- A transition that was validated has checked the edge it is about to add. -/
theorem validateControllerTransition_checked {m : DomainModel} {event : ControllerEventKind}
    {subject : RunId} {unknown laneNativeEnd : Bool} {executionEdge : Option ExecutionEdge}
    {dependencyEdge : Option DependencyEdge} {deltas : ControllerDiagnosticDeltas}
    (h : validateControllerTransition m event subject unknown executionEdge dependencyEdge
      laneNativeEnd = .ok deltas) :
    (∀ name edge, event = .dispatch name → executionEdge = some edge →
      preflightExecutionEdge m edge = .ok ()) ∧
    (∀ name edge, event = .dependsOn name → dependencyEdge = some edge →
      preflightDependencyEdge m edge = .ok ()) := by
  unfold validateControllerTransition at h
  split at h
  · cases h
  · constructor
    · rintro name edge rfl rfl
      dsimp only at h
      split at h
      · cases h
      · assumption
    · rintro name edge rfl rfl
      dsimp only at h
      split_ifs at h
      split at h
      · cases h
      · assumption

theorem stageLifecycle_writes (tx : Tx) (event : ControllerEvent) (metadata : EventMetadata) :
    tx.Writes scope (tx.stageLifecycle event metadata) := by
  unfold stageLifecycle
  split
  · exact .refl tx
  · dsimp only
    split_ifs
    · exact applyNativeLifecycle_writes _ _ _ _
    · exact .refl tx

theorem stageDismiss_writes (tx : Tx) (subject : RunId) (normalized : NormalizedEvent)
    (metadata : EventMetadata) :
    tx.Writes scope (tx.stageDismiss subject normalized metadata) := by
  unfold stageDismiss
  dsimp only
  split
  · rename_i taskRun hrun
    have hstore : tx.Writes scope (tx.storeRun
        { taskRun with dismissedAtMs := some metadata.receiptTimeMs } metadata.receiptTimeMs) :=
      storeRun_writes taskRun _ (fun hf => hf.taskRun hrun) rfl rfl (fun _ => rfl)
        ⟨rfl, id, .inl ⟨rfl, rfl, rfl⟩⟩ fun _ _ => .inr (.inl rfl)
    exact hstore.trans (recordEvent_writes _ _ _)
  · exact recordEvent_writes _ _ _

/-- The run an event relates to its subject exists, and the edge between them may be added. -/
theorem ensureRelated_writes {event : ControllerEvent} {metadata : EventMetadata} {m : DomainModel}
    {subject fresh : RunId} (hruns : scope.runs = Set.univ)
    (hrelates : Relates m event subject fresh metadata) (hsubject : tx.model.HasRun subject)
    (hfree : scope.strict = true → ∀ name,
      tx.model.taskRuns.get (relatedRun m event name subject fresh) = none →
        tx.model.taskRunByKey (.controller name) = none)
    (h : tx.ensureRelated event.event metadata = .ok tx') :
    tx.Writes scope tx' ∧ (tx.model.Filed →
      (∀ edge, metadata.executionParent = some edge →
        tx'.model.HasRun edge.parentRunId ∧ tx'.model.HasRun edge.childRunId) ∧
      (∀ edge, metadata.dependency = some edge →
        tx'.model.HasRun edge.prerequisiteRunId ∧ tx'.model.HasRun edge.dependentRunId)) := by
  have hplaceholder : ∀ name, tx.ensureControllerPlaceholder (relatedRun m event name subject fresh)
      (some name) (runBookkeepingTimeMs metadata) = .ok tx' → tx.Writes scope tx' ∧
        tx'.model.HasRun (relatedRun m event name subject fresh) := by
    intro name h
    refine ensureControllerPlaceholder_writes (hruns ▸ Set.mem_univ _) ?_ h
    exact fun hs hn => hfree hs name hn
  unfold ensureRelated at h
  cases hrelates with
  | dispatch name kind parent dependency =>
    rw [kind, parent] at h
    obtain ⟨hw, hrun⟩ := hplaceholder name h
    refine ⟨hw, fun hf => ⟨fun edge he => ?_, fun edge he => ?_⟩⟩
    · rw [parent, Option.some.injEq] at he
      subst he
      exact ⟨hrun, hw.keeps_run hf hsubject⟩
    · rw [dependency] at he
      cases he
  | dependsOn name kind parent dependency =>
    rw [kind, parent, dependency] at h
    obtain ⟨hw, hrun⟩ := hplaceholder name h
    refine ⟨hw, fun hf => ⟨fun edge he => ?_, fun edge he => ?_⟩⟩
    · rw [parent] at he
      cases he
    · rw [dependency, Option.some.injEq] at he
      subst he
      exact ⟨hrun, hw.keeps_run hf hsubject⟩
  | alone parent dependency =>
    rw [parent, dependency] at h ⊢
    have htx : tx = tx' := by
      split at h <;> simp_all
    subst htx
    exact ⟨.refl tx, fun _ => ⟨fun _ he => (by cases he), fun _ he => (by cases he)⟩⟩

/-- The effect of a Controller event on its runs. -/
theorem stageTransition_mutates {event : ControllerEvent} {metadata : EventMetadata}
    {subject fresh aliasRunId : RunId} {unknown : Bool} {deltas : ControllerDiagnosticDeltas}
    (hruns : scope.runs = Set.univ) (hagents : scope.agents = Set.univ)
    (hf : tx.model.Filed) (hc : scope.strict = true → tx.model.IndexSound)
    (hrelates : Relates tx.model event subject fresh metadata)
    (hname : tx.model.taskRuns.get subject = none →
      tx.model.taskRunByKey (.controller event.taskRunId) = none)
    (h : tx.stageTransition event metadata subject unknown aliasRunId = .ok (tx', deltas)) :
    tx.Mutates scope tx' := by
  unfold stageTransition at h
  dsimp only at h
  obtain ⟨tx₁, h₁, h⟩ := bind_eq_ok.mp h
  obtain ⟨tx₂, h₂, h⟩ := bind_eq_ok.mp h
  obtain ⟨deltas', hdeltas, h⟩ := bind_eq_ok.mp h
  obtain ⟨tx₃, h₃, h⟩ := bind_eq_ok.mp h
  obtain ⟨tx₄, h₄, h⟩ := bind_eq_ok.mp h
  simp only [Except.ok.injEq, Prod.mk.injEq] at h
  obtain ⟨rfl, rfl⟩ := h
  replace h₁ := orConflict_ok h₁
  obtain ⟨hw₁, hsubject⟩ : tx.Writes scope tx₁ ∧ tx₁.model.HasRun subject := by
    refine ensureMetadataRun_writes (hruns ▸ Set.mem_univ _) ?_ (fun _ _ => ?_) h₁
    · exact fun _ hn _ => hname hn
    · cases metadata.taskState with
      | some state => exact .inl rfl
      | none => exact .inr rfl
  obtain ⟨hw₂, hends⟩ := @ensureRelated_writes scope _ _ _ _ _ _ _ hruns hrelates hsubject
    (fun hs name hn => relatedRun_free hf (hc hs) hw₁ hsubject h₁ hn) (orConflict_ok h₂)
  obtain ⟨hexecution, hdependency⟩ := hends (hw₁.filed hf)
  obtain ⟨hdispatch, hdepends⟩ := validateControllerTransition_checked hdeltas
  have hw₃ : tx₂.Writes scope (tx₂.applyControllerMetadata metadata false) := by
    refine applyControllerMetadata_writes (fun edge he => ?_) fun edge he => ?_
    · refine ⟨(hexecution edge he).1, (hexecution edge he).2, ?_⟩
      cases hrelates with
      | dispatch name kind _ _ => exact hdispatch name edge kind he
      | dependsOn _ _ parent _ => rw [parent] at he; cases he
      | alone parent _ => rw [parent] at he; cases he
    · refine ⟨(hdependency edge he).1, (hdependency edge he).2, ?_⟩
      cases hrelates with
      | dispatch _ _ _ dependency => rw [dependency] at he; cases he
      | dependsOn name kind _ _ => exact hdepends name edge kind he
      | alone _ dependency => rw [dependency] at he; cases he
  have hw₄ : (tx₂.applyControllerMetadata metadata false).Writes scope tx₃ :=
    applyEventBody_writes hagents (show Allowed scope.toRowScope (.controllerEvent metadata event.event) from trivial)
      (fun _ _ _ _ he => by cases he) (fun _ _ he => by cases he) (fun _ _ _ he => by cases he)
      (orConflict_ok h₃)
  have hidentity : tx₃.Mutates scope tx₄ := by
    cases hr : tx₃.applyIdentityMetadata (.controllerEvent metadata event.event) metadata aliasRunId with
    | error e => rw [hr] at h₄; cases h₄
    | ok tx' =>
      rw [hr] at h₄
      cases h₄
      exact applyIdentityMetadata_mutates hr
  have hlife : tx₄.Writes scope ((tx₄.stageLifecycle event metadata).persistEventExecution
      (.controllerEvent metadata event.event) metadata.receiptTimeMs) :=
    (stageLifecycle_writes _ _ _).trans (persistEventExecution_writes _ _ _)
  exact ((((hw₁.trans hw₂).trans hw₃).trans hw₄).mutates.trans hidentity).trans
    ((hlife.trans (noteTerminalSource_writes _ _ _)).trans (recordEvent_writes _ _ _)).mutates

/-- A Controller event that passed its validation. -/
theorem validateControllerEvent_mutations {core : Core} {event : ControllerEvent} {fresh : FreshRunIds}
    {delta : MaterializedDelta} (hruns : scope.runs = Set.univ) (hagents : scope.agents = Set.univ)
    (hf : core.model.Filed) (hc : scope.strict = true → core.model.IndexSound)
    (h : core.validateControllerEvent event fresh = .ok delta) :
    Mutations scope core (mergesOf delta.batch) delta.post := by
  have hscratch : Mutations scope core [] core.scratch.toCore :=
    .one (.quiet rfl (fun _ _ => rfl) le_rfl)
  have hgo : ∀ tx deltas, core.scratch.Mutates scope tx →
      Mutations scope core (mergesOf (tx.materialize deltas).batch)
        (tx.materialize deltas).post := by
    intro tx deltas hm
    obtain ⟨ls, hm, hp⟩ := hm (hscratch.filed hf)
    have hmerges : mergesOf (tx.materialize deltas).batch = ls := hp
    rw [hmerges]
    exact hscratch.trans hm
  unfold Core.validateControllerEvent at h
  by_cases hversion : 1 < event.schemaVersion
  · rw [if_pos hversion] at h
    cases h
  by_cases hinvalid : invalidControllerEvent event = true
  · rw [if_neg hversion, if_pos hinvalid] at h
    cases h
  rw [if_neg hversion, if_neg hinvalid] at h
  dsimp only at h
  split at h
  · cases h
  · rename_i metadata hrelate
    split at h
    · cases h
      exact hgo _ _ (recordEvent_writes _ _ _).mutates
    split at h
    · cases h
      exact hgo _ _ (.refl _)
    split at h
    · cases h
      exact hgo _ _ (stageDismiss_writes _ _ _ _).mutates
    · obtain ⟨⟨tx, deltas⟩, hstage, rfl⟩ := map_eq_ok.mp h
      refine hgo _ _ (stageTransition_mutates hruns hagents (hscratch.filed hf) (fun hs => ?_)
        (relateMetadata_relates hrelate) (fun hnone => ?_) hstage)
      · exact (hc hs).of_rows rfl
      · cases hr : resolveControllerRun core.model event.taskRunId with
        | none => exact resolveControllerRun_none hr
        | some id =>
          obtain ⟨run, hrun⟩ := (resolveControllerRun_hasRun hf hr).exists
          rw [hr, Option.getD_some] at hnone
          cases hnone.symm.trans hrun

end

end Tx

end HerdrTop
