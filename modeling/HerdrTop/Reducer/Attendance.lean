import HerdrTop.Reducer.Safety

/-!
# Runs that are known from relationships alone

A run that no Controller spoke for and that has no execution is known from relationships alone: an event named it
as the parent or the prerequisite of its subject. Nobody has said that it began, so it should be queued, and the
count of dangling announcements asserts it. The sweep does not keep to that: it ends such runs when they have been
silent for long. A lane that falls silent does not either, where it ends a run that has no session and no execution.

## What is proved

* `Mutation.attendedBut`: a write that is not of these kinds leaves no run without attendance, some runs apart that
  are about to get an execution.
* `Tx.applyInner_attended`: neither does an event of an observation, unless it creates a run that is under way or
  takes a run its last execution.
-/

namespace HerdrTop

/-! ### Writes -/

namespace DomainModel

/-- Runs that are not queued are attended: a Controller spoke for them, or they have an execution; some may be
without one. -/
def AttendedBut (owed : Set RunId) (m : DomainModel) : Prop :=
  ∀ id run, m.taskRuns.get id = some run → run.hasControllerTaskStateEvent = false →
    run.state ≠ .queued → id ∈ owed ∨ m.Executes id

theorem attendedBut_empty {m : DomainModel} : m.AttendedBut ∅ ↔ m.Attended := by
  refine forall₄_congr fun id run _ _ => forall_congr' fun _ => ?_
  exact or_iff_right (Set.notMem_empty id)

variable {owed : Set RunId} {m m' : DomainModel}

/-- Runs that are known from relationships alone are queued where all runs are attended. -/
theorem Attended.queued (h : m.Attended) (hf : m.Filed) {run : TaskRun} (hrun : run ∈ m.taskRuns.values)
    (honly : m.relationshipOnly run = true) : run.state = .queued := by
  rw [relationshipOnly, Bool.and_eq_true, Bool.not_eq_true', Bool.not_eq_true'] at honly
  obtain ⟨hspoken, hnone⟩ := honly
  obtain ⟨id, hid⟩ := HashMap.mem_values.mp hrun
  by_contra hstate
  obtain ⟨name, e, he, howner⟩ := h id run hid hspoken hstate
  rw [List.any_eq_false] at hnone
  refine hnone e (HashMap.mem_values.mpr ⟨name, he⟩) (decide_eq_true ?_)
  rw [howner, hf.run id run hid]

/-- Every row is one from before, and the executions are the same. -/
theorem AttendedBut.of_rows (h : m.AttendedBut owed) (hexecutions : m'.executions = m.executions)
    (hrows : ∀ id run', m'.taskRuns.get id = some run' → run'.hasControllerTaskStateEvent = false →
      run'.state ≠ .queued → (∃ run, m.taskRuns.get id = some run ∧ run.hasControllerTaskStateEvent = false ∧
        run.state ≠ .queued) ∨ id ∈ owed ∨ m.Executes id) : m'.AttendedBut owed := by
  intro id run' hrun' hspoken hstate
  have hsame : m'.Executes id ↔ m.Executes id := by
    unfold Executes
    rw [hexecutions]
  rw [hsame]
  rcases hrows id run' hrun' hspoken hstate with ⟨run, hrun, hspoken, hstate⟩ | hdone
  · exact h id run hrun hspoken hstate
  · exact hdone

/-- A run that is stored. -/
theorem AttendedBut.insertTaskRun (h : m.AttendedBut owed) {run : TaskRun}
    (hrun : run.hasControllerTaskStateEvent = false → run.state ≠ .queued →
      run.runId ∈ owed ∨ m.Executes run.runId) : (m.insertTaskRun run).AttendedBut owed := by
  refine h.of_rows rfl fun id run' hrun' hspoken hstate => ?_
  rw [DomainModel.insertTaskRun, HashMap.get_insert] at hrun'
  split_ifs at hrun' with hid
  · obtain rfl := Option.some.inj hrun'
    rw [hid]
    exact .inr (hrun hspoken hstate)
  · exact .inl ⟨run', hrun', hspoken, hstate⟩

/-- An execution is stored, for the run that it belonged to if it is not a new one. -/
theorem AttendedBut.insertExecution (h : m.AttendedBut owed) {execution : Execution}
    (hsame : ∀ old, m.executions.get execution.executionId = some old → old.taskRunId = execution.taskRunId) :
    (m.insertExecution execution).AttendedBut owed := by
  intro id run hrun hspoken hstate
  refine (h id run hrun hspoken hstate).imp_right ?_
  rintro ⟨name, e, he, rfl⟩
  by_cases hname : name = execution.executionId
  · subst hname
    rw [hsame e he]
    exact ⟨_, execution, HashMap.get_insert_self _ _ _, rfl⟩
  · exact ⟨name, e, (HashMap.get_insert_ne _ _ hname).trans he, rfl⟩

end DomainModel

theorem Applied.attendedBut {m m' : DomainModel} {t : ℤ} {l : List Merge} {owed : Set RunId} (ha : Applied m t l m')
    (hf : m.Filed) (h : m.AttendedBut owed) : m'.AttendedBut owed := by
  cases ha with
  | unchanged => exact h
  | touched run exist =>
    refine h.insertTaskRun fun hspoken hstate => ?_
    rw [touchTaskRun_runId]
    exact h run.runId run exist (by simpa using hspoken) (by simpa using hstate)
  | bound run provider sid exist =>
    refine h.of_rows ?_ fun id run' hrun' hspoken hstate => .inl ?_
    · unfold boundModel
      split_ifs <;> rfl
    · rw [get_taskRuns_boundModel rfl] at hrun'
      split_ifs at hrun' with hid
      · obtain rfl := Option.some.inj hrun'
        unfold boundRow at hspoken hstate
        refine ⟨run, hid ▸ exist, ?_, ?_⟩
        · split_ifs at hspoken
          · simpa using hspoken
          · simpa using hspoken
        · split_ifs at hstate
          · simpa using hstate
          · simpa using hstate
      · exact ⟨run', hrun', hspoken, hstate⟩
  | @merged s a sr ar c hp =>
    have hid := hf.run s sr hp.survivor
    intro id run' hrun' hspoken hstate
    rw [get_taskRuns_mergedModel hp hid] at hrun'
    obtain ⟨hne, run, hrun, hspoken, hstate⟩ : id ≠ a ∧ ∃ run, m.taskRuns.get id = some run ∧
        run.hasControllerTaskStateEvent = false ∧ run.state ≠ .queued := by
      split_ifs at hrun' with hs ha
      · obtain rfl := Option.some.inj hrun'
        refine ⟨hs ▸ hp.ne, sr, hs ▸ hp.survivor, ?_, by simpa using hstate⟩
        unfold adoptedRow at hspoken
        split_ifs at hspoken
        · simp at hspoken
        · simpa using hspoken
      · exact ⟨ha, run', hrun', hspoken, hstate⟩
    refine (h id run hrun hspoken hstate).imp_right ?_
    rintro ⟨name, e, he, rfl⟩
    obtain ⟨hexecutions, -⟩ := rows_mergedModel m s a sr c t
    refine ⟨name, e.repoint s a, ?_, ?_⟩
    · rw [hexecutions, HashMap.get_mapValues, he, Option.map_some]
    · rw [Execution.repoint_taskRunId, substitute, if_neg hne]

section

variable {scope : Scope} {c c' : Core} {l ls : List Merge} {owed : Set RunId}

/-- A write leaves no run without attendance. -/
theorem Mutation.attendedBut (h : Mutation scope c l c') (hbare : scope.bare = false) (hf : c.model.Filed)
    (ha : c.model.AttendedBut owed) : c'.model.AttendedBut owed := by
  cases h with
  | quiet rows _ ordinal =>
    simp only [DomainModel.rows, Prod.mk.injEq] at rows
    obtain ⟨hruns, -, -, hexecutions, -⟩ := rows
    refine ha.of_rows hexecutions fun id run' hrun' hspoken hstate => .inl ⟨run', ?_, hspoken, hstate⟩
    rw [← hruns]
    exact hrun'
  | create new absent ordinal key stamped spoken =>
    refine ha.insertTaskRun fun hspoken hstate => ?_
    rcases spoken hbare with h | h
    · exact absurd (h.symm.trans hspoken) (by simp)
    · exact absurd h hstate
  | @update run old row key ordinal absorbing follows spoken =>
    refine ha.insertTaskRun fun hspoken hstate => ?_
    have hsilent : old.hasControllerTaskStateEvent = false := by
      by_contra hold
      exact absurd ((follows.spoken (Bool.not_eq_false _ ▸ hold)).symm.trans hspoken) (by simp)
    rcases spoken hbare with h | h | h
    · exact absurd (h.symm.trans hspoken) (by simp)
    · exact ha run.runId old row hsilent (h ▸ hstate)
    · exact .inr h
  | binding applied => exact (applyBindingPlanAt_applied hf.run applied).attendedBut hf ha
  | execution execution owner same => exact ha.insertExecution (same hbare)
  | agentNode => exact ha.of_rows rfl fun id run' h hspoken hstate => .inl ⟨run', h, hspoken, hstate⟩
  | createAgentNode => exact ha.of_rows rfl fun id run' h hspoken hstate => .inl ⟨run', h, hspoken, hstate⟩
  | openRow => exact ha.of_rows rfl fun id run' h hspoken hstate => .inl ⟨run', h, hspoken, hstate⟩
  | closeRows => exact ha.of_rows rfl fun id run' h hspoken hstate => .inl ⟨run', h, hspoken, hstate⟩
  | executionEdge => exact ha.of_rows rfl fun id run' h hspoken hstate => .inl ⟨run', h, hspoken, hstate⟩
  | dependencyEdge => exact ha.of_rows rfl fun id run' h hspoken hstate => .inl ⟨run', h, hspoken, hstate⟩
  | lifecycle => exact ha.of_rows rfl fun id run' h hspoken hstate => .inl ⟨run', h, hspoken, hstate⟩

theorem Mutations.attendedBut (h : Mutations scope c ls c') (hbare : scope.bare = false) (hf : c.model.Filed)
    (ha : c.model.AttendedBut owed) : c'.model.AttendedBut owed :=
  (h.invariant (I := fun c => c.model.Filed ∧ c.model.AttendedBut owed)
    (fun hm h => ⟨hm.filed h.1, hm.attendedBut hbare h.1 h.2⟩) ⟨hf, ha⟩).2

theorem Changes.attended (h : Changes scope c ls c') (hbare : scope.bare = false) (hf : c.model.Filed)
    (ha : c.model.Attended) : c'.model.Attended := by
  refine (h.invariant (I := fun c => c.model.Filed ∧ c.model.Attended) (fun hc h => ⟨hc.filed h.1, ?_⟩) ⟨hf, ha⟩).2
  cases hc with
  | mutation hm =>
    exact DomainModel.attendedBut_empty.mp (hm.attendedBut hbare h.1 (DomainModel.attendedBut_empty.mpr h.2))
  | history => exact h.2

/-- A run without a merge keeps the executions of a run. -/
theorem Mutation.executes (h : Mutation scope c [] c') (hbare : scope.bare = false) (hf : c.model.Filed) {id : RunId}
    (hid : c.model.Executes id) : c'.model.Executes id := by
  generalize hl : ([] : List Merge) = l at h
  cases h with
  | quiet rows _ ordinal =>
    simp only [DomainModel.rows, Prod.mk.injEq] at rows
    obtain ⟨-, -, -, hexecutions, -⟩ := rows
    unfold DomainModel.Executes
    rw [hexecutions]
    exact hid
  | binding applied =>
    have happlied := applyBindingPlanAt_applied hf.run applied
    rw [← hl] at happlied
    cases happlied with
    | unchanged => exact hid
    | touched => exact hid
    | bound run provider sid exist =>
      unfold DomainModel.Executes boundModel
      split_ifs
      · exact hid
      · exact hid
  | execution execution owner same =>
    obtain ⟨name, e, he, rfl⟩ := hid
    by_cases hname : name = execution.executionId
    · subst hname
      rw [same hbare e he]
      exact ⟨_, execution, HashMap.get_insert_self _ _ _, rfl⟩
    · exact ⟨name, e, (HashMap.get_insert_ne _ _ hname).trans he, rfl⟩
  | _ => exact hid

theorem Mutations.executes (h : Mutations scope c [] c') (hbare : scope.bare = false) (hf : c.model.Filed) {id : RunId}
    (hid : c.model.Executes id) : c'.model.Executes id := by
  generalize hl : ([] : List Merge) = ls at h
  induction h with
  | refl => exact hid
  | tail hsteps hm ih =>
    obtain ⟨rfl, rfl⟩ := List.append_eq_nil_iff.mp hl.symm
    exact hm.executes hbare (Mutations.filed hsteps hf) (ih rfl)

end

/-! ### Events -/

namespace DomainModel

/-- The executions are the same, and the runs that there were are as they were or a Controller spoke for them. -/
structure Spoke (m m' : DomainModel) : Prop where
  executions : m'.executions = m.executions
  runs : ∀ id run, m.taskRuns.get id = some run →
    ∃ run', m'.taskRuns.get id = some run' ∧ (run' = run ∨ run'.hasControllerTaskStateEvent = true)

theorem Spoke.refl (m : DomainModel) : m.Spoke m := ⟨rfl, fun _ run h => ⟨run, h, .inl rfl⟩⟩

theorem Spoke.trans {m m' m'' : DomainModel} (h : m.Spoke m') (h' : m'.Spoke m'') : m.Spoke m'' where
  executions := h'.executions.trans h.executions
  runs id run hrun := by
    obtain ⟨run', hrun', hsame⟩ := h.runs id run hrun
    obtain ⟨run'', hrun'', hsame'⟩ := h'.runs id run' hrun'
    refine ⟨run'', hrun'', ?_⟩
    rcases hsame' with rfl | hspoken
    · exact hsame
    · exact .inr hspoken

/-- The run that an execution belonged to, if it is to belong to another one, is attended without it. -/
def CanLose (m : DomainModel) (execution : Execution) : Prop :=
  ∀ old, m.executions.get execution.executionId = some old → old.taskRunId = execution.taskRunId ∨
    ∀ run, m.taskRuns.get old.taskRunId = some run →
      run.hasControllerTaskStateEvent = true ∨ run.state = .queued ∨
        ∃ name e, m.executions.get name = some e ∧ name ≠ execution.executionId ∧ e.taskRunId = old.taskRunId

theorem CanLose.spoke {m m' : DomainModel} {execution : Execution} (h : m.CanLose execution) (hf : m.Filed)
    (hspoke : m.Spoke m') : m'.CanLose execution := by
  intro old hold
  rw [hspoke.executions] at hold
  refine (h old hold).imp_right fun hwithout run' hrun' => ?_
  obtain ⟨run, hrun⟩ := (hf.execution _ old hold).exists
  obtain ⟨later, hlater, hsame⟩ := hspoke.runs _ run hrun
  obtain rfl := Option.some.inj (hlater.symm.trans hrun')
  rcases hsame with rfl | hspoken
  · rw [hspoke.executions]
    exact hwithout later hrun
  · exact .inl hspoken

/-- The run that is owed an execution gets it. -/
theorem AttendedBut.begin {m : DomainModel} {owed : Set RunId} (h : m.AttendedBut owed) {execution : Execution}
    (howed : ∀ id ∈ owed, id = execution.taskRunId) (hlose : m.CanLose execution) :
    (m.insertExecution execution).Attended := by
  intro id run hrun hspoken hstate
  by_cases hid : id = execution.taskRunId
  · exact hid ▸ Tx.executes_insertExecution m execution
  · have hkept : ∀ name e, m.executions.get name = some e → name ≠ execution.executionId →
        (m.insertExecution execution).executions.get name = some e :=
      fun name e he hname => (HashMap.get_insert_ne _ _ hname).trans he
    rcases h id run hrun hspoken hstate with howes | ⟨name, e, he, rfl⟩
    · exact absurd (howed id howes) hid
    · by_cases hname : name = execution.executionId
      · subst hname
        rcases (hlose e he).resolve_left hid run hrun with h | h | ⟨other, e', he', hother, howner⟩
        · exact absurd (h.symm.trans hspoken) nofun
        · exact absurd h hstate
        · exact ⟨other, e', hkept other e' he' hother, howner⟩
      · exact ⟨name, e, hkept name e he hname, rfl⟩

end DomainModel

namespace Tx

/-- The run of the execution that an event begins. -/
def owes (event : NormalizedEvent) : Set RunId :=
  fun id => ∃ metadata execution, event = .executionBegin metadata execution ∧ execution.taskRunId = id

/-- What an event is to observe: it does not create a run that nobody attends, and takes no run its last
execution. -/
structure Attends (m : DomainModel) (event : NormalizedEvent) : Prop where
  named : ∀ runId, event.metadata.taskRunId = some runId → event.metadata.source ≠ "provider" →
    m.taskRuns.get runId = none → event.metadata.taskState.isSome = true ∨ runId ∈ owes event
  begun : ∀ metadata execution, event = .executionBegin metadata execution → m.CanLose execution

section

variable {strict : Bool} {tx tx' : Tx} {owed : Set RunId}

/-- A new run may have to be attended. -/
theorem createUnless_spoke {runId : RunId} {t : ℤ} {run : DisplayOrdinal → TaskRun} (hid : ∀ o, (run o).runId = runId)
    (h : tx.createUnless runId t run = .ok tx') :
    tx.model.Spoke tx'.model ∧ (tx.model.AttendedBut owed → tx'.model.AttendedBut (insert runId owed)) := by
  have hmore : ∀ {m : DomainModel}, m.AttendedBut owed → m.AttendedBut (insert runId owed) :=
    fun ha id run hrun hspoken hstate => (ha id run hrun hspoken hstate).imp_left (Set.mem_insert_of_mem _)
  unfold createUnless at h
  split_ifs at h with hsome
  · cases h
    exact ⟨.refl _, hmore⟩
  · obtain ⟨⟨o, tx₁⟩, h₁, h₂⟩ := bind_eq_ok.mp h
    obtain ⟨rfl, rfl⟩ := allocateOrdinal_ok h₁
    cases h₂
    refine ⟨⟨rfl, fun id old hold => ⟨old, ?_, .inl rfl⟩⟩, fun ha => ?_⟩
    · have hne : id ≠ runId := by
        rintro rfl
        exact hsome (by rw [DomainModel.taskRun, hold]; rfl)
      simp only [storeRun, Tx.push, withModel, DomainModel.insertTaskRun, stampNewTaskRun_runId, hid]
      rw [HashMap.get_insert_ne _ _ hne]
      exact hold
    · refine DomainModel.AttendedBut.insertTaskRun (hmore ha) fun _ _ => .inl ?_
      rw [stampNewTaskRun_runId, hid]
      exact Set.mem_insert _ _

/-- The run of an execution that begins exists, and is owed the execution. -/
theorem ensureBegunRun_owes {event : NormalizedEvent} {metadata : EventMetadata}
    (h : tx.ensureBegunRun event metadata = .ok tx') (hf : tx.model.Filed) (ha : tx.model.Attended) :
    tx.model.Spoke tx'.model ∧ tx'.model.Filed ∧ tx'.model.AttendedBut (owes event) ∧
      ∀ id ∈ owes event, tx'.model.HasRun id := by
  unfold ensureBegunRun at h
  split at h
  · rename_i md execution
    have howes : owes (.executionBegin md execution) = insert execution.taskRunId ∅ := by
      ext id
      constructor
      · rintro ⟨_, _, heq, rfl⟩
        cases heq
        exact Set.mem_insert _ _
      · intro hid
        rcases Set.mem_insert_iff.mp hid with rfl | hid
        · exact ⟨_, _, rfl, rfl⟩
        · exact absurd hid (Set.notMem_empty id)
    obtain ⟨hw, hrun⟩ : tx.Writes (.wide false ⟨false, false⟩) tx' ∧ _ :=
      ensureExecutionRun_writes (Set.mem_univ _) rfl h
    dsimp only [ensureExecutionRun] at h
    obtain ⟨hspoke, hafter⟩ := @createUnless_spoke tx tx' ∅ execution.taskRunId _ _ (fun _ => rfl) h
    rw [howes]
    refine ⟨hspoke, hw.filed hf, hafter (DomainModel.attendedBut_empty.mpr ha), fun id hid => ?_⟩
    rcases Set.mem_insert_iff.mp hid with rfl | hid
    · exact hrun
    · exact absurd hid (Set.notMem_empty id)
  · rename_i hother
    cases h
    have hnone : ∀ id, id ∉ owes event := fun id ⟨md, execution, heq, _⟩ => hother md execution heq
    refine ⟨.refl _, hf, fun id run hrun hspoken hstate => .inr (ha id run hrun hspoken hstate), fun id hid => ?_⟩
    exact absurd hid (hnone id)

theorem applyTaskState_spoke (tx : Tx) (metadata : EventMetadata) (reopen : Bool) :
    tx.model.Spoke (tx.applyTaskState metadata reopen).model := by
  unfold applyTaskState
  split
  · split
    · exact .refl _
    · rename_i runId _ _ _ taskRun hrun
      rw [storeRun]
      refine ⟨by rw [noteTaskStateSource_model]; rfl, fun id run hget => ?_⟩
      simp only [Tx.push, withModel, noteTaskStateSource_model, DomainModel.insertTaskRun, HashMap.get_insert]
      split_ifs
      · exact ⟨_, rfl, .inr (by simp)⟩
      · exact ⟨run, hget, .inl rfl⟩
  · exact .refl _

theorem ensureNamedRun_spoke {metadata : EventMetadata} (h : tx.ensureNamedRun metadata = .ok tx') :
    tx.model.Spoke tx'.model := by
  unfold ensureNamedRun at h
  split at h
  · split_ifs at h
    · cases h
      exact .refl _
    · dsimp only [ensureMetadataRun] at h
      exact (@createUnless_spoke tx tx' ∅ _ _ _ (fun ordinal => by dsimp only [newTaskRun]) h).1
  · cases h
    exact .refl _

theorem applyControllerMetadata_spoke (tx : Tx) {event : NormalizedEvent} (hobs : Observed strict event) :
    tx.model.Spoke (tx.applyControllerMetadata event.metadata false).model := by
  unfold applyControllerMetadata
  rw [hobs.executionParent, hobs.dependency]
  exact applyTaskState_spoke tx event.metadata false

/-- An event of an observation leaves no run without attendance. -/
theorem applyInner_attended {core : Core} {event : NormalizedEvent} {aliasRunId : RunId}
    (hobs : Observed strict event) (hf : core.model.Filed) (ha : core.model.Attended)
    (hattends : Attends core.model (withoutLaneTaskState event)) (h : applyInner core event aliasRunId = .ok tx') :
    tx'.model.Attended := by
  obtain ⟨named, tx₂, -, hnamed, hbody, -, hrest, -⟩ := applyInner_steps h
  replace hobs := hobs.withoutLaneTaskState
  revert hnamed hbody hobs hattends
  generalize withoutLaneTaskState event = event
  intro hattends hnamed hbody hobs
  unfold ensureEventRuns at hnamed
  rw [hobs.executionParent, hobs.dependency] at hnamed
  obtain ⟨begun, hbegun, hlater⟩ := bind_eq_ok.mp hnamed
  obtain ⟨tx₁, hmentioned, hends⟩ := bind_eq_ok.mp hlater
  obtain rfl : tx₁ = named := Except.ok.inj hends
  obtain ⟨hspoke, hfbegun, habegun, hexist⟩ := ensureBegunRun_owes hbegun hf ha
  -- the run that the event names is known, or attended, or owed its execution
  have hnamedWrites : begun.Writes (.wide strict ⟨true, true⟩ false) tx₁ :=
    ensureNamedRun_writes rfl hobs.executionParent hobs.dependency hobs.taskState
      (fun _ runId hrun hsource hnone => by
        have hbefore : core.model.taskRuns.get runId = none := by
          cases hget : core.model.taskRuns.get runId with
          | none => rfl
          | some run =>
            obtain ⟨run', hrun', -⟩ := hspoke.runs runId run hget
            exact absurd (hnone.symm.trans hrun') (Option.some_ne_none run').symm
        refine (hattends.named runId hrun hsource hbefore).resolve_right fun howes => ?_
        obtain ⟨run', hrun'⟩ := (hexist runId howes).exists
        exact absurd (hnone.symm.trans hrun') (Option.some_ne_none run').symm) hmentioned
  have hstate : tx₁.Writes (.wide strict ⟨true, true⟩ false) (tx₁.applyControllerMetadata event.metadata false) :=
    applyControllerMetadata_writes (fun edge he => by rw [hobs.executionParent] at he; cases he)
      (fun edge he => by rw [hobs.dependency] at he; cases he)
  have hf₁ := hnamedWrites.filed hfbegun
  have hfstate := hstate.filed hf₁
  have hastate : (tx₁.applyControllerMetadata event.metadata false).model.AttendedBut (owes event) :=
    Mutations.attendedBut (hstate hf₁).1 rfl hf₁ (Mutations.attendedBut (hnamedWrites hfbegun).1 rfl hfbegun habegun)
  have hbegin : ∀ md execution, event = .executionBegin md execution →
      (tx₁.applyControllerMetadata event.metadata false).model.HasRun execution.taskRunId := fun md execution he =>
    hstate.keeps_run hf₁ (hnamedWrites.keeps_run hfbegun (hexist _ ⟨md, execution, he, rfl⟩))
  have hbodyWrites : (tx₁.applyControllerMetadata event.metadata false).Writes (.wide strict ⟨true, true⟩) tx₂ :=
    applyEventBody_writes rfl (.all event) hobs.agent hbegin (fun hb => by cases hb) hbody
  have hfbody := hbodyWrites.filed hfstate
  have hattended : tx₂.model.Attended := by
    by_cases hbegins : ∃ md execution, event = .executionBegin md execution
    · obtain ⟨md, execution, rfl⟩ := hbegins
      have hkept : core.model.Spoke (tx₁.applyControllerMetadata md false).model :=
        (hspoke.trans (ensureNamedRun_spoke hmentioned)).trans (applyControllerMetadata_spoke _ hobs)
      cases hbody
      refine hastate.begin (fun id ⟨_, _, heq, hid⟩ => ?_) ((hattends.begun md execution rfl).spoke hf hkept)
      cases heq
      exact hid.symm
    · have hwrites : (tx₁.applyControllerMetadata event.metadata false).Writes
          (.wide strict ⟨true, true⟩ false) tx₂ :=
        applyEventBody_writes rfl (.all event) hobs.agent hbegin
          (fun _ md execution he => absurd ⟨md, execution, he⟩ hbegins) hbody
      have hbut := Mutations.attendedBut (hwrites hfstate).1 rfl hfstate hastate
      intro id run hrun hspoken hqueued
      exact (hbut id run hrun hspoken hqueued).resolve_left fun ⟨md, execution, he, _⟩ => hbegins ⟨md, execution, he⟩
  obtain ⟨ls, hsteps, -⟩ := hrest (.wide strict ⟨true, true⟩ false) hfbody
  exact DomainModel.attendedBut_empty.mp
    (hsteps.attendedBut rfl hfbody (DomainModel.attendedBut_empty.mpr hattended))

end

end Tx

end HerdrTop
