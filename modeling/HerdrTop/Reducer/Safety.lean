import HerdrTop.Reducer.Reachable

/-!
# What holds in every run of the reducer

A run starts with the reducer over an empty store and takes one admissible action after the other. What is kept is
proved from every state that a run may start from, so that it also holds of runs that start with a restored model.

## What is proved

* `Reducer.Start.keeps_end`, `Reducer.Start.keeps_graphs`: from every such state semantic ends stand, and graphs that
  are well formed stay so.
* `Reducer.semantic_end_stands`: a run that was completed, failed or was cancelled stays so.
* `Reducer.graphs_wellFormed`: both graphs are well formed in every state that is reached.
-/

namespace HerdrTop.Reducer

/-- The reducer over an empty store. -/
def fresh (headlessInactivityMs : ℤ) : Reducer where
  published := [{}]
  headlessInactivityMs := headlessInactivityMs

/-- The reducer is reached from an empty store, with these merges on the way. -/
def Reached (strict : Bool) (ls : List Merge) (r : Reducer) : Prop :=
  ∃ headlessInactivityMs, Runs (Step strict) (fresh headlessInactivityMs) ls r

section

variable {strict : Bool} {r r' : Reducer} {l ls : List Merge}

/-- The reducer after an action, with its merges; unchanged where the program stops. -/
def next (r : Reducer) (action : Action) : Reducer × List Merge := (r.perform action).getD (r, [])

theorem step_next {action : Action} (hadmissible : Admissible strict r action)
    (hdone : (r.perform action).isSome = true) : Step strict r (r.next action).2 (r.next action).1 := by
  obtain ⟨result, hresult⟩ := Option.isSome_iff_exists.mp hdone
  refine ⟨action, hadmissible, ?_⟩
  rw [next, hresult]
  rfl

/-! ### Runs are sequences of changes -/

theorem filed_fresh (headlessInactivityMs : ℤ) : (fresh headlessInactivityMs).model.Filed where
  run _ _ h := by cases h
  execution _ _ h := by cases h
  named _ _ h := by cases h
  agentNode _ _ h := by cases h
  agent _ _ h := by cases h
  executionEdge _ h := by cases h
  dependencyEdge _ h := by cases h

theorem identified_fresh (headlessInactivityMs : ℤ) :
    (fresh headlessInactivityMs).toCore.Identified where
  sound := DomainModel.IndexCoherent.empty.sound
  nonneg := zero_le_one
  fresh t ms seq h := by rcases h with ⟨_, h⟩ | ⟨_, h⟩ <;> cases h
  numbered _ _ _ _ _ h := by cases h

theorem noEdge : Digraph.Acyclic ([] : List (RunId × RunId)) := graphHasCycle_eq_false.mp (by decide)

theorem graphs_fresh (headlessInactivityMs : ℤ) :
    GraphsWellFormed (fresh headlessInactivityMs).model where
  dispatch := ⟨fun _ h => (by cases h), fun _ h => (by cases h), fun _ h => noEdge _ h⟩
  dependency := ⟨fun _ h => (by cases h), fun _ h => noEdge _ h⟩

/-- What every state has that a run can start from. -/
structure Start (strict : Bool) (r : Reducer) : Prop where
  /-- Rows are filed under their identities. -/
  filed : r.model.Filed
  /-- In a strict run, the identity index is sound. -/
  identified : strict = true → r.toCore.Identified

theorem start_fresh (headlessInactivityMs : ℤ) : Start strict (fresh headlessInactivityMs) :=
  ⟨filed_fresh _, fun _ => identified_fresh _⟩

theorem Step.start (h : Step strict r l r') (hr : Start strict r) :
    Start strict r' ∧ Changes (.wide strict ⟨true, true⟩) r.toCore l r'.toCore := by
  have hc := h.changes hr.filed fun hs => (hr.identified hs).sound
  exact ⟨⟨hc.filed hr.filed, fun hs => (hc.identified hs (hr.identified hs)).2⟩, hc⟩

/-- A run is a sequence of changes with the merges it reports. -/
theorem run_changes (h : Runs (Step strict) r ls r') (hr : Start strict r) :
    Start strict r' ∧ Changes (.wide strict ⟨true, true⟩) r.toCore ls r'.toCore :=
  h.lift (f := Reducer.toCore) Step.start hr

theorem Reached.start (h : Reached strict ls r) : Start strict r := by
  obtain ⟨ms, h⟩ := h
  exact (run_changes h (start_fresh ms)).1

/-! ### Semantic ends -/

/-- Wherever a run starts, a run that was completed, failed or was cancelled stays so until another run absorbs it. -/
theorem Start.keeps_end (hr : Start strict r) {id : RunId} {run : TaskRun}
    (hrun : r.model.taskRun id = some run) (hend : run.state.isSemanticTerminal = true)
    (h : Runs (Step strict) r ls r') (hsurvives : ∀ p ∈ ls, p.2 ≠ id) :
    ∃ run', r'.model.taskRun id = some run' ∧ run'.state = run.state := by
  obtain ⟨run', hrun', hs⟩ := Changes.keeps_run (run_changes h hr).2 hr.filed hrun hsurvives
  exact ⟨run', hrun', hs hend⟩

/-- A run that was completed, failed or was cancelled stays so, whatever happens, until another run
absorbs it. -/
theorem semantic_end_stands (h : Reached false ls r) {id : RunId} {run : TaskRun}
    (hrun : r.model.taskRun id = some run) (hend : run.state.isSemanticTerminal = true)
    {later : List Merge} (hlater : Runs (Step false) r later r') (hsurvives : ∀ p ∈ later, p.2 ≠ id) :
    ∃ run', r'.model.taskRun id = some run' ∧ run'.state = run.state :=
  h.start.keeps_end hrun hend hlater hsurvives

/-- A Controller event about the job `job`. -/
def jobEvent (id : String) (kind : ControllerEventKind) : Action :=
  .controllerEvent
    { schemaVersion := 1, taskRunId := "job", event := kind
      metadata := { eventId := id, timestampMs := 1, receiptTimeMs := 1, source := "cli" } }
    ⟨⟨1⟩, ⟨2⟩, ⟨3⟩⟩ 1

theorem step_jobEvent (r : Reducer) (id : String) (kind : ControllerEventKind) :
    Step strict r (r.next (jobEvent id kind)).2 (r.next (jobEvent id kind)).1 := step_next trivial rfl

/-- The job is complete. -/
def jobDone : Reducer := ((fresh 0).next (jobEvent "a" .complete)).1

theorem reached_jobDone : Reached strict ((fresh 0).next (jobEvent "a" .complete)).2 jobDone :=
  ⟨0, .one (step_jobEvent _ _ _)⟩

/-- A job that is complete does not start again. -/
theorem semantic_end_stands_jobDone : ∃ run', (jobDone.next (jobEvent "b" .progress)).1.model.taskRun ⟨1⟩ =
    some run' ∧ run'.state = .completed := by
  obtain ⟨run, hrun⟩ := Option.isSome_iff_exists.mp (show (jobDone.model.taskRun ⟨1⟩).isSome = true by decide)
  have hstate : run.state = .completed := by
    have : (jobDone.model.taskRun ⟨1⟩).map (·.state) = some .completed := by decide
    rw [hrun] at this
    exact Option.some.inj this
  rw [← hstate]
  exact semantic_end_stands reached_jobDone hrun (by rw [hstate]; rfl) (.one (step_jobEvent _ _ _))
    (by decide)

/-! ### Graphs -/

theorem Changes.graphs {scope : Scope} {c c' : Core} (h : Changes scope c ls c')
    (hf : c.model.Filed) (hg : GraphsWellFormed c.model) : GraphsWellFormed c'.model :=
  (h.invariant (I := fun c => c.model.Filed ∧ GraphsWellFormed c.model)
    (fun hm h => ⟨hm.filed h.1, hm.graphs h.1 h.2⟩) ⟨hf, hg⟩).2

/-- Wherever a run starts with graphs that are well formed, they stay so. -/
theorem Start.keeps_graphs (hr : Start strict r) (hg : GraphsWellFormed r.model)
    (h : Runs (Step strict) r ls r') : GraphsWellFormed r'.model :=
  Changes.graphs (run_changes h hr).2 hr.filed hg

/-- In every state that is reached, no run has two parents, and nothing goes in circles. -/
theorem graphs_wellFormed (h : Reached false ls r) : GraphsWellFormed r.model := by
  obtain ⟨ms, h⟩ := h
  exact (start_fresh ms).keeps_graphs (graphs_fresh ms) h

/-- An agent is seen at work, of a run and maybe in a session or a terminal. -/
def agentSeen (eventId : String) (runId : RunId) (sid terminalId : Option String) : Action :=
  .observation
    [(.agentActivity
      { eventId, timestampMs := 1, receiptTimeMs := 1, source := "collector", provider := some .codex
        nativeSessionId := sid, terminalId, taskRunId := some runId } "agent" {}, ⟨9⟩)] 1

theorem step_agentSeen (r : Reducer) (eventId : String) (runId : RunId) (sid terminalId : Option String) :
    Step strict r (r.next (agentSeen eventId runId sid terminalId)).2
      (r.next (agentSeen eventId runId sid terminalId)).1 := by
  refine step_next (fun e he => ?_) rfl
  rw [List.mem_singleton.mp he]
  exact ⟨rfl, rfl, fun _ => rfl, fun _ _ _ _ hevent => by cases hevent⟩

/-- A Controller event about a job that may name its session, and the identities that are drawn for it. -/
def jobTold (eventId job : String) (kind : ControllerEventKind) (sid : Option String) (drawn : FreshRunIds) : Action :=
  .controllerEvent
    { schemaVersion := 1, taskRunId := job, event := kind
      metadata :=
        { eventId, timestampMs := 1, receiptTimeMs := 1, source := "cli", provider := sid.map fun _ => .codex
          nativeSessionId := sid } }
    drawn 1

theorem step_jobTold (r : Reducer) (eventId job : String) (kind : ControllerEventKind) (sid : Option String)
    (drawn : FreshRunIds) : Step strict r (r.next (jobTold eventId job kind sid drawn)).2
      (r.next (jobTold eventId job kind sid drawn)).1 := step_next trivial rfl

/-- A session, and a job that "parent" dispatched and that depends on "other". -/
def jobPlanned : Reducer :=
  ((((fresh 0).next (agentSeen "a" ⟨1⟩ (some "s") none)).1.next
    (jobTold "b" "job" (.dispatch "parent") none ⟨⟨10⟩, ⟨11⟩, ⟨12⟩⟩)).1.next
      (jobTold "c" "job" (.dependsOn "other") none ⟨⟨20⟩, ⟨21⟩, ⟨22⟩⟩)).1

theorem reached_jobPlanned : ∃ ls, Runs (Step strict) (fresh 0) ls jobPlanned :=
  ⟨_, ((Runs.one (step_agentSeen _ _ _ _ _)).tail (step_jobTold _ _ _ _ _ _)).tail (step_jobTold _ _ _ _ _ _)⟩

/-- The session is the job's. -/
def jobContracted : Reducer × List Merge :=
  jobPlanned.next (jobTold "d" "job" .progress (some "s") ⟨⟨30⟩, ⟨31⟩, ⟨32⟩⟩)

/-- The job wants to dispatch what dispatched it. -/
def circleTold : Reducer × List Merge :=
  jobContracted.1.next (jobTold "e" "parent" (.dispatch "job") none ⟨⟨40⟩, ⟨41⟩, ⟨42⟩⟩)

/-- The run with the session became one with the job, and the job did not become the parent of its parent. -/
theorem graphs_wellFormed_circleTold :
    GraphsWellFormed circleTold.1.model ∧ jobContracted.2 = [(⟨10⟩, ⟨1⟩)] ∧
      circleTold.1.model.executionEdges.keys = [⟨⟨11⟩, ⟨10⟩⟩] ∧
      circleTold.1.model.dependencyEdges.keys = [⟨⟨21⟩, ⟨10⟩⟩] := by
  obtain ⟨ls, hplanned⟩ := reached_jobPlanned
  have hcontracted : Runs (Step false) (fresh 0) (ls ++ jobContracted.2) jobContracted.1 :=
    hplanned.tail (step_jobTold _ _ _ _ _ _)
  have hreached : Reached false ((ls ++ jobContracted.2) ++ circleTold.2) circleTold.1 :=
    ⟨0, hcontracted.tail (step_jobTold _ _ _ _ _ _)⟩
  exact ⟨graphs_wellFormed hreached, by decide, by decide, by decide⟩

end

end HerdrTop.Reducer
