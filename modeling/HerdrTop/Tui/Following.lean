import HerdrTop.Reducer.BeforeImages
import HerdrTop.Tui.AppRows

/-!
# The interface follows the reducer

The reducer acts when something is observed, and the interface takes its turns when it is woken; neither waits for the
other. Of all that the reducer sends, the interface sees what it finds when it looks, so what is between two looks is
never seen. Still a frame is never behind: it shows what the reducer has sent last, whole.

## What is proved

* `Keyed.publicationSnapshot`: what is sent is filed under its identities, as the model it is made of.
* `Dashboard.loop_runs`: beside the reducer, the interface runs as it does by itself.
* `Dashboard.frames_follow_reducer`: what a frame shows of the reducer, in every interleaving.
-/

namespace HerdrTop.Tui

/-! ### What is sent -/

namespace Keyed

variable {model : DomainModel}

theorem removeTaskRunProjection (h : Keyed model) (runId : RunId) : Keyed (model.removeTaskRunProjection runId) :=
  ⟨h.workspaces, h.tabs, h.panes, FiledUnder.remove h.runs runId, FiledUnder.retain h.agents _⟩

theorem insertAgentNode (h : Keyed model) (node : AgentNode) : Keyed (model.insertAgentNode node) :=
  ⟨h.workspaces, h.tabs, h.panes, h.runs, FiledUnder.insert h.agents node⟩

/-- Whatever is stored beside the tables that rows are made of. -/
theorem transfer {model' : DomainModel} (h : Keyed model) (hworkspaces : model'.workspaces = model.workspaces)
    (htabs : model'.tabs = model.tabs) (hpanes : model'.panes = model.panes)
    (hruns : model'.taskRuns = model.taskRuns) (hagents : model'.agentNodes = model.agentNodes) : Keyed model' := by
  obtain ⟨workspaces, tabs, panes, runs, agents⟩ := h
  refine ⟨hworkspaces ▸ workspaces, htabs ▸ tabs, hpanes ▸ panes, ?_, ?_⟩
  · unfold RunsKeyed
    rw [hruns]
    exact runs
  · unfold AgentsKeyed
    rw [hagents]
    exact agents

theorem setRunRateTotals (h : Keyed model) (runId : RunId) (totals : RunRateTotals) :
    Keyed (model.setRunRateTotals runId totals) := h.transfer rfl rfl rfl rfl rfl

theorem setRunRateCursor (h : Keyed model) (runId : RunId) (cursor : RunRateCursor) :
    Keyed (model.setRunRateCursor runId cursor) := h.transfer rfl rfl rfl rfl rfl

theorem setTelemetry (h : Keyed model) (runId : RunId) (telemetry : RunTelemetry) :
    Keyed (model.setTelemetry runId telemetry) := h.transfer rfl rfl rfl rfl rfl

theorem insertRunKind (h : Keyed model) (runId : RunId) (kind : String) :
    Keyed { model with runKinds := model.runKinds.insert runId kind } := h.transfer rfl rfl rfl rfl rfl

theorem foldl {α : Type} {f : DomainModel → α → DomainModel} (h : Keyed model)
    (hf : ∀ model a, Keyed model → Keyed (f model a)) (l : List α) : Keyed (l.foldl f model) :=
  List.foldlRecOn l f h fun model hmodel a _ => hf model a hmodel

theorem elim {α : Type} {f : α → DomainModel} (h : Keyed model) (hf : ∀ a, Keyed (f a)) (o : Option α) :
    Keyed (o.elim model f) := by
  cases o with
  | none => exact h
  | some a => exact hf a

theorem restoreHistoryPublication (h : Keyed model) (publication : HistoryRunPublication) :
    Keyed (model.restoreHistoryPublication publication) := by
  unfold DomainModel.restoreHistoryPublication
  dsimp only
  have hrun : Keyed (model.insertTaskRun publication.taskRun) :=
    ⟨h.workspaces, h.tabs, h.panes, FiledUnder.insert h.runs publication.taskRun, h.agents⟩
  generalize publication.taskRun.runId = runId
  have hstate : Keyed ((model.insertTaskRun publication.taskRun).setV6State runId publication.state) :=
    hrun.transfer rfl rfl rfl rfl rfl
  have haliases := hstate.foldl (f := fun m key => m.insertTaskRunAlias key runId)
    (fun m key hm => hm.transfer rfl rfl rfl rfl rfl) publication.aliases
  have htotals := haliases.elim (fun totals => haliases.setRunRateTotals runId totals) publication.rateTotals
  have hcursor := htotals.elim (fun cursor => htotals.setRunRateCursor runId cursor) publication.rateCursor
  have htelemetry := hcursor.elim (fun telemetry => hcursor.setTelemetry runId telemetry) publication.telemetry
  have hkind := htelemetry.elim (fun kind => htelemetry.insertRunKind runId kind) publication.runKind
  have hexecutions := hkind.foldl (f := DomainModel.insertExecution)
    (fun m execution hm => hm.transfer rfl rfl rfl rfl rfl) publication.executions
  have hnodes := hexecutions.foldl (f := DomainModel.insertAgentNode)
    (fun m node hm => hm.insertAgentNode node) publication.agentNodes
  exact hnodes.transfer rfl rfl rfl rfl rfl

theorem publicationSnapshot (h : Keyed model) : Keyed model.publicationSnapshot := by
  unfold DomainModel.publicationSnapshot
  split_ifs
  · exact h.transfer rfl rfl rfl rfl rfl
  · have hremoved := h.foldl (f := DomainModel.removeTaskRunProjection)
      (fun m runId hm => hm.removeTaskRunProjection runId) model.blockedRuns
    have hrestored := hremoved.foldl (f := DomainModel.restoreHistoryPublication)
      (fun m publication hm => hm.restoreHistoryPublication publication) model.blockedPublications
    exact hrestored.transfer rfl rfl rfl rfl rfl

end Keyed

section

variable {headlessInactivityMs : ℤ} {merges : List Merge} {reducer : Reducer}

/-- The model of the reducer is filed under its identities. -/
theorem keyed_of_runs (h : Runs Reducer.ConsistentStep (Reducer.fresh headlessInactivityMs) merges reducer) :
    Keyed reducer.model := by
  have hrun : Reducer.Start false reducer ∧ Tx.Whole reducer.model := by
    refine h.invariant (I := fun r => Reducer.Start false r ∧ Tx.Whole r.model) ?_
      ⟨Reducer.start_fresh _, Reducer.whole_fresh _⟩
    rintro s l t hstep ⟨hs, hwhole⟩
    refine ⟨(Reducer.Step.start hstep.step hs).1, ?_⟩
    obtain ⟨action, hadmissible, hconsistent, hdone⟩ := hstep
    exact (Reducer.perform_whole hs.filed hwhole hadmissible hconsistent hdone).1
  obtain ⟨hstart, hwhole⟩ := hrun
  exact ⟨hwhole.workspaceId, hwhole.tabId, hwhole.paneId, hstart.filed.run, hstart.filed.agent⟩

/-- The snapshot that was sent last is that of the model that the last action to send one has left. -/
theorem sent_last (h : Runs Reducer.ConsistentStep (Reducer.fresh headlessInactivityMs) merges reducer) :
    ∃ before after between, Runs Reducer.ConsistentStep (Reducer.fresh headlessInactivityMs) before between ∧
      Runs Reducer.ConsistentStep between after reducer ∧ between.published = reducer.published ∧
      reducer.published.head? = some between.model.publicationSnapshot := by
  induction h with
  | refl => exact ⟨[], [], _, .refl _, .refl _, rfl, rfl⟩
  | @tail middle last ls l hrun hstep ih =>
    obtain ⟨before, after, between, hbefore, hafter, hpublished, hhead⟩ := ih
    obtain ⟨action, hadmissible, hconsistent, hdone⟩ := hstep
    have hlast : Reducer.ConsistentStep middle l last := ⟨action, hadmissible, hconsistent, hdone⟩
    rcases Reducer.perform_sends hdone with hsame | hnew
    · exact ⟨before, after ++ l, between, hbefore, .tail hafter hlast, hpublished.trans hsame.symm, hsame ▸ hhead⟩
    · exact ⟨ls ++ l, [], last, .tail hrun hlast, .refl _, rfl, congrArg List.head? hnew⟩

end

/-! ### The reducer and the interface -/

/-- The snapshot is sent to the loop. -/
def EventLoop.publish (loop : EventLoop) (model : DomainModel) : EventLoop :=
  { loop with app := { loop.app with modelReceiver := loop.app.modelReceiver.send model } }

/-- What the reducer has sent since, in the order in which it was sent. -/
def EventLoop.receive (loop : EventLoop) (earlier later : Reducer) : EventLoop :=
  (later.published.take (later.published.length - earlier.published.length)).foldr
    (fun model loop => loop.publish model) loop

/-- The reducer, and the interface that shows what it sends. -/
structure Dashboard where
  reducer : Reducer
  loop : EventLoop

namespace Dashboard

/-- The reducer acts, something else happens to the interface, or it takes a turn and goes on. -/
inductive Step (env : Environment) : Dashboard → List Taken → Dashboard → Prop
  | act (dashboard : Dashboard) (merges : List Merge) (reducer : Reducer)
      (acts : Reducer.ConsistentStep dashboard.reducer merges reducer) :
      Step env dashboard [] ⟨reducer, dashboard.loop.receive dashboard.reducer reducer⟩
  | elsewhere (dashboard : Dashboard) (performance sourceCoverage diagnosticsReceiver operatorReceiver : Watch Unit)
      (operatorCommands : CommandQueue) (closed : Bool) :
      Step env dashboard [] { dashboard with loop := { dashboard.loop with app := { dashboard.loop.app with
        performance, sourceCoverage, diagnosticsReceiver, operatorReceiver, operatorCommands
        modelReceiver := { dashboard.loop.app.modelReceiver with closed } } } }
  | turn (dashboard : Dashboard) (inputs : TurnInputs) (fits : inputs.Fits) (turn : Turn)
      (taken : dashboard.loop.turn env inputs = some (.ok turn)) (goesOn : turn.control = .ok .goOn) :
      Step env dashboard [⟨dashboard.loop, inputs, turn⟩] { dashboard with loop := turn.loop }

/-- The interface holds what the reducer has sent last. -/
structure Current (dashboard : Dashboard) : Prop where
  reached : ∃ headlessInactivityMs merges,
    Runs Reducer.ConsistentStep (Reducer.fresh headlessInactivityMs) merges dashboard.reducer
  received : dashboard.reducer.published.head? = some dashboard.loop.app.modelReceiver.value

/-- The interface is started beside a reducer, at any time. -/
structure Starts (env : Environment) (dashboard : Dashboard) : Prop extends Current dashboard where
  begins : Begins env dashboard.loop

variable {env : Environment} {dashboard dashboard' : Dashboard} {taken : List Taken} {inputs : TurnInputs}

/-- What an action has sent arrives, and it is one snapshot at most. -/
theorem receive_spec {merges : List Merge} {reducer : Reducer} (h : Current dashboard)
    (acts : Reducer.ConsistentStep dashboard.reducer merges reducer) :
    Current ⟨reducer, dashboard.loop.receive dashboard.reducer reducer⟩ ∧
      Runs (LoopStep env) dashboard.loop [] (dashboard.loop.receive dashboard.reducer reducer) := by
  obtain ⟨⟨headlessInactivityMs, earlier, hruns⟩, hreceived⟩ := h
  have hruns' : Runs Reducer.ConsistentStep (Reducer.fresh headlessInactivityMs) (earlier ++ merges) reducer :=
    .tail hruns acts
  obtain ⟨action, hadmissible, hconsistent, hdone⟩ := acts
  rcases Reducer.perform_sends hdone with hsame | hnew
  · have hloop : dashboard.loop.receive dashboard.reducer reducer = dashboard.loop := by
      simp [EventLoop.receive, hsame]
    rw [hloop]
    exact ⟨⟨⟨_, _, hruns'⟩, hsame ▸ hreceived⟩, .refl _⟩
  · have hloop : dashboard.loop.receive dashboard.reducer reducer =
        dashboard.loop.publish reducer.model.publicationSnapshot := by
      simp [EventLoop.receive, hnew]
    rw [hloop]
    exact ⟨⟨⟨_, _, hruns'⟩, congrArg List.head? hnew⟩,
      .one (.publish dashboard.loop _ (keyed_of_runs hruns').publicationSnapshot)⟩

/-- Beside the reducer, the interface runs as it does by itself, and it holds what was sent last. -/
theorem loop_runs (hstarts : Starts env dashboard) (h : Runs (Step env) dashboard taken dashboard') :
    Current dashboard' ∧ Runs (LoopStep env) dashboard.loop taken dashboard'.loop := by
  have hbegun := EventLoop.run_coherent hstarts.begins (.refl dashboard.loop)
  suffices hrun : (Current dashboard' ∧ dashboard'.loop.app.Coherent env) ∧
      Runs (LoopStep env) dashboard.loop taken dashboard'.loop from ⟨hrun.1.1, hrun.2⟩
  refine h.lift (f := Dashboard.loop) (I := fun d => Current d ∧ d.loop.app.Coherent env) ?_
    ⟨hstarts.toCurrent, hbegun⟩
  rintro s l t hstep ⟨hcurrent, hcoherent⟩
  have hkeep : Current t ∧ Runs (LoopStep env) s.loop l t.loop := by
    cases hstep with
    | act merges reducer acts => exact receive_spec hcurrent acts
    | elsewhere performance sourceCoverage diagnosticsReceiver operatorReceiver operatorCommands closed =>
      exact ⟨⟨hcurrent.reached, hcurrent.received⟩, .one (.elsewhere s.loop performance sourceCoverage
        diagnosticsReceiver operatorReceiver operatorCommands closed)⟩
    | turn inputs fits turn hturn goesOn =>
      refine ⟨⟨hcurrent.reached, ?_⟩, .one (.turn s.loop inputs fits turn hturn goesOn)⟩
      rcases EventLoop.turn_spec hcoherent fits with ⟨message, herror, -⟩ | ⟨turn', hok, -, hvalue, -⟩
      · rw [hturn] at herror
        cases herror
      · rw [hturn] at hok
        obtain rfl := Except.ok.inj (Option.some.inj hok)
        rw [hcurrent.received, hvalue]
  refine ⟨⟨hkeep.1, ?_⟩, hkeep.2⟩
  exact hkeep.2.invariant (I := fun loop => loop.app.Coherent env) EventLoop.step_coherent hcoherent

end Dashboard

/-- Without a query and with nothing collapsed, every run in view has a row. -/
theorem App.Coherent.complete {env : Environment} {app : App} (h : app.Coherent env)
    (hquery : app.state.filterQuery.isEmpty = true) (hopen : ∀ key, app.state.collapsed.contains key = false)
    {run : RunId} (hrun : (app.model.taskRun run).isSome = true)
    (hview : InView env.ghostVisibilityMs app.model app.state.nowMs run) :
    ∃ row ∈ app.rows, row.key.runId = some run := by
  obtain ⟨fullRows, hfull, -, hcomplete⟩ := buildFullRows_spec h.adopted (defaultVisible env app.model app.state)
  have hvisible := (contains_defaultVisible h.adopted.keyed.runs run).mpr hview
  obtain ⟨row, hrow, hkey⟩ := hcomplete run hvisible hrun
  have hshown : row ∈ visibleRows app.model fullRows (defaultVisible env app.model app.state) := by
    rw [visibleRows, List.mem_filter, hkey, Option.all_some, hrun, hvisible]
    exact ⟨hrow, rfl⟩
  have hrows := h.fresh
  rw [buildProjection_all hquery hfull] at hrows
  obtain ⟨hrows, -⟩ := RowProjection.mk.inj (Option.some.inj hrows)
  refine ⟨row, ?_, hkey⟩
  rw [← hrows]
  split_ifs
  · classical
    rw [applyCollapse_eq, Outline.mem_pick]
    obtain ⟨i, hi⟩ := List.mem_iff_getElem?.mp hshown
    refine ⟨i, hi, ?_⟩
    rintro ⟨j, -, hcollapsed⟩
    obtain ⟨other, -, hcontains⟩ := (Option.any_eq_true _ _).mp hcollapsed
    rw [hopen] at hcontains
    cases hcontains
  · exact hshown

namespace Dashboard

variable {env : Environment} {dashboard dashboard' : Dashboard} {taken : List Taken} {inputs : TurnInputs}

/-- However the reducer's actions and the turns of the interface follow each other, a frame shows the snapshot that the
reducer sent last, which is that of its model between two actions; and without a query and with nothing collapsed there
is a row for every run of it in view. -/
theorem frames_follow_reducer (hstarts : Starts env dashboard) (h : Runs (Step env) dashboard taken dashboard')
    (hfits : inputs.Fits) {turn : Turn} (hturn : dashboard'.loop.turn env inputs = some (.ok turn)) {app : App}
    (hframe : turn.frame = some app) :
    dashboard'.reducer.published.head? = some app.model ∧
    (∃ headlessInactivityMs before after between,
      Runs Reducer.ConsistentStep (Reducer.fresh headlessInactivityMs) before between ∧
      Runs Reducer.ConsistentStep between after dashboard'.reducer ∧
      between.published = dashboard'.reducer.published ∧ app.model = between.model.publicationSnapshot) ∧
    (app.state.filterQuery.isEmpty = true → (∀ key, app.state.collapsed.contains key = false) →
      ∀ run, (app.model.taskRun run).isSome = true → InView env.ghostVisibilityMs app.model app.state.nowMs run →
        ∃ row ∈ app.rows, row.key.runId = some run) := by
  obtain ⟨⟨⟨headlessInactivityMs, merges, hruns⟩, hreceived⟩, hloop⟩ := loop_runs hstarts h
  rcases EventLoop.turn_spec (EventLoop.run_coherent hstarts.begins hloop) hfits with
    ⟨message, herror, -⟩ | ⟨turn', hok, -, -, -, hframes⟩
  · rw [hturn] at herror
    cases herror
  · rw [hturn] at hok
    obtain rfl := Except.ok.inj (Option.some.inj hok)
    obtain ⟨hcoherent, hmodel, -⟩ := hframes app hframe
    have hsent : dashboard'.reducer.published.head? = some app.model := hreceived.trans (congrArg some hmodel.symm)
    refine ⟨hsent, ?_, fun hquery hopen run hrun hview => hcoherent.complete hquery hopen hrun hview⟩
    obtain ⟨before, after, between, hbefore, hafter, hpublished, hhead⟩ := sent_last hruns
    exact ⟨headlessInactivityMs, before, after, between, hbefore, hafter, hpublished,
      Option.some.inj (hsent.symm.trans hhead)⟩

end Dashboard

/-- Nothing is there yet. -/
def emptyApp : App :=
  App.initial plainEnvironment { value := {} } { value := () } { value := () } { value := () } { value := () }
    { capacity := 1 } 500

/-- The start, and a turn after the job has made progress. -/
def jobTurn : Option (App × Turn) :=
  (emptyApp.begin plainEnvironment 500).bind fun app =>
    (turnAt 0 .esc (EventLoop.receive { app } (Reducer.fresh 0) Reducer.jobBegun)).map fun turn => (app, turn)

theorem act_jobBegun : ∃ merges, Reducer.ConsistentStep (Reducer.fresh 0) merges Reducer.jobBegun := by
  have hdone : ((Reducer.fresh 0).perform (Reducer.jobEvent "a" .progress)).isSome = true := by decide
  obtain ⟨result, hresult⟩ := Option.isSome_iff_exists.mp hdone
  refine ⟨result.2, Reducer.jobEvent "a" .progress, trivial, trivial, ?_⟩
  rw [Reducer.jobBegun, Reducer.next, hresult]
  rfl

theorem starts_emptyApp {app : App} (h : emptyApp.begin plainEnvironment 500 = some app)
    (hvalue : app.modelReceiver.value = {}) : Dashboard.Starts plainEnvironment ⟨Reducer.fresh 0, { app }⟩ where
  reached := ⟨0, [], .refl _⟩
  received := by rw [hvalue]; rfl
  begins := ⟨emptyApp.modelReceiver, emptyApp.performance, emptyApp.sourceCoverage, emptyApp.diagnosticsReceiver,
    emptyApp.operatorReceiver, emptyApp.operatorCommands, 500, 500, app, keyed_of_runs (.refl (Reducer.fresh 0)),
    (by decide : i64Min ≤ 500), h, rfl⟩

namespace Dashboard

theorem frames_follow_reducer_jobTurn : ∃ (turn : Turn) (app : App), turn.frame = some app ∧
    (app.model.taskRun ⟨1⟩).isSome = true ∧
    Reducer.jobBegun.published.head? = some app.model ∧
    (∃ between : Reducer, between.published = Reducer.jobBegun.published ∧
      app.model = between.model.publicationSnapshot) ∧
    ∃ row ∈ app.rows, row.key.runId = some ⟨1⟩ := by
  have hdone : (jobTurn.any fun p => decide (p.1.modelReceiver.value = {}) && p.2.frame.any fun app =>
      (app.model.taskRun ⟨1⟩).isSome && app.state.filterQuery.isEmpty && app.state.collapsed.keys.isEmpty &&
        (defaultVisible plainEnvironment app.model app.state).contains ⟨1⟩) = true := by decide +kernel
  obtain ⟨⟨begun, turn⟩, hturns, hp⟩ := (Option.any_eq_true _ _).mp hdone
  obtain ⟨app, hbegin, hturns⟩ := Option.bind_eq_some_iff.mp hturns
  obtain ⟨turn', hturn, hpair⟩ := Option.map_eq_some_iff.mp hturns
  obtain ⟨rfl, rfl⟩ := Prod.mk.inj hpair
  obtain ⟨hvalue, hshown⟩ := (Bool.and_eq_true _ _).mp hp
  obtain ⟨frame, hframe, hshown⟩ := (Option.any_eq_true _ _).mp hshown
  simp only [Bool.and_eq_true] at hshown
  obtain ⟨⟨⟨hrun, hquery⟩, hopen⟩, hvisible⟩ := hshown
  obtain ⟨merges, hacts⟩ := act_jobBegun
  have hstarts := starts_emptyApp hbegin (of_decide_eq_true hvalue)
  obtain ⟨hlast, hsent, hrows⟩ := frames_follow_reducer hstarts (.one (.act _ merges Reducer.jobBegun hacts))
    (oneRunInputs_fit 0 .esc) (step_turnAt hturn).1 hframe
  obtain ⟨headlessInactivityMs, before, after, between, hbetween, -, hpublished, hmodel⟩ := hsent
  have hkeyed : Keyed frame.model := hmodel ▸ (keyed_of_runs hbetween).publicationSnapshot
  refine ⟨turn', frame, hframe, hrun, hlast, ⟨between, hpublished, hmodel⟩, ?_⟩
  refine hrows hquery (fun key => ?_) ⟨1⟩ hrun ((contains_defaultVisible hkeyed.runs ⟨1⟩).mp hvisible)
  rw [Bool.eq_false_iff, ne_eq, HashSet.contains_iff_mem_keys, List.isEmpty_iff.mp hopen]
  exact List.not_mem_nil

end Dashboard

end HerdrTop.Tui
