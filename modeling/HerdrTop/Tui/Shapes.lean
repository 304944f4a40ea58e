import HerdrTop.Tui.Screen

/-!
# What time leaves alone

Of the rows that are made at a later time the labels may be others: a run is found to be stalled, another agent speaks
for it. But which rows there are, and at which depths, only changes with what is in view and with which agents are
stale, and until the time that comes with the rows both stay the same.

## What is proved

* `buildTreeRows_later`: the tree that is built later, with the same runs in view and the same agents.
* `buildCollapsed_total`: rows are made of every model that files things under their identities.
* `buildProjection_stays`: without a query the same rows at the same depths are made again until the time that comes
  with them, in either view and whatever is collapsed.
* `buildProjection_expiry`: that time is to come.
-/

namespace HerdrTop.Tui

open Closure Outline Forest Relation

/-! ### Shapes -/

/-- What a row stands for, and where it is. -/
def TreeRow.shape (row : TreeRow) : NodeKey × ℕ := (row.key, row.depth)

/-- The same rows at the same depths. -/
def SameShape (rows rows' : List TreeRow) : Prop := rows.map TreeRow.shape = rows'.map TreeRow.shape

namespace SameShape

variable {rows rows' more more' : List TreeRow} {row row' : TreeRow}

theorem refl (rows : List TreeRow) : SameShape rows rows := rfl

theorem append (h : SameShape rows rows') (h' : SameShape more more') : SameShape (rows ++ more) (rows' ++ more') := by
  simp only [SameShape, List.map_append] at h h' ⊢
  rw [h, h']

theorem cons (hrow : row.shape = row'.shape) (h : SameShape rows rows') : SameShape (row :: rows) (row' :: rows') := by
  simp only [SameShape, List.map_cons] at h ⊢
  rw [hrow, h]

theorem keys (h : SameShape rows rows') : rows.map (·.key) = rows'.map (·.key) := by
  have hkeys := congrArg (List.map Prod.fst) h
  rwa [List.map_map, List.map_map] at hkeys

/-- What is left of them for what they stand for. -/
theorem filter (p : NodeKey → Bool) (h : SameShape rows rows') :
    SameShape (rows.filter fun row => p row.key) (rows'.filter fun row => p row.key) := by
  have hfilter : ∀ rows : List TreeRow, (rows.filter fun row => p row.key).map TreeRow.shape =
      (rows.map TreeRow.shape).filter fun shape => p shape.1 := by
    intro rows
    rw [List.filter_map]
    rfl
  rw [SameShape, hfilter, hfilter, show rows.map TreeRow.shape = rows'.map TreeRow.shape from h]

theorem applyCollapse (collapsed : HashSet NodeKey) (h : SameShape rows rows') :
    SameShape (applyCollapse rows collapsed) (Tui.applyCollapse rows' collapsed) := by
  have hhide : ∀ rows : List TreeRow, (Tui.applyCollapse rows collapsed).map TreeRow.shape =
      hideBelow Prod.snd (fun shape => collapsed.contains shape.1.collapseKey) none (rows.map TreeRow.shape) :=
    map_hideBelow TreeRow.shape Prod.snd fun shape => collapsed.contains shape.1.collapseKey
  rw [SameShape, hhide, hhide, show rows.map TreeRow.shape = rows'.map TreeRow.shape from h]

end SameShape

/-- With fewer rows collapsed, no row goes. -/
theorem mem_applyCollapse_of_fewer {rows : List TreeRow} {collapsed collapsed' : HashSet NodeKey}
    (hfewer : ∀ key, collapsed'.contains key = true → collapsed.contains key = true) {row : TreeRow}
    (h : row ∈ applyCollapse rows collapsed) : row ∈ applyCollapse rows collapsed' := by
  classical
  rw [applyCollapse_eq, mem_pick] at h ⊢
  obtain ⟨i, hrow, hshown⟩ := h
  refine ⟨i, hrow, mt (fun hhidden => ?_) hshown⟩
  obtain ⟨j, habove, hcollapsed⟩ := hhidden
  obtain ⟨other, hother, hcontains⟩ := (Option.any_eq_true _ _).mp hcollapsed
  exact ⟨j, habove, (Option.any_eq_true _ _).mpr ⟨other, hother, hfewer _ hcontains⟩⟩

/-! ### The tree -/

/-- Rows so far, and what has been noted on the way. -/
def Along {σ : Type} (made made' : List TreeRow × σ) : Prop := SameShape made.1 made'.1 ∧ made.2 = made'.2

/-- One after the other, what has been noted is handed on. -/
theorem along_foldlM {σ ι : Type} {f g : σ → ι → Option (List TreeRow × σ)} {l : List ι}
    (step : ∀ a ∈ l, ∀ noted, Option.Rel Along (f noted a) (g noted a)) (made : List TreeRow × σ) :
    Option.Rel Along
      (l.foldlM (fun state a => (f state.2 a).map fun more => (state.1 ++ more.1, more.2)) made)
      (l.foldlM (fun state a => (g state.2 a).map fun more => (state.1 ++ more.1, more.2)) made) := by
  refine foldlM_parallel (R := Along) (fun a ha s t hst => ?_) ⟨.refl made.1, rfl⟩
  obtain ⟨hrows, hnoted⟩ := hst
  rw [hnoted]
  exact rel_map (step a ha t.2) fun more more' hmore => ⟨hrows.append hmore.1, hmore.2⟩

/-- The same at another time. -/
def RowContext.later (ctx : RowContext) (nowMs : ℤ) (stalledRuns : RunId → Bool) : RowContext :=
  { ctx with nowMs, stalledRuns }

section

variable {ctx : RowContext} {t : ℤ} {stalled : RunId → Bool} {visibleRuns visibleRuns' : HashSet RunId}

theorem appendAgentSubtree_later (children : HashMap String (List AgentNode)) (paneId : Option String) (fuel : ℕ)
    (visited : HashSet String) (depth : ℕ) (agent : AgentNode) :
    Option.Rel Along (appendAgentSubtree ctx children paneId fuel visited depth agent)
      (appendAgentSubtree (ctx.later t stalled) children paneId fuel visited depth agent) := by
  induction fuel generalizing visited depth agent with
  | zero => exact .none
  | succ fuel ih =>
    rw [appendAgentSubtree, appendAgentSubtree]
    by_cases hvisited : visited.contains agent.agentNodeId = true
    · rw [if_pos hvisited, if_pos hvisited]
      exact .some ⟨.refl [], rfl⟩
    · rw [if_neg hvisited, if_neg hvisited]
      refine rel_bind (R := Along) ?_ fun below below' hbelow => .some ⟨hbelow.1.cons rfl, hbelow.2⟩
      exact along_foldlM (fun child _ noted => ih noted (depth + 1) child) _

theorem appendAgentRows_later (agents : List AgentNode) (paneId : Option String) (depth : ℕ) :
    Option.Rel SameShape (appendAgentRows ctx agents paneId depth)
      (appendAgentRows (ctx.later t stalled) agents paneId depth) := by
  refine rel_bind (R := Along) ?_ fun shown shown' hshown => .some hshown.1
  exact along_foldlM (fun root _ noted => appendAgentSubtree_later _ paneId _ noted depth root) _

/-- The same agents are shown below every run. -/
def SameAgents (ctx : RowContext) (t : ℤ) (stalled : RunId → Bool) : Prop :=
  ∀ run runId, rowAgents (ctx.later t stalled) run runId = rowAgents ctx run runId

theorem appendRunSubtree_later (hagents : SameAgents ctx t stalled) (nestedRuns : HashMap RunId (List RunId)) (fuel : ℕ)
    (ancestors expanded : HashSet RunId) (depth : ℕ) (placement : RunPlacement) (paneId : Option String)
    (showDispatchParent : Bool) :
    Option.Rel Along
      (appendRunSubtree ctx nestedRuns fuel ancestors expanded depth placement paneId showDispatchParent)
      (appendRunSubtree (ctx.later t stalled) nestedRuns fuel ancestors expanded depth placement paneId
        showDispatchParent) := by
  induction fuel generalizing ancestors expanded depth placement paneId showDispatchParent with
  | zero => exact .none
  | succ fuel ih =>
    obtain ⟨runId, shared⟩ := placement
    rw [appendRunSubtree, appendRunSubtree]
    by_cases hancestor : ancestors.contains runId = true
    · rw [if_pos hancestor, if_pos hancestor]
      exact .some ⟨.refl [], rfl⟩
    · rw [if_neg hancestor, if_neg hancestor]
      have hmodel : (ctx.later t stalled).model = ctx.model := rfl
      rw [hmodel]
      cases ctx.model.taskRun runId with
      | none => exact .some ⟨.refl [], rfl⟩
      | some run =>
        dsimp only
        rw [hagents run runId]
        refine rel_bind (R := SameShape) (appendAgentRows_later _ _ _) fun rows rows' hrows => ?_
        refine rel_bind (R := Along) ?_ fun below below' hbelow =>
          .some ⟨(hrows.append hbelow.1).cons rfl, hbelow.2⟩
        exact along_foldlM (fun child _ noted => ih _ noted (depth + 1) (child, false) none false) _

theorem appendRunRows_later (hagents : SameAgents ctx t stalled) (nestedRuns : HashMap RunId (List RunId))
    (expanded : HashSet RunId) (runs : List RunPlacement) (paneId : Option String) (depth : ℕ) :
    Option.Rel Along (appendRunRows ctx nestedRuns expanded runs paneId depth)
      (appendRunRows (ctx.later t stalled) nestedRuns expanded runs paneId depth) :=
  along_foldlM (fun placement _ noted => appendRunSubtree_later hagents nestedRuns _ ∅ noted depth placement paneId _) _

/-- The same tree so far, and the same runs left. -/
structure SameTree (state state' : TreeState) : Prop where
  rows : SameShape state.rows state'.rows
  paneRuns : state.paneRuns = state'.paneRuns
  expanded : state.expanded = state'.expanded

theorem appendPane_later (hagents : SameAgents ctx t stalled) (nestedRuns : HashMap RunId (List RunId))
    {state state' : TreeState} (h : SameTree state state') (pane : Pane) :
    Option.Rel SameTree (appendPane ctx nestedRuns state pane)
      (appendPane (ctx.later t stalled) nestedRuns state' pane) := by
  unfold appendPane
  dsimp only
  rw [h.paneRuns, h.expanded]
  cases state'.paneRuns.get pane.paneId with
  | none => exact .some ⟨h.rows.append (.refl _), rfl, rfl⟩
  | some runs =>
    refine rel_bind (R := Along) (appendRunRows_later hagents nestedRuns _ runs _ 4) fun more more' hmore => ?_
    exact .some ⟨h.rows.append (hmore.1.cons rfl), rfl, hmore.2⟩

theorem appendTab_later (hagents : SameAgents ctx t stalled) (nestedRuns : HashMap RunId (List RunId))
    (workspace : Workspace) {state state' : TreeState} (h : SameTree state state') (tab : Tab) :
    Option.Rel SameTree (appendTab ctx nestedRuns workspace state tab)
      (appendTab (ctx.later t stalled) nestedRuns workspace state' tab) :=
  foldlM_parallel (fun pane _ _ _ hstate => appendPane_later hagents nestedRuns hstate pane)
    ⟨h.rows.append (.refl _), h.paneRuns, h.expanded⟩

theorem appendWorkspace_later (hagents : SameAgents ctx t stalled) (nestedRuns : HashMap RunId (List RunId))
    {state state' : TreeState} (h : SameTree state state') (workspace : Workspace) :
    Option.Rel SameTree (appendWorkspace ctx nestedRuns state workspace)
      (appendWorkspace (ctx.later t stalled) nestedRuns state' workspace) :=
  foldlM_parallel (fun tab _ _ _ hstate => appendTab_later hagents nestedRuns workspace hstate tab)
    ⟨h.rows.append (.refl _), h.paneRuns, h.expanded⟩

theorem placeRuns_later (hvisible : visibleRuns'.contains = visibleRuns.contains) :
    placeRuns (ctx.later t stalled) visibleRuns' = placeRuns ctx visibleRuns := by
  have hruns : visibleTaskRuns ctx.model visibleRuns' = visibleTaskRuns ctx.model visibleRuns := by
    unfold visibleTaskRuns
    rw [hvisible]
  have hplace : placeRun (ctx.later t stalled) visibleRuns' = placeRun ctx visibleRuns := by
    funext placing run
    unfold placeRun candidateParent
    rw [hvisible]
    rfl
  have hmodel : (ctx.later t stalled).model = ctx.model := rfl
  unfold placeRuns
  rw [hplace, hmodel, hruns]

/-- The tree that is built at another time, with the same runs in view and the same agents. -/
theorem buildTreeRows_later (hagents : SameAgents ctx t stalled)
    (hvisible : visibleRuns'.contains = visibleRuns.contains) :
    Option.Rel SameShape (buildTreeRows ctx visibleRuns) (buildTreeRows (ctx.later t stalled) visibleRuns') := by
  unfold buildTreeRows appendExecutionTreeRows
  rw [placeRuns_later hvisible]
  cases placeRuns ctx visibleRuns with
  | none => exact .none
  | some placement =>
    refine rel_bind (R := SameTree) (foldlM_parallel (fun workspace _ _ _ hstate =>
      appendWorkspace_later hagents placement.nestedRuns hstate workspace) ⟨.refl _, rfl, rfl⟩) fun state state' h => ?_
    dsimp only
    split_ifs with hnone
    · exact .some h.rows
    · rw [h.expanded]
      refine rel_bind (R := Along) (appendRunRows_later hagents _ _ _ _ _) fun more more' hmore => ?_
      exact .some (h.rows.append (hmore.1.cons rfl))

end

/-! ### What has been taken up -/

/-- The state goes with the model: the dependency order has every run once. -/
structure Adopted (model : DomainModel) (state : AppState) : Prop where
  keyed : Keyed model
  nodup : state.dagOrder.runIds.Nodup
  covers : ∀ id, id ∈ state.dagOrder.runIds ↔ (model.taskRun id).isSome = true

section

variable {env : Environment} {model : DomainModel} {state : AppState} {visibleRuns : HashSet RunId}

/-- Every model that files things under their identities is taken up. -/
theorem adoptModel_total (hkeyed : Keyed model) (state : AppState) :
    ∃ dagOrder, state.adoptModel model = some { state with
        executionOrder := state.executionOrder.adopt (model.executions.values.map (·.executionId)), dagOrder } ∧
      Adopted model { state with dagOrder } := by
  obtain ⟨next, inherited, ordered, remainder, hnext, h⟩ := recompute_total state.dagOrder model
  refine ⟨next, by rw [AppState.adoptModel, hnext]; rfl, hkeyed, h.nodup, fun id => ?_⟩
  rw [show ({ state with dagOrder := next } : AppState).dagOrder.runIds = next.runIds from rfl, h.mem_runIds,
    mem_ordinals, Option.isSome_iff_exists]
  constructor
  · rintro ⟨run, hrun, rfl⟩
    obtain ⟨name, hname⟩ := HashMap.mem_values.mp hrun
    obtain rfl := hkeyed.runs name run hname
    exact ⟨run, hname⟩
  · rintro ⟨run, hrun⟩
    exact ⟨run, HashMap.mem_values.mpr ⟨id, hrun⟩, hkeyed.runs id run hrun⟩

/-! ### All rows -/

theorem mem_buildDagRows {ctx : RowContext} {order : DagOrder} :
    (buildDagRows env ctx order visibleRuns).map TreeRow.shape =
      ((order.runIds.filter visibleRuns.contains).filterMap ctx.model.taskRun).map fun run => (.run run.runId none, 0) := by
  have hshown : ∀ row ∈ ((order.runIds.filter visibleRuns.contains).filterMap ctx.model.taskRun).map
      (dagRow env ctx visibleRuns), showsFresh ctx row = true := by
    intro row hrow
    obtain ⟨run, -, rfl⟩ := List.mem_map.mp hrow
    rfl
  rw [buildDagRows, List.filter_eq_self.mpr hshown, List.map_map]
  rfl

theorem filterMap_taskRun (hkeyed : RunsKeyed model) (ids : List RunId) :
    (ids.filterMap model.taskRun).map (·.runId) = ids.filter fun id => (model.taskRun id).isSome := by
  induction ids with
  | nil => rfl
  | cons id ids ih =>
    cases hrun : model.taskRun id with
    | none => simpa [hrun] using ih
    | some run =>
      have hname := hkeyed id run hrun
      simpa [hrun, hname] using ih

/-- Rows are made, each key once, and every run in view has one. -/
theorem buildFullRows_spec (h : Adopted model state) (visibleRuns : HashSet RunId) :
    ∃ rows, buildFullRows env model state visibleRuns = some rows ∧ (rows.map (·.key)).Nodup ∧
      ∀ id, visibleRuns.contains id = true → (model.taskRun id).isSome = true →
        ∃ row ∈ rows, row.key.runId = some id := by
  unfold buildFullRows
  cases state.viewMode with
  | executionTree =>
    dsimp only
    obtain ⟨placement, parent, hplace, hplaced⟩ :=
      @placeRuns_spec (rowContext env model state) visibleRuns h.keyed.runs
    obtain ⟨rows, heads, expanded, hrows, hshows, -⟩ := buildTreeRows_shows h.keyed hplace hplaced
    refine ⟨rows, hrows, hshows.nodup, fun id hvisible hrun => ?_⟩
    obtain ⟨run, hrun⟩ := Option.isSome_iff_exists.mp hrun
    obtain rfl := h.keyed.runs id run hrun
    obtain ⟨root, shared, paneId, hup, hroot⟩ := hplaced.exists_placed h.keyed ⟨hrun, hvisible⟩
    have hkey : ∃ paneId, .run run.runId paneId ∈ rows.map (·.key) := by
      rcases reflTransGen_iff_eq_or_transGen.mp hup with heq | hup
      · exact ⟨paneId, heq ▸ hshows.own root shared paneId hroot⟩
      · exact ⟨none, hshows.below root shared paneId hroot run.runId hup⟩
    obtain ⟨paneId, hkey⟩ := hkey
    obtain ⟨row, hrow, hkey⟩ := List.mem_map.mp hkey
    exact ⟨row, hrow, by rw [hkey]; rfl⟩
  | dependencyDag =>
    dsimp only
    have hkeys : (buildDagRows env (rowContext env model state) state.dagOrder visibleRuns).map (·.key) =
        ((state.dagOrder.runIds.filter visibleRuns.contains).filter fun id => (model.taskRun id).isSome).map
          fun id => .run id none := by
      have hshapes := congrArg (List.map Prod.fst) (@mem_buildDagRows env visibleRuns (rowContext env model state)
        state.dagOrder)
      rw [List.map_map, List.map_map] at hshapes
      rw [← filterMap_taskRun h.keyed.runs, List.map_map]
      exact hshapes
    refine ⟨_, rfl, ?_, fun id hvisible hrun => ?_⟩
    · rw [hkeys]
      refine List.Nodup.map (fun a b hab => (NodeKey.run.inj hab).1) ?_
      exact (h.nodup.sublist List.filter_sublist).sublist List.filter_sublist
    · have hmem : NodeKey.run id none ∈
          (buildDagRows env (rowContext env model state) state.dagOrder visibleRuns).map (·.key) := by
        rw [hkeys]
        refine List.mem_map.mpr ⟨id, List.mem_filter.mpr ⟨List.mem_filter.mpr ⟨?_, hvisible⟩, hrun⟩, rfl⟩
        exact (h.covers id).mpr hrun
      obtain ⟨row, hrow, hkey⟩ := List.mem_map.mp hmem
      exact ⟨row, hrow, by rw [hkey]; rfl⟩

/-- The rows of either view at another time, with the same runs in view and the same agents. -/
theorem buildFullRows_later {t : ℤ} {visibleRuns' : HashSet RunId}
    (hagents : SameAgents (rowContext env model state) t (env.stalledRuns model t))
    (hvisible : visibleRuns'.contains = visibleRuns.contains) :
    Option.Rel SameShape (buildFullRows env model state visibleRuns)
      (buildFullRows env model { state with nowMs := t } visibleRuns') := by
  unfold buildFullRows
  cases state.viewMode with
  | executionTree => exact buildTreeRows_later hagents hvisible
  | dependencyDag =>
    refine .some ?_
    rw [SameShape, mem_buildDagRows, mem_buildDagRows, hvisible]
    rfl

/-! ### What is left of them -/

/-- Filtering and collapsing succeeds, and what is left is in the same order. -/
theorem projectRows_total (hkeyed : RunsKeyed model) (toLowercase : String → String)
    (headlessInactivityMs ghostVisibilityMs : ℤ) (fullRows : List TreeRow) (query : String)
    (collapsed : HashSet NodeKey) (mode : ViewMode) (nowMs : ℤ) :
    ∃ projection, projectRowsWithVisible toLowercase headlessInactivityMs ghostVisibilityMs model fullRows visibleRuns
        query collapsed mode nowMs = some projection ∧ projection.rows.Sublist fullRows := by
  by_cases hquery : query.isEmpty = true
  · refine ⟨_, projectRows_all headlessInactivityMs ghostVisibilityMs nowMs hquery, ?_⟩
    have hvisible : (visibleRows model fullRows visibleRuns).Sublist fullRows := List.filter_sublist
    dsimp only
    split_ifs
    · exact hideBelow_sublist.trans hvisible
    · exact hvisible
  · unfold projectRowsWithVisible
    rw [if_pos (by rw [Bool.eq_false_iff.mpr hquery]; rfl)]
    cases mode with
    | executionTree => exact ⟨_, rfl, pick_sublist⟩
    | dependencyDag =>
      dsimp only
      rw [retainDagRows_eq hkeyed]
      exact ⟨_, rfl, List.filter_sublist⟩

/-- Rows are made, and each key once. -/
theorem buildCollapsed_total (h : Adopted model state) (env : Environment) (collapsed : HashSet NodeKey) :
    ∃ projection, buildCollapsed env model state collapsed = some projection ∧
      (projection.rows.map (·.key)).Nodup := by
  obtain ⟨fullRows, hfull, hnodup, -⟩ := @buildFullRows_spec env model state h (defaultVisible env model state)
  obtain ⟨projection, hprojection, hsublist⟩ := @projectRows_total model (defaultVisible env model state) h.keyed.runs
    env.toLowercase env.headlessInactivityMs env.ghostVisibilityMs fullRows state.filterQuery collapsed state.viewMode
    state.nowMs
  refine ⟨projection, ?_, hnodup.sublist (hsublist.map _)⟩
  rw [buildCollapsed, hfull]
  exact hprojection

/-! ### Until the time that comes with the rows -/

theorem contains_defaultVisible (hkeyed : RunsKeyed model) (id : RunId) :
    (defaultVisible env model state).contains id = true ↔ InView env.ghostVisibilityMs model state.nowMs id :=
  HashSet.contains_iff_mem_keys.trans (mem_defaultVisible hkeyed)

/-- Without a query, the rows in one piece. -/
theorem buildProjection_all {fullRows : List TreeRow} (hquery : state.filterQuery.isEmpty = true)
    (hfull : buildFullRows env model state (defaultVisible env model state) = some fullRows) :
    buildProjection env model state =
      let visible := visibleRows model fullRows (defaultVisible env model state)
      let rows := if state.viewMode = .executionTree then applyCollapse visible state.collapsed else visible
      some ⟨rows, nextExpiry env.headlessInactivityMs env.ghostVisibilityMs model visible rows state.nowMs⟩ := by
  rw [buildProjection, buildCollapsed, hfull]
  exact projectRows_all env.headlessInactivityMs env.ghostVisibilityMs state.nowMs hquery

/-- Without a query, until the time that comes with the rows, the same rows are of runs in view. -/
theorem visibleRows_stay (h : Adopted model state) (hquery : state.filterQuery.isEmpty = true)
    {projection : RowProjection} (hprojection : buildProjection env model state = some projection)
    (hnow : i64Min ≤ state.nowMs) {t : ℤ} (hle : state.nowMs ≤ t)
    (hbefore : ∀ d, projection.nextExpiryMs = some d → t < d) :
    ∃ fullRows laterRows, buildFullRows env model state (defaultVisible env model state) = some fullRows ∧
      buildFullRows env model { state with nowMs := t } (defaultVisible env model { state with nowMs := t }) =
        some laterRows ∧
      SameShape (visibleRows model fullRows (defaultVisible env model state))
        (visibleRows model laterRows (defaultVisible env model { state with nowMs := t })) := by
  obtain ⟨fullRows, hfull, -, hrows⟩ := @buildFullRows_spec env model state h (defaultVisible env model state)
  rw [buildProjection_all hquery hfull] at hprojection
  obtain rfl := Option.some.inj hprojection
  obtain ⟨hdeadlines, -⟩ := before_minExpiry.mp hbefore
  obtain ⟨hagents, hruns⟩ := before_minExpiry.mp hdeadlines
  have hview : ∀ id, InView env.ghostVisibilityMs model t id ↔ InView env.ghostVisibilityMs model state.nowMs id := by
    refine fun id => inView_all h.keyed.runs (fun id hid => ?_) hle hruns
    exact hrows id ((contains_defaultVisible h.keyed.runs id).mpr hid) hid.known
  have hvisible : (defaultVisible env model { state with nowMs := t }).contains =
      (defaultVisible env model state).contains := by
    funext id
    rw [Bool.eq_iff_iff, contains_defaultVisible h.keyed.runs, contains_defaultVisible h.keyed.runs]
    exact hview id
  have hsame : SameAgents (rowContext env model state) t (env.stalledRuns model t) := by
    intro run runId
    refine List.filter_congr fun agent hagent => ?_
    have hstale : agentNodeIsDisplayStale env.headlessInactivityMs agent t =
        agentNodeIsDisplayStale env.headlessInactivityMs agent state.nowMs :=
      stale_later (le_of_lt env.positive) env.bounded hnow hle fun haging hfresh =>
        before_agents.mp hagents agent hagent haging hfresh
    show (_ && _ && _ && !agentNodeIsDisplayStale env.headlessInactivityMs agent t && _) = _
    rw [hstale]
    rfl
  have hrel := @buildFullRows_later env model state (defaultVisible env model state) t _ hsame hvisible
  rw [hfull] at hrel
  generalize hlater : buildFullRows env model { state with nowMs := t }
    (defaultVisible env model { state with nowMs := t }) = later at hrel
  cases hrel with
  | @some _ laterRows hshape =>
    refine ⟨fullRows, laterRows, hfull, rfl, ?_⟩
    unfold visibleRows
    rw [hvisible]
    exact hshape.filter fun key => key.runId.all fun runId =>
      (model.taskRun runId).isSome && (defaultVisible env model state).contains runId

/-- Without a query the same rows at the same depths are made again, as long as the time that came with them has not
come: whatever goes out of view or turns stale by itself does so later. -/
theorem buildProjection_stays (h : Adopted model state) (hquery : state.filterQuery.isEmpty = true)
    {projection : RowProjection} (hprojection : buildProjection env model state = some projection)
    (hnow : i64Min ≤ state.nowMs) {t : ℤ} (hle : state.nowMs ≤ t)
    (hbefore : ∀ d, projection.nextExpiryMs = some d → t < d) :
    ∃ later, buildProjection env model { state with nowMs := t } = some later ∧
      SameShape projection.rows later.rows := by
  obtain ⟨fullRows, laterRows, hfull, hlater, hshape⟩ := visibleRows_stay h hquery hprojection hnow hle hbefore
  rw [buildProjection_all hquery hfull] at hprojection
  obtain rfl := Option.some.inj hprojection
  refine ⟨_, buildProjection_all hquery hlater, ?_⟩
  dsimp only
  split_ifs
  · exact hshape.applyCollapse state.collapsed
  · exact hshape

/-- A row that is shown is left until then, also when fewer rows are collapsed. -/
theorem buildCollapsed_keeps (h : Adopted model state) (hquery : state.filterQuery.isEmpty = true)
    {projection : RowProjection} (hprojection : buildProjection env model state = some projection)
    (hnow : i64Min ≤ state.nowMs) {t : ℤ} (hle : state.nowMs ≤ t)
    (hbefore : ∀ d, projection.nextExpiryMs = some d → t < d) (collapsed : HashSet NodeKey)
    (hfewer : ∀ key, collapsed.contains key = true → state.collapsed.contains key = true) {key : NodeKey}
    (hkey : key ∈ projection.rows.map (·.key)) :
    ∃ later, buildCollapsed env model { state with nowMs := t } collapsed = some later ∧
      key ∈ later.rows.map (·.key) := by
  obtain ⟨fullRows, laterRows, hfull, hlater, hshape⟩ := visibleRows_stay h hquery hprojection hnow hle hbefore
  rw [buildProjection_all hquery hfull] at hprojection
  obtain rfl := Option.some.inj hprojection
  refine ⟨_, by rw [buildCollapsed, hlater]; exact projectRows_all _ _ _ hquery, ?_⟩
  dsimp only at hkey ⊢
  split_ifs at hkey ⊢
  · rw [(hshape.applyCollapse state.collapsed).keys] at hkey
    obtain ⟨row, hrow, rfl⟩ := List.mem_map.mp hkey
    exact List.mem_map_of_mem (mem_applyCollapse_of_fewer hfewer hrow)
  · rw [hshape.keys] at hkey
    exact hkey

/-- The time that comes with the rows is to come. -/
theorem buildProjection_expiry (h : Adopted model state) (hquery : state.filterQuery.isEmpty = true)
    {projection : RowProjection} (hprojection : buildProjection env model state = some projection)
    (hnow : state.nowMs < i64Max) : ∀ d, projection.nextExpiryMs = some d → state.nowMs < d := by
  obtain ⟨fullRows, hfull, -⟩ := @buildFullRows_spec env model state h (defaultVisible env model state)
  rw [buildProjection_all hquery hfull] at hprojection
  obtain rfl := Option.some.inj hprojection
  refine nextExpiry_later (le_of_lt env.positive) env.bounded hnow fun id hid => ?_
  obtain ⟨row, hrow, hkey⟩ := List.mem_filterMap.mp hid
  have hshown := (List.mem_filter.mp hrow).2
  rw [hkey, Option.all_some, Bool.and_eq_true] at hshown
  exact (contains_defaultVisible h.keyed.runs id).mp hshown.2

end

end HerdrTop.Tui
