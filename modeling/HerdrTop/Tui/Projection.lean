import HerdrTop.Status.Visibility
import HerdrTop.Tui.Rows

/-!
# What the interface shows

The rows of a view are projected: a query filters them, without a query the rows of runs out of view go and collapsed
rows hide what is below them. With the rows comes the time at which something of it may change by itself, until when
the interface does not ask again. It is computed from the rows that are left.

## What is proved

* `filtered_and_collapsed`: which rows a query leaves in the two views, and which ones collapsing hides.
-/

namespace HerdrTop.Tui

open Outline Relation

/-! ### When something changes by itself -/

/-- The earlier one of two times. -/
def minExpiry : Option ℤ → Option ℤ → Option ℤ
  | some left, some right => some (min left right)
  | some expiry, none | none, some expiry => some expiry
  | none, none => none

/-- When the agents that may turn stale do. -/
def nextAgentVisibilityExpiryMs (headlessInactivityMs : ℤ) (model : DomainModel) (nowMs : ℤ) : Option ℤ :=
  let aging := model.agentNodes.values.filter fun agent =>
    match agent.state with
    | none | some .unknown | some .ended => true
    | _ => false
  let fresh := aging.filter fun agent => !agentNodeIsDisplayStale headlessInactivityMs agent nowMs
  ((fresh.filterMap (·.lastActivityAtMs)).map fun lastActivityAtMs =>
    satAddI64 lastActivityAtMs headlessInactivityMs).min?

/-- When a run may go out of view. -/
def runVisibilityExpiryMs (ghostVisibilityMs : ℤ) (model : DomainModel) (nowMs : ℤ) (run : TaskRun) : Option ℤ :=
  let lifecycleExpiryMs :=
    match model.effectiveLifecycleEndMs run, run.key with
    | none, .provisional _ startMs _ => some (satAddI64 (lastObservedMs run startMs) ghostVisibilityMs)
    | none, _ => none
    | some firstTerminalMs, _ =>
      if isDefaultVisibleTaskRun ghostVisibilityMs model run nowMs then
        some (satAddI64 firstTerminalMs defaultTerminalVisibilityMs)
      else none
  let hookOnlyExpiryMs :=
    if run.key.isController && !model.hasExecution run.runId then
      run.updatedAtMs.map fun updatedAtMs => satAddI64 updatedAtMs hookOnlyStaleVisibilityMs
    else none
  minExpiry lifecycleExpiryMs hookOnlyExpiryMs

/-- When the first run of the rows may go out of view. -/
def nextRunVisibilityExpiryMs (ghostVisibilityMs : ℤ) (model : DomainModel) (rows : List TreeRow) (nowMs : ℤ) :
    Option ℤ :=
  (((rows.filterMap (·.key.runId)).filterMap model.taskRun).filterMap
    (runVisibilityExpiryMs ghostVisibilityMs model nowMs)).min?

/-- When the durations that are shown change: with the next full second. -/
def nextLiveDurationExpiryMs (model : DomainModel) (rows : List TreeRow) (nowMs : ℤ) : Option ℤ :=
  let runs := (rows.filterMap (·.key.runId)).filterMap model.taskRun
  let created := (runs.filter fun run => (model.effectiveLifecycleEndMs run).isNone).filterMap (·.createdAtMs)
  let rendersLiveDuration := (created.filterMap fun createdAtMs => checkedI64 (nowMs - createdAtMs)).any (0 ≤ ·)
  if !rendersLiveDuration then none
  else (checkedI64 (nowMs - nowMs % 1000)).bind fun second => checkedI64 (second + 1000)

/-! ### The projection -/

structure RowProjection where
  rows : List TreeRow
  nextExpiryMs : Option ℤ

/-- The visible runs in the order of their rows. -/
def visibleOrder (fullRows : List TreeRow) (visibleRuns : HashSet RunId) : List RunId :=
  (fullRows.filterMap (·.key.runId)).filter visibleRuns.contains

/-- The runs of the rows at these places. -/
def matchedRuns (fullRows : List TreeRow) (direct : List ℕ) : HashSet RunId :=
  HashSet.ofList (direct.filterMap fun index => fullRows[index]?.bind (·.key.runId))

/-- The rows of the dependency view that a query leaves. -/
def retainDagRows (model : DomainModel) (fullRows : List TreeRow) (direct : List ℕ) (visibleRuns : HashSet RunId) :
    Option (List TreeRow) := do
  let retained ← retainVisibleDagMatchesWithPrerequisites model (visibleOrder fullRows visibleRuns)
    (matchedRuns fullRows direct) visibleRuns
  let retained := HashSet.ofList retained
  return fullRows.filter fun row =>
    row.key.runId.any fun runId => visibleRuns.contains runId && retained.contains runId

/-- The rows of visible runs, and those of no run. -/
def visibleRows (model : DomainModel) (fullRows : List TreeRow) (visibleRuns : HashSet RunId) : List TreeRow :=
  fullRows.filter fun row =>
    row.key.runId.all fun runId => (model.taskRun runId).isSome && visibleRuns.contains runId

/-- What is shown, and until when; `none` if a loop is out of turns. -/
def projectRowsWithVisible (toLowercase : String → String) (headlessInactivityMs ghostVisibilityMs : ℤ)
    (model : DomainModel) (fullRows : List TreeRow) (visibleRuns : HashSet RunId) (query : String)
    (collapsed : HashSet NodeKey) (mode : ViewMode) (nowMs : ℤ) : Option RowProjection :=
  let agentExpiryMs := nextAgentVisibilityExpiryMs headlessInactivityMs model nowMs
  if !query.isEmpty then do
    let direct := directMatches toLowercase model fullRows visibleRuns query
    let rows ←
      match mode with
      | .executionTree => some (retainTreeMatches model fullRows direct visibleRuns)
      | .dependencyDag => retainDagRows model fullRows direct visibleRuns
    return {
      rows
      nextExpiryMs := minExpiry
        (minExpiry agentExpiryMs (nextRunVisibilityExpiryMs ghostVisibilityMs model rows nowMs))
        (nextLiveDurationExpiryMs model rows nowMs) }
  else
    let visible := visibleRows model fullRows visibleRuns
    let rows := if mode = .executionTree then applyCollapse visible collapsed else visible
    some {
      rows
      nextExpiryMs := minExpiry
        (minExpiry agentExpiryMs (nextRunVisibilityExpiryMs ghostVisibilityMs model visible nowMs))
        (nextLiveDurationExpiryMs model rows nowMs) }

/-! ### What is left and what is hidden -/

/-- The visible runs with a row that the query finds. -/
def MatchingRun (toLowercase : String → String) (model : DomainModel) (fullRows : List TreeRow)
    (visibleRuns : HashSet RunId) (query : String) (run : RunId) : Prop :=
  run ∈ visibleRuns.keys ∧
    ∃ row ∈ fullRows, row.key.runId = some run ∧ rowMatches toLowercase model row query = true

variable {toLowercase : String → String} {model : DomainModel} {fullRows : List TreeRow}
  {visibleRuns : HashSet RunId} {query : String}

theorem eligible_of_runId {row : TreeRow} {run : RunId} (h : row.key.runId = some run) :
    rowIsFilterEligible model row visibleRuns = visibleRuns.contains run := by
  obtain ⟨key⟩ := row
  cases key with
  | run runId paneId =>
    obtain rfl := Option.some.inj h
    rfl
  | _ => cases h

theorem mem_matchedRuns {run : RunId} :
    run ∈ (matchedRuns fullRows (directMatches toLowercase model fullRows visibleRuns query)).keys ↔
      MatchingRun toLowercase model fullRows visibleRuns query run := by
  rw [matchedRuns, HashSet.mem_keys_ofList, List.mem_filterMap]
  constructor
  · rintro ⟨i, hi, hrun⟩
    obtain ⟨row, hrow, hkey⟩ := Option.bind_eq_some_iff.mp hrun
    rw [mem_directMatches, hrow] at hi
    obtain ⟨heligible, hmatches⟩ := hi
    rw [Option.any_some, eligible_of_runId hkey] at heligible
    exact ⟨HashSet.contains_iff_mem_keys.mp heligible, row, List.mem_of_getElem? hrow, hkey, hmatches⟩
  · rintro ⟨hvisible, row, hmem, hkey, hmatches⟩
    obtain ⟨i, hi⟩ := List.mem_iff_getElem?.mp hmem
    refine ⟨i, mem_directMatches.mpr ?_, Option.bind_eq_some_iff.mpr ⟨row, hi, hkey⟩⟩
    rw [hi, Option.any_some, Option.any_some, eligible_of_runId hkey]
    exact ⟨HashSet.contains_iff_mem_keys.mpr hvisible, hmatches⟩

theorem visible_of_mem_visibleOrder : ∀ run ∈ visibleOrder fullRows visibleRuns, run ∈ visibleRuns.keys :=
  fun _ hrun => HashSet.contains_iff_mem_keys.mp (List.mem_filter.mp hrun).2

open scoped Classical in
/-- Of the dependency view are left the rows of the visible runs from which a match is reached. -/
theorem retainDagRows_eq (hkeyed : RunsKeyed model) :
    retainDagRows model fullRows (directMatches toLowercase model fullRows visibleRuns query) visibleRuns =
      some (fullRows.filter fun row => ∃ run, row.key.runId = some run ∧ run ∈ visibleRuns.keys ∧
        ReachesMatch model (· ∈ visibleRuns.keys) (MatchingRun toLowercase model fullRows visibleRuns query) run) := by
  rw [retainDagRows, retainVisible_eq hkeyed visible_of_mem_visibleOrder]
  refine congrArg some (List.filter_congr fun row hrow => ?_)
  rw [Bool.eq_iff_iff]
  simp only [decide_eq_true_iff, Option.any_eq_true, Bool.and_eq_true,
    HashSet.contains_iff_mem_keys, HashSet.mem_keys_ofList, List.mem_filter, mem_matchedRuns]
  constructor
  · rintro ⟨run, hkey, hvisible, -, hreach⟩
    exact ⟨run, hkey, hvisible, hreach⟩
  · rintro ⟨run, hkey, hvisible, hreach⟩
    refine ⟨run, hkey, hvisible, List.mem_filter.mpr ⟨?_, HashSet.contains_iff_mem_keys.mpr hvisible⟩, hreach⟩
    exact List.mem_filterMap.mpr ⟨row, hrow, hkey⟩

open scoped Classical in
/-- With a query, the execution tree has exactly the eligible rows that match and the eligible rows above such ones,
and the dependency view exactly the rows of the visible runs from which a matching run is reached over dependencies
between visible runs; taking these runs keeps the stable order, comes to an end on every graph, and does without the
shortcut. Without a query, collapsing hides exactly what has a collapsed row above it. -/
theorem filtered_and_collapsed (toLowercase : String → String) (headlessInactivityMs ghostVisibilityMs : ℤ)
    (model : DomainModel) (hkeyed : RunsKeyed model) (fullRows : List TreeRow) (visibleRuns : HashSet RunId)
    (query : String) (collapsed : HashSet NodeKey) (nowMs : ℤ) :
    let shown := projectRowsWithVisible toLowercase headlessInactivityMs ghostVisibilityMs model fullRows visibleRuns
      query collapsed
    let eligible := EligibleAt model fullRows visibleRuns
    let found := MatchesAt toLowercase model fullRows query
    let reaches := ReachesMatch model (· ∈ visibleRuns.keys)
    (query.isEmpty = false →
      (shown .executionTree nowMs).map (·.rows) = some (pick (fun i => eligible i ∧
        (found i ∨ ∃ j, StructuralAncestor fullRows i j ∧ eligible j ∧ found j)) fullRows) ∧
      (shown .dependencyDag nowMs).map (·.rows) = some (fullRows.filter fun row => ∃ run, row.key.runId = some run ∧
        run ∈ visibleRuns.keys ∧ reaches (MatchingRun toLowercase model fullRows visibleRuns query) run)) ∧
    (∀ matching : HashSet RunId,
      retainVisibleDagMatchesWithPrerequisites model (visibleOrder fullRows visibleRuns) matching visibleRuns =
        some ((visibleOrder fullRows visibleRuns).filter fun run => reaches (· ∈ matching.keys) run) ∧
      ((∀ run ∈ model.taskRuns.values, run.runId ∈ visibleRuns.keys) →
        retainMatchesWithPrerequisites model (visibleOrder fullRows visibleRuns) matching =
          retainAmongVisible model (visibleOrder fullRows visibleRuns) matching visibleRuns)) ∧
    (query.isEmpty = true →
      (shown .executionTree nowMs).map (·.rows) = some (pick (fun i => ¬∃ j,
        StructuralAncestor (visibleRows model fullRows visibleRuns) j i ∧
          (visibleRows model fullRows visibleRuns)[j]?.any (fun row => collapsed.contains row.key.collapseKey) = true)
        (visibleRows model fullRows visibleRuns))) := by
  refine ⟨fun hquery => ⟨?_, ?_⟩, fun matching => ⟨?_, fun hall => ?_⟩, fun hquery => ?_⟩
  · rw [← retainTreeMatches_eq]
    simp only [projectRowsWithVisible, hquery, Bool.not_false, if_true]
    rfl
  · simp only [projectRowsWithVisible, hquery, Bool.not_false, if_true, retainDagRows_eq hkeyed]
    rfl
  · exact retainVisible_eq hkeyed visible_of_mem_visibleOrder
  · exact shortcut_agrees hkeyed hall visible_of_mem_visibleOrder
  · rw [← applyCollapse_eq]
    simp only [projectRowsWithVisible, hquery, Bool.not_true, Bool.false_eq_true, if_false, if_true]
    rfl

/-- Two runs; the second one waits for the first one. -/
def waitingRuns : DomainModel where
  taskRuns := HashMap.ofList [
    (⟨1⟩, { runId := ⟨1⟩, key := .controller "build", displayOrdinal := 1, state := .running,
            hasControllerTaskStateEvent := true }),
    (⟨2⟩, { runId := ⟨2⟩, key := .controller "test", displayOrdinal := 2, state := .queued,
            hasControllerTaskStateEvent := true })]
  dependencyEdges := HashSet.ofList [⟨⟨1⟩, ⟨2⟩⟩]

def waitingRows : List TreeRow :=
  [{ key := .run ⟨1⟩ none, depth := 0, label := "build" }, { key := .run ⟨2⟩ none, depth := 0, label := "test" }]

theorem waitingRuns_keyed : RunsKeyed waitingRuns := by
  intro id run hrun
  have hmem := HashMap.mem_toList.mpr hrun
  have hall : ∀ entry ∈ waitingRuns.taskRuns.toList, entry.2.runId = entry.1 := by decide
  exact hall _ hmem

theorem filtered_and_collapsed_waiting :
    (let visible : HashSet RunId := HashSet.ofList [⟨1⟩, ⟨2⟩]
    let matching : HashSet RunId := HashSet.ofList [⟨2⟩]
    retainMatchesWithPrerequisites waitingRuns (visibleOrder waitingRows visible) matching =
        retainAmongVisible waitingRuns (visibleOrder waitingRows visible) matching visible ∧
      retainMatchesWithPrerequisites waitingRuns (visibleOrder waitingRows visible) matching =
        some [⟨1⟩, ⟨2⟩]) := by
  refine ⟨?_, by decide⟩
  refine ((filtered_and_collapsed id 0 0 waitingRuns waitingRuns_keyed waitingRows (HashSet.ofList [⟨1⟩, ⟨2⟩]) "test" ∅
    0).2.1 (HashSet.ofList [⟨2⟩])).2 ?_
  decide

end HerdrTop.Tui
