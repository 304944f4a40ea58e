import HerdrTop.Library.Closure
import HerdrTop.Library.Outline
import HerdrTop.Status.ReadModel

/-!
# The rows of the interface

A row stands for a part of the session, a run or an agent, and has a depth. A query leaves the rows that match it,
in the execution tree with what is above them and in the dependency view with the runs they wait for; collapsed rows
hide what is below them. What `to_lowercase` does to a text is left open: nothing here depends on it.

## What is proved

* `retainTreeMatches_eq`: of the tree are left the eligible rows that match or are above an eligible row that does.
* `retainVisible_eq`: of the dependency order are left the runs from which a match is reached over visible runs, and
  taking them comes to an end; `shortcut_agrees`: so they are without the shortcut.
* `applyCollapse_eq`: hidden is what has a collapsed row above it.
-/

namespace HerdrTop.Tui

open Closure Outline Relation

/-- What a row stands for. -/
inductive NodeKey
  | session
  | workspace (workspaceId : String)
  | tab (tabId : String)
  | pane (paneId : String)
  /-- A run, below a pane or not. -/
  | run (runId : RunId) (paneId : Option String)
  /-- An agent of a run, below a pane or not. -/
  | agent (agentNodeId : String) (paneId : Option String)
  | unattachedGroup
  deriving DecidableEq

def NodeKey.runId : NodeKey → Option RunId
  | .run runId _ => some runId
  | _ => none

/-- The key without the pane of a run: a run stays collapsed when its pane goes. -/
def NodeKey.collapseKey : NodeKey → NodeKey
  | .run runId _ => .run runId none
  | key => key

/-- The two views. -/
inductive ViewMode
  | executionTree
  | dependencyDag
  deriving DecidableEq

/-- A row, without the copy of its label that only the drawing of durations reads. -/
structure TreeRow where
  key : NodeKey
  depth : ℕ
  label : String
  displayStatus : Option DisplayStatus := none
  prerequisites : List String := []
  dependents : List String := []
  deriving DecidableEq

/-! ### Searching -/

def displayStatusLabel : TaskDisplayStatus → String
  | .queued => "queued"
  | .working => "working"
  | .idle => "idle"
  | .blocked => "blocked"
  | .done => "done"
  | .error => "error"
  | .cancelled => "cancelled"
  | .unknown => "unknown"

def providerName : Provider → String
  | .claude => "Claude"
  | .codex => "Codex"

def taskStateName : TaskState → String
  | .queued => "queued"
  | .running => "running"
  | .blocked => "blocked"
  | .completed => "completed"
  | .failed => "failed"
  | .cancelled => "cancelled"
  | .endedUnknown => "ended_unknown"

def execStateName : ExecState → String
  | .unknown => "unknown"
  | .idle => "idle"
  | .working => "working"
  | .blocked => "blocked"
  | .stale _ => "stale"
  | .ended => "ended"

/-- Whether one text occurs in another. -/
def containsText (text query : String) : Bool := decide (query.toList <:+: text.toList)

/-- What can be found of a run that the model knows. -/
def runFields (model : DomainModel) (row : TreeRow) (runId : RunId) (run : TaskRun) : List String :=
  let executionEdges := model.executionEdges.keys
  let dependencyEdges := model.dependencyEdges.keys
  let names := match run.key with
    | .native provider sid => [providerName provider, sid]
    | .provisional terminalId _ _ => ["provisional", terminalId]
    -- Controller text and operational paths are deliberately not searchable.
    | .controller _ | .nativePath _ _ => []
  let agents := (model.agentNodes.values.filter fun agent => agent.taskRunId = runId).flatMap fun agent =>
    providerName agent.provider :: agent.modelId.toList
  let waits := dependencyEdges.any fun edge => edge.dependentRunId = runId
  let waitedFor := dependencyEdges.any fun edge => edge.prerequisiteRunId = runId
  let dispatched := executionEdges.any fun edge => edge.childRunId = runId
  let dispatches := executionEdges.any fun edge => edge.parentRunId = runId
  [taskStateName run.state] ++ names ++ agents ++
    (if dispatched then ["dispatched by"] else []) ++
    (if !row.prerequisites.isEmpty || waits then ["prerequisite", "prereqs"] else []) ++
    (if !row.dependents.isEmpty || waitedFor then ["dependents"] else []) ++
    (if dispatches || dispatched || (waitedFor || waits) then [] else ["unlinked"]) ++
    (if containsText row.label "[shared]" then ["shared"] else [])

/-- What can be found of an agent that the model knows. -/
def agentFields (agent : AgentNode) : List String :=
  [providerName agent.provider, agent.taskRunId.text] ++ agent.nativeSessionId.toList ++ agent.modelId.toList ++
    agent.parentAgentNodeId.toList ++ (agent.state.map execStateName).toList

def searchableFields (model : DomainModel) (row : TreeRow) : List String :=
  let status := (row.displayStatus.map fun displayStatus => displayStatusLabel displayStatus.status).toList
  match row.key with
  | .session => [row.label]
  | .workspace id => ["workspace", id]
  | .tab id => ["tab", id] ++ ((model.tabs.get id).map (·.workspaceId)).toList
  | .pane id =>
    ["pane", id] ++ ((model.panes.get id).map fun pane => [pane.workspaceId, pane.tabId, pane.terminalId]).getD []
  | .run runId _ => ["task run", runId.text] ++ status ++ ((model.taskRun runId).map (runFields model row runId)).getD []
  | .agent agentNodeId _ =>
    ["native agent", "parent", "child", agentNodeId] ++ status ++
      ((model.agentNodes.get agentNodeId).map agentFields).getD [row.label]
  | .unattachedGroup => ["unattached task runs"]

/-- Whether a query finds a row. -/
def rowMatches (toLowercase : String → String) (model : DomainModel) (row : TreeRow) (query : String) : Bool :=
  let query := toLowercase query
  query.isEmpty || (searchableFields model row).any fun field => containsText (toLowercase field) query

/-- Whether a query may find a row: what belongs to a run must be of a visible one. -/
def rowIsFilterEligible (model : DomainModel) (row : TreeRow) (visibleRuns : HashSet RunId) : Bool :=
  match row.key with
  | .run runId _ => visibleRuns.contains runId
  | .agent agentNodeId _ => (model.agentNodes.get agentNodeId).all fun agent => visibleRuns.contains agent.taskRunId
  | _ => true

/-! ### Filtering the tree -/

/-- The places of the rows that a query finds. -/
def directMatches (toLowercase : String → String) (model : DomainModel) (fullRows : List TreeRow)
    (visibleRuns : HashSet RunId) (query : String) : List ℕ :=
  (fullRows.zipIdx.filter fun entry =>
    rowIsFilterEligible model entry.1 visibleRuns && rowMatches toLowercase model entry.1 query).map (·.2)

/-- The places that stay: the found ones, and the eligible ones above them. -/
def retainedPlaces (model : DomainModel) (rows : List TreeRow) (visibleRuns : HashSet RunId) : List ℕ → List ℕ
  | [] => []
  | index :: direct =>
    index :: (ancestors (depthAt TreeRow.depth rows) index (depthAt TreeRow.depth rows index)).filter (fun ancestor =>
      rows[ancestor]?.any fun row => rowIsFilterEligible model row visibleRuns) ++
      retainedPlaces model rows visibleRuns direct

def retainTreeMatches (model : DomainModel) (rows : List TreeRow) (direct : List ℕ) (visibleRuns : HashSet RunId) :
    List TreeRow :=
  pick (· ∈ retainedPlaces model rows visibleRuns direct) rows

/-! ### Filtering the dependency view -/

/-- The prerequisites of every run. -/
def reverseEdges (edges : List DependencyEdge) : HashMap RunId (List RunId) :=
  edges.foldl (fun reverse edge =>
    reverse.insert edge.dependentRunId ((reverse.get edge.dependentRunId).getD [] ++ [edge.prerequisiteRunId])) ∅

/-- The runs that are waited for by the given ones, over the given edges; each edge adds one run at most. -/
def closePrerequisites (edges : List DependencyEdge) (directMatches : HashSet RunId) : Option (HashSet RunId) :=
  let reverse := reverseEdges edges
  collect (fun dependent => (reverse.get dependent).getD []) (directMatches.keys.length + edges.length) directMatches
    directMatches.keys

/-- Whether both runs of an edge are known. -/
def joinsKnown (model : DomainModel) (edge : DependencyEdge) : Bool :=
  (model.taskRun edge.prerequisiteRunId).isSome && (model.taskRun edge.dependentRunId).isSome

/-- Retains matches and every run they wait for, in the stable order. -/
def retainMatchesWithPrerequisites (model : DomainModel) (stableOrder : List RunId) (directMatches : HashSet RunId) :
    Option (List RunId) := do
  let retained ← closePrerequisites (model.dependencyEdges.keys.filter (joinsKnown model)) directMatches
  return stableOrder.filter retained.contains

/-- The same over visible runs only. -/
def retainAmongVisible (model : DomainModel) (stableOrder : List RunId) (directMatches visibleRuns : HashSet RunId) :
    Option (List RunId) := do
  let edges := model.dependencyEdges.keys.filter fun edge =>
    visibleRuns.contains edge.prerequisiteRunId && visibleRuns.contains edge.dependentRunId && joinsKnown model edge
  let retained ← closePrerequisites edges directMatches
  return stableOrder.filter fun runId => visibleRuns.contains runId && retained.contains runId

/-- Takes a shortcut when every run is visible. -/
def retainVisibleDagMatchesWithPrerequisites (model : DomainModel) (stableOrder : List RunId)
    (directMatches visibleRuns : HashSet RunId) : Option (List RunId) :=
  if model.taskRuns.values.all fun run => visibleRuns.contains run.runId then
    retainMatchesWithPrerequisites model stableOrder directMatches
  else retainAmongVisible model stableOrder directMatches visibleRuns

/-! ### Collapsing -/

/-- Leaves out what is below collapsed rows. -/
def applyCollapse (rows : List TreeRow) (collapsed : HashSet NodeKey) : List TreeRow :=
  hideBelow TreeRow.depth (fun row => collapsed.contains row.key.collapseKey) none rows

/-! ### What is left -/

/-- Every run is filed under its own identity, as the model files them. -/
def RunsKeyed (model : DomainModel) : Prop := ∀ id run, model.taskRuns.get id = some run → run.runId = id

/-- The dependency edges between known runs that are visible, from the prerequisite to the dependent. -/
def VisibleEdge (model : DomainModel) (visible : RunId → Prop) (prerequisite dependent : RunId) : Prop :=
  ⟨prerequisite, dependent⟩ ∈ model.dependencyEdges.keys ∧
    (model.taskRun prerequisite).isSome ∧ (model.taskRun dependent).isSome ∧ visible prerequisite ∧ visible dependent

/-- A match is reached from a run. -/
def ReachesMatch (model : DomainModel) (visible matching : RunId → Prop) (run : RunId) : Prop :=
  ∃ found, matching found ∧ ReflTransGen (VisibleEdge model visible) run found

variable {model : DomainModel} {rows : List TreeRow} {visibleRuns : HashSet RunId} {matching : HashSet RunId}
  {direct : List ℕ} {stableOrder : List RunId}

theorem mem_retainedPlaces {i : ℕ} :
    i ∈ retainedPlaces model rows visibleRuns direct ↔
      i ∈ direct ∨ rows[i]?.any (fun row => rowIsFilterEligible model row visibleRuns) = true ∧
        ∃ j ∈ direct, Above (depthAt TreeRow.depth rows) i j := by
  induction direct with
  | nil => simp [retainedPlaces]
  | cons index direct ih =>
    rw [retainedPlaces, List.cons_append, List.mem_cons, List.mem_append, List.mem_filter, mem_ancestors, ih]
    constructor
    · rintro (rfl | ⟨habove, heligible⟩ | hi | ⟨heligible, j, hj, habove⟩)
      · exact .inl List.mem_cons_self
      · exact .inr ⟨heligible, index, List.mem_cons_self, habove⟩
      · exact .inl (List.mem_cons_of_mem _ hi)
      · exact .inr ⟨heligible, j, List.mem_cons_of_mem _ hj, habove⟩
    · rintro (hi | ⟨heligible, j, hj, habove⟩)
      · rcases List.mem_cons.mp hi with rfl | hi
        · exact .inl rfl
        · exact .inr (.inr (.inl hi))
      · rcases List.mem_cons.mp hj with rfl | hj
        · exact .inr (.inl ⟨habove, heligible⟩)
        · exact .inr (.inr (.inr ⟨heligible, j, hj, habove⟩))

theorem mem_directMatches {toLowercase : String → String} {query : String} {i : ℕ} :
    i ∈ directMatches toLowercase model rows visibleRuns query ↔
      rows[i]?.any (fun row => rowIsFilterEligible model row visibleRuns) = true ∧
        rows[i]?.any (fun row => rowMatches toLowercase model row query) = true := by
  rw [directMatches, List.mem_map]
  constructor
  · rintro ⟨⟨row, _⟩, hmem, rfl⟩
    rw [List.mem_filter, Bool.and_eq_true] at hmem
    obtain ⟨hrow, heligible, hmatches⟩ := hmem
    rw [List.mem_zipIdx_iff_getElem?.mp hrow]
    exact ⟨heligible, hmatches⟩
  · rintro ⟨heligible, hmatches⟩
    obtain ⟨row, hrow, heligible⟩ := (Option.any_eq_true _ _).mp heligible
    rw [hrow] at hmatches
    refine ⟨(row, i), List.mem_filter.mpr ⟨List.mem_zipIdx_iff_getElem?.mpr hrow, ?_⟩, rfl⟩
    exact (Bool.and_eq_true _ _).mpr ⟨heligible, hmatches⟩

/-- A row at this place may be found. -/
def EligibleAt (model : DomainModel) (rows : List TreeRow) (visibleRuns : HashSet RunId) (i : ℕ) : Prop :=
  rows[i]?.any (fun row => rowIsFilterEligible model row visibleRuns) = true

/-- The row at this place is found. -/
def MatchesAt (toLowercase : String → String) (model : DomainModel) (rows : List TreeRow) (query : String)
    (i : ℕ) : Prop :=
  rows[i]?.any (fun row => rowMatches toLowercase model row query) = true

/-- The row at the first place is the parent of the one at the second, or its parent's parent, and so on. -/
def StructuralAncestor (rows : List TreeRow) : ℕ → ℕ → Prop := TransGen (Parent (depthAt TreeRow.depth rows))

open scoped Classical in
/-- Of the tree are left the eligible rows that match or are above an eligible row that does. -/
theorem retainTreeMatches_eq (toLowercase : String → String) (model : DomainModel) (rows : List TreeRow)
    (visibleRuns : HashSet RunId) (query : String) :
    retainTreeMatches model rows (directMatches toLowercase model rows visibleRuns query) visibleRuns =
      pick (fun i => EligibleAt model rows visibleRuns i ∧ (MatchesAt toLowercase model rows query i ∨
        ∃ j, StructuralAncestor rows i j ∧ EligibleAt model rows visibleRuns j ∧
          MatchesAt toLowercase model rows query j)) rows := by
  refine pick_congr fun i _ => ?_
  rw [mem_retainedPlaces, mem_directMatches]
  constructor
  · rintro (⟨heligible, hmatches⟩ | ⟨heligible, j, hj, habove⟩)
    · exact ⟨heligible, .inl hmatches⟩
    · exact ⟨heligible, .inr ⟨j, above_iff_transGen.mp habove, mem_directMatches.mp hj⟩⟩
  · rintro ⟨heligible, hmatches | ⟨j, habove, hj⟩⟩
    · exact .inl ⟨heligible, hmatches⟩
    · exact .inr ⟨heligible, j, mem_directMatches.mpr hj, above_iff_transGen.mpr habove⟩

open scoped Classical in
/-- Hidden is what has a collapsed row above it. -/
theorem applyCollapse_eq (rows : List TreeRow) (collapsed : HashSet NodeKey) :
    applyCollapse rows collapsed =
      pick (fun i => ¬∃ j, StructuralAncestor rows j i ∧
        rows[j]?.any (fun row => collapsed.contains row.key.collapseKey) = true) rows := by
  refine (hideBelow_eq rows).trans (pick_congr fun i _ => not_congr ?_)
  exact exists_congr fun j => and_congr_left' above_iff_transGen

theorem mem_reverseEdges {edges : List DependencyEdge} {prerequisite dependent : RunId} :
    prerequisite ∈ ((reverseEdges edges).get dependent).getD [] ↔ ⟨prerequisite, dependent⟩ ∈ edges := by
  induction edges using List.reverseRecOn with
  | nil => simp [reverseEdges]
  | append_singleton edges edge ih =>
    rw [reverseEdges, List.foldl_append, List.foldl_cons, List.foldl_nil, ← reverseEdges, HashMap.get_insert,
      List.mem_append, List.mem_singleton]
    obtain ⟨first, second⟩ := edge
    by_cases h : dependent = second
    · subst h
      rw [if_pos rfl, Option.getD_some, List.mem_append, ih, List.mem_singleton]
      simp
    · rw [if_neg h, ih]
      simp [h]

/-- Taking what the given runs wait for comes to an end, with the runs from which one of them is reached. -/
theorem closePrerequisites_spec (edges : List DependencyEdge) (matching : HashSet RunId) :
    ∃ retained, closePrerequisites edges matching = some retained ∧ ∀ run, run ∈ retained.keys ↔
      ∃ found ∈ matching.keys, ReflTransGen (fun a b => ⟨a, b⟩ ∈ edges) run found := by
  have hstart : Collecting (fun dependent => ((reverseEdges edges).get dependent).getD []) (· ∈ matching.keys)
      matching matching.keys :=
    ⟨fun _ h => h, fun _ h => .seed h, fun _ h => h, fun _ h => .inl h⟩
  have hknown : ∀ a, ∀ b ∈ ((reverseEdges edges).get a).getD [], b ∈ edges.map (·.prerequisiteRunId) :=
    fun a b hb => List.mem_map_of_mem (mem_reverseEdges.mp hb)
  have hfuel : matching.keys.length + missing (edges.map (·.prerequisiteRunId)) matching ≤
      matching.keys.length + edges.length := by
    have := missing_le_length (edges.map (·.prerequisiteRunId)) matching
    rw [List.length_map] at this
    omega
  obtain ⟨retained, hretained, hmem⟩ := hstart.collect hknown hfuel
  refine ⟨retained, hretained, fun run => (hmem run).trans ?_⟩
  simp only [LedTo, mem_reverseEdges]
  exact exists_congr fun found => and_congr_right fun _ => reflTransGen_swap

theorem retainMatchesWithPrerequisites_spec (model : DomainModel) (stableOrder : List RunId)
    (matching : HashSet RunId) :
    ∃ retained : HashSet RunId, retainMatchesWithPrerequisites model stableOrder matching =
        some (stableOrder.filter retained.contains) ∧
      ∀ run, run ∈ retained.keys ↔ ReachesMatch model (fun _ => True) (· ∈ matching.keys) run := by
  obtain ⟨retained, hretained, hmem⟩ :=
    closePrerequisites_spec (model.dependencyEdges.keys.filter (joinsKnown model)) matching
  refine ⟨retained, by rw [retainMatchesWithPrerequisites, hretained]; rfl, fun run => (hmem run).trans ?_⟩
  refine exists_congr fun found => and_congr_right fun _ => iff_of_eq (congrArg (ReflTransGen · run found) ?_)
  funext a b
  simp [VisibleEdge, joinsKnown]

theorem retainAmongVisible_spec (model : DomainModel) (stableOrder : List RunId) (matching visibleRuns : HashSet RunId) :
    ∃ retained : HashSet RunId, retainAmongVisible model stableOrder matching visibleRuns =
        some (stableOrder.filter fun run => visibleRuns.contains run && retained.contains run) ∧
      ∀ run, run ∈ retained.keys ↔ ReachesMatch model (· ∈ visibleRuns.keys) (· ∈ matching.keys) run := by
  obtain ⟨retained, hretained, hmem⟩ := closePrerequisites_spec (model.dependencyEdges.keys.filter fun edge =>
    visibleRuns.contains edge.prerequisiteRunId && visibleRuns.contains edge.dependentRunId &&
      joinsKnown model edge) matching
  refine ⟨retained, by rw [retainAmongVisible, hretained]; rfl, fun run => (hmem run).trans ?_⟩
  refine exists_congr fun found => and_congr_right fun _ => iff_of_eq (congrArg (ReflTransGen · run found) ?_)
  funext a b
  simp only [VisibleEdge, joinsKnown, List.mem_filter, Bool.and_eq_true, HashSet.contains_iff_mem_keys, eq_iff_iff]
  tauto

/-- When every run is visible, the edges between visible runs are all edges. -/
theorem reachesMatch_of_all_visible {matches' : RunId → Prop} (hkeyed : RunsKeyed model)
    (hall : ∀ run ∈ model.taskRuns.values, run.runId ∈ visibleRuns.keys) (run : RunId) :
    ReachesMatch model (fun _ => True) matches' run ↔ ReachesMatch model (· ∈ visibleRuns.keys) matches' run := by
  have hvisible : ∀ id, (model.taskRun id).isSome → id ∈ visibleRuns.keys := by
    intro id hid
    obtain ⟨row, hrow⟩ := Option.isSome_iff_exists.mp hid
    rw [← hkeyed id row hrow]
    exact hall row (HashMap.mem_values.mpr ⟨id, hrow⟩)
  refine exists_congr fun found => and_congr_right fun _ => iff_of_eq (congrArg (ReflTransGen · run found) ?_)
  funext a b
  simp only [VisibleEdge, eq_iff_iff]
  constructor
  · rintro ⟨hedge, ha, hb, -⟩
    exact ⟨hedge, ha, hb, hvisible a ha, hvisible b hb⟩
  · rintro ⟨hedge, ha, hb, -⟩
    exact ⟨hedge, ha, hb, trivial, trivial⟩

/-- The shortcut for the case that every run is visible is one: the general way gives the same runs. -/
theorem shortcut_agrees (hkeyed : RunsKeyed model)
    (hall : ∀ run ∈ model.taskRuns.values, run.runId ∈ visibleRuns.keys)
    (horder : ∀ run ∈ stableOrder, run ∈ visibleRuns.keys) :
    retainMatchesWithPrerequisites model stableOrder matching =
      retainAmongVisible model stableOrder matching visibleRuns := by
  obtain ⟨retained, hleft, hmem⟩ := retainMatchesWithPrerequisites_spec model stableOrder matching
  obtain ⟨retained', hright, hmem'⟩ := retainAmongVisible_spec model stableOrder matching visibleRuns
  rw [hleft, hright]
  refine congrArg some (List.filter_congr fun run hrun => ?_)
  rw [HashSet.contains_iff_mem_keys.mpr (horder run hrun), Bool.true_and, Bool.eq_iff_iff,
    HashSet.contains_iff_mem_keys, HashSet.contains_iff_mem_keys, hmem, hmem',
    reachesMatch_of_all_visible hkeyed hall]

open scoped Classical in
/-- Of the dependency order are left the runs from which a match is reached over visible runs. -/
theorem retainVisible_eq (hkeyed : RunsKeyed model) (horder : ∀ run ∈ stableOrder, run ∈ visibleRuns.keys) :
    retainVisibleDagMatchesWithPrerequisites model stableOrder matching visibleRuns =
      some (stableOrder.filter fun run => ReachesMatch model (· ∈ visibleRuns.keys) (· ∈ matching.keys) run) := by
  have hgeneral : retainAmongVisible model stableOrder matching visibleRuns =
      some (stableOrder.filter fun run =>
        ReachesMatch model (· ∈ visibleRuns.keys) (· ∈ matching.keys) run) := by
    obtain ⟨retained, hright, hmem⟩ := retainAmongVisible_spec model stableOrder matching visibleRuns
    rw [hright]
    refine congrArg some (List.filter_congr fun run hrun => ?_)
    rw [HashSet.contains_iff_mem_keys.mpr (horder run hrun), Bool.true_and, Bool.eq_iff_iff,
      HashSet.contains_iff_mem_keys, hmem, decide_eq_true_iff]
  rw [retainVisibleDagMatchesWithPrerequisites]
  split_ifs with hall
  · refine (shortcut_agrees hkeyed (fun run hrun => ?_) horder).trans hgeneral
    exact HashSet.contains_iff_mem_keys.mp (List.all_eq_true.mp hall run hrun)
  · exact hgeneral

end HerdrTop.Tui
