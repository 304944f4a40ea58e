import HerdrTop.Identity.Apply

/-!
# The dispatch and the dependency graph

Both graphs are checked before an edge is added and before two runs are merged. The checks
are exact about what they promise: an edge set that passes is well formed, and the model
then holds just that set.
-/

namespace HerdrTop

/-- Dispatch edges: no run dispatches itself, no run has two parents, nothing goes in circles. -/
structure DispatchWellFormed (edges : List ExecutionEdge) : Prop where
  /-- No run is its own parent. -/
  noSelf : ∀ e ∈ edges, e.parentRunId ≠ e.childRunId
  /-- A run has one parent at most. -/
  oneParent : ∀ e ∈ edges, ∀ e' ∈ edges, e.childRunId = e'.childRunId →
    e.parentRunId = e'.parentRunId
  /-- There is no cycle. -/
  acyclic : Digraph.Acyclic (edges.map (·.pair))

/-- Dependency edges: no run waits for itself, nothing goes in circles. -/
structure DependencyWellFormed (edges : List DependencyEdge) : Prop where
  /-- No run is its own prerequisite. -/
  noSelf : ∀ e ∈ edges, e.prerequisiteRunId ≠ e.dependentRunId
  /-- There is no cycle. -/
  acyclic : Digraph.Acyclic (edges.map (·.pair))

/-- Both graphs of a model are well formed. -/
structure GraphsWellFormed (m : DomainModel) : Prop where
  /-- The dispatch graph. -/
  dispatch : DispatchWellFormed m.executionEdges.keys
  /-- The dependency graph. -/
  dependency : DependencyWellFormed m.dependencyEdges.keys

theorem DispatchWellFormed.mono {edges edges' : List ExecutionEdge} (h : DispatchWellFormed edges)
    (hsub : ∀ e ∈ edges', e ∈ edges) : DispatchWellFormed edges' where
  noSelf e he := h.noSelf e (hsub e he)
  oneParent e he e' he' := h.oneParent e (hsub e he) e' (hsub e' he')
  acyclic := h.acyclic.mono fun p hp => by
    obtain ⟨e, he, rfl⟩ := List.mem_map.mp hp
    exact List.mem_map_of_mem (hsub e he)

theorem DependencyWellFormed.mono {edges edges' : List DependencyEdge}
    (h : DependencyWellFormed edges) (hsub : ∀ e ∈ edges', e ∈ edges) :
    DependencyWellFormed edges' where
  noSelf e he := h.noSelf e (hsub e he)
  acyclic := h.acyclic.mono fun p hp => by
    obtain ⟨e, he, rfl⟩ := List.mem_map.mp hp
    exact List.mem_map_of_mem (hsub e he)

theorem graphHasCycle_eq_false {edges : List (RunId × RunId)} :
    graphHasCycle edges = false ↔ Digraph.Acyclic edges := Digraph.hasCycle_eq_false_iff edges

/-- The check finds a circle exactly where there is one, whatever edges are listed how often. Its loop comes to an end
with as many turns as there are runs, and the order in which the runs without a parent are queued does not matter. -/
theorem graphHasCycle_exact (edges : List (RunId × RunId)) :
    (graphHasCycle edges = true ↔ ∃ run, Relation.TransGen (Digraph.Edge edges) run run) ∧
      ∀ queue, (Digraph.freeVertices edges).Perm queue →
        ∃ visited, Digraph.visitAll (Digraph.children edges ∅) (Digraph.indegrees edges ∅).keys.length
            (Digraph.indegrees edges ∅) queue 0 = some visited ∧
          graphHasCycle edges = (visited != (Digraph.indegrees edges ∅).keys.length) := by
  have hcycle : graphHasCycle edges = true ↔ ∃ run, Relation.TransGen (Digraph.Edge edges) run run :=
    Digraph.hasCycle_iff edges
  refine ⟨hcycle, fun queue hqueue => ?_⟩
  obtain ⟨visited, hvisited, hcount⟩ := Digraph.visitAll_iff edges hqueue
  refine ⟨visited, hvisited, Bool.eq_iff_iff.mpr ?_⟩
  rw [hcycle, bne_iff_ne, hcount]

theorem graphHasCycle_exact_loop :
    graphHasCycle [(⟨1⟩, ⟨2⟩), (⟨2⟩, ⟨3⟩), (⟨2⟩, ⟨3⟩), (⟨3⟩, ⟨3⟩)] = true ∧
      ∃ visited, Digraph.visitAll
          (Digraph.children [(⟨1⟩, ⟨2⟩), (⟨2⟩, ⟨3⟩), (⟨2⟩, ⟨3⟩), ((⟨3⟩ : RunId), ⟨3⟩)] ∅) 3
          (Digraph.indegrees [(⟨1⟩, ⟨2⟩), (⟨2⟩, ⟨3⟩), (⟨2⟩, ⟨3⟩), (⟨3⟩, ⟨3⟩)] ∅) [⟨1⟩] 0 = some visited ∧
        true = (visited != 3) := by
  have hloop := graphHasCycle_exact [(⟨1⟩, ⟨2⟩), (⟨2⟩, ⟨3⟩), (⟨2⟩, ⟨3⟩), (⟨3⟩, ⟨3⟩)]
  exact ⟨by decide, hloop.2 [⟨1⟩] (by decide)⟩

/-! ### The checks -/

/-- Edges that pass agree with the parents found before them and with each other. -/
theorem checkDispatchEdges_ok {edges : List ExecutionEdge} {parents : HashMap RunId RunId}
    (h : checkDispatchEdges edges parents = .ok ()) :
    (∀ e ∈ edges, e.parentRunId ≠ e.childRunId) ∧
      (∀ e ∈ edges, ∀ p, parents.get e.childRunId = some p → p = e.parentRunId) ∧
      ∀ e ∈ edges, ∀ e' ∈ edges, e.childRunId = e'.childRunId → e.parentRunId = e'.parentRunId := by
  induction edges generalizing parents with
  | nil => simp
  | cons edge rest ih =>
    rw [checkDispatchEdges] at h
    split_ifs at h with hself
    cases hp : parents.get edge.childRunId with
    | some existing =>
      simp only [hp] at h
      split_ifs at h with hne
      have hex : existing = edge.parentRunId := not_not.mp hne
      obtain ⟨h1, h2, h3⟩ := ih h
      refine ⟨?_, ?_, ?_⟩
      · rintro e (_ | ⟨_, he⟩)
        · exact hself
        · exact h1 e he
      · rintro e (_ | ⟨_, he⟩) p hpe
        · rw [hp] at hpe
          cases hpe
          exact hex
        · exact h2 e he p hpe
      · rintro e (_ | ⟨_, he⟩) e' (_ | ⟨_, he'⟩) hc
        · rfl
        · exact hex ▸ h2 e' he' existing (hc ▸ hp)
        · exact (hex ▸ h2 e he existing (hc ▸ hp)).symm
        · exact h3 e he e' he' hc
    | none =>
      simp only [hp] at h
      obtain ⟨h1, h2, h3⟩ := ih h
      -- a later edge to the same child meets the parent just recorded
      have hnew : ∀ e ∈ rest, e.childRunId = edge.childRunId → edge.parentRunId = e.parentRunId :=
        fun e he hc => h2 e he edge.parentRunId (by rw [hc, HashMap.get_insert_self])
      refine ⟨?_, ?_, ?_⟩
      · rintro e (_ | ⟨_, he⟩)
        · exact hself
        · exact h1 e he
      · rintro e (_ | ⟨_, he⟩) p hpe
        · rw [hp] at hpe
          cases hpe
        · by_cases hc : e.childRunId = edge.childRunId
          · rw [hc, hp] at hpe
            cases hpe
          · exact h2 e he p (by rw [HashMap.get_insert_ne _ _ hc]; exact hpe)
      · rintro e (_ | ⟨_, he⟩) e' (_ | ⟨_, he'⟩) hc
        · rfl
        · exact hnew e' he' hc.symm
        · exact (hnew e he hc).symm
        · exact h3 e he e' he' hc

theorem checkDependencyEdges_ok {edges : List DependencyEdge}
    (h : checkDependencyEdges edges = .ok ()) :
    ∀ e ∈ edges, e.prerequisiteRunId ≠ e.dependentRunId := by
  induction edges with
  | nil => simp
  | cons edge rest ih =>
    rw [checkDependencyEdges] at h
    split_ifs at h with hself
    rintro e (_ | ⟨_, he⟩)
    · exact hself
    · exact ih h e he

/-- A dispatch edge that passes leaves the graph well formed. -/
theorem preflightExecutionEdge_ok {m : DomainModel} {edge : ExecutionEdge}
    (h : preflightExecutionEdge m edge = .ok ()) :
    DispatchWellFormed (m.insertExecutionEdge edge).executionEdges.keys := by
  unfold preflightExecutionEdge at h
  simp only at h
  cases hc : checkDispatchEdges (m.executionEdges.keys ++ [edge]) ∅ with
  | error e => simp [hc] at h
  | ok u =>
    simp only [hc] at h
    split_ifs at h with hcycle
    obtain ⟨h1, -, h3⟩ := checkDispatchEdges_ok hc
    have hall : DispatchWellFormed (m.executionEdges.keys ++ [edge]) :=
      ⟨h1, h3, graphHasCycle_eq_false.mp (by simpa using hcycle)⟩
    refine hall.mono fun e he => ?_
    rcases HashSet.mem_keys_insert.mp he with rfl | he
    · simp
    · exact List.mem_append_left _ he

/-- A dependency edge that passes leaves the graph well formed. -/
theorem preflightDependencyEdge_ok {m : DomainModel} {edge : DependencyEdge}
    (h : preflightDependencyEdge m edge = .ok ()) :
    DependencyWellFormed (m.insertDependencyEdge edge).dependencyEdges.keys := by
  unfold preflightDependencyEdge at h
  simp only at h
  cases hc : checkDependencyEdges (m.dependencyEdges.keys ++ [edge]) with
  | error e => simp [hc] at h
  | ok u =>
    simp only [hc] at h
    split_ifs at h with hcycle
    have hall : DependencyWellFormed (m.dependencyEdges.keys ++ [edge]) :=
      ⟨checkDependencyEdges_ok hc, graphHasCycle_eq_false.mp (by simpa using hcycle)⟩
    refine hall.mono fun e he => ?_
    rcases HashSet.mem_keys_insert.mp he with rfl | he
    · simp
    · exact List.mem_append_left _ he

/-! ### Contraction -/

theorem contractExecutionEdges_ok {m : DomainModel} {s a : RunId} {edges : HashSet ExecutionEdge}
    (h : contractExecutionEdges m s a = .ok edges) :
    edges = HashSet.ofList (m.executionEdges.keys.map (substituteExecutionEdge · s a)) ∧
      DispatchWellFormed edges.keys := by
  unfold contractExecutionEdges at h
  simp only at h
  cases hc : checkDispatchEdges (m.executionEdges.keys.map (substituteExecutionEdge · s a)) ∅ with
  | error e => simp [hc] at h
  | ok u =>
    simp only [hc] at h
    split_ifs at h with hcycle
    cases h
    obtain ⟨h1, -, h3⟩ := checkDispatchEdges_ok hc
    refine ⟨rfl, fun e he => h1 e (HashSet.mem_keys_ofList.mp he),
      fun e he e' he' => h3 e (HashSet.mem_keys_ofList.mp he) e' (HashSet.mem_keys_ofList.mp he'),
      graphHasCycle_eq_false.mp (by simpa using hcycle)⟩

theorem contractDependencyEdges_ok {m : DomainModel} {s a : RunId} {edges : HashSet DependencyEdge}
    (h : contractDependencyEdges m s a = .ok edges) :
    edges = HashSet.ofList (m.dependencyEdges.keys.map (substituteDependencyEdge · s a)) ∧
      DependencyWellFormed edges.keys := by
  unfold contractDependencyEdges at h
  simp only at h
  cases hc : checkDependencyEdges (m.dependencyEdges.keys.map (substituteDependencyEdge · s a)) with
  | error e => simp [hc] at h
  | ok u =>
    simp only [hc] at h
    split_ifs at h with hcycle
    cases h
    exact ⟨rfl, fun e he => checkDependencyEdges_ok hc e (HashSet.mem_keys_ofList.mp he),
      graphHasCycle_eq_false.mp (by simpa using hcycle)⟩

end HerdrTop
