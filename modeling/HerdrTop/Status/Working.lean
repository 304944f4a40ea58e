import HerdrTop.Status.ReadModel
import HerdrTop.Reducer.Safety

/-!
# The rate ledger reads the status read model

`runRateWorking` says directly when a run counts as working; the read model gets there through the evidence it
gathers. What is shown of a run does not depend on the order of rows either.

## What is proved

* `runRateWorking_iff`: a run counts as working when its activity is.
* `Reached.working_iff`: so it is in the reducer, whatever happened before.
* `taskDisplayStatus_sameRows`: the status that is shown, in whatever order the rows are visited.
-/

namespace HerdrTop.StatusReadModel

open Champions

/-! ### One direct rule -/

section

variable {headlessInactivityMs : ℤ} {m : DomainModel} {nowMs : ℤ} {run : TaskRun}

/-- One execution comes before another when its candidate does. -/
theorem before_iff {left right : Execution} :
    left.before right = true ↔ left.candidate.rank < right.candidate.rank := by
  unfold Execution.before ExecutionCandidate.rank Execution.candidate
  rw [Prod.Lex.toLex_lt_toLex]
  cases left.state.isTerminal <;> cases right.state.isTerminal <;> simp

/-- One agent is older than another when its evidence comes later. -/
theorem olderThan_iff {left right : AgentNode} :
    left.olderThan right = true ↔ right.evidence.rank < left.evidence.rank := by
  unfold AgentNode.olderThan AgentStatusEvidence.rank AgentNode.evidence
  rw [OrderDual.toDual_lt_toDual, Prod.Lex.toLex_lt_toLex]
  cases left.lastActivityAtMs with
  | none => cases right.lastActivityAtMs <;> simp [WithBot.none_eq_bot, WithBot.some_eq_coe]
  | some l => cases right.lastActivityAtMs <;> simp [WithBot.none_eq_bot, WithBot.some_eq_coe]

/-- The executions of a run. -/
def executionsOf (m : DomainModel) (runId : RunId) : List Execution :=
  m.executions.values.filter fun execution => execution.taskRunId = runId

/-- The best candidate for a pane is that of an execution no other one comes before. -/
theorem champion_candidates (hm : m.Named) {paneId : String} {candidate : ExecutionCandidate} :
    champion ExecutionCandidate.rank (candidates m run.runId paneId) = some candidate ↔
      ∃ execution ∈ executionsOf m run.runId, execution.paneId = paneId ∧ execution.candidate = candidate ∧
        ∀ other ∈ executionsOf m run.runId, other.paneId = paneId → other.before execution = false := by
  have hmem : ∀ execution : Execution, (execution ∈ executionsOf m run.runId ∧ execution.paneId = paneId) ↔
      execution ∈ m.executions.values.filter fun e => e.taskRunId = run.runId ∧ e.paneId = paneId := by
    intro execution
    simp only [executionsOf, List.mem_filter, decide_eq_true_eq, and_assoc]
  rw [champion_eq_some (candidates_rank hm paneId)]
  unfold candidates
  rw [List.mem_map, List.forall_mem_map]
  constructor
  · rintro ⟨⟨execution, hexec, rfl⟩, hleast⟩
    obtain ⟨hrun, hpane⟩ := (hmem execution).mpr hexec
    refine ⟨execution, hrun, hpane, rfl, fun other hother hsame => ?_⟩
    rw [Bool.eq_false_iff, Ne, before_iff, not_lt]
    exact hleast other ((hmem other).mp ⟨hother, hsame⟩)
  · rintro ⟨execution, hrun, hpane, rfl, hfirst⟩
    refine ⟨⟨execution, (hmem execution).mp ⟨hrun, hpane⟩, rfl⟩, fun other hother => ?_⟩
    obtain ⟨hother, hsame⟩ := (hmem other).mpr hother
    rw [← not_lt, ← before_iff, hfirst other hother hsame]
    exact Bool.false_ne_true

/-- The agents that may speak for a run are those the ledger looks at. -/
theorem agentEvidence_eq : agentEvidence headlessInactivityMs m nowMs run.runId =
    (HerdrTop.rootAgents headlessInactivityMs m run nowMs).map AgentNode.evidence := by
  unfold agentEvidence HerdrTop.rootAgents speaksForRun
  congr 1
  refine List.filter_congr fun agent _ => ?_
  have hline : (agent.lastEventKind != some liveLineEventKind) = !decide (agent.lastEventKind = some liveLineEventKind) := by
    rw [bne, beq_eq_decide]
  rw [hline]
  cases agent.parentAgentNodeId <;> simp [Bool.and_assoc]

/-- The agent the ledger looks at is the one that speaks for the run. -/
theorem newest_evidence (hm : m.Named) : ((HerdrTop.rootAgents headlessInactivityMs m run nowMs).find? fun agent =>
      !(HerdrTop.rootAgents headlessInactivityMs m run nowMs).any fun other => agent.olderThan other).map AgentNode.evidence =
    champion AgentStatusEvidence.rank (agentEvidence headlessInactivityMs m nowMs run.runId) := by
  have hrank : ∀ a ∈ agentEvidence headlessInactivityMs m nowMs run.runId,
      ∀ b ∈ agentEvidence headlessInactivityMs m nowMs run.runId, a.rank = b.rank → a = b :=
    agentEvidence_rank hm
  rw [agentEvidence_eq] at hrank ⊢
  generalize HerdrTop.rootAgents headlessInactivityMs m run nowMs = agents at hrank ⊢
  have hnewest : ∀ agent : AgentNode, (!agents.any fun other => agent.olderThan other) = true ↔
      ∀ other ∈ agents, agent.evidence.rank ≤ other.evidence.rank := by
    intro agent
    simp only [Bool.not_eq_true', List.any_eq_false, olderThan_iff, not_lt]
  refine Option.ext fun evidence => ?_
  rw [champion_eq_some hrank, Option.map_eq_some_iff, List.mem_map, List.forall_mem_map]
  constructor
  · rintro ⟨agent, hfind, rfl⟩
    refine ⟨⟨agent, List.mem_of_find?_eq_some hfind, rfl⟩, (hnewest agent).mp ?_⟩
    exact List.find?_some (p := fun agent : AgentNode => !agents.any fun other => agent.olderThan other) hfind
  · rintro ⟨⟨agent, hagent, rfl⟩, hleast⟩
    have hsome : (agents.find? fun agent => !agents.any fun other => agent.olderThan other).isSome = true :=
      List.find?_isSome.mpr ⟨agent, hagent, (hnewest agent).mpr hleast⟩
    obtain ⟨found, hfound⟩ := Option.isSome_iff_exists.mp hsome
    refine ⟨found, hfound, hrank _ (List.mem_map_of_mem (List.mem_of_find?_eq_some hfound)) _
      (List.mem_map_of_mem hagent) (le_antisymm ?_ (hleast _ (List.mem_of_find?_eq_some hfound)))⟩
    refine (hnewest found).mp ?_ agent hagent
    exact List.find?_some (p := fun agent : AgentNode => !agents.any fun other => agent.olderThan other) hfound

/-- A pane works when its own status says so, and without one when the state of its execution does. -/
def paneWorking (m : DomainModel) (paneId : String) (state : ExecState) : Bool :=
  match m.paneAgentStatuses.get paneId with
  | some status => status == .working
  | none => state == .working

/-- A run counts as working for the rate ledger when its activity in the read model is. -/
theorem runRateWorking_iff (hm : m.Named) : runRateWorking headlessInactivityMs m run nowMs = true ↔
    runRateActivityFromModel headlessInactivityMs m run nowMs = .working := by
  have hown : passedOver (some run.runId) run.runId = false := by simp [passedOver]
  have hnone : (fromModelFiltered headlessInactivityMs m nowMs (some run.runId)).paneExecutions.get run.runId =
      none ↔ ∀ paneId, candidates m run.runId paneId = [] := paneExecutions_eq_none hown
  have hget : ∀ paneId, ((fromModelFiltered headlessInactivityMs m nowMs (some run.runId)).paneExecutions.get
      run.runId).bind (·.get paneId) =
        (champion ExecutionCandidate.rank (candidates m run.runId paneId)).map ExecutionCandidate.state :=
    paneExecutions_get hown
  have hempty : (executionsOf m run.runId).isEmpty = true ↔ ∀ paneId, candidates m run.runId paneId = [] := by
    simp only [List.isEmpty_iff, executionsOf, candidates, List.map_eq_nil_iff, List.filter_eq_nil_iff,
      decide_eq_true_eq]
    exact ⟨fun h paneId e he hboth => h e he hboth.1, fun h e he howner => h e.paneId e he ⟨howner, rfl⟩⟩
  have hagent : (fromModelFiltered headlessInactivityMs m nowMs (some run.runId)).rootAgents.get run.runId =
      champion AgentStatusEvidence.rank (agentEvidence headlessInactivityMs m nowMs run.runId) := rootAgents_get hown
  rw [← newest_evidence hm] at hagent
  unfold runRateActivityFromModel runRateActivity runRateWorking
  generalize fromModelFiltered headlessInactivityMs m nowMs (some run.runId) = statuses at hnone hget hagent ⊢
  split_ifs with hpaused
  · exact iff_of_false (fun h => h) (by simp)
  · change (if (executionsOf m run.runId).isEmpty = true then _ else _) = true ↔ _
    cases hpanes : statuses.paneExecutions.get run.runId with
    | none =>
      rw [if_pos (hempty.mpr (hnone.mp hpanes)), hagent]
      dsimp only
      cases (HerdrTop.rootAgents headlessInactivityMs m run nowMs).find? fun agent =>
        !(HerdrTop.rootAgents headlessInactivityMs m run nowMs).any fun other => agent.olderThan other with
      | none => simp
      | some newest =>
        dsimp only [Option.map_some, AgentNode.evidence]
        split_ifs with hworking <;> simp [hworking]
    | some panes =>
      have hfilled : ¬(executionsOf m run.runId).isEmpty = true := fun hnil => by
        rw [hnone.mpr (hempty.mp hnil)] at hpanes
        cases hpanes
      rw [if_neg hfilled]
      simp only [hpanes, Option.bind_some] at hget
      dsimp only
      have hsame : ((executionsOf m run.runId).any fun execution =>
            !(executionsOf m run.runId).any (fun other => other.paneId = execution.paneId && other.before execution) &&
              !execution.state.isTerminal && paneWorking m execution.paneId execution.state) = true ↔
          (panes.toList.any fun entry => !entry.2.isTerminal && paneWorking m entry.1 entry.2) = true := by
        have hfirst : ∀ execution : Execution, (!(executionsOf m run.runId).any
            fun other => other.paneId = execution.paneId && other.before execution) = true ↔
            ∀ other ∈ executionsOf m run.runId, other.paneId = execution.paneId → other.before execution = false := by
          intro execution
          simp
        have hentry : ∀ paneId state, (paneId, state) ∈ panes.toList ↔ ∃ execution ∈ executionsOf m run.runId,
            execution.paneId = paneId ∧ execution.state = state ∧ ∀ other ∈ executionsOf m run.runId,
              other.paneId = paneId → other.before execution = false := by
          intro paneId state
          rw [HashMap.mem_toList, hget, Option.map_eq_some_iff]
          simp only [champion_candidates hm]
          constructor
          · rintro ⟨_, ⟨execution, hexec, hpane, rfl, hall⟩, rfl⟩
            exact ⟨execution, hexec, hpane, rfl, hall⟩
          · rintro ⟨execution, hexec, hpane, rfl, hall⟩
            exact ⟨_, ⟨execution, hexec, hpane, rfl, hall⟩, rfl⟩
        simp only [List.any_eq_true, Bool.and_eq_true, hfirst, Prod.exists, hentry]
        constructor
        · rintro ⟨execution, hexec, ⟨hall, hlive⟩, hworks⟩
          exact ⟨execution.paneId, execution.state, ⟨execution, hexec, rfl, rfl, hall⟩, hlive, hworks⟩
        · rintro ⟨_, _, ⟨execution, hexec, rfl, rfl, hall⟩, hlive, hworks⟩
          exact ⟨execution, hexec, ⟨hall, hlive⟩, hworks⟩
      have hif : ∀ works : Bool, works = true ↔
          (if works then RunRateActivity.working else .paused) = .working := by decide
      exact hsame.trans (hif _)

end

/-! ### What is shown -/

section

variable {headlessInactivityMs : ℤ} {m m' : DomainModel} {nowMs : ℤ}

/-- The agents of a run's own session, as a key of the run names it. -/
def durableEvidence (m : DomainModel) (target : RunId) : List AgentStatusEvidence :=
  (m.agentNodes.values.filter fun agent => agent.durableSession.bind (nativeAliases m).get = some target).map
    AgentNode.evidence

/-- The agent of a run's own session is the newest one. -/
theorem durableNativeAgents_get (target : RunId) :
    (fromModel headlessInactivityMs m nowMs).durableNativeAgents.get target =
      champion AgentStatusEvidence.rank (durableEvidence m target) := by
  have hfold : ∀ (l : List AgentNode) gathered,
      (l.foldl (gatherAgent headlessInactivityMs m nowMs none) gathered).2 = l.foldl (fun selected agent =>
        if (agent.durableSession.bind (nativeAliases m).get).isNone then selected
        else keepBest AgentStatusEvidence.rank selected ((agent.durableSession.bind (nativeAliases m).get).getD target)
          agent.evidence) gathered.2 := by
    intro l gathered
    induction l generalizing gathered with
    | nil => rfl
    | cons agent l ih =>
      rw [List.foldl_cons, List.foldl_cons, ih]
      congr 1
      unfold gatherAgent
      dsimp only
      cases agent.durableSession.bind (nativeAliases m).get with
      | none => split_ifs <;> first | rfl | contradiction
      | some owner => split_ifs <;> first | rfl | contradiction
  unfold fromModel fromModelFiltered durableEvidence
  dsimp only
  rw [hfold, get_foldl_keepBest]
  congr 2
  refine List.filter_congr fun agent _ => ?_
  cases agent.durableSession.bind (nativeAliases m).get <;> simp

/-- The native keys of the index with their owners, as a list. -/
def nativeEntries (m : DomainModel) : List (RunKey × RunId) :=
  m.runIdsByKey.toList.filter fun entry => match entry.1 with
    | .native _ _ => true
    | _ => false

/-- The keys of sessions, whatever the order in which keys are visited. -/
theorem nativeAliases_get (h : m.runIdsByKey.Rehash m'.runIdsByKey) (key : RunKey) :
    (nativeAliases m').get key = (nativeAliases m).get key := by
  have hget : ∀ (m : DomainModel) owner, (nativeAliases m).get key = some owner ↔
      (key, owner) ∈ nativeEntries m := by
    intro m owner
    have hnodup : ((nativeEntries m).map Prod.fst).Nodup := by
      refine List.Nodup.sublist (List.filter_sublist.map Prod.fst) ?_
      rw [← HashMap.keys_eq_map_toList]
      exact HashMap.keys_nodup _
    constructor
    · intro hsome
      rcases HashMap.get_extend_cases hsome with hmem | ⟨hempty, -⟩
      · exact hmem
      · cases hempty
    · exact HashMap.get_extend_of_mem hnodup
  refine Option.ext fun owner => ?_
  rw [hget, hget]
  simp only [nativeEntries, List.mem_filter, h.toList_perm.mem_iff]

theorem durableEvidence_rank (hm : m.Named) {target : RunId} : ∀ a ∈ durableEvidence m target,
    ∀ b ∈ durableEvidence m target, a.rank = b.rank → a = b := by
  intro a ha b hb hrank
  obtain ⟨agent, hagent, rfl⟩ := List.mem_map.mp ha
  obtain ⟨agent', hagent', rfl⟩ := List.mem_map.mp hb
  exact evidence_inj hm (List.mem_filter.mp hagent).1 (List.mem_filter.mp hagent').1 hrank

/-- What is shown of a run does not depend on the order in which rows are visited. -/
theorem taskDisplayStatus_sameRows (hm : m.Named) (h : m.SameRows m') (run : TaskRun) (paneId : Option String)
    (inactive : Bool) :
    (fromModel headlessInactivityMs m' nowMs).taskDisplayStatus m' run paneId inactive =
      (fromModel headlessInactivityMs m nowMs).taskDisplayStatus m run paneId inactive := by
  have hagrees : (fromModel headlessInactivityMs m nowMs).Agrees (fromModel headlessInactivityMs m' nowMs) run.runId :=
    agrees_of_sameRows hm h rfl rfl
  have hdurable : (fromModel headlessInactivityMs m' nowMs).durableNativeAgents.get run.runId =
      (fromModel headlessInactivityMs m nowMs).durableNativeAgents.get run.runId := by
    have hperm : (durableEvidence m run.runId).Perm (durableEvidence m' run.runId) := by
      have halias : (nativeAliases m').get = (nativeAliases m).get :=
        funext fun key => nativeAliases_get h.runIdsByKey key
      unfold durableEvidence
      rw [halias]
      exact (h.agentNodes.values_perm.filter _).map _
    rw [durableNativeAgents_get, durableNativeAgents_get, champion_perm (durableEvidence_rank hm) hperm]
  have hpane : ∀ pane, ((fromModel headlessInactivityMs m' nowMs).paneExecutions.get run.runId).bind (·.get pane) =
      ((fromModel headlessInactivityMs m nowMs).paneExecutions.get run.runId).bind (·.get pane) := fun pane =>
    (hagrees.panes pane).symm
  unfold taskDisplayStatus durableEndedStatus DomainModel.v6State
  simp only [hdurable, hpane, ← hagrees.agent, h.v6States.get, h.paneAgentStatuses.get]

end

end HerdrTop.StatusReadModel

namespace HerdrTop

/-! ### Executions are filed under their names -/

section

variable {scope : Scope} {c c' : Core} {l ls : List Merge}

/-- A binding renames no execution. -/
theorem Applied.named {m m' : DomainModel} {t : ℤ} (ha : Applied m t l m') (hf : m.Filed) (h : m.Named) :
    m'.Named where
  agentNode := (ha.filed hf).agent
  execution := by
    cases ha with
    | unchanged => exact h.execution
    | touched run exist => exact h.execution
    | bound run provider sid exist =>
      unfold boundModel
      split_ifs <;> exact h.execution
    | @merged s a sr ar g hp =>
      intro id execution hget
      rw [(rows_mergedModel m s a sr g t).1, HashMap.get_mapValues] at hget
      obtain ⟨old, hold, rfl⟩ := Option.map_eq_some_iff.mp hget
      have hname : (old.repoint s a).executionId = old.executionId := by
        unfold Execution.repoint
        split_ifs <;> rfl
      rw [hname]
      exact h.execution id old hold

/-- A change renames no execution and no agent. -/
theorem Change.named (hc : Change scope c l c') (hf : c.model.Filed) (h : c.model.Named) : c'.model.Named := by
  refine ⟨?_, (hc.filed hf).agent⟩
  cases hc with
  | history => exact h.execution
  | mutation hm =>
    cases hm with
    | quiet rows =>
      simp only [DomainModel.rows, Prod.mk.injEq] at rows
      rw [rows.2.2.2.1]
      exact h.execution
    | binding applied => exact ((applyBindingPlanAt_applied hf.run applied).named hf h).execution
    | execution e owner =>
      intro id execution hget
      simp only [Core.withModel_model, DomainModel.insertExecution, HashMap.get_insert] at hget
      split_ifs at hget with hid
      · rw [← Option.some.inj hget, hid]
      · exact h.execution id execution hget
    | _ => exact h.execution

theorem Changes.named (hc : Changes scope c ls c') (hf : c.model.Filed) (h : c.model.Named) : c'.model.Named := by
  induction hc with
  | refl => exact h
  | tail hr hm ih => exact hm.named (Changes.filed hr hf) ih

end

namespace Reducer

variable {strict : Bool} {ls : List Merge} {r : Reducer}

theorem Reached.named (h : Reached strict ls r) : r.model.Named := by
  obtain ⟨ms, h⟩ := h
  exact (run_changes h (start_fresh ms)).2.named (filed_fresh ms) ⟨fun _ _ h => (by cases h), fun _ _ h => (by cases h)⟩

/-- The rate ledger goes by the activity of the read model. -/
theorem Reached.working_iff (h : Reached strict ls r) (run : TaskRun) (nowMs : ℤ) : r.working run nowMs = true ↔
    StatusReadModel.runRateActivityFromModel r.headlessInactivityMs r.model run nowMs = .working :=
  StatusReadModel.runRateWorking_iff h.named

end Reducer

end HerdrTop
