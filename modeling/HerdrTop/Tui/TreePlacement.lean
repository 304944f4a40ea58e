import HerdrTop.Library.References
import HerdrTop.Tui.ExecutionTree

/-!
# Where runs are placed

What placing makes of the visible runs: those with panes are in exactly these, each once; of the others, a run whose
candidates lead up to an end is nested below its candidate, and the rest is unattached. The nested runs are a forest,
and above every visible run there is one that is in a pane or unattached.

## What is proved

* `parentChainHasCycle_spec`: the search for a circle comes to an end and tells whether going up does.
* `placeRuns_spec`: the placement, as described.
-/

namespace HerdrTop.Tui

open Closure Forest Relation

/-! ### Entries -/

section

variable {κ α : Type} [DecidableEq κ]

theorem getD_pushEntry (m : HashMap κ (List α)) (k k' : κ) (a : α) :
    ((pushEntry m k a).get k').getD [] =
      if k' = k then (m.get k').getD [] ++ [a] else (m.get k').getD [] := by
  rw [pushEntry, HashMap.get_insert]
  split_ifs with h
  · rw [h, Option.getD_some]
  · rfl

/-- What was put under a key, in its order. -/
theorem getD_foldl_pushEntry {β : Type} (key : β → Option κ) (value : β → α) (l : List β) (m : HashMap κ (List α))
    (k : κ) :
    ((l.foldl (fun m b => (key b).elim m fun k => pushEntry m k (value b)) m).get k).getD [] =
      (m.get k).getD [] ++ (l.filter fun b => key b = some k).map value := by
  induction l generalizing m with
  | nil => simp
  | cons b l ih =>
    rw [List.foldl_cons, ih]
    cases hkey : key b with
    | none => simp [hkey]
    | some k' =>
      rw [Option.elim_some, getD_pushEntry]
      by_cases h : k = k'
      · subst h
        simp [hkey]
      · simp [hkey, h, Ne.symm h]

end

/-! ### Going up -/

/-- Going up over the links comes to an end. -/
inductive Ends (links : HashMap RunId RunId) : RunId → Prop
  /-- There is no link. -/
  | stop {run : RunId} : links.get run = none → Ends links run
  /-- It does from the next one. -/
  | step {run parent : RunId} : links.get run = some parent → Ends links parent → Ends links run

theorem Ends.not_cycle {links : HashMap RunId RunId} {run : RunId} (h : Ends links run) :
    ¬TransGen (Ascends links.get) run run := by
  induction h with
  | stop hnone =>
    intro hcycle
    obtain ⟨next, hnext, -⟩ := TransGen.head'_iff.mp hcycle
    exact absurd (hnone.symm.trans hnext) (Option.some_ne_none next).symm
  | step hparent _ ih =>
    intro hcycle
    obtain ⟨next, hnext, hback⟩ := TransGen.head'_iff.mp hcycle
    obtain rfl := Option.some.inj (hparent.symm.trans hnext)
    exact ih (TransGen.tail' hback hnext)

theorem Ends.of_link {links : HashMap RunId RunId} {run parent : RunId} (h : Ends links run)
    (hparent : links.get run = some parent) : Ends links parent := by
  cases h with
  | stop hnone => exact absurd (hnone.symm.trans hparent) (Option.some_ne_none parent).symm
  | step hparent' hends =>
    obtain rfl := Option.some.inj (hparent'.symm.trans hparent)
    exact hends

/-- The search comes to an end, with whether going up does. -/
theorem parentChainHasCycle_spec {links : HashMap RunId RunId} {fuel : ℕ} {seen : HashSet RunId} {current : RunId}
    (hseen : ∀ run ∈ seen.keys, TransGen (Ascends links.get) run current) (hfuel : missing links.keys seen < fuel) :
    ∃ cycle, parentChainHasCycle links fuel seen current = some cycle ∧ (cycle = false ↔ Ends links current) := by
  induction fuel generalizing seen current with
  | zero => omega
  | succ fuel ih =>
    rw [parentChainHasCycle]
    by_cases hcurrent : current ∈ seen.keys
    · rw [if_pos (HashSet.contains_iff_mem_keys.mpr hcurrent)]
      exact ⟨true, rfl, iff_of_false nofun fun hends => hends.not_cycle (hseen current hcurrent)⟩
    · rw [if_neg (mt HashSet.contains_iff_mem_keys.mp hcurrent)]
      cases hparent : links.get current with
      | none => exact ⟨false, rfl, iff_of_true rfl (.stop hparent)⟩
      | some parent =>
        have hlink : Ascends links.get current parent := hparent
        have hless := missing_insert_lt (HashMap.mem_keys.mpr ⟨parent, hparent⟩) hcurrent
        have hseen' : ∀ run ∈ (HashSet.insert seen current).keys, TransGen (Ascends links.get) run parent := by
          intro run hrun
          rcases HashSet.mem_keys_insert.mp hrun with rfl | hrun
          · exact .single hlink
          · exact (hseen run hrun).tail hlink
        obtain ⟨cycle, hcycle, hends⟩ := ih hseen' (by omega)
        exact ⟨cycle, hcycle, hends.trans ⟨.step hparent, fun h => h.of_link hparent⟩⟩

/-- The run below which an unplaced run is shown. -/
def nestedParent (candidateParents : HashMap RunId RunId) (runId : RunId) : Option RunId :=
  (candidateParents.get runId).filter fun _ =>
    parentChainHasCycle candidateParents (candidateParents.keys.length + 1) ∅ runId = some false

variable {links : HashMap RunId RunId}

theorem searched (run : RunId) :
    ∃ cycle, parentChainHasCycle links (links.keys.length + 1) ∅ run = some cycle ∧
      (cycle = false ↔ Ends links run) :=
  parentChainHasCycle_spec (fun _ h => absurd h List.not_mem_nil)
    (Nat.lt_succ_of_le (missing_le_length links.keys ∅))

theorem nestedParent_eq_some {run parent : RunId} :
    nestedParent links run = some parent ↔ links.get run = some parent ∧ Ends links run := by
  obtain ⟨cycle, hcycle, hends⟩ := @searched links run
  rw [nestedParent, Option.filter_eq_some_iff, hcycle, decide_eq_true_iff, Option.some.injEq, hends]

/-- The nested runs are a forest. -/
theorem isForest_nestedParent : IsForest (nestedParent links) := by
  intro run hcycle
  obtain ⟨parent, hparent, -⟩ := TransGen.head'_iff.mp hcycle
  refine (nestedParent_eq_some.mp hparent).2.not_cycle (TransGen.mono (fun a b hab => ?_) _ _ hcycle)
  exact (nestedParent_eq_some.mp hab).1

/-- Above every run there is one that is not nested. -/
theorem exists_root (run : RunId) :
    ∃ root, ReflTransGen (Ascends (nestedParent links)) run root ∧ nestedParent links root = none := by
  by_cases hends : Ends links run
  · induction hends with
    | @stop run hnone =>
      refine ⟨run, .refl, Option.eq_none_iff_forall_ne_some.mpr fun parent hparent => ?_⟩
      exact absurd (hnone.symm.trans (nestedParent_eq_some.mp hparent).1) (Option.some_ne_none parent).symm
    | @step run parent hparent hends ih =>
      obtain ⟨root, hup, hroot⟩ := ih
      exact ⟨root, .head (nestedParent_eq_some.mpr ⟨hparent, .step hparent hends⟩) hup, hroot⟩
  · refine ⟨run, .refl, Option.eq_none_iff_forall_ne_some.mpr fun parent hparent => ?_⟩
    exact hends (nestedParent_eq_some.mp hparent).2

/-! ### The panes of a run -/

section

variable {ctx : RowContext} {run : TaskRun}

theorem mem_renderableExecutions {execution : Execution} :
    execution ∈ renderableExecutions ctx run ↔ execution ∈ ctx.model.executions.values ∧
      execution.taskRunId = run.runId ∧ paneIsRenderable ctx.model execution.paneId = true := by
  rw [renderableExecutions, List.mem_insertionSort, List.mem_filter, List.mem_filter, decide_eq_true_iff, and_assoc]

/-- A run is only in panes that are shown. -/
theorem renderable_of_mem_runPanes {pane : String × Bool} (h : pane ∈ runPanes ctx run) :
    paneIsRenderable ctx.model pane.1 = true := by
  rw [runPanes] at h
  split at h
  · obtain ⟨paneId, hpane, rfl⟩ := List.mem_map.mp h
    obtain ⟨execution, hexecution, rfl⟩ := List.mem_map.mp (Shortlist.keepFirst_sublist.subset hpane)
    exact (mem_renderableExecutions.mp (List.mem_filter.mp hexecution).1).2.2
  · split at h
    · rename_i execution hlast
      obtain rfl := List.mem_singleton.mp h
      exact (mem_renderableExecutions.mp (List.mem_of_getLast? hlast)).2.2
    · exact absurd h List.not_mem_nil

/-- A run is in each pane once. -/
theorem nodup_runPanes : ((runPanes ctx run).map Prod.fst).Nodup := by
  rw [runPanes]
  split
  · rw [List.map_map]
    exact Shortlist.keepFirst_nodup
  · split
    · exact List.nodup_singleton _
    · exact List.nodup_nil

/-- A run that is not shared is in one pane. -/
theorem runPanes_unshared {pane pane' : String × Bool} (h : pane ∈ runPanes ctx run) (h' : pane' ∈ runPanes ctx run)
    (hshared : pane.2 = false) : pane' = pane := by
  rw [runPanes] at h h'
  split at h
  · rename_i hlive
    rw [if_pos hlive] at h'
    obtain ⟨paneId, hpane, rfl⟩ := List.mem_map.mp h
    obtain ⟨paneId', hpane', rfl⟩ := List.mem_map.mp h'
    have hone := of_decide_eq_false hshared
    obtain ⟨only, honly⟩ := List.length_eq_one_iff.mp
      (Nat.le_antisymm (Nat.not_lt.mp hone) (List.length_pos_of_mem hpane))
    rw [honly, List.mem_singleton] at hpane hpane'
    rw [hpane, hpane']
  · rename_i hlive
    rw [if_neg hlive] at h'
    split at h
    · rename_i execution hlast
      rw [hlast] at h'
      rw [List.mem_singleton.mp h, List.mem_singleton.mp h']
    · exact absurd h List.not_mem_nil

/-- A run is shared in all of its panes or in none. -/
theorem runPanes_shared {pane pane' : String × Bool} (h : pane ∈ runPanes ctx run) (h' : pane' ∈ runPanes ctx run) :
    pane.2 = pane'.2 := by
  cases hshared : pane.2 with
  | false => rw [runPanes_unshared h h' hshared, hshared]
  | true =>
    cases hshared' : pane'.2 with
    | true => rfl
    | false => rw [runPanes_unshared h' h hshared', hshared'] at hshared; exact hshared.symm

/-- A run is in every pane that is shown and in which it is worked on. -/
theorem mem_runPanes_of_live {execution : Execution} (h : execution ∈ renderableExecutions ctx run)
    (hlive : execution.state.isTerminal = false) : ∃ shared, (execution.paneId, shared) ∈ runPanes ctx run := by
  have hpane : execution.paneId ∈ Shortlist.keepFirst id [] (((renderableExecutions ctx run).filter fun execution =>
      !execution.state.isTerminal).map (·.paneId)) := by
    have hkept := @Shortlist.keepFirst_identity _ _ _ id [] (((renderableExecutions ctx run).filter fun execution =>
      !execution.state.isTerminal).map (·.paneId)) execution.paneId ?_ List.not_mem_nil
    · rwa [List.map_id] at hkept
    · rw [List.map_id]
      exact List.mem_map_of_mem (List.mem_filter.mpr ⟨h, by rw [hlive]; rfl⟩)
  rw [runPanes, if_pos (by rw [List.isEmpty_eq_false_iff.mpr (List.ne_nil_of_mem hpane)]; rfl)]
  exact ⟨_, List.mem_map_of_mem hpane⟩

end

/-! ### Sorting for display -/

/-- Where every run occurs once, sorting for display only changes the order. -/
theorem displayOrder_perm {α : Type} {model : DomainModel} {runId : α → RunId} {runs : List α}
    (h : (runs.map runId).Nodup) : (displayOrder model runId runs).Perm runs := by
  have hsorted : (runs.insertionSort fun a b => displayKey model (runId a) ≤ displayKey model (runId b)).Perm runs :=
    List.perm_insertionSort _ runs
  have hnodup : ((runs.insertionSort fun a b =>
      displayKey model (runId a) ≤ displayKey model (runId b)).map runId).Nodup := (hsorted.map runId).nodup_iff.mpr h
  have hchain : (runs.insertionSort fun a b =>
      displayKey model (runId a) ≤ displayKey model (runId b)).IsChain fun a b => runId a ≠ runId b :=
    (List.pairwise_map.mp hnodup).isChain
  rw [displayOrder, List.destutter_of_isChain _ _ hchain]
  exact hsorted

/-! ### The runs one by one -/

/-- The run is in the model and visible. -/
def IsShown (model : DomainModel) (visibleRuns : HashSet RunId) (run : TaskRun) : Prop :=
  model.taskRun run.runId = some run ∧ visibleRuns.contains run.runId = true

section

variable {model : DomainModel} {visibleRuns : HashSet RunId}

theorem mem_visibleTaskRuns (hkeyed : RunsKeyed model) {run : TaskRun} :
    run ∈ visibleTaskRuns model visibleRuns ↔ IsShown model visibleRuns run := by
  rw [visibleTaskRuns, List.mem_insertionSort, List.mem_filter, HashMap.mem_values, IsShown]
  refine and_congr_left fun _ => ⟨?_, fun h => ⟨_, h⟩⟩
  rintro ⟨runId, hrun⟩
  obtain rfl := hkeyed runId run hrun
  exact hrun

theorem nodup_visibleTaskRuns (hkeyed : RunsKeyed model) :
    ((visibleTaskRuns model visibleRuns).map (·.runId)).Nodup := by
  rw [visibleTaskRuns, ((List.perm_insertionSort _ _).map _).nodup_iff]
  exact (FiledUnder.nodup_names hkeyed).sublist (List.filter_sublist.map _)

end

/-- What a run has in a pane. -/
def entriesIn (ctx : RowContext) (paneId : String) (run : TaskRun) : List RunPlacement :=
  ((runPanes ctx run).filter fun pane => pane.1 = paneId).map fun pane => (run.runId, pane.2)

section

variable {ctx : RowContext} {visibleRuns : HashSet RunId} {placing : Placing} {runs : List TaskRun}

theorem placeRun_paneRuns (run : TaskRun) (paneId : String) :
    ((placeRun ctx visibleRuns placing run).paneRuns.get paneId).getD [] =
      (placing.paneRuns.get paneId).getD [] ++ entriesIn ctx paneId run := by
  rw [entriesIn, placeRun.eq_def]
  split
  · rename_i hnone
    rw [hnone, List.filter_nil, List.map_nil, List.append_nil]
  · have hentries := getD_foldl_pushEntry (fun pane : String × Bool => some pane.1)
      (fun pane => (run.runId, pane.2)) (runPanes ctx run) placing.paneRuns paneId
    simp only [Option.some.injEq] at hentries
    exact hentries

theorem foldl_placeRun_paneRuns (paneId : String) :
    ((runs.foldl (placeRun ctx visibleRuns) placing).paneRuns.get paneId).getD [] =
      (placing.paneRuns.get paneId).getD [] ++ runs.flatMap (entriesIn ctx paneId) := by
  induction runs generalizing placing with
  | nil => rw [List.foldl_nil, List.flatMap_nil, List.append_nil]
  | cons run runs ih => rw [List.foldl_cons, ih, placeRun_paneRuns, List.flatMap_cons, List.append_assoc]

theorem foldl_placeRun_unplaced :
    (runs.foldl (placeRun ctx visibleRuns) placing).unplaced =
      placing.unplaced ++ (runs.filter fun run => runPanes ctx run = []).map (·.runId) := by
  induction runs generalizing placing with
  | nil => rw [List.foldl_nil, List.filter_nil, List.map_nil, List.append_nil]
  | cons run runs ih =>
    rw [List.foldl_cons, ih, placeRun.eq_def]
    split
    · rename_i hnone
      have hkeep : (run :: runs).filter (fun run => decide (runPanes ctx run = [])) = run :: runs.filter _ :=
        List.filter_cons_of_pos (decide_eq_true hnone)
      rw [hkeep, List.map_cons]
      exact (List.append_cons ..).symm
    · rename_i hsome
      have hdrop : (run :: runs).filter (fun run => decide (runPanes ctx run = [])) = runs.filter _ :=
        List.filter_cons_of_neg (by simpa using hsome)
      rw [hdrop]

/-- The run below which a run may be shown that has no pane. -/
def candidateOf (ctx : RowContext) (visibleRuns : HashSet RunId) (run : TaskRun) : Option RunId :=
  if runPanes ctx run = [] then candidateParent ctx visibleRuns run else none

theorem placeRun_candidates (run : TaskRun) (runId : RunId) :
    (placeRun ctx visibleRuns placing run).candidateParents.get runId =
      if runId = run.runId ∧ (candidateOf ctx visibleRuns run).isSome then candidateOf ctx visibleRuns run
      else placing.candidateParents.get runId := by
  rw [candidateOf, placeRun.eq_def]
  split
  · rename_i hnone
    rw [if_pos hnone]
    dsimp only
    cases candidateParent ctx visibleRuns run with
    | none => rw [if_neg fun h => Bool.false_ne_true h.2]
    | some parent =>
      show (placing.candidateParents.insert run.runId parent).get runId = _
      rw [HashMap.get_insert]
      exact if_congr (and_iff_left rfl).symm rfl rfl
  · rename_i hsome
    have hpanes : runPanes ctx run ≠ [] := hsome
    rw [if_neg hpanes, if_neg fun h => Bool.false_ne_true h.2]

/-- The candidates are those of the runs without panes. -/
theorem foldl_placeRun_candidates (hnodup : (runs.map (·.runId)).Nodup)
    (hnew : ∀ run ∈ runs, placing.candidateParents.get run.runId = none) {runId parent : RunId} :
    (runs.foldl (placeRun ctx visibleRuns) placing).candidateParents.get runId = some parent ↔
      placing.candidateParents.get runId = some parent ∨
        ∃ run ∈ runs, run.runId = runId ∧ candidateOf ctx visibleRuns run = some parent := by
  induction runs generalizing placing with
  | nil => simp
  | cons run runs ih =>
    rw [List.map_cons, List.nodup_cons] at hnodup
    have hnew' : ∀ other ∈ runs, (placeRun ctx visibleRuns placing run).candidateParents.get other.runId = none := by
      intro other hother
      rw [placeRun_candidates, if_neg, hnew other (List.mem_cons_of_mem _ hother)]
      rintro ⟨heq, -⟩
      exact hnodup.1 (heq ▸ List.mem_map_of_mem hother)
    rw [List.foldl_cons, ih hnodup.2 hnew', placeRun_candidates, List.exists_mem_cons_iff, ← or_assoc]
    refine or_congr_left ?_
    by_cases heq : runId = run.runId
    · subst heq
      rw [hnew run List.mem_cons_self]
      cases hcandidate : candidateOf ctx visibleRuns run with
      | none => simp
      | some candidate => simp
    · rw [if_neg fun h => heq h.1]
      exact (or_iff_left fun h => heq h.1.symm).symm

end

/-! ### Attaching what has no place -/

section

variable {placed : HashMap RunId (List RunId) × List RunId} {unplaced : List RunId}

/-- A run is put below its parent, or it stays unattached. -/
theorem attachRun_eq (runId : RunId) :
    attachRun links placed runId = some (match nestedParent links runId with
      | some parent => (pushEntry placed.1 parent runId, placed.2)
      | none => (placed.1, placed.2 ++ [runId])) := by
  rw [attachRun, nestedParent]
  cases links.get runId with
  | none => rfl
  | some parent =>
    obtain ⟨cycle, hcycle, -⟩ := @searched links runId
    simp only [hcycle, Option.filter_some]
    cases cycle <;> rfl

theorem foldlM_attachRun :
    unplaced.foldlM (attachRun links) placed = some
      (unplaced.foldl (fun nested runId => (nestedParent links runId).elim nested fun parent =>
        pushEntry nested parent runId) placed.1,
      placed.2 ++ unplaced.filter fun runId => nestedParent links runId = none) := by
  induction unplaced generalizing placed with
  | nil =>
    rw [List.filter_nil, List.append_nil]
    rfl
  | cons runId unplaced ih =>
    rw [List.foldlM_cons, attachRun_eq, List.foldl_cons]
    show unplaced.foldlM (attachRun links) _ = _
    rw [ih]
    cases hparent : nestedParent links runId with
    | none =>
      have hkeep : (runId :: unplaced).filter (fun runId => decide (nestedParent links runId = none)) =
          runId :: unplaced.filter _ := List.filter_cons_of_pos (decide_eq_true hparent)
      rw [hkeep]
      exact congrArg some (Prod.ext rfl (List.append_cons ..).symm)
    | some parent =>
      have hdrop : (runId :: unplaced).filter (fun runId => decide (nestedParent links runId = none)) =
          unplaced.filter _ := List.filter_cons_of_neg (by rw [hparent]; simp)
      rw [hdrop]
      rfl

end

/-! ### The placement -/

/-- The runs are where they belong, with these parents of the nested ones. -/
structure Placed (ctx : RowContext) (visibleRuns : HashSet RunId) (placement : Placement)
    (parent : RunId → Option RunId) : Prop where
  forest : IsForest parent
  mem_pane : ∀ paneId runId shared, (runId, shared) ∈ (placement.paneRuns.get paneId).getD [] ↔
    ∃ run, run.runId = runId ∧ IsShown ctx.model visibleRuns run ∧ (paneId, shared) ∈ runPanes ctx run
  pane_nodup : ∀ paneId, (((placement.paneRuns.get paneId).getD []).map Prod.fst).Nodup
  mem_nested : ∀ above runId, runId ∈ (placement.nestedRuns.get above).getD [] ↔ parent runId = some above
  nested_nodup : ∀ above, ((placement.nestedRuns.get above).getD []).Nodup
  mem_unattached : ∀ runId, runId ∈ placement.unattached ↔
    (∃ run, run.runId = runId ∧ IsShown ctx.model visibleRuns run ∧ runPanes ctx run = []) ∧ parent runId = none
  unattached_nodup : placement.unattached.Nodup
  nested_shown : ∀ runId above, parent runId = some above →
    (∃ run, run.runId = runId ∧ IsShown ctx.model visibleRuns run ∧ runPanes ctx run = []) ∧
      ∃ run, run.runId = above ∧ IsShown ctx.model visibleRuns run
  rooted : ∀ runId, ∃ root, ReflTransGen (Ascends parent) runId root ∧ parent root = none

section

variable {ctx : RowContext} {visibleRuns : HashSet RunId}

/-- A run below which another one may be shown is itself shown. -/
theorem candidateOf_shown (hkeyed : RunsKeyed ctx.model) {run : TaskRun} {above : RunId}
    (h : candidateOf ctx visibleRuns run = some above) :
    runPanes ctx run = [] ∧ ∃ parent, parent.runId = above ∧ IsShown ctx.model visibleRuns parent := by
  rw [candidateOf, Option.ite_none_right_eq_some, candidateParent] at h
  refine ⟨h.1, ?_⟩
  have hcandidate := h.2
  split at hcandidate
  · exact absurd hcandidate.symm (Option.some_ne_none above)
  · rw [Option.filter_eq_some_iff, Option.map_eq_some_iff] at hcandidate
    obtain ⟨⟨parent, hparent, rfl⟩, hvisible⟩ := hcandidate
    rw [dispatchParentRun] at hparent
    have hmem := List.mem_of_head? hparent
    rw [List.mem_insertionSort] at hmem
    obtain ⟨edge, -, hedge⟩ := List.mem_filterMap.mp hmem
    have hname : parent.runId = edge.parentRunId := hkeyed edge.parentRunId parent hedge
    exact ⟨parent, rfl, hname ▸ hedge, hvisible⟩

theorem mem_entriesIn {paneId : String} {run : TaskRun} {runId : RunId} {shared : Bool} :
    (runId, shared) ∈ entriesIn ctx paneId run ↔ run.runId = runId ∧ (paneId, shared) ∈ runPanes ctx run := by
  rw [entriesIn, List.mem_map]
  constructor
  · rintro ⟨pane, hpane, heq⟩
    obtain ⟨rfl, rfl⟩ := Prod.mk.inj heq
    obtain ⟨hmem, hpaneId⟩ := List.mem_filter.mp hpane
    obtain rfl := of_decide_eq_true hpaneId
    exact ⟨rfl, hmem⟩
  · rintro ⟨rfl, hmem⟩
    exact ⟨(paneId, shared), List.mem_filter.mpr ⟨hmem, decide_eq_true rfl⟩, rfl⟩

/-- A run is in a pane once. -/
theorem nodup_entriesIn {paneId : String} {runs : List TaskRun} (h : (runs.map (·.runId)).Nodup) :
    ((runs.flatMap (entriesIn ctx paneId)).map Prod.fst).Nodup := by
  have hone : ∀ run, ((entriesIn ctx paneId run).map Prod.fst).Nodup := by
    intro run
    have hpanes := (@nodup_runPanes ctx run).sublist
      (List.filter_sublist.map Prod.fst : List.Sublist (((runPanes ctx run).filter fun pane => pane.1 = paneId).map _) _)
    have hsame : ((runPanes ctx run).filter fun pane => pane.1 = paneId).map Prod.fst =
        List.replicate ((runPanes ctx run).filter fun pane => pane.1 = paneId).length paneId := by
      refine List.eq_replicate_iff.mpr ⟨List.length_map _, fun paneId' hmem => ?_⟩
      obtain ⟨pane, hpane, rfl⟩ := List.mem_map.mp hmem
      exact of_decide_eq_true (List.mem_filter.mp hpane).2
    rw [hsame, List.nodup_replicate] at hpanes
    have hentries : (entriesIn ctx paneId run).map Prod.fst =
        List.replicate ((runPanes ctx run).filter fun pane => pane.1 = paneId).length run.runId := by
      rw [entriesIn, List.map_map]
      exact List.map_const'
    rw [hentries, List.nodup_replicate]
    exact hpanes
  rw [List.map_flatMap, List.nodup_flatMap]
  refine ⟨fun run _ => hone run, (List.pairwise_map.mp h).imp fun {run other} hne => ?_⟩
  intro runId hrun hother
  obtain ⟨⟨_, shared⟩, hentry, rfl⟩ := List.mem_map.mp hrun
  obtain ⟨⟨_, shared'⟩, hentry', heq⟩ := List.mem_map.mp hother
  exact hne ((mem_entriesIn.mp hentry).1.trans (heq.symm.trans (mem_entriesIn.mp hentry').1.symm))

theorem getD_displayOrder {κ α : Type} [DecidableEq κ] {model : DomainModel} {runId : α → RunId}
    (m : HashMap κ (List α)) (k : κ) :
    ((m.mapValues fun _ runs => displayOrder model runId runs).get k).getD [] =
      displayOrder model runId ((m.get k).getD []) := by
  rw [HashMap.get_mapValues]
  cases m.get k with
  | none => rfl
  | some runs => rfl

/-- Placing comes to its end and puts every run where it belongs. -/
theorem placeRuns_spec (hkeyed : RunsKeyed ctx.model) :
    ∃ placement parent, placeRuns ctx visibleRuns = some placement ∧ Placed ctx visibleRuns placement parent := by
  have hnodup := @nodup_visibleTaskRuns ctx.model visibleRuns hkeyed
  have hshown := @mem_visibleTaskRuns ctx.model visibleRuns hkeyed
  have hpanes := @foldl_placeRun_paneRuns ctx visibleRuns {} (visibleTaskRuns ctx.model visibleRuns)
  have hunplaced := @foldl_placeRun_unplaced ctx visibleRuns {} (visibleTaskRuns ctx.model visibleRuns)
  have hcandidates := @foldl_placeRun_candidates ctx visibleRuns {} (visibleTaskRuns ctx.model visibleRuns) hnodup
    (fun _ _ => rfl)
  simp only [placeRuns, Option.bind_eq_bind, Option.pure_def]
  generalize (visibleTaskRuns ctx.model visibleRuns).foldl (placeRun ctx visibleRuns) {} = placing at *
  simp only [HashMap.get_empty, Option.getD_none, List.nil_append] at hpanes hunplaced
  have hnested : ∀ above, ((placing.unplaced.foldl (fun nested runId =>
        (nestedParent placing.candidateParents runId).elim nested fun parent => pushEntry nested parent runId)
        (∅, ([] : List RunId)).1).get above).getD [] =
      placing.unplaced.filter fun runId => nestedParent placing.candidateParents runId = some above := by
    intro above
    have hentries := getD_foldl_pushEntry (nestedParent placing.candidateParents) (fun runId => runId)
      placing.unplaced (∅, ([] : List RunId)).1 above
    rw [HashMap.get_empty, Option.getD_none, List.nil_append, List.map_id'] at hentries
    exact hentries
  rw [foldlM_attachRun]
  have hids : (((visibleTaskRuns ctx.model visibleRuns).filter fun run => runPanes ctx run = []).map (·.runId)).Nodup :=
    hnodup.sublist (List.filter_sublist.map _)
  have hmem : ∀ runId, runId ∈ ((visibleTaskRuns ctx.model visibleRuns).filter fun run =>
      runPanes ctx run = []).map (·.runId) ↔
      ∃ run, run.runId = runId ∧ IsShown ctx.model visibleRuns run ∧ runPanes ctx run = [] := by
    intro runId
    rw [List.mem_map]
    constructor
    · rintro ⟨run, hrun, rfl⟩
      obtain ⟨hrun, hnone⟩ := List.mem_filter.mp hrun
      exact ⟨run, rfl, hshown.mp hrun, of_decide_eq_true hnone⟩
    · rintro ⟨run, rfl, hrun, hnone⟩
      exact ⟨run, List.mem_filter.mpr ⟨hshown.mpr hrun, decide_eq_true hnone⟩, rfl⟩
  have hparent : ∀ runId above, nestedParent placing.candidateParents runId = some above →
      (∃ run, run.runId = runId ∧ IsShown ctx.model visibleRuns run ∧ runPanes ctx run = []) ∧
        ∃ run, run.runId = above ∧ IsShown ctx.model visibleRuns run := by
    intro runId above h
    rcases hcandidates.mp (nestedParent_eq_some.mp h).1 with hnone | ⟨run, hrun, rfl, hcandidate⟩
    · exact absurd hnone.symm (Option.some_ne_none above)
    · obtain ⟨hnone, habove⟩ := candidateOf_shown hkeyed hcandidate
      exact ⟨⟨run, rfl, hshown.mp hrun, hnone⟩, habove⟩
  have hpaneOrder : ∀ paneId, (displayOrder ctx.model Prod.fst ((placing.paneRuns.get paneId).getD [])).Perm
      ((visibleTaskRuns ctx.model visibleRuns).flatMap (entriesIn ctx paneId)) := by
    intro paneId
    rw [hpanes]
    exact displayOrder_perm (nodup_entriesIn hnodup)
  have hidOrder : ∀ (p : RunId → Bool) (ids : List RunId), ids.Nodup →
      (displayOrder ctx.model id (ids.filter p)).Perm (ids.filter p) := by
    intro p ids hids
    refine displayOrder_perm ?_
    rw [List.map_id]
    exact hids.sublist List.filter_sublist
  refine ⟨_, nestedParent placing.candidateParents, rfl, isForest_nestedParent, ?_, ?_, ?_, ?_, ?_, ?_, hparent, exists_root⟩
  · intro paneId runId shared
    rw [getD_displayOrder, (hpaneOrder paneId).mem_iff, List.mem_flatMap]
    constructor
    · rintro ⟨run, hrun, hentry⟩
      obtain ⟨rfl, hpane⟩ := mem_entriesIn.mp hentry
      exact ⟨run, rfl, hshown.mp hrun, hpane⟩
    · rintro ⟨run, rfl, hrun, hpane⟩
      exact ⟨run, hshown.mpr hrun, mem_entriesIn.mpr ⟨rfl, hpane⟩⟩
  · intro paneId
    rw [getD_displayOrder, ((hpaneOrder paneId).map Prod.fst).nodup_iff]
    exact nodup_entriesIn hnodup
  · intro above runId
    rw [getD_displayOrder, hnested, hunplaced, (hidOrder _ _ hids).mem_iff, List.mem_filter, hmem, decide_eq_true_iff]
    exact and_iff_right_of_imp fun h => (hparent runId above h).1
  · intro above
    rw [getD_displayOrder, hnested, hunplaced, (hidOrder _ _ hids).nodup_iff]
    exact hids.sublist List.filter_sublist
  · intro runId
    show runId ∈ displayOrder ctx.model id ([] ++ placing.unplaced.filter _) ↔ _
    rw [List.nil_append, hunplaced, (hidOrder _ _ hids).mem_iff, List.mem_filter, hmem,
      decide_eq_true_iff]
  · show (displayOrder ctx.model id ([] ++ placing.unplaced.filter _)).Nodup
    rw [List.nil_append, hunplaced, (hidOrder _ _ hids).nodup_iff]
    exact hids.sublist List.filter_sublist

end

end HerdrTop.Tui
