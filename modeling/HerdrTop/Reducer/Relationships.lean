import HerdrTop.Reducer.Attendance
import HerdrTop.Reducer.TopologySafety

/-!
# Relationships in every run

A snapshot may create a run that is under way, but starts its execution at once. A sweep ends runs that were
announced and never began.

## What is proved

* `Tx.reconcileSnapshotInner_attended`: a snapshot leaves no run without attendance.
* `Tx.sweepStale_attended`: a sweep leaves none without, where it ends no run that was announced and never began.
* `Reducer.relationshipOnly_queued`: in a run of the reducer whose steps leave no run without attendance, runs that
  are known from relationships alone are queued.
* `Reducer.relationshipOnly_ended`: after a sweep, they need not be.
-/

namespace HerdrTop

/-! ### Executions end -/

namespace DomainModel

/-- Executions keep their owners and no other begins; runs without one are as they were. -/
structure OnlyEnds (m m' : DomainModel) : Prop where
  owners : ∀ name, (m'.executions.get name).map (·.taskRunId) = (m.executions.get name).map (·.taskRunId)
  rows : ∀ id, ¬m.Executes id → m'.taskRuns.get id = m.taskRuns.get id

variable {m m' m'' : DomainModel}

theorem executes_iff {id : RunId} :
    m.Executes id ↔ ∃ name, (m.executions.get name).map (·.taskRunId) = some id := by
  simp only [Executes, Option.map_eq_some_iff]

/-- A run executes if it has an execution. -/
theorem hasExecution_iff {id : RunId} : m.hasExecution id = true ↔ m.Executes id := by
  rw [hasExecution, List.any_eq_true]
  constructor
  · rintro ⟨e, he, howner⟩
    obtain ⟨name, hname⟩ := HashMap.mem_values.mp he
    exact ⟨name, e, hname, of_decide_eq_true howner⟩
  · rintro ⟨name, e, hname, howner⟩
    exact ⟨e, HashMap.mem_values.mpr ⟨name, hname⟩, decide_eq_true howner⟩

theorem OnlyEnds.executes (h : m.OnlyEnds m') {id : RunId} : m'.Executes id ↔ m.Executes id := by
  simp only [executes_iff, h.owners]

theorem OnlyEnds.free (h : m.OnlyEnds m') {name : String} (hfree : m.executions.get name = none) :
    m'.executions.get name = none := by
  have howner := h.owners name
  rw [hfree, Option.map_none, Option.map_eq_none_iff] at howner
  exact howner

theorem OnlyEnds.of_same (hexecutions : m'.executions = m.executions) (hruns : m'.taskRuns = m.taskRuns) :
    m.OnlyEnds m' :=
  ⟨fun _ => by rw [hexecutions], fun _ _ => by rw [hruns]⟩

theorem OnlyEnds.refl (m : DomainModel) : m.OnlyEnds m := .of_same rfl rfl

theorem OnlyEnds.trans (h : m.OnlyEnds m') (h' : m'.OnlyEnds m'') : m.OnlyEnds m'' where
  owners name := (h'.owners name).trans (h.owners name)
  rows id hid := (h'.rows id fun hexecutes => hid (h.executes.mp hexecutes)).trans (h.rows id hid)

/-- An execution is stored again for its owner. -/
theorem OnlyEnds.insertExecution {execution : Execution}
    (hheld : (m.executions.get execution.executionId).map (·.taskRunId) = some execution.taskRunId) :
    m.OnlyEnds (m.insertExecution execution) := by
  refine ⟨fun name => ?_, fun _ _ => rfl⟩
  rw [DomainModel.insertExecution, HashMap.get_insert]
  split_ifs with hname
  · rw [hname, hheld]
    rfl
  · rfl

end DomainModel

namespace Tx

section

variable {tx tx' : Tx}

theorem closeRunWithoutLiveExecution_onlyEnds {runId : RunId} (t : ℤ) (hf : tx.model.Filed)
    (hexecutes : tx.model.Executes runId) :
    tx.model.OnlyEnds (tx.closeRunWithoutLiveExecution runId t).model := by
  refine ⟨fun name => by rw [closeRunWithoutLiveExecution_executions], fun id hid => ?_⟩
  have hne : id ≠ runId := fun h => hid (h ▸ hexecutes)
  unfold closeRunWithoutLiveExecution
  split
  · rfl
  · split
    · rfl
    · rename_i taskRun hrun
      split
      · rfl
      · simp only [storeRun, Tx.push, withModel, DomainModel.insertTaskRun, touchTaskRun_runId]
        rw [hf.run runId taskRun hrun]
        exact HashMap.get_insert_ne _ _ hne

theorem endExecution_onlyEnds (executionId : String) (t : ℤ) (hf : tx.model.Filed) :
    tx.model.OnlyEnds (tx.endExecution executionId t).model := by
  unfold endExecution
  split
  · exact .refl _
  · rename_i execution hexecution
    have hstored : tx.model.OnlyEnds (tx.model.insertExecution { execution with state := .ended }) := by
      refine .insertExecution ?_
      show (tx.model.executions.get execution.executionId).map _ = _
      rw [hf.named executionId execution hexecution, show tx.model.executions.get executionId = _ from hexecution]
      rfl
    have hw := @insertExecution_writes outdoors tx { execution with state := .ended } t
      (fun hf => hf.execution executionId execution hexecution) fun _ hf => @same_of_found _ hf _ execution hexecution
    exact hstored.trans (closeRunWithoutLiveExecution_onlyEnds t (hw.filed hf) (executes_insertExecution _ _))

/-- A sequence of steps that only end executions. -/
theorem foldl_onlyEnds {α : Type} {f : Tx → α → Tx} (hfiled : ∀ (tx : Tx) a, tx.model.Filed → (f tx a).model.Filed)
    (hstep : ∀ (tx : Tx) a, tx.model.Filed → tx.model.OnlyEnds (f tx a).model) (l : List α) (hf : tx.model.Filed) :
    tx.model.OnlyEnds (l.foldl f tx).model := by
  induction l generalizing tx with
  | nil => exact .refl _
  | cons a l ih => exact (hstep tx a hf).trans (ih (hfiled tx a hf))

theorem endExecutions_onlyEnds (executionIds : List String) (t : ℤ) (hf : tx.model.Filed) :
    tx.model.OnlyEnds (executionIds.foldl (fun tx executionId => tx.endExecution executionId t) tx).model := by
  refine foldl_onlyEnds (fun tx executionId hf => ?_)
    (fun tx executionId hf => endExecution_onlyEnds executionId t hf) executionIds hf
  have hw : tx.Writes outdoors (tx.endExecution executionId t) := endExecution_writes tx executionId t
  exact hw.filed hf

theorem closePane_onlyEnds (paneId : String) (t : ℤ) (hf : tx.model.Filed) :
    tx.model.OnlyEnds (tx.closePane paneId t).model := by
  have hdropped : ∀ tx : Tx, (tx.dropPane paneId).model.taskRuns = tx.model.taskRuns := by
    intro tx
    unfold dropPane
    split_ifs <;> rfl
  exact (endExecutions_onlyEnds _ t hf).trans (.of_same (dropPane_executions _ _) (hdropped _))

theorem clearTopology_onlyEnds (closeMs : String → ℤ) (hf : tx.model.Filed) :
    tx.model.OnlyEnds (tx.clearTopology closeMs).model := by
  have hdrops : ∀ {α : Type} (f : Tx → α → Tx) (_ : ∀ (tx : Tx) a, (f tx a).model.executions =
      tx.model.executions ∧ (f tx a).model.taskRuns = tx.model.taskRuns) (l : List α) (tx : Tx),
      tx.model.OnlyEnds (l.foldl f tx).model := by
    intro α f hsame l tx
    induction l generalizing tx with
    | nil => exact .refl _
    | cons a l ih => exact (DomainModel.OnlyEnds.of_same (hsame tx a).1 (hsame tx a).2).trans (ih _)
  have hpanes := foldl_onlyEnds (f := fun tx paneId => tx.closePane paneId (closeMs paneId))
    (fun tx paneId hf => (closePane_clears paneId _ hf).filed) (fun tx paneId hf => closePane_onlyEnds paneId _ hf)
    (tx.model.panes.values.map (·.paneId)) hf
  refine hpanes.trans ((hdrops dropTab (fun tx tabId => ?_) _ _).trans
    (hdrops dropWorkspace (fun tx workspaceId => ?_) _ _))
  · unfold dropTab
    split_ifs <;> exact ⟨rfl, rfl⟩
  · unfold dropWorkspace
    split_ifs <;> exact ⟨rfl, rfl⟩

theorem topologyOrdinal_onlyEnds {kind : TopologyKind} {id : String} {o : DisplayOrdinal}
    (h : tx.topologyOrdinalOrAllocate kind id = .ok (o, tx')) : tx.model.OnlyEnds tx'.model := by
  unfold topologyOrdinalOrAllocate at h
  split at h
  · cases h
    exact .refl _
  · obtain ⟨⟨o', tx₁⟩, h₁, h₂⟩ := bind_eq_ok.mp h
    obtain ⟨rfl, rfl⟩ := allocateOrdinal_ok h₁
    cases h₂
    exact .of_same rfl rfl

theorem foldlM_onlyEnds {α : Type} {f : Tx → α → Except ReducerFailure Tx}
    (hstep : ∀ (tx tx' : Tx) a, f tx a = .ok tx' → tx.model.OnlyEnds tx'.model) {l : List α}
    (h : l.foldlM f tx = .ok tx') : tx.model.OnlyEnds tx'.model :=
  foldlM_keeps (I := fun state : Tx => tx.model.OnlyEnds state.model)
    (fun a _ state state' hdone hkept => hkept.trans (hstep state state' a hdone)) h (.refl _)

/-- A snapshot's rows replace the others, and executions at most end. -/
theorem replaceTopology_onlyEnds {topology : TopologySnapshot} {closeMs : String → ℤ} (hf : tx.model.Filed)
    (h : tx.replaceTopology topology closeMs = .ok tx') : tx.model.OnlyEnds tx'.model := by
  obtain ⟨tx₁, h₁, h⟩ := bind_eq_ok.mp h
  obtain ⟨tx₂, h₂, h₃⟩ := bind_eq_ok.mp h
  have hretain : tx.model.OnlyEnds (tx.retainTopology topology closeMs).model := by
    obtain ⟨ordinals, hretain, -⟩ := retainTopology_get tx topology closeMs
    rw [hretain]
    exact (clearTopology_onlyEnds closeMs hf).trans (.of_same rfl rfl)
  refine hretain.trans ((foldlM_onlyEnds (fun tx tx' workspace hs => ?_) h₁).trans
    ((foldlM_onlyEnds (fun tx tx' tab hs => ?_) h₂).trans (foldlM_onlyEnds (fun tx tx' pane hs => ?_) h₃)))
  · obtain ⟨⟨o, next⟩, hdrawn, hs⟩ := bind_eq_ok.mp hs
    cases hs
    exact (topologyOrdinal_onlyEnds hdrawn).trans (.of_same rfl rfl)
  · obtain ⟨⟨o, next⟩, hdrawn, hs⟩ := bind_eq_ok.mp hs
    cases hs
    refine (topologyOrdinal_onlyEnds hdrawn).trans (.of_same ?_ ?_)
    · split_ifs <;> rfl
    · split_ifs <;> rfl
  · obtain ⟨⟨o, next⟩, hdrawn, hs⟩ := bind_eq_ok.mp hs
    cases hs
    refine (topologyOrdinal_onlyEnds hdrawn).trans (.of_same ?_ ?_)
    · split_ifs <;> rfl
    · split_ifs <;> rfl

/-- Executions from before a gap end. -/
theorem endPreGapExecutions_onlyEnds (nowMs : ℤ) {executions : List Execution}
    (hheld : ∀ e ∈ executions, (tx.model.executions.get e.executionId).map (·.taskRunId) = some e.taskRunId) :
    tx.model.OnlyEnds (executions.foldl (endPreGapExecution nowMs) tx).model := by
  induction executions generalizing tx with
  | nil => exact .refl _
  | cons e executions ih =>
    have hend : tx.model.OnlyEnds (tx.endPreGapExecution nowMs e).model := by
      unfold endPreGapExecution
      split
      · exact .refl _
      · exact .insertExecution (hheld e List.mem_cons_self)
    refine hend.trans (ih fun later hlater => ?_)
    rw [hend.owners]
    exact hheld later (List.mem_cons_of_mem _ hlater)

/-! ### Snapshots -/

/-- A run that a snapshot shows for the first time is owed an execution. -/
theorem snapshotRun_owes {session : SnapshotSession} {terminalId : String} {fresh runId : RunId} {t : ℤ}
    (ha : tx.model.Attended) (h : tx.snapshotRun session terminalId fresh t = .ok (runId, tx')) :
    tx'.model.executions = tx.model.executions ∧ tx'.model.AttendedBut {runId} := by
  unfold snapshotRun at h
  split at h
  · cases h
    exact ⟨rfl, fun id run hrun hspoken hstate => .inr (ha id run hrun hspoken hstate)⟩
  · obtain ⟨tx₁, h₁, h₂⟩ := bind_eq_ok.mp h
    cases h₂
    unfold insertSnapshotRun at h₁
    obtain ⟨⟨o, tx₂⟩, hdrawn, h₁⟩ := bind_eq_ok.mp h₁
    obtain ⟨rfl, rfl⟩ := allocateOrdinal_ok hdrawn
    simp only [Except.ok.injEq] at h₁
    subst h₁
    have hbefore : tx.model.AttendedBut {fresh} :=
      fun id run hrun hspoken hstate => .inr (ha id run hrun hspoken hstate)
    refine ⟨rfl, DomainModel.AttendedBut.insertTaskRun hbefore fun _ _ => .inl ?_⟩
    rw [stampNewTaskRun_runId]
    exact rfl

/-- What a pane of a snapshot does to executions: none is lost, and one may begin under the name drawn for it. -/
structure Shows (token : RunId) (m m' : DomainModel) : Prop where
  attended : m'.Attended
  executes : ∀ id, m.Executes id → m'.Executes id
  free : ∀ name, name ≠ gapExecutionId token → m.executions.get name = none → m'.executions.get name = none

/-- The run of a pane gets its execution. -/
theorem beginSnapshotExecution_shows {pane : PaneSnapshot} {agent : SnapshotAgent} {runId token : RunId}
    {resolvedOwner : Bool} {nowMs : ℤ} (hf : tx.model.Filed) (hrun : tx.model.HasRun runId)
    (howed : tx.model.AttendedBut {runId}) (hfree : tx.model.executions.get (gapExecutionId token) = none) :
    Shows token tx.model (tx.beginSnapshotExecution pane agent runId token resolvedOwner nowMs).model := by
  obtain ⟨execution, hid, howner, hafter, hsame⟩ :=
    @beginSnapshotExecution_parts (.wide false ⟨false, false⟩ false) tx pane agent runId token resolvedOwner nowMs
  have hcases := snapshotExecutionId_cases hf pane runId token
  have hkept : ∀ old, tx.model.executions.get execution.executionId = some old →
      old.taskRunId = execution.taskRunId := by
    intro old hold
    rw [hid] at hold
    rcases hcases with hnew | ⟨held, hheld, hown⟩
    · rw [hnew, hfree] at hold
      cases hold
    · cases hold.symm.trans hheld
      exact hown.trans howner.symm
  have hstored := @insertExecution_writes (.wide false ⟨false, false⟩ false) tx execution nowMs
    (fun _ => howner ▸ hrun) fun _ _ => hkept
  have hattended : (tx.model.insertExecution execution).Attended :=
    howed.begin (fun id hid => (Set.mem_singleton_iff.mp hid).trans howner.symm) fun old hold => .inl (hkept old hold)
  refine ⟨?_, fun id hexecutes => ?_, fun name hname hnone => ?_⟩
  · exact DomainModel.attendedBut_empty.mp (Mutations.attendedBut (hafter (hstored.filed hf)).1 rfl
      (hstored.filed hf) (DomainModel.attendedBut_empty.mpr hattended))
  · exact Mutations.executes ((hstored.trans hafter) hf).1 rfl hf hexecutes
  · rw [hsame, DomainModel.insertExecution, HashMap.get_insert]
    split_ifs with hown
    · rw [hown, hid] at hname hnone
      obtain ⟨held, hheld, -⟩ := hcases.resolve_left hname
      cases hnone.symm.trans hheld
    · exact hnone

theorem ensureSnapshotAgent_executions {runId token : RunId} {session : SnapshotSession}
    (h : tx.ensureSnapshotAgent runId session token = .ok tx') : tx'.model.executions = tx.model.executions := by
  unfold ensureSnapshotAgent at h
  split at h
  · cases h
    rfl
  · split at h
    · cases h
      rfl
    · obtain ⟨⟨o, tx₁⟩, h₁, h₂⟩ := bind_eq_ok.mp h
      obtain ⟨rfl, rfl⟩ := allocateOrdinal_ok h₁
      cases h₂
      rfl

/-- A pane of a snapshot leaves no run without attendance. -/
theorem reconcilePane_shows {nowMs : ℤ} {entry : PaneSnapshot × PaneDraw} (hf : tx.model.Filed)
    (ha : tx.model.Attended) (habsent : tx.model.taskRuns.get entry.2.run = none)
    (hfree : tx.model.executions.get (gapExecutionId entry.2.token) = none)
    (h : reconcilePane nowMs tx entry = .ok tx') : Shows entry.2.token tx.model tx'.model := by
  unfold reconcilePane at h
  dsimp only at h
  split at h
  · cases h
    exact ⟨ha, fun _ h => h, fun _ _ h => h⟩
  · rename_i agent _
    obtain ⟨⟨runId, tx₁⟩, h₁, h₂⟩ := bind_eq_ok.mp h
    revert h₂
    generalize ((entry.1.session agent).provider.isSome && _ && _) = resolved
    intro h₂
    obtain ⟨hw, hrun⟩ : tx.Writes (.wide false ⟨false, false⟩) tx₁ ∧ _ :=
      snapshotRun_writes rfl hf (Set.mem_univ _) habsent h₁
    obtain ⟨hexecutions, howed⟩ := snapshotRun_owes ha h₁
    have hf₁ := hw.filed hf
    obtain ⟨hattended, hexecutes, hnames⟩ :=
      @beginSnapshotExecution_shows tx₁ entry.1 agent runId entry.2.token resolved nowMs hf₁ hrun howed
        (hexecutions ▸ hfree)
    have hbegin : tx₁.Writes (.wide false ⟨false, false⟩) (tx₁.beginSnapshotExecution entry.1 agent runId
        entry.2.token resolved nowMs) := beginSnapshotExecution_writes hrun fun hb => by cases hb
    have hagent : (tx₁.beginSnapshotExecution entry.1 agent runId entry.2.token resolved nowMs).Writes
        (.wide false ⟨false, false⟩ false) tx' :=
      ensureSnapshotAgent_writes (hbegin.keeps_run hf₁ hrun) (Set.mem_univ _) (fun hs => by cases hs) h₂
    have hf₂ := hbegin.filed hf₁
    refine ⟨DomainModel.attendedBut_empty.mp (Mutations.attendedBut (hagent hf₂).1 rfl hf₂
      (DomainModel.attendedBut_empty.mpr hattended)), fun id hid => ?_, fun name hname hnone => ?_⟩
    · refine Mutations.executes (hagent hf₂).1 rfl hf₂ (hexecutes id ?_)
      rwa [DomainModel.Executes, hexecutions]
    · rw [ensureSnapshotAgent_executions h₂]
      exact hnames name hname (hexecutions ▸ hnone)

/-- The panes are reconciled one after the other, each with an identity and a name that are still free. -/
theorem reconcilePanes_shows {nowMs : ℤ} {entries : List (PaneSnapshot × PaneDraw)} (hf : tx.model.Filed)
    (ha : tx.model.Attended) (habsent : ∀ e ∈ entries, tx.model.taskRuns.get e.2.run = none)
    (hnodup : (entries.map (·.2.run)).Nodup)
    (hfree : ∀ e ∈ entries, tx.model.executions.get (gapExecutionId e.2.token) = none)
    (hnames : (entries.map fun e => gapExecutionId e.2.token).Nodup)
    (h : entries.foldlM (reconcilePane nowMs) tx = .ok tx') :
    tx'.model.Filed ∧ tx'.model.Attended ∧ ∀ id, tx.model.Executes id → tx'.model.Executes id := by
  induction entries generalizing tx with
  | nil =>
    cases h
    exact ⟨hf, ha, fun _ h => h⟩
  | cons entry entries ih =>
    rw [List.foldlM_cons, bind_eq_ok] at h
    obtain ⟨next, h₁, h₂⟩ := h
    simp only [List.map_cons, List.nodup_cons] at hnodup hnames
    have hw : tx.Writes { Scope.wide false ⟨false, false⟩ with runs := {entry.2.run} } next :=
      reconcilePane_writes rfl rfl (Set.mem_univ _) (habsent entry List.mem_cons_self) (fun hs => by cases hs) h₁
    obtain ⟨hattended, hexecutes, hothers⟩ :=
      reconcilePane_shows hf ha (habsent entry List.mem_cons_self) (hfree entry List.mem_cons_self) h₁
    have habsent' : ∀ e ∈ entries, next.model.taskRuns.get e.2.run = none := by
      intro e he
      refine (hw hf).1.keeps_absent hf (fun hid => ?_) (habsent e (List.mem_cons_of_mem _ he))
      exact hnodup.1 (hid ▸ List.mem_map_of_mem he)
    have hfree' : ∀ e ∈ entries, next.model.executions.get (gapExecutionId e.2.token) = none := by
      intro e he
      refine hothers _ (fun hid => hnames.1 ?_) (hfree e (List.mem_cons_of_mem _ he))
      exact List.mem_map.mpr ⟨e, he, hid⟩
    obtain ⟨hfiled, hlast, hkept⟩ := ih (hw.filed hf) hattended habsent' hnodup.2 hfree' hnames.2 h₂
    exact ⟨hfiled, hlast, fun id hid => hkept id (hexecutes id hid)⟩

/-- Runs that had executions are closed. -/
theorem closePreGapRuns_writes (nowMs : ℤ) {runIds : List RunId} (hexecute : ∀ runId ∈ runIds, tx.model.Executes runId) :
    tx.Writes (.wide false ⟨false, false⟩ false) (runIds.foldl (closePreGapRun nowMs) tx) := by
  induction runIds generalizing tx with
  | nil => exact .refl _
  | cons runId runIds ih =>
    intro hf
    have hw : tx.Writes (.wide false ⟨false, false⟩ false) (closePreGapRun nowMs tx runId) :=
      closePreGapRun_writes nowMs tx runId fun _ => hexecute runId List.mem_cons_self
    exact (hw.trans (ih fun later hlater =>
      Mutations.executes (hw hf).1 rfl hf (hexecute later (List.mem_cons_of_mem _ hlater)))) hf

/-- The names that are drawn for the executions of panes are new and distinct. -/
structure FreshNames (m : DomainModel) (panes : List PaneSnapshot) (draws : ℕ → PaneDraw) : Prop where
  free : ∀ i, DrawsAt panes i → m.executions.get (gapExecutionId (draws i).token) = none
  distinct : ∀ i j, DrawsAt panes i → DrawsAt panes j →
    gapExecutionId (draws i).token = gapExecutionId (draws j).token → i = j

/-- A snapshot leaves no run without attendance. -/
theorem reconcileSnapshotInner_attended {topology : TopologySnapshot} {draws : ℕ → PaneDraw} {nowMs : ℤ}
    {closeMs : String → ℤ} (hf : tx.model.Filed) (ha : tx.model.Attended)
    (hfresh : FreshDraws false tx.model topology.panes draws) (hnames : FreshNames tx.model topology.panes draws)
    (h : tx.reconcileSnapshotInner topology draws nowMs closeMs = .ok tx') : tx'.model.Attended := by
  obtain ⟨tx₁, h₁, h⟩ := bind_eq_ok.mp h
  obtain ⟨tx₂, h₂, h₃⟩ := bind_eq_ok.mp h
  simp only [Except.ok.injEq] at h₃
  subst h₃
  -- up to the panes, executions only end
  have hends : tx.model.OnlyEnds ((tx.model.executions.values.insertionSort
      fun left right => left.executionId ≤ right.executionId).foldl (endPreGapExecution nowMs) tx).model := by
    refine endPreGapExecutions_onlyEnds nowMs fun e he => ?_
    rw [List.mem_insertionSort, HashMap.mem_values] at he
    obtain ⟨name, hname⟩ := he
    rw [hf.named name e hname, hname]
    rfl
  have hend : tx.Writes { opens := true, closes := true, strict := true, runs := ∅, agents := ∅, bare := false } _ :=
    endPreGap_writes tx nowMs
  have hpre := (hend.trans (replaceTopology_writes rfl rfl h₁)).trans
    (replacePaneAgentStatuses_writes tx₁ topology.panes rfl)
  have honly : tx.model.OnlyEnds (tx₁.replacePaneAgentStatuses topology.panes).model :=
    (hends.trans (replaceTopology_onlyEnds (hend.filed hf) h₁)).trans (.of_same rfl rfl)
  have hattended := DomainModel.attendedBut_empty.mp
    (Mutations.attendedBut (hpre hf).1 rfl hf (DomainModel.attendedBut_empty.mpr ha))
  rw [reconcilePanes_drawn] at h₂
  have habsent : ∀ e ∈ drawnPanes topology.panes draws,
      (tx₁.replacePaneAgentStatuses topology.panes).model.taskRuns.get e.2.run = none := by
    intro e he
    obtain ⟨i, hi, hd⟩ := exists_draw he
    rw [hd]
    exact (hpre hf).1.keeps_absent hf (Set.notMem_empty _) (hfresh.absent i hi)
  have hfree : ∀ e ∈ drawnPanes topology.panes draws,
      (tx₁.replacePaneAgentStatuses topology.panes).model.executions.get (gapExecutionId e.2.token) = none := by
    intro e he
    obtain ⟨i, hi, hd⟩ := exists_draw he
    rw [hd]
    exact honly.free (hnames.free i hi)
  obtain ⟨hf₂, ha₂, hexecutes⟩ := reconcilePanes_shows (hpre.filed hf) hattended habsent
    (nodup_draws PaneDraw.run hfresh.distinct) hfree
    (nodup_draws (fun draw => gapExecutionId draw.token) hnames.distinct) h₂
  -- what follows closes runs that had an execution before the gap
  refine DomainModel.attendedBut_empty.mp (Mutations.attendedBut
    (closePreGapRuns_writes nowMs (fun runId hid => ?_) hf₂).1 rfl hf₂ (DomainModel.attendedBut_empty.mpr ha₂))
  rw [List.mem_dedup, List.mem_insertionSort, List.mem_map] at hid
  obtain ⟨e, he, rfl⟩ := hid
  rw [List.mem_insertionSort, HashMap.mem_values] at he
  obtain ⟨name, hname⟩ := he
  exact hexecutes _ (honly.executes.mpr ⟨name, e, hname, rfl⟩)

/-! ### Sweeps -/

/-- A run that was announced and never began is as it was before executions ended. -/
theorem DispatchOnlyStale.before {m m' : DomainModel} {headlessInactivityMs nowMs : ℤ} {id : RunId} {run : TaskRun}
    (h : DispatchOnlyStale m' headlessInactivityMs nowMs run) (hf : m'.Filed) (hends : m.OnlyEnds m')
    (hrun : m'.taskRun id = some run) :
    m.taskRun id = some run ∧ DispatchOnlyStale m headlessInactivityMs nowMs run := by
  have hnone : ¬m.Executes run.runId := by
    rw [← hends.executes, ← DomainModel.hasExecution_iff, h.2.1]
    exact Bool.false_ne_true
  refine ⟨?_, h.1, ?_, h.2.2⟩
  · rw [DomainModel.taskRun, ← hends.rows id (hf.run id run hrun ▸ hnone)]
    exact hrun
  · rwa [← Bool.not_eq_true, DomainModel.hasExecution_iff]

/-- A sweep that ends no run that was announced and never began leaves none without attendance, if a Controller
spoke for those that it ends. -/
theorem sweepStale_attended {headlessInactivityMs nowMs : ℤ} (hf : tx.model.Filed) (ha : tx.model.Attended)
    (hspoken : ∀ id run, tx.model.taskRun id = some run → DispatchOnlyStale tx.model headlessInactivityMs nowMs run →
      run.hasControllerTaskStateEvent = true) : (tx.sweepStale headlessInactivityMs nowMs).model.Attended := by
  have hkeeps : ∀ {tx tx' : Tx}, tx.Writes (.wide false ⟨false, false⟩ false) tx' → tx.model.Filed →
      tx.model.Attended → tx'.model.Attended := fun hw hf ha => DomainModel.attendedBut_empty.mp
    (Mutations.attendedBut (hw hf).1 rfl hf (DomainModel.attendedBut_empty.mpr ha))
  unfold sweepStale
  dsimp only
  generalize (tx.model.executions.values.filter _).map _ = executionIds
  have hends := endExecutions_onlyEnds executionIds nowMs hf
  have hended : tx.Writes (.wide false ⟨false, false⟩ false) _ :=
    Writes.foldl (fun tx executionId => endExecution_writes tx executionId nowMs) executionIds tx
  revert hends hended
  generalize executionIds.foldl _ tx = tx₁
  intro hends hended
  have hf₁ := hended.filed hf
  have hclosed : tx₁.Writes (.wide false ⟨false, false⟩ false)
      (tx₁.closeInactiveDispatchOnlyRuns headlessInactivityMs nowMs) := by
    refine closeInactiveDispatchOnlyRuns_writes _ _ _ fun _ id run hrun hstale => ?_
    obtain ⟨hbefore, hstale'⟩ := hstale.before hf₁ hends hrun
    exact hspoken id run hbefore hstale'
  have hattended := hkeeps hclosed hf₁ (hkeeps hended hf ha)
  exact hkeeps (closeInactiveFactTimedRuns_writes _ _ _ fun _ => hattended) (hclosed.filed hf₁) hattended

/-! ### Observations -/

/-- Every event of an observation leaves no run without attendance. -/
def AllAttend : Core → List (NormalizedEvent × RunId) → Prop
  | _, [] => True
  | core, (event, aliasRunId) :: events => Attends core.model (withoutLaneTaskState event) ∧
      ∀ tx, applyInner core event aliasRunId = .ok tx → AllAttend tx.toCore events

theorem applyEvents_attended {core : Core} {events : List (NormalizedEvent × RunId)}
    (hobs : ∀ e ∈ events, Observed false e.1) (hf : core.model.Filed) (ha : core.model.Attended)
    (hattend : AllAttend core events) (h : applyEvents core events = .ok tx') : tx'.model.Attended := by
  induction events generalizing core tx' with
  | nil =>
    cases h
    exact ha
  | cons e events ih =>
    obtain ⟨tx₁, h₁, h⟩ := bind_eq_ok.mp h
    obtain ⟨later, h₂, h⟩ := bind_eq_ok.mp h
    cases h
    have hobs₁ := hobs e List.mem_cons_self
    have hmutates := applyInner_mutations hobs₁ (.all e.1) hf h₁
    have hlater : later.model.Attended := ih (fun e' he => hobs e' (List.mem_cons_of_mem _ he)) (hmutates.filed hf)
      (applyInner_attended hobs₁ hf ha hattend.1 h₁) (hattend.2 tx₁ h₁) h₂
    exact hlater

end

end Tx

namespace Reducer

section

variable {r r' : Reducer} {l ls : List Merge}

/-! ### Actions -/

/-- The action leaves no run without attendance: its events do not, the lane that falls silent does not end a run
that nobody attends, names drawn for executions are new, and a Controller spoke for the runs that a sweep ends
though they never began. -/
def Attends (r : Reducer) : Action → Prop
  | .laneClose key _ _ _ => ¬r.begin.LaneCloseStrands key
  | .providerEvent _ (.laneClose key _ _) _ _ _ _ _ => ¬r.begin.LaneCloseStrands key
  | .snapshot topology draws _ _ _ _ => Tx.FreshNames r.model topology.panes draws
  | .sweep nowMs _ => ∀ id run, r.model.taskRun id = some run →
      Tx.DispatchOnlyStale r.model r.headlessInactivityMs nowMs run → run.hasControllerTaskStateEvent = true
  | action => Tx.AllAttend (r.observed action).1 (r.observed action).2

/-- One admissible action that leaves no run without attendance, with its merges. -/
def AttendingStep (r : Reducer) (l : List Merge) (r' : Reducer) : Prop :=
  ∃ action, Admissible false r action ∧ r.Attends action ∧ r.perform action = some (r', l)

/-- The events of an observation leave no run without attendance. -/
theorem applyObservationInner_attended {events : List (NormalizedEvent × RunId)}
    {observation : Option PaneAgentStatusObservation} {nowMs : ℤ} (hf : r.model.Filed) (ha : r.model.Attended)
    (hobs : ∀ e ∈ events, Tx.Observed false e.1) (hattend : Tx.AllAttend (r.noted observation).toCore events) :
    (r.applyObservationInner events observation nowMs).1.model.Attended := by
  have hnoted : Changes (.wide false ⟨true, true⟩ false) r.toCore [] (r.noted observation).toCore :=
    noted_changes (.inr rfl)
  rcases r.applyObservationInner_cases events observation nowMs with ⟨hcore, -⟩ | ⟨tx, happ, hcore, -⟩
  · show (r.applyObservationInner events observation nowMs).1.toCore.model.Attended
    rw [hcore]
    exact ha
  · have hfiled : tx.model.Filed :=
      (Tx.applyEvents_mutations hobs (fun e _ => .all e.1) (hnoted.filed hf) happ).filed (hnoted.filed hf)
    have hevents := Tx.applyEvents_attended hobs (hnoted.filed hf) (hnoted.attended rfl hf ha) hattend happ
    have hafter : Changes (.wide false ⟨true, true⟩ false) tx.toCore [] _ := Changes.of_unmeasured hcore
    exact hafter.attended rfl hfiled hevents

/-- A snapshot leaves no run without attendance. -/
theorem reconcileSnapshot_attended {topology : TopologySnapshot} {draws : ℕ → PaneDraw} {nowMs : ℤ}
    {closeMs : String → ℤ} {epochMs publishMs : ℤ} (hf : r.model.Filed) (ha : r.model.Attended)
    (hfresh : Tx.FreshDraws false r.model topology.panes draws) (hnames : Tx.FreshNames r.model topology.panes draws) :
    (r.reconcileSnapshot topology draws nowMs closeMs epochMs publishMs).1.model.Attended := by
  cases happ : r.begin.reconcileSnapshotInner topology draws nowMs closeMs with
  | error error =>
    rw [reconcileSnapshot_eq]
    rw [happ]
    exact ha
  | ok tx =>
    have hattended := Tx.reconcileSnapshotInner_attended (show r.begin.model.Filed from hf) ha hfresh hnames happ
    have hw : r.begin.Writes (.wide false ⟨true, true⟩) tx := Tx.reconcileSnapshotInner_writes rfl rfl hfresh happ
    have hafter : Changes (.wide false ⟨true, true⟩ false) tx.toCore []
        (r.reconcileSnapshot topology draws nowMs closeMs epochMs publishMs).1.toCore := by
      rw [reconcileSnapshot_eq]
      rw [happ]
      refine Changes.of_unmeasured ?_
      rw [unmeasured_publish, unmeasured_activateRateEpoch, unmeasured_beginRateEpoch,
        unmeasured_applyPendingTelemetry, unmeasured_applyOperatorSubmission]
      rfl
    exact hafter.attended rfl (hw.filed hf) hattended

/-- A sweep leaves no run without attendance, if a Controller spoke for those that it ends though they never began. -/
theorem sweepStale_attended {nowMs publishMs : ℤ} (hf : r.model.Filed) (ha : r.model.Attended)
    (hspoken : ∀ id run, r.model.taskRun id = some run →
      Tx.DispatchOnlyStale r.model r.headlessInactivityMs nowMs run → run.hasControllerTaskStateEvent = true) :
    (r.sweepStale nowMs publishMs).1.model.Attended := by
  have hattended := Tx.sweepStale_attended (show r.begin.model.Filed from hf) ha hspoken
  have hw : r.begin.Writes (.wide false ⟨true, true⟩) (r.begin.sweepStale r.headlessInactivityMs nowMs) :=
    Tx.sweepStale_writes _ _ _ rfl
  unfold sweepStale
  dsimp only
  revert hattended hw
  generalize r.begin.sweepStale r.headlessInactivityMs nowMs = tx
  intro hattended hw
  split_ifs
  · exact hattended
  · have hafter : Changes (.wide false ⟨true, true⟩ false) tx.toCore []
        ((r.withCore tx.toCore).recomputeDanglingAnnouncementComponents.submit tx.persist publishMs).toCore :=
      Changes.of_unmeasured (by simp [withCore])
    exact hafter.attended rfl (hw.filed hf) hattended

/-- The work of a provider event leaves no run without attendance. -/
theorem work_attended {r₁ : Reducer} {origin : ObservationOrigin} {work : ProviderWork}
    {historyManifest : Option PersistHistoryDrain} {providerAtMs observedAtMs nowMs : ℤ}
    {outcome : RuntimeWriteOutcome} (hcore : r₁.toCore = r.toCore) (hf : r.model.Filed) (ha : r.model.Attended)
    (hadmissible : Admissible false r
      (.providerEvent origin work historyManifest providerAtMs observedAtMs nowMs outcome))
    (hattends : r.Attends (.providerEvent origin work historyManifest providerAtMs observedAtMs nowMs outcome)) :
    (r₁.work nowMs work).1.model.Attended := by
  have hmodel : r₁.model = r.model := congrArg Core.model hcore
  have hf₁ : r₁.model.Filed := hmodel ▸ hf
  have ha₁ : r₁.model.Attended := hmodel ▸ ha
  have hkept : ∀ {ls : List Merge} {r₂ : Reducer},
      Changes (.wide false ⟨true, true⟩ false) r₁.toCore ls r₂.toCore → r₂.model.Attended :=
    fun h => h.attended rfl hf₁ ha₁
  cases work with
  | synthesized event fresh => exact hkept (applyControllerEvent_changes hf₁ fun hs => by cases hs)
  | runLiveness key atMs observedAtMs => exact hkept (touchRunLivenessObserved_changes hf₁)
  | laneClose key atMs observedAtMs =>
    have hbegin : r₁.begin = r.begin := by rw [begin, begin, hcore]
    exact hkept (applyLaneCloseObserved_changes hf₁ fun _ hstrands => hattends (hbegin ▸ hstrands))
  | telemetry key sample => exact hkept (Changes.of_unmeasured (unmeasured_applyTelemetry _ _ _ _))
  | observation events =>
    have hobserved : (r₁.applyObservation events nowMs).1.model.Attended :=
      applyObservationInner_attended hf₁ ha₁ hadmissible (show Tx.AllAttend r₁.toCore events from hcore ▸ hattends)
    have hfiled : (r₁.applyObservation events nowMs).1.model.Filed := by
      have h : Changes (.wide false ⟨true, true⟩) r₁.toCore _ (r₁.applyObservation events nowMs).1.toCore :=
        applyObservationInner_changes hf₁ (.inl rfl) hadmissible fun e _ => .all e.1
      exact h.filed hf₁
    have hafter : Changes (.wide false ⟨true, true⟩ false) (r₁.applyObservation events nowMs).1.toCore []
        (r₁.work nowMs (.observation events)).1.toCore :=
      Changes.of_unmeasured (unmeasured_work_observation r₁ events nowMs)
    exact hafter.attended rfl hfiled hobserved

/-- An action that leaves no run without attendance does so. -/
theorem perform_attended {action : Action} (hf : r.model.Filed) (ha : r.model.Attended)
    (hadmissible : Admissible false r action) (hattends : r.Attends action) (h : r.perform action = some (r', l)) :
    r'.model.Attended := by
  have hkept : ∀ {ls : List Merge} {r₂ : Reducer},
      Changes (.wide false ⟨true, true⟩ false) r.toCore ls r₂.toCore → r₂.model.Attended :=
    fun h => h.attended rfl hf ha
  cases action with
  | observation events nowMs =>
    cases h
    exact applyObservationInner_attended hf ha hadmissible hattends
  | paneObservation events observation nowMs =>
    cases h
    exact applyObservationInner_attended hf ha hadmissible hattends
  | heuristicBinding run sid bookkeepingTimeMs aliasRunId nowMs =>
    cases h
    exact hkept (applyHeuristicBinding_changes hf)
  | controllerEvent event fresh nowMs =>
    cases h
    exact hkept (applyControllerEvent_changes hf fun hs => by cases hs)
  | liveness key atMs observedAtMs nowMs =>
    cases h
    exact hkept (touchRunLivenessObserved_changes hf)
  | laneClose key atMs observedAtMs nowMs =>
    cases h
    exact hkept (applyLaneCloseObserved_changes hf fun _ => hattends)
  | telemetry key sample nowMs =>
    cases h
    exact hkept (Changes.of_unmeasured (unmeasured_applyTelemetry _ _ _ _))
  | providerEvent origin work historyManifest providerAtMs observedAtMs nowMs outcome =>
    obtain ⟨result, hresult, h⟩ := Option.map_eq_some_iff.mp h
    cases h
    obtain ⟨r₁, hcore, ⟨hback, -⟩ | ⟨-, hafter⟩⟩ := applyProviderEvent_cases hresult
    · show result.1.toCore.model.Attended
      rw [hback]
      exact ha
    · have hmodel : r₁.model = r.model := congrArg Core.model hcore
      have hwork : Changes (.wide false ⟨true, true⟩) r₁.toCore _ (r₁.work nowMs work).1.toCore :=
        work_changes (hmodel ▸ hf) (fun hs => by cases hs) fun events he e hmem => by
          subst he
          exact ⟨hadmissible e hmem, .all e.1⟩
      have hfiled := hwork.filed (hmodel ▸ hf)
      exact (hafter hfiled false false ⟨true, true⟩).attended rfl hfiled
        (work_attended hcore hf ha hadmissible hattends)
  | finalization finalization nowMs =>
    cases h
    exact hkept applyHistoryFinalization_changes
  | snapshot topology draws nowMs closeMs epochMs publishMs =>
    cases h
    exact reconcileSnapshot_attended hf ha hadmissible hattends
  | sweep nowMs publishMs =>
    simp only [perform, Option.some.injEq, Prod.mk.injEq] at h
    obtain ⟨rfl, rfl⟩ := h
    exact sweepStale_attended hf ha hattends
  | operator command nowMs publishMs =>
    simp only [perform, Option.some.injEq, Prod.mk.injEq] at h
    obtain ⟨rfl, rfl⟩ := h
    exact hkept (applyOperatorCommand_changes hf)
  | bindingConflict nowMs =>
    cases h
    exact hkept (Changes.of_unmeasured ((unmeasured_publish _ _).trans rfl))
  | identityDisagreement nowMs =>
    cases h
    exact hkept (Changes.of_unmeasured ((unmeasured_publish _ _).trans rfl))
  | replayed event nowMs =>
    cases h
    exact hkept restoreReplayed_changes
  | beginEpoch =>
    cases h
    exact hkept (Changes.of_unmeasured rfl)
  | activateEpoch observedAtMs =>
    cases h
    exact hkept (Changes.of_unmeasured (unmeasured_activateRateEpoch _ _))
  | checkpointRates observedAtMs =>
    cases h
    exact hkept (Changes.of_unmeasured (unmeasured_checkpointRunRates _ _))
  | restoreTotals totals =>
    cases h
    exact ha

theorem AttendingStep.step (h : AttendingStep r l r') : Step false r l r' := by
  obtain ⟨action, hadmissible, -, hdone⟩ := h
  exact ⟨action, hadmissible, hdone⟩

/-- In every state that is reached by steps that leave no run without attendance, runs that are known from
relationships alone are queued. -/
theorem relationshipOnly_queued {headlessInactivityMs : ℤ}
    (h : Runs AttendingStep (fresh headlessInactivityMs) ls r) :
    ∀ run ∈ r.model.taskRuns.values, r.model.relationshipOnly run = true → run.state = .queued := by
  have hheld : r.model.Filed ∧ r.model.Attended := by
    refine h.invariant (I := fun r => r.model.Filed ∧ r.model.Attended) (fun hstep hheld => ?_)
      ⟨filed_fresh _, fun _ _ hrun => by cases hrun⟩
    obtain ⟨hf, ha⟩ := hheld
    obtain ⟨action, hadmissible, hattends, hdone⟩ := hstep
    refine ⟨?_, perform_attended hf ha hadmissible hattends hdone⟩
    exact (Step.changes ⟨action, hadmissible, hdone⟩ hf fun hs => by cases hs).filed hf
  exact fun run hrun honly => hheld.2.queued hheld.1 hrun honly

/-- A parent has dispatched the job; nothing else is known of it. -/
def jobDispatched : Reducer := ((fresh 600000).next (jobEvent "a" (.dispatch "parent"))).1

theorem attending_jobEvent (r : Reducer) (id : String) (kind : ControllerEventKind) :
    AttendingStep r (r.next (jobEvent id kind)).2 (r.next (jobEvent id kind)).1 :=
  ⟨jobEvent id kind, trivial, trivial, rfl⟩

/-- The parent is known from relationships alone, and queued. -/
theorem relationshipOnly_queued_jobDispatched :
    (∃ run ∈ jobDispatched.model.taskRuns.values, jobDispatched.model.relationshipOnly run = true) ∧
      ∀ run ∈ jobDispatched.model.taskRuns.values, jobDispatched.model.relationshipOnly run = true →
        run.state = .queued :=
  ⟨by decide, relationshipOnly_queued (.one (attending_jobEvent (fresh 600000) "a" (.dispatch "parent")))⟩

/-- After a sweep ten minutes later the parent has ended, though nobody said that it began. -/
theorem relationshipOnly_ended : ∃ ls r run, Runs (Step false) (fresh 600000) ls r ∧
    r.model.taskRuns.get ⟨2⟩ = some run ∧ r.model.relationshipOnly run = true ∧ run.state = .endedUnknown := by
  have hdispatched : Runs (Step false) (fresh 600000) _ jobDispatched := .one (step_jobEvent _ _ _)
  have hswept : Step false jobDispatched (jobDispatched.next (.sweep 600001 600001)).2
      (jobDispatched.next (.sweep 600001 600001)).1 := step_next trivial rfl
  have hended : ((jobDispatched.next (.sweep 600001 600001)).1.model.taskRuns.get ⟨2⟩).any (fun run =>
      (jobDispatched.next (.sweep 600001 600001)).1.model.relationshipOnly run &&
        decide (run.state = .endedUnknown)) = true := by decide
  obtain ⟨run, hrun, hrest⟩ := (Option.any_eq_true _ _).mp hended
  rw [Bool.and_eq_true, decide_eq_true_eq] at hrest
  exact ⟨_, _, run, hdispatched.trans (.one hswept), hrun, hrest⟩

end

end Reducer

end HerdrTop
