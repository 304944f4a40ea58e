import HerdrTop.Reducer.TopologySnapshots

/-!
# The topology in every run

A run may take events of the topology in any order and with unknown identities, and snapshots whose rows
belong to rows of the snapshot.

## What is proved

* `Tx.applyTopologyClosure_clears`: closing leaves no live execution on a pane that it removes.
* `Reducer.topology_intact`: in every state that is reached, tabs belong to workspaces, panes to tabs,
  agent statuses to panes and ordinals to rows; closing leaves no live execution on a pane that it
  removes; panes are in the workspaces they name after a snapshot, until an event parts one from it.
* `Reducer.pane_parted`: a pane may name a workspace that its tab is not in.
-/

namespace HerdrTop

/-- An execution goes on in the pane. -/
def DomainModel.LiveOn (m : DomainModel) (paneId : String) : Prop :=
  ∃ name e, m.executions.get name = some e ∧ e.paneId = paneId ∧ e.state.isTerminal = false

/-- A binding gives executions to other runs, and starts none. -/
theorem Applied.live {m m' : DomainModel} {t : ℤ} {l : List Merge} (ha : Applied m t l m')
    {id : String} (h : m'.LiveOn id) : m.LiveOn id := by
  obtain ⟨name, e, he, hid, hlive⟩ := h
  cases ha with
  | unchanged => exact ⟨name, e, he, hid, hlive⟩
  | touched => exact ⟨name, e, he, hid, hlive⟩
  | bound =>
    unfold boundModel at he
    split_ifs at he <;> exact ⟨name, e, he, hid, hlive⟩
  | merged hp =>
    rw [(rows_mergedModel _ _ _ _ _ _).1, HashMap.get_mapValues] at he
    obtain ⟨old, hold, rfl⟩ := Option.map_eq_some_iff.mp he
    refine ⟨name, old, hold, ?_, ?_⟩
    · rw [← hid]
      unfold Execution.repoint
      split_ifs <;> rfl
    · rw [← hlive]
      unfold Execution.repoint
      split_ifs <;> rfl

namespace Tx

section

variable {pending : TopologyKind → String → Prop} {tx tx' tx'' : Tx}

/-! ### Executions end -/

theorem closeRunWithoutLiveExecution_executions (tx : Tx) (runId : RunId) (t : ℤ) :
    (tx.closeRunWithoutLiveExecution runId t).model.executions = tx.model.executions := by
  unfold closeRunWithoutLiveExecution
  split_ifs
  · rfl
  · split
    · rfl
    · split_ifs <;> rfl

/-- An execution that ends is over, and the others are as they were. -/
theorem get_executions_endExecution (hf : tx.model.Filed) (executionId : String) (t : ℤ) (name : String) :
    (tx.endExecution executionId t).model.executions.get name =
      if name = executionId then
        (tx.model.executions.get name).map fun e => { e with state := ExecState.ended }
      else tx.model.executions.get name := by
  unfold endExecution DomainModel.execution
  split
  · rename_i hnone
    split_ifs with hname
    · rw [hname, hnone]
      rfl
    · rfl
  · rename_i execution hexecution
    dsimp only
    rw [closeRunWithoutLiveExecution_executions]
    show (tx.model.executions.insert execution.executionId _).get name = _
    rw [hf.named executionId execution hexecution, HashMap.get_insert]
    split_ifs with hname
    · rw [hname, hexecution, Option.map_some, hf.named executionId execution hexecution]
    · rfl

theorem get_executions_endExecutions (executionIds : List String) (t : ℤ) (hf : tx.model.Filed)
    (name : String) :
    (executionIds.foldl (fun tx executionId => tx.endExecution executionId t) tx).model.executions.get name =
      if name ∈ executionIds then
        (tx.model.executions.get name).map fun e => { e with state := ExecState.ended }
      else tx.model.executions.get name := by
  induction executionIds generalizing tx with
  | nil => rfl
  | cons executionId executionIds ih =>
    have hw : tx.Writes outdoors (tx.endExecution executionId t) := endExecution_writes tx executionId t
    rw [List.foldl_cons, ih (hw.filed hf), get_executions_endExecution hf]
    by_cases hfirst : name = executionId
    · subst hfirst
      rw [if_pos rfl, if_pos List.mem_cons_self]
      cases tx.model.executions.get name <;> simp
    · rw [if_neg hfirst]
      simp only [List.mem_cons, hfirst, false_or]

theorem dropPane_executions (tx : Tx) (paneId : String) :
    (tx.dropPane paneId).model.executions = tx.model.executions := by
  unfold dropPane
  split_ifs <;> rfl

/-- After a pane is closed nothing goes on in it, and nothing goes on that did not before. -/
theorem closePane_live (paneId : String) (t : ℤ) (hf : tx.model.Filed) {id : String}
    (h : (tx.closePane paneId t).model.LiveOn id) : tx.model.LiveOn id ∧ id ≠ paneId := by
  obtain ⟨name, e, he, hid, hlive⟩ := h
  unfold closePane at he
  dsimp only at he
  rw [dropPane_executions, get_executions_endExecutions _ _ hf] at he
  split_ifs at he with hmem
  · obtain ⟨old, -, rfl⟩ := Option.map_eq_some_iff.mp he
    cases hlive
  · refine ⟨⟨name, e, he, hid, hlive⟩, ?_⟩
    rintro rfl
    refine hmem (List.mem_map.mpr ⟨e, List.mem_filter.mpr ⟨HashMap.mem_values.mpr ⟨name, he⟩, ?_⟩,
      hf.named name e he⟩)
    rw [Bool.and_eq_true, hlive]
    exact ⟨decide_eq_true hid, rfl⟩

/-! ### Closing clears panes -/

/-- A transaction ends what goes on in the panes that it removes, and starts nothing. -/
structure Clears (tx tx' : Tx) : Prop where
  /-- The runs and what belongs to them. -/
  filed : tx'.model.Filed
  /-- Nothing goes on that did not before. -/
  live : ∀ id, tx'.model.LiveOn id → tx.model.LiveOn id
  /-- A pane is still there, or nothing goes on in it. -/
  cleared : ∀ id, tx.model.HasRow .pane id → tx'.model.HasRow .pane id ∨ ¬tx'.model.LiveOn id

theorem Clears.refl (hf : tx.model.Filed) : tx.Clears tx := ⟨hf, fun _ h => h, fun _ h => .inl h⟩

theorem Clears.trans (h : tx.Clears tx') (h' : tx'.Clears tx'') : tx.Clears tx'' := by
  refine ⟨h'.filed, fun id hlive => h.live id (h'.live id hlive), fun id hrow => ?_⟩
  rcases h.cleared id hrow with hrow' | hgone
  · exact h'.cleared id hrow'
  · exact .inr fun hlive => hgone (h'.live id hlive)

theorem Clears.foldl {α : Type} {f : Tx → α → Tx} (hstep : ∀ tx : Tx, ∀ a, tx.model.Filed → tx.Clears (f tx a))
    (l : List α) (hf : tx.model.Filed) : tx.Clears (l.foldl f tx) := by
  induction l generalizing tx with
  | nil => exact .refl hf
  | cons a l ih => exact (hstep tx a hf).trans (ih (hstep tx a hf).filed)

/-- Executions and panes stay. -/
theorem Clears.of_same (hf : tx'.model.Filed) (hexecutions : tx'.model.executions = tx.model.executions)
    (hpanes : tx'.model.panes = tx.model.panes) : tx.Clears tx' := by
  refine ⟨hf, fun id hlive => ?_, fun id hrow => .inl ?_⟩
  · unfold DomainModel.LiveOn at hlive ⊢
    rwa [hexecutions] at hlive
  · rw [DomainModel.HasRow] at hrow ⊢
    rwa [hpanes]

theorem closePane_clears (paneId : String) (t : ℤ) (hf : tx.model.Filed) :
    tx.Clears (tx.closePane paneId t) := by
  obtain ⟨hfiled, hdrops⟩ := closePane_drops paneId t hf
  refine ⟨hfiled, fun id hlive => (closePane_live paneId t hf hlive).1, fun id hrow => ?_⟩
  by_cases hid : id = paneId
  · exact .inr fun hlive => (closePane_live paneId t hf hlive).2 hid
  · left
    rw [DomainModel.HasRow.congr hdrops.topology]
    simpa only [DomainModel.HasRow, DomainModel.removePane, DomainModel.removePaneAgentStatus,
      HashMap.get_remove, if_neg hid] using hrow

theorem dropTab_clears (tabId : String) (hf : tx.model.Filed) : tx.Clears (tx.dropTab tabId) := by
  have hw : tx.Writes outdoors (tx.dropTab tabId) := dropTab_writes tx tabId rfl
  refine .of_same (hw.filed hf) ?_ ?_
  · unfold dropTab
    split_ifs <;> rfl
  · unfold dropTab
    split_ifs <;> rfl

theorem dropWorkspace_clears (workspaceId : String) (hf : tx.model.Filed) :
    tx.Clears (tx.dropWorkspace workspaceId) := by
  have hw : tx.Writes outdoors (tx.dropWorkspace workspaceId) := dropWorkspace_writes tx workspaceId rfl
  refine .of_same (hw.filed hf) ?_ ?_
  · unfold dropWorkspace
    split_ifs <;> rfl
  · unfold dropWorkspace
    split_ifs <;> rfl

theorem closeTab_clears (tabId : String) (t : ℤ) (hf : tx.model.Filed) : tx.Clears (tx.closeTab tabId t) := by
  have hpanes := Clears.foldl (fun tx paneId hf => @closePane_clears tx paneId t hf)
    ((tx.model.panes.values.filter fun pane => pane.tabId = tabId).map (·.paneId)) hf
  exact hpanes.trans (dropTab_clears tabId hpanes.filed)

/-- Closing ends what goes on in the panes that it removes, and starts nothing. -/
theorem applyTopologyClosure_clears (entity : TopologyEntityId) (t : ℤ) (hf : tx.model.Filed) :
    tx.Clears (tx.applyTopologyClosure entity t) := by
  cases entity with
  | workspace workspaceId =>
    have htabs := Clears.foldl (fun tx tabId hf => @closeTab_clears tx tabId t hf)
      ((tx.model.tabs.values.filter fun tab => tab.workspaceId = workspaceId).map (·.tabId)) hf
    exact htabs.trans (dropWorkspace_clears workspaceId htabs.filed)
  | tab tabId => exact closeTab_clears tabId t hf
  | pane paneId => exact closePane_clears paneId t hf

/-! ### Events that close rows -/

theorem applyBinding_live {evidence : BindingEvidence} {t : ℤ} {aliasRunId : RunId} (hf : tx.model.Filed)
    (h : tx.applyBinding evidence t aliasRunId = .ok tx') {id : String} (hlive : tx'.model.LiveOn id) :
    tx.model.LiveOn id := by
  unfold applyBinding at h
  split at h
  · rename_i model persist happlied
    cases h
    exact (applyBindingPlanAt_applied hf.run happlied).live hlive
  · cases h

theorem bindSession_live {metadata : EventMetadata} {runId : RunId} {key : RunKey} {aliasRunId : RunId}
    (hf : tx.model.Filed) (h : tx.bindSession metadata runId key aliasRunId = .ok tx') {id : String}
    (hlive : tx'.model.LiveOn id) : tx.model.LiveOn id := by
  unfold bindSession at h
  split at h
  · exact applyBinding_live hf h hlive
  · cases h
    exact hlive

theorem bindTerminal_live {metadata : EventMetadata} {runId : RunId} {aliasRunId : RunId}
    (hf : tx.model.Filed) (h : tx.bindTerminal metadata runId aliasRunId = .ok tx') {id : String}
    (hlive : tx'.model.LiveOn id) : tx.model.LiveOn id := by
  unfold bindTerminal at h
  split at h
  · split_ifs at h
    · exact applyBinding_live hf h hlive
    · cases h
      exact hlive
  · cases h
    exact hlive

/-- The evidence of an event that begins no execution starts nothing. -/
theorem applyIdentityMetadata_live {metadata : EventMetadata} {entity : TopologyEntityId}
    {aliasRunId : RunId} (hf : tx.model.Filed)
    (h : tx.applyIdentityMetadata (.topologyClosure metadata entity) metadata aliasRunId = .ok tx')
    {id : String} (hlive : tx'.model.LiveOn id) : tx.model.LiveOn id := by
  unfold applyIdentityMetadata at h
  split at h
  · cases h
    exact hlive
  · split at h
    · cases h
      exact hlive
    · obtain ⟨tx₁, h₁, h⟩ := bind_eq_ok.mp h
      obtain ⟨tx₂, h₂, h⟩ := bind_eq_ok.mp h
      cases h
      have hsession : tx.Mutates outdoors tx₁ := bindSession_mutates h₁
      obtain ⟨ls, hm, -⟩ := hsession hf
      exact bindSession_live hf h₁ (bindTerminal_live (hm.filed hf) h₂ hlive)

/-- An event that closes a row leaves no live execution on a pane that it removes. -/
theorem applyInner_clears {strict : Bool} {core : Core} {metadata : EventMetadata}
    {entity : TopologyEntityId} {aliasRunId : RunId}
    (hobs : Observed strict (.topologyClosure metadata entity)) (hf : core.model.Filed)
    (h : applyInner core (.topologyClosure metadata entity) aliasRunId = .ok tx') (id : String)
    (hrow : core.model.HasRow .pane id) : tx'.model.HasRow .pane id ∨ ¬tx'.model.LiveOn id := by
  obtain ⟨tx₁, tx₂, hw₁, hbody, -, hm, tx₃, h₃, hexecutions⟩ := applyInner_parts hobs hf h
  obtain ⟨hf₁, htopology₁, -⟩ := ((hw₁ ⟨false, false⟩).mutates).topology hf
  have hclosed : tx₁.applyTopologyClosure entity metadata.receiptTimeMs = tx₂ := Except.ok.inj hbody
  have hclears := @applyTopologyClosure_clears tx₁ entity metadata.receiptTimeMs hf₁
  rw [hclosed] at hclears
  obtain ⟨-, htopology₂, -⟩ := (hm ⟨false, false⟩).topology hclears.filed
  rcases hclears.cleared id ((DomainModel.HasRow.congr htopology₁).mpr hrow) with hleft | hgone
  · exact .inl ((DomainModel.HasRow.congr htopology₂).mpr hleft)
  · refine .inr fun hlive => hgone (applyIdentityMetadata_live hclears.filed h₃ ?_)
    unfold DomainModel.LiveOn at hlive ⊢
    rwa [hexecutions] at hlive

end

end Tx

/-! ### Every state that is reached -/

/-- The rows of the topology belong to rows that exist. -/
structure DomainModel.Intact (m : DomainModel) : Prop where
  /-- A tab belongs to a workspace. -/
  tab : ∀ id tab, m.tabs.get id = some tab → (m.workspaces.get tab.workspaceId).isSome = true
  /-- A pane belongs to a tab. -/
  pane : ∀ id pane, m.panes.get id = some pane → (m.tabs.get pane.tabId).isSome = true
  /-- An agent status belongs to a pane. -/
  status : ∀ paneId status, m.paneAgentStatuses.get paneId = some status →
    (m.panes.get paneId).isSome = true
  /-- An ordinal belongs to a row. -/
  ordinal : ∀ kind id o, m.topologyOrdinal kind id = some o → m.HasRow kind id

theorem Tx.Whole.intact {m : DomainModel} (h : Tx.Whole m) : m.Intact where
  tab := h.tab
  pane := h.pane
  status := h.status
  ordinal kind id o ho := (h.ordinal kind id (by rw [ho]; rfl)).resolve_right fun hfalse => hfalse

/-- The rows of a snapshot belong to rows of the snapshot. -/
def Action.Consistent : Action → Prop
  | .snapshot topology _ _ _ _ _ => topology.Consistent
  | _ => True

namespace Reducer

section

variable {r r' : Reducer} {l ls : List Merge}

/-- One admissible action, with its merges; its snapshot is consistent. -/
def ConsistentStep (r : Reducer) (l : List Merge) (r' : Reducer) : Prop :=
  ∃ action, Admissible false r action ∧ action.Consistent ∧ r.perform action = some (r', l)

/-- What comes with an observation belongs to a pane. -/
theorem observed_whole (action : Action) (h : Tx.Whole r.model) : Tx.Whole (r.observed action).1.model ∧
    (r.model.Aligned → (r.observed action).1.model.Aligned) := by
  cases action with
  | paneObservation events observation nowMs =>
    show Tx.Whole (r.noted (some observation)).model ∧ (_ → (r.noted (some observation)).model.Aligned)
    unfold noted
    rw [Option.filter_some]
    split_ifs with hchanged
    · rw [paneAgentStatusChanged, Bool.and_eq_true] at hchanged
      obtain ⟨⟨h1, h2, h3, h4, h5, h6⟩, h7⟩ := h
      refine ⟨⟨⟨h1, h2, h3, h4, h5, h6.insert hchanged.1⟩, fun kind id ho => ?_⟩, fun haligned => haligned⟩
      rcases h7 kind id ho with hrow | hfalse
      · left
        cases kind <;> exact hrow
      · exact .inr hfalse
    · exact ⟨h, fun haligned => haligned⟩
  | providerEvent origin work =>
    cases work <;> exact ⟨h, fun haligned => haligned⟩
  | _ => exact ⟨h, fun haligned => haligned⟩

/-- The action applies a snapshot. -/
def AppliesSnapshot (r : Reducer) (action : Action) : Prop :=
  ∃ topology draws nowMs closeMs epochMs publishMs tx,
    action = .snapshot topology draws nowMs closeMs epochMs publishMs ∧
      r.begin.reconcileSnapshotInner topology draws nowMs closeMs = .ok tx

/-- No event of the action parts a pane from the workspace it names. -/
def NoneParts (r : Reducer) (action : Action) : Prop :=
  Tx.NoneParts (r.observed action).1 (r.observed action).2

/-- What leaves the topology alone leaves rows with the rows they belong to. -/
theorem whole_after {c c' : Core} (h : Changes (.wide false ⟨false, false⟩) c ls c') (hf : c.model.Filed)
    (hwhole : Tx.Whole c.model) : Tx.Whole c'.model ∧ (c.model.Aligned → c'.model.Aligned) := by
  have htopology := h.topology hf rfl rfl
  refine ⟨hwhole.congr htopology fun kind id ho => ?_, fun haligned => haligned.congr htopology⟩
  have hsame : c'.model.topologyOrdinal kind id = c.model.topologyOrdinal kind id :=
    h.row_eq hf rfl rfl (kind, id)
  rwa [hsame] at ho

/-- After a snapshot that is applied rows belong to rows, and panes are in the workspaces they name. -/
theorem snapshot_whole {topology : TopologySnapshot} {draws : ℕ → PaneDraw} {nowMs : ℤ}
    {closeMs : String → ℤ} {epochMs publishMs : ℤ} {tx : Tx} (hf : r.model.Filed)
    (h : Tx.Whole r.model) (hfresh : Tx.FreshDraws false r.model topology.panes draws)
    (hconsistent : topology.Consistent)
    (happlied : r.begin.reconcileSnapshotInner topology draws nowMs closeMs = .ok tx) :
    Tx.Whole (r.reconcileSnapshot topology draws nowMs closeMs epochMs publishMs).1.model ∧
      (r.reconcileSnapshot topology draws nowMs closeMs epochMs publishMs).1.model.Aligned := by
  have hfresh' : Tx.FreshDraws false r.begin.model topology.panes draws := hfresh
  obtain ⟨hf', hwhole, haligned⟩ := Tx.reconcileSnapshotInner_arranged hconsistent hfresh' hf h happlied
  obtain ⟨hlast, hkept⟩ := whole_after (reconcileSnapshot_after happlied) hf' hwhole
  exact ⟨hlast, hkept haligned⟩

/-- After an action rows belong to rows; panes are in the workspaces they name after a snapshot, and if
they were and the action parts none from it. -/
theorem perform_whole {action : Action} (hf : r.model.Filed) (h : Tx.Whole r.model)
    (hadmissible : Admissible false r action) (hconsistent : action.Consistent)
    (hdone : r.perform action = some (r', l)) : Tx.Whole r'.model ∧
      (r.AppliesSnapshot action ∨ (r.model.Aligned ∧ r.NoneParts action) → r'.model.Aligned) := by
  have hsnapshot : r.AppliesSnapshot action → r'.model.Aligned := by
    rintro ⟨topology, draws, nowMs, closeMs, epochMs, publishMs, tx, rfl, happlied⟩
    cases hdone
    exact (snapshot_whole hf h hadmissible hconsistent happlied).2
  cases perform_rearranges hf (fun hs => by cases hs) hadmissible hdone with
  | indoors changes =>
    obtain ⟨hwhole, hkept⟩ := whole_after changes hf h
    refine ⟨hwhole, ?_⟩
    rintro (happlies | ⟨hbefore, -⟩)
    · exact hsnapshot happlies
    · exact hkept hbefore
  | events observed applied after =>
    obtain ⟨hwhole, haligned⟩ := observed_whole action h
    obtain ⟨hf', hwhole', haligned'⟩ :=
      Tx.applyEvents_arranged observed (observed_filed action hf) hwhole applied
    obtain ⟨hlast, hkept⟩ := whole_after after hf' hwhole'
    refine ⟨hlast, ?_⟩
    rintro (happlies | ⟨hbefore, hnone⟩)
    · exact hsnapshot happlies
    · exact hkept (haligned' (haligned hbefore) hnone)
  | snapshot is applied after =>
    subst is
    cases hdone
    obtain ⟨hwhole, haligned⟩ := snapshot_whole hf h hadmissible hconsistent applied
    exact ⟨hwhole, fun _ => haligned⟩

theorem ConsistentStep.step (h : ConsistentStep r l r') : Step false r l r' := by
  obtain ⟨action, hadmissible, -, hdone⟩ := h
  exact ⟨action, hadmissible, hdone⟩

theorem whole_fresh (headlessInactivityMs : ℤ) : Tx.Whole (fresh headlessInactivityMs).model where
  workspaceId := .empty
  tabId := .empty
  paneId := .empty
  tab := .empty
  pane := .empty
  status := .empty
  ordinal kind id h := by cases h

/-- In every state that is reached with consistent snapshots, tabs belong to workspaces, panes to tabs,
agent statuses to panes and ordinals to rows. From there, whatever was done since, an event that closes a
row leaves no live execution on a pane that it removes; and panes are in the workspaces they name after a
snapshot, and after an action that parts none from it if they were before. -/
theorem topology_intact {headlessInactivityMs : ℤ}
    (h : Runs ConsistentStep (fresh headlessInactivityMs) ls r) : r.model.Intact ∧
      (∀ later (core : Core) metadata entity aliasRunId tx,
        Changes (.wide false ⟨true, true⟩) r.toCore later core →
        Tx.Observed false (.topologyClosure metadata entity) →
        Tx.applyInner core (.topologyClosure metadata entity) aliasRunId = .ok tx →
        ∀ id, core.model.HasRow .pane id → tx.model.HasRow .pane id ∨ ¬tx.model.LiveOn id) ∧
      ∀ action l r', Admissible false r action → action.Consistent → r.perform action = some (r', l) →
        r.AppliesSnapshot action ∨ (r.model.Aligned ∧ r.NoneParts action) → r'.model.Aligned := by
  have hrun : Start false r ∧ Tx.Whole r.model := by
    refine h.invariant (I := fun r => Start false r ∧ Tx.Whole r.model) ?_ ⟨start_fresh _, whole_fresh _⟩
    rintro s l t hstep ⟨hs, hwhole⟩
    refine ⟨(Step.start hstep.step hs).1, ?_⟩
    obtain ⟨action, hadmissible, hconsistent, hdone⟩ := hstep
    exact (perform_whole hs.filed hwhole hadmissible hconsistent hdone).1
  obtain ⟨hstart, hwhole⟩ := hrun
  refine ⟨hwhole.intact, ?_, ?_⟩
  · intro later core metadata entity aliasRunId tx hlater hobs hdone id hrow
    exact Tx.applyInner_clears hobs (hlater.filed hstart.filed) hdone id hrow
  · intro action l r' hadmissible hconsistent hdone hcase
    exact (perform_whole hstart.filed hwhole hadmissible hconsistent hdone).2 hcase

/-- An event that stores a row. -/
def rowSeen (entity : TopologyEntity) : NormalizedEvent × RunId :=
  (.topologyUpsert { eventId := "row", timestampMs := 1, receiptTimeMs := 1, source := "herdr" } .partially
    entity, ⟨0⟩)

/-- A pane in a tab of the first of two workspaces. -/
def paneSeen : List TopologyEntity :=
  [.workspace { workspaceId := "a" }, .workspace { workspaceId := "b" },
    .tab { tabId := "t", workspaceId := "a" },
    .pane { paneId := "p", workspaceId := "a", tabId := "t", terminalId := "x" }]

/-- The tab moves to the second workspace. -/
def tabMoved : List TopologyEntity := [.tab { tabId := "t", workspaceId := "b" }]

theorem step_rowsSeen (r : Reducer) (entities : List TopologyEntity) :
    ConsistentStep r (r.next (.observation (entities.map rowSeen) 1)).2
      (r.next (.observation (entities.map rowSeen) 1)).1 := by
  refine ⟨.observation (entities.map rowSeen) 1, ?_, trivial, rfl⟩
  intro e he
  obtain ⟨entity, -, rfl⟩ := List.mem_map.mp he
  exact ⟨rfl, rfl, Bool.noConfusion, Bool.noConfusion⟩

/-- The pane was seen. -/
def withPane : Reducer := ((fresh 0).next (.observation (paneSeen.map rowSeen) 1)).1

theorem reached_withPane : ∃ ls, Runs ConsistentStep (fresh 0) ls withPane :=
  ⟨_, .one (step_rowsSeen (fresh 0) paneSeen)⟩

/-- Work begins in the pane. -/
def workBegun : Action :=
  .observation
    [(.executionBegin
      { eventId := "work", timestampMs := 2, receiptTimeMs := 2, source := "herdr", taskRunId := some ⟨1⟩ }
      { executionId := "e", paneId := "p", terminalId := "x", taskRunId := ⟨1⟩, state := .working }, ⟨0⟩)] 2

/-- Work goes on in the pane. -/
def withWork : Reducer := (withPane.next workBegun).1

theorem reached_withWork : ∃ ls, Runs ConsistentStep (fresh 0) ls withWork := by
  obtain ⟨ls, hreached⟩ := reached_withPane
  refine ⟨_, hreached.tail ⟨workBegun, fun e he => ?_, trivial, rfl⟩⟩
  rw [List.mem_singleton.mp he]
  exact ⟨rfl, rfl, Bool.noConfusion, Bool.noConfusion⟩

/-- The tab moves, and its pane stays behind. -/
def leftBehind : Reducer := (withWork.next (.observation (tabMoved.map rowSeen) 3)).1

/-- The close of the tab. -/
def tabClosed : NormalizedEvent :=
  .topologyClosure { eventId := "close", timestampMs := 3, receiptTimeMs := 3, source := "herdr" } (.tab "t")

/-- Both workspaces, with the tab and the pane in the second one. -/
def bothMoved : TopologySnapshot where
  workspaces := [{ workspaceId := "a" }, { workspaceId := "b" }]
  tabs := [{ tabId := "t", workspaceId := "b" }]
  panes := [{ paneId := "p", workspaceId := "b", tabId := "t", terminalId := "x" }]

/-- The whole topology is seen. -/
def bothMovedSeen : Action := .snapshot bothMoved (fun _ => ⟨⟨0⟩, ⟨0⟩⟩) 4 (fun _ => 4) 4 4

theorem consistent_bothMoved : bothMoved.Consistent where
  tab := by decide
  pane := by decide
  workspace := by decide

theorem applies_bothMovedSeen : leftBehind.AppliesSnapshot bothMovedSeen := by
  obtain ⟨tx, htx⟩ := Option.isSome_iff_exists.mp
    (show (leftBehind.begin.reconcileSnapshotInner bothMoved (fun _ => ⟨⟨0⟩, ⟨0⟩⟩) 4 fun _ => 4).toOption.isSome =
      true by decide +kernel)
  exact ⟨_, _, _, _, _, _, tx, rfl, toOption_eq_some.mp htx⟩

/-- Work goes on in a pane until its tab is closed. If the tab moves instead, the pane is left behind until a snapshot
shows both. -/
theorem topology_intact_leftBehind :
    (withWork.model.LiveOn "p" ∧ ∃ tx, Tx.applyInner withWork.toCore tabClosed ⟨0⟩ = .ok tx ∧ ¬tx.model.LiveOn "p") ∧
      ¬leftBehind.model.Aligned ∧ (leftBehind.next bothMovedSeen).1.model.Intact ∧
      (leftBehind.next bothMovedSeen).1.model.Aligned := by
  obtain ⟨ls, hreached⟩ := reached_withWork
  obtain ⟨-, hclosed, -⟩ := topology_intact hreached
  have hleft : Runs ConsistentStep (fresh 0) _ leftBehind := hreached.tail (step_rowsSeen withWork tabMoved)
  have hadmissible : Admissible false leftBehind bothMovedSeen := Tx.FreshDraws.of_no_agent (by decide)
  have hseen : leftBehind.perform bothMovedSeen =
      some ((leftBehind.next bothMovedSeen).1, (leftBehind.next bothMovedSeen).2) := rfl
  refine ⟨⟨?_, ?_⟩, fun haligned => ?_, ?_, ?_⟩
  · exact ⟨"e", { executionId := "e", paneId := "p", terminalId := "x", taskRunId := ⟨1⟩, state := .working },
      by decide, rfl, rfl⟩
  · have hgone : (Tx.applyInner withWork.toCore tabClosed ⟨0⟩).toOption.map
        (fun tx => (tx.model.panes.get "p").isSome) = some false := by decide +kernel
    obtain ⟨tx, htx, hpane⟩ := Option.map_eq_some_iff.mp hgone
    have hdone := toOption_eq_some.mp htx
    refine ⟨tx, hdone, (hclosed [] withWork.toCore _ _ _ tx (.refl _)
      ⟨rfl, rfl, Bool.noConfusion, Bool.noConfusion⟩ hdone "p" ?_).resolve_left fun hrow => ?_⟩
    · show (withWork.model.panes.get "p").isSome = true
      decide
    · have hsome : (tx.model.panes.get "p").isSome = true := hrow
      rw [hpane] at hsome
      cases hsome
  · have hsame : "b" = "a" := haligned "p" { paneId := "p", workspaceId := "a", tabId := "t", terminalId := "x" }
      { tabId := "t", workspaceId := "b" } (by decide) (by decide)
    exact absurd hsame (by decide)
  · exact (topology_intact (hleft.tail ⟨_, hadmissible, consistent_bothMoved, hseen⟩)).1
  · exact (topology_intact hleft).2.2 _ _ _ hadmissible consistent_bothMoved hseen (.inl applies_bothMovedSeen)

/-- A pane may name a workspace that its tab is not in: its tab moved. -/
theorem pane_parted : ∃ ls r pane tab, Runs ConsistentStep (fresh 0) ls r ∧
    r.model.panes.get "p" = some pane ∧ r.model.tabs.get pane.tabId = some tab ∧
      tab.workspaceId ≠ pane.workspaceId := by
  obtain ⟨ls, hreached⟩ := reached_withPane
  exact ⟨_, _, { paneId := "p", workspaceId := "a", tabId := "t", terminalId := "x" },
    { tabId := "t", workspaceId := "b" }, hreached.trans (.one (step_rowsSeen withPane tabMoved)),
    by decide, by decide, by decide⟩

end

end Reducer

end HerdrTop
