import HerdrTop.Library.References
import HerdrTop.Reducer.Ordinals

/-!
# The rows of the topology

Tabs belong to workspaces and panes to tabs; agent statuses belong to panes, and ordinals to rows. A row
is stored when the row it belongs to exists, and is removed after everything that belongs to it.

## What is proved

`Tx.applyInner_arranged`: every event keeps that rows belong to rows, and panes in the workspaces they name
unless it parts one from it.
-/

namespace HerdrTop

/-! ### Rows belong to rows -/

/-- The rows of the topology are filed under their identities and belong to rows that exist. -/
structure DomainModel.Placed (m : DomainModel) : Prop where
  /-- A workspace is filed under its own identity. -/
  workspaceId : FiledUnder (·.workspaceId) m.workspaces
  /-- A tab is filed under its own identity. -/
  tabId : FiledUnder (·.tabId) m.tabs
  /-- A pane is filed under its own identity. -/
  paneId : FiledUnder (·.paneId) m.panes
  /-- A tab belongs to a workspace. -/
  tab : Refers (fun _ tab => tab.workspaceId) m.tabs m.workspaces
  /-- A pane belongs to a tab. -/
  pane : Refers (fun _ pane => pane.tabId) m.panes m.tabs
  /-- An agent status belongs to a pane. -/
  status : Refers (fun paneId _ => paneId) m.paneAgentStatuses m.panes

/-- The rows belong to rows, and every ordinal belongs to a row, or to one that is to be stored yet. -/
structure DomainModel.Arranged (pending : TopologyKind → String → Prop) (m : DomainModel) : Prop
    extends m.Placed where
  /-- An ordinal belongs to a row. -/
  ordinal : ∀ kind id, (m.topologyOrdinal kind id).isSome = true → m.HasRow kind id ∨ pending kind id

/-- Every pane belongs to the workspace that its tab belongs to. -/
def DomainModel.Aligned (m : DomainModel) : Prop :=
  ∀ id pane tab, m.panes.get id = some pane → m.tabs.get pane.tabId = some tab →
    tab.workspaceId = pane.workspaceId

/-- The rows of a snapshot belong to rows of the snapshot. -/
structure TopologySnapshot.Consistent (topology : TopologySnapshot) : Prop where
  /-- A tab belongs to a workspace. -/
  tab : ∀ tab ∈ topology.tabs, ∃ workspace ∈ topology.workspaces, workspace.workspaceId = tab.workspaceId
  /-- A pane belongs to a tab. -/
  pane : ∀ pane ∈ topology.panes, ∃ tab ∈ topology.tabs, tab.tabId = pane.tabId
  /-- A pane belongs to the workspace that its tab belongs to. -/
  workspace : ∀ pane ∈ topology.panes, ∀ tab ∈ topology.tabs, tab.tabId = pane.tabId →
    tab.workspaceId = pane.workspaceId

namespace DomainModel

section

variable {pending : TopologyKind → String → Prop} {m m' : DomainModel}

theorem Placed.congr (h : m.Placed) (htopology : m'.topology = m.topology) : m'.Placed := by
  simp only [topology, Prod.mk.injEq] at htopology
  obtain ⟨hworkspaces, htabs, hpanes, hstatuses⟩ := htopology
  obtain ⟨h1, h2, h3, h4, h5, h6⟩ := h
  refine ⟨?_, ?_, ?_, ?_, ?_, ?_⟩
  · rwa [hworkspaces]
  · rwa [htabs]
  · rwa [hpanes]
  · rwa [htabs, hworkspaces]
  · rwa [hpanes, htabs]
  · rwa [hstatuses, hpanes]

theorem Arranged.congr (h : m.Arranged pending) (htopology : m'.topology = m.topology)
    (hordinal : ∀ kind id, (m'.topologyOrdinal kind id).isSome = true →
      (m.topologyOrdinal kind id).isSome = true) : m'.Arranged pending := by
  refine ⟨h.toPlaced.congr htopology, fun kind id ho => ?_⟩
  rw [HasRow.congr htopology]
  exact h.ordinal kind id (hordinal kind id ho)

theorem Aligned.congr (h : m.Aligned) (htopology : m'.topology = m.topology) : m'.Aligned := by
  simp only [topology, Prod.mk.injEq] at htopology
  obtain ⟨-, htabs, hpanes, -⟩ := htopology
  intro id pane tab hpane htab
  rw [hpanes] at hpane
  rw [htabs] at htab
  exact h id pane tab hpane htab

/-- Fewer panes and tabs. -/
theorem Aligned.mono (h : m.Aligned)
    (hpanes : ∀ id pane, m'.panes.get id = some pane → m.panes.get id = some pane)
    (htabs : ∀ id tab, m'.tabs.get id = some tab → m.tabs.get id = some tab) : m'.Aligned :=
  fun id pane tab hpane htab => h id pane tab (hpanes id pane hpane) (htabs _ tab htab)

/-! ### Rows are stored -/

theorem hasRow_insertWorkspace {workspace : Workspace} {kind : TopologyKind} {id : String} :
    (m.insertWorkspace workspace).HasRow kind id ↔
      (kind, id) = (.workspace, workspace.workspaceId) ∨ m.HasRow kind id := by
  cases kind
  · simp only [HasRow, insertWorkspace, HashMap.get_insert]
    grind
  · simp [HasRow, insertWorkspace]
  · simp [HasRow, insertWorkspace]

theorem hasRow_insertTab {tab : Tab} {kind : TopologyKind} {id : String} :
    (m.insertTab tab).HasRow kind id ↔ (kind, id) = (.tab, tab.tabId) ∨ m.HasRow kind id := by
  cases kind
  · simp [HasRow, insertTab]
  · simp only [HasRow, insertTab, HashMap.get_insert]
    grind
  · simp [HasRow, insertTab]

theorem hasRow_insertPane {pane : Pane} {kind : TopologyKind} {id : String} :
    (m.insertPane pane).HasRow kind id ↔ (kind, id) = (.pane, pane.paneId) ∨ m.HasRow kind id := by
  cases kind
  · simp [HasRow, insertPane]
  · simp [HasRow, insertPane]
  · simp only [HasRow, insertPane, HashMap.get_insert]
    grind

theorem Placed.insertWorkspace (h : m.Placed) (workspace : Workspace) :
    (m.insertWorkspace workspace).Placed where
  workspaceId := h.workspaceId.insert workspace
  tabId := h.tabId
  paneId := h.paneId
  tab := h.tab.insert_target _ _
  pane := h.pane
  status := h.status

theorem Placed.insertTab (h : m.Placed) {tab : Tab}
    (workspace : (m.workspaces.get tab.workspaceId).isSome = true) : (m.insertTab tab).Placed where
  workspaceId := h.workspaceId
  tabId := h.tabId.insert tab
  paneId := h.paneId
  tab := h.tab.insert workspace
  pane := h.pane.insert_target _ _
  status := h.status

theorem Placed.insertPane (h : m.Placed) {pane : Pane} (tab : (m.tabs.get pane.tabId).isSome = true) :
    (m.insertPane pane).Placed where
  workspaceId := h.workspaceId
  tabId := h.tabId
  paneId := h.paneId.insert pane
  tab := h.tab
  pane := h.pane.insert tab
  status := h.status.insert_target _ _

/-! ### Rows are removed -/

theorem Placed.removePane (h : m.Placed) (paneId : String) : (m.removePane paneId).Placed where
  workspaceId := h.workspaceId
  tabId := h.tabId
  paneId := h.paneId.remove paneId
  tab := h.tab
  pane := h.pane.remove paneId
  status := by
    refine (h.status.remove paneId).remove_target fun k status hk => ?_
    rintro rfl
    rw [HashMap.get_remove_self] at hk
    cases hk

theorem Placed.removeTab (h : m.Placed) {tabId : String}
    (free : ∀ id pane, m.panes.get id = some pane → pane.tabId ≠ tabId) : (m.removeTab tabId).Placed where
  workspaceId := h.workspaceId
  tabId := h.tabId.remove tabId
  paneId := h.paneId
  tab := h.tab.remove tabId
  pane := h.pane.remove_target free
  status := h.status

theorem Placed.removeWorkspace (h : m.Placed) {workspaceId : String}
    (free : ∀ id tab, m.tabs.get id = some tab → tab.workspaceId ≠ workspaceId) :
    (m.removeWorkspace workspaceId).Placed where
  workspaceId := h.workspaceId.remove workspaceId
  tabId := h.tabId
  paneId := h.paneId
  tab := h.tab.remove_target free
  pane := h.pane
  status := h.status

end

end DomainModel

/-! ### Storing rows -/

namespace Tx

section

variable {pending : TopologyKind → String → Prop} {tx tx' : Tx}

/-- A row is stored: the rows become those of `m`, and only the row gets an ordinal. -/
structure Stores (kind : TopologyKind) (id : String) (tx tx' : Tx) (m : DomainModel) : Prop where
  /-- The rows. -/
  topology : tx'.model.topology = m.topology
  /-- The ordinals. -/
  ordinal : ∀ kind' id', (tx'.model.topologyOrdinal kind' id').isSome = true →
    (kind', id') = (kind, id) ∨ (tx.model.topologyOrdinal kind' id').isSome = true
  /-- The runs and what belongs to them. -/
  filed : tx.model.Filed → tx'.model.Filed

/-- Rows that are stored with their ordinals. -/
theorem Stores.arranged {kind : TopologyKind} {id : String} {m : DomainModel}
    (hs : Stores kind id tx tx' m) (h : tx.model.Arranged pending) (placed : m.Placed)
    (hrow : ∀ kind' id', m.HasRow kind' id' ↔ (kind', id') = (kind, id) ∨ tx.model.HasRow kind' id') :
    tx'.model.Arranged pending := by
  refine ⟨placed.congr hs.topology, fun kind' id' ho => ?_⟩
  rw [DomainModel.HasRow.congr hs.topology, hrow]
  rcases hs.ordinal kind' id' ho with e | ho
  · exact .inl (.inl e)
  · rcases h.ordinal kind' id' ho with hr | hp
    · exact .inl (.inr hr)
    · exact .inr hp

theorem topologyOrdinal_stores {kind : TopologyKind} {id : String} {o : DisplayOrdinal}
    (h : tx.topologyOrdinalOrAllocate kind id = .ok (o, tx')) : Stores kind id tx tx' tx.model := by
  have hw : tx.Writes outdoors tx' := topologyOrdinal_writes rfl h
  unfold topologyOrdinalOrAllocate at h
  split at h
  · cases h
    exact ⟨rfl, fun _ _ ho => .inr ho, fun hf => hf⟩
  · obtain ⟨⟨o', tx₁⟩, h₁, h₂⟩ := bind_eq_ok.mp h
    obtain ⟨rfl, rfl⟩ := allocateOrdinal_ok h₁
    cases h₂
    refine ⟨rfl, fun kind' id' ho => ?_, fun hf => hw.filed hf⟩
    by_cases e : (kind', id') = (kind, id)
    · exact .inl e
    · right
      have hget : (tx.model.setTopologyOrdinal kind id tx.nextOrdinal).topologyOrdinal kind' id' =
          tx.model.topologyOrdinal kind' id' := HashMap.get_insert_ne _ _ e
      rw [← hget]
      exact ho

theorem storeWorkspace_stores {workspace : Workspace} (h : tx.storeWorkspace workspace = .ok tx') :
    Stores .workspace workspace.workspaceId tx tx' (tx.model.insertWorkspace workspace) := by
  have hw : tx.Writes outdoors tx' := storeWorkspace_writes rfl h
  obtain ⟨⟨o, tx₁⟩, h₁, h₂⟩ := bind_eq_ok.mp h
  cases h₂
  obtain ⟨htopology, hordinal, -⟩ := topologyOrdinal_stores h₁
  refine ⟨?_, hordinal, fun hf => hw.filed hf⟩
  simp only [DomainModel.topology, Prod.mk.injEq] at htopology
  simp only [DomainModel.topology, Tx.push, withModel, DomainModel.insertWorkspace, htopology]

theorem storeTab_stores {tab : Tab} {clear : Bool} (h : tx.storeTab tab clear = .ok tx') :
    Stores .tab tab.tabId tx tx' (tx.model.insertTab tab) := by
  have hw : tx.Writes outdoors tx' := storeTab_writes rfl h
  obtain ⟨⟨o, tx₁⟩, h₁, h₂⟩ := bind_eq_ok.mp h
  cases h₂
  obtain ⟨htopology, hordinal, -⟩ := topologyOrdinal_stores h₁
  refine ⟨?_, fun kind id ho => hordinal kind id ?_, fun hf => hw.filed hf⟩
  · simp only [DomainModel.topology, Prod.mk.injEq] at htopology
    split_ifs <;> simp only [DomainModel.topology, Tx.push, withModel, DomainModel.insertTab, htopology]
  · split_ifs at ho <;> exact ho

theorem storePane_stores {pane : Pane} {clear : Bool} (h : tx.storePane pane clear = .ok tx') :
    Stores .pane pane.paneId tx tx' (tx.model.insertPane pane) := by
  have hw : tx.Writes outdoors tx' := storePane_writes rfl h
  obtain ⟨⟨o, tx₁⟩, h₁, h₂⟩ := bind_eq_ok.mp h
  cases h₂
  obtain ⟨htopology, hordinal, -⟩ := topologyOrdinal_stores h₁
  refine ⟨?_, fun kind id ho => hordinal kind id ?_, fun hf => hw.filed hf⟩
  · simp only [DomainModel.topology, Prod.mk.injEq] at htopology
    split_ifs <;> simp only [DomainModel.topology, Tx.push, withModel, DomainModel.insertPane, htopology]
  · split_ifs at ho <;> exact ho

theorem storeWorkspace_arranged {workspace : Workspace} (h : tx.storeWorkspace workspace = .ok tx')
    (ha : tx.model.Arranged pending) : tx'.model.Arranged pending :=
  (storeWorkspace_stores h).arranged ha (ha.insertWorkspace workspace) fun _ _ =>
    DomainModel.hasRow_insertWorkspace

theorem storeTab_arranged {tab : Tab} {clear : Bool} (h : tx.storeTab tab clear = .ok tx')
    (workspace : (tx.model.workspaces.get tab.workspaceId).isSome = true)
    (ha : tx.model.Arranged pending) : tx'.model.Arranged pending :=
  (storeTab_stores h).arranged ha (ha.insertTab workspace) fun _ _ => DomainModel.hasRow_insertTab

theorem storePane_arranged {pane : Pane} {clear : Bool} (h : tx.storePane pane clear = .ok tx')
    (tab : (tx.model.tabs.get pane.tabId).isSome = true)
    (ha : tx.model.Arranged pending) : tx'.model.Arranged pending :=
  (storePane_stores h).arranged ha (ha.insertPane tab) fun _ _ => DomainModel.hasRow_insertPane

/-- An event that stores a row stores it where it belongs, or not at all. -/
theorem applyTopologyUpsert_arranged {authority : TopologyAuthority} {entity : TopologyEntity}
    (h : tx.applyTopologyUpsert authority entity = .ok tx') (ha : tx.model.Arranged pending) :
    tx'.model.Arranged pending := by
  unfold applyTopologyUpsert at h
  split at h
  · exact storeWorkspace_arranged h ha
  · split_ifs at h with hnone
    · cases h
      exact ha
    · exact storeTab_arranged h (by simpa [Option.isSome_iff_ne_none] using hnone) ha
  · split_ifs at h with hnone
    · cases h
      exact ha
    · exact storePane_arranged h (by simpa [Option.isSome_iff_ne_none] using hnone) ha

/-! ### Removing rows -/

/-- A row is removed: the rows become those of `m`, and the row loses its ordinal if it was there. -/
structure Drops (kind : TopologyKind) (id : String) (tx tx' : Tx) (m : DomainModel) : Prop where
  /-- The rows. -/
  topology : tx'.model.topology = m.topology
  /-- The ordinals. -/
  ordinal : ∀ kind' id', (tx'.model.topologyOrdinal kind' id').isSome = true →
    (tx.model.topologyOrdinal kind' id').isSome = true ∧
      ((kind', id') = (kind, id) → ¬tx.model.HasRow kind id)

/-- Rows that are removed with their ordinals. -/
theorem Drops.arranged {kind : TopologyKind} {id : String} {m : DomainModel}
    (hd : Drops kind id tx tx' m) (h : tx.model.Arranged pending) (placed : m.Placed)
    (hrow : ∀ kind' id', tx.model.HasRow kind' id' → (kind', id') = (kind, id) ∨ m.HasRow kind' id') :
    tx'.model.Arranged pending := by
  refine ⟨placed.congr hd.topology, fun kind' id' ho => ?_⟩
  rw [DomainModel.HasRow.congr hd.topology]
  obtain ⟨ho, hgone⟩ := hd.ordinal kind' id' ho
  rcases h.ordinal kind' id' ho with hr | hp
  · rcases hrow kind' id' hr with e | hr'
    · cases e
      exact absurd hr (hgone rfl)
    · exact .inl hr'
  · exact .inr hp

theorem isSome_removeTopologyOrdinal {m : DomainModel} {kind kind' : TopologyKind} {id id' : String}
    (h : ((m.removeTopologyOrdinal kind id).topologyOrdinal kind' id').isSome = true) :
    (m.topologyOrdinal kind' id').isSome = true ∧ (kind', id') ≠ (kind, id) := by
  have hne : (kind', id') ≠ (kind, id) := by
    intro e
    rw [DomainModel.topologyOrdinal, e] at h
    unfold DomainModel.removeTopologyOrdinal at h
    rw [HashMap.get_remove_self] at h
    cases h
  rw [topologyOrdinal_remove hne] at h
  exact ⟨h, hne⟩

theorem dropPane_drops (tx : Tx) (paneId : String) :
    Drops .pane paneId tx (tx.dropPane paneId) (tx.model.removePane paneId) := by
  unfold dropPane
  split_ifs with hrow
  · refine ⟨rfl, fun kind id ho => ?_⟩
    obtain ⟨ho, hne⟩ := @isSome_removeTopologyOrdinal (tx.model.removePane paneId) _ _ _ _ ho
    exact ⟨ho, fun e => absurd e hne⟩
  · exact ⟨rfl, fun kind id ho => ⟨ho, fun _ => hrow⟩⟩

theorem dropTab_drops (tx : Tx) (tabId : String) :
    (tx.dropTab tabId = tx ∧ tx.model.tabs.get tabId = none) ∨
      Drops .tab tabId tx (tx.dropTab tabId) (tx.model.removeTab tabId) := by
  unfold dropTab
  split_ifs with hrow
  · refine .inr ⟨rfl, fun kind id ho => ?_⟩
    obtain ⟨ho, hne⟩ := @isSome_removeTopologyOrdinal (tx.model.removeTab tabId) _ _ _ _ ho
    exact ⟨ho, fun e => absurd e hne⟩
  · exact .inl ⟨rfl, by simpa [Option.isSome_iff_ne_none] using hrow⟩

theorem dropWorkspace_drops (tx : Tx) (workspaceId : String) :
    (tx.dropWorkspace workspaceId = tx ∧ tx.model.workspaces.get workspaceId = none) ∨
      Drops .workspace workspaceId tx (tx.dropWorkspace workspaceId)
        (tx.model.removeWorkspace workspaceId) := by
  unfold dropWorkspace
  split_ifs with hrow
  · refine .inr ⟨rfl, fun kind id ho => ?_⟩
    obtain ⟨ho, hne⟩ := @isSome_removeTopologyOrdinal (tx.model.removeWorkspace workspaceId) _ _ _ _ ho
    exact ⟨ho, fun e => absurd e hne⟩
  · exact .inl ⟨rfl, by simpa [Option.isSome_iff_ne_none] using hrow⟩

/-- What writes that leave the topology alone keep. -/
theorem Mutates.topology {strict : Bool} (h : tx.Mutates (.wide strict ⟨false, false⟩) tx')
    (hf : tx.model.Filed) : tx'.model.Filed ∧ tx'.model.topology = tx.model.topology ∧
      ∀ kind id, tx'.model.topologyOrdinal kind id = tx.model.topologyOrdinal kind id := by
  obtain ⟨ls, hm, -⟩ := h hf
  exact ⟨hm.filed hf, hm.changes.topology hf rfl rfl, fun kind id => hm.changes.row_eq hf rfl rfl (kind, id)⟩

theorem Mutates.arranged {strict : Bool} (h : tx.Mutates (.wide strict ⟨false, false⟩) tx')
    (hf : tx.model.Filed) (ha : tx.model.Arranged pending) : tx'.model.Arranged pending := by
  obtain ⟨-, htopology, hordinal⟩ := h.topology hf
  exact ha.congr htopology fun kind id ho => by rw [← hordinal]; exact ho

/-- The executions of a pane are ended, and it is removed. -/
theorem closePane_drops (paneId : String) (t : ℤ) (hf : tx.model.Filed) :
    (tx.closePane paneId t).model.Filed ∧
      Drops .pane paneId tx (tx.closePane paneId t) (tx.model.removePane paneId) := by
  have hw : tx.Writes outdoors (tx.closePane paneId t) := closePane_writes tx paneId t rfl
  refine ⟨hw.filed hf, ?_⟩
  unfold closePane
  dsimp only
  generalize (tx.model.executions.values.filter _).map _ = executionIds
  have hended : tx.Mutates indoors
      (executionIds.foldl (fun tx executionId => tx.endExecution executionId t) tx) :=
    (Writes.foldl (fun tx id => endExecution_writes tx id t) _ tx).mutates
  obtain ⟨-, htopology, hordinal⟩ := hended.topology hf
  revert htopology hordinal
  generalize executionIds.foldl (fun tx executionId => tx.endExecution executionId t) tx = tx₁
  intro htopology hordinal
  obtain ⟨hdropped, hordinal'⟩ := dropPane_drops tx₁ paneId
  refine ⟨hdropped.trans ?_, fun kind id ho => ?_⟩
  · simp only [DomainModel.topology, Prod.mk.injEq] at htopology
    simp only [DomainModel.topology, DomainModel.removePane, DomainModel.removePaneAgentStatus, htopology]
  · obtain ⟨ho, hgone⟩ := hordinal' kind id ho
    rw [hordinal] at ho
    rw [DomainModel.HasRow.congr htopology] at hgone
    exact ⟨ho, hgone⟩

/-- Panes were closed: nothing else left the topology. -/
structure PanesClosed (pending : TopologyKind → String → Prop) (ids : List String) (tx tx' : Tx) : Prop where
  /-- The runs and what belongs to them. -/
  filed : tx'.model.Filed
  /-- The rows belong to rows. -/
  arranged : tx'.model.Arranged pending
  /-- The workspaces. -/
  workspaces : tx'.model.workspaces = tx.model.workspaces
  /-- The tabs. -/
  tabs : tx'.model.tabs = tx.model.tabs
  /-- The panes that are left. -/
  panes : ∀ id pane, tx'.model.panes.get id = some pane → id ∉ ids ∧ tx.model.panes.get id = some pane

theorem closePane_closed (paneId : String) (t : ℤ) (hf : tx.model.Filed) (ha : tx.model.Arranged pending) :
    PanesClosed pending [paneId] tx (tx.closePane paneId t) := by
  obtain ⟨hfiled, hdrops⟩ := closePane_drops paneId t hf
  have htopology := hdrops.topology
  simp only [DomainModel.topology, Prod.mk.injEq] at htopology
  obtain ⟨hworkspaces, htabs, hpanes, -⟩ := htopology
  refine ⟨hfiled, hdrops.arranged ha (ha.removePane paneId) fun kind id hrow => ?_, hworkspaces, htabs,
    fun id pane hpane => ?_⟩
  · cases kind with
    | pane =>
      simp only [DomainModel.HasRow, DomainModel.removePane, DomainModel.removePaneAgentStatus,
        HashMap.get_remove] at hrow ⊢
      grind
    | workspace => exact .inr hrow
    | tab => exact .inr hrow
  · rw [hpanes] at hpane
    simp only [DomainModel.removePane, DomainModel.removePaneAgentStatus, HashMap.get_remove] at hpane
    split_ifs at hpane with e
    exact ⟨by simpa using e, hpane⟩

theorem closePanes_closed (closeMs : String → ℤ) (ids : List String) (hf : tx.model.Filed)
    (ha : tx.model.Arranged pending) :
    PanesClosed pending ids tx (ids.foldl (fun tx paneId => tx.closePane paneId (closeMs paneId)) tx) := by
  induction ids generalizing tx with
  | nil => exact ⟨hf, ha, rfl, rfl, fun id pane hpane => ⟨by simp, hpane⟩⟩
  | cons paneId ids ih =>
    have hfirst := closePane_closed paneId (closeMs paneId) hf ha
    have hrest := ih hfirst.filed hfirst.arranged
    refine ⟨hrest.filed, hrest.arranged, hrest.workspaces.trans hfirst.workspaces,
      hrest.tabs.trans hfirst.tabs, fun id pane hpane => ?_⟩
    obtain ⟨hnot, hpane⟩ := hrest.panes id pane hpane
    obtain ⟨hne, hpane⟩ := hfirst.panes id pane hpane
    exact ⟨by simpa using ⟨by simpa using hne, hnot⟩, hpane⟩

/-- Tabs were removed after their panes: nothing but panes and tabs left the topology. -/
structure TabsClosed (pending : TopologyKind → String → Prop) (ids : List String) (tx tx' : Tx) : Prop where
  /-- The runs and what belongs to them. -/
  filed : tx'.model.Filed
  /-- The rows belong to rows. -/
  arranged : tx'.model.Arranged pending
  /-- The workspaces. -/
  workspaces : tx'.model.workspaces = tx.model.workspaces
  /-- The tabs that are left. -/
  tabs : ∀ id tab, tx'.model.tabs.get id = some tab → id ∉ ids ∧ tx.model.tabs.get id = some tab
  /-- The panes that are left. -/
  panes : ∀ id pane, tx'.model.panes.get id = some pane → tx.model.panes.get id = some pane

/-- A tab without panes is removed. -/
theorem dropTab_closed (tabId : String) (hf : tx.model.Filed) (ha : tx.model.Arranged pending)
    (free : ∀ id pane, tx.model.panes.get id = some pane → pane.tabId ≠ tabId) :
    TabsClosed pending [tabId] tx (tx.dropTab tabId) := by
  have hw : tx.Writes outdoors (tx.dropTab tabId) := dropTab_writes tx tabId rfl
  have hfiled := hw.filed hf
  rcases dropTab_drops tx tabId with ⟨hsame, hnone⟩ | hdrops
  · rw [hsame]
    refine ⟨hf, ha, rfl, fun id tab htab => ⟨?_, htab⟩, fun _ _ hpane => hpane⟩
    rw [List.mem_singleton]
    rintro rfl
    rw [hnone] at htab
    cases htab
  · have htopology := hdrops.topology
    simp only [DomainModel.topology, Prod.mk.injEq] at htopology
    obtain ⟨hworkspaces, htabs, hpanes, -⟩ := htopology
    refine ⟨hfiled, hdrops.arranged ha (ha.removeTab free) fun kind id hrow => ?_, hworkspaces,
      fun id tab htab => ?_, fun id pane hpane => ?_⟩
    · cases kind with
      | tab =>
        simp only [DomainModel.HasRow, DomainModel.removeTab, HashMap.get_remove] at hrow ⊢
        grind
      | workspace => exact .inr hrow
      | pane => exact .inr hrow
    · rw [htabs] at htab
      simp only [DomainModel.removeTab, HashMap.get_remove] at htab
      split_ifs at htab with e
      exact ⟨by simpa using e, htab⟩
    · rw [hpanes] at hpane
      exact hpane

theorem TabsClosed.cons {tabId : String} {ids : List String} {tx'' : Tx}
    (hfirst : TabsClosed pending [tabId] tx tx') (hrest : TabsClosed pending ids tx' tx'') :
    TabsClosed pending (tabId :: ids) tx tx'' := by
  refine ⟨hrest.filed, hrest.arranged, hrest.workspaces.trans hfirst.workspaces, fun id tab htab => ?_,
    fun id pane hpane => hfirst.panes id pane (hrest.panes id pane hpane)⟩
  obtain ⟨hnot, htab⟩ := hrest.tabs id tab htab
  obtain ⟨hne, htab⟩ := hfirst.tabs id tab htab
  exact ⟨by simpa using ⟨by simpa using hne, hnot⟩, htab⟩

/-- The panes of a tab are closed, and it is removed. -/
theorem closeTab_closed (tabId : String) (t : ℤ) (hf : tx.model.Filed) (ha : tx.model.Arranged pending) :
    TabsClosed pending [tabId] tx (tx.closeTab tabId t) := by
  have hpanes := closePanes_closed (fun _ => t)
    ((tx.model.panes.values.filter fun pane => pane.tabId = tabId).map (·.paneId)) hf ha
  have htab := dropTab_closed tabId hpanes.filed hpanes.arranged fun id pane hpane htab => by
    obtain ⟨hnot, hpane⟩ := hpanes.panes id pane hpane
    refine hnot (List.mem_map.mpr ⟨pane, List.mem_filter.mpr ⟨HashMap.mem_values.mpr ⟨id, hpane⟩, ?_⟩,
      ha.paneId id pane hpane⟩)
    exact decide_eq_true htab
  refine ⟨htab.filed, htab.arranged, htab.workspaces.trans hpanes.workspaces, fun id tab h => ?_,
    fun id pane hpane => (hpanes.panes id pane (htab.panes id pane hpane)).2⟩
  obtain ⟨hne, h⟩ := htab.tabs id tab h
  rw [hpanes.tabs] at h
  exact ⟨hne, h⟩

theorem closeTabs_closed (t : ℤ) (ids : List String) (hf : tx.model.Filed)
    (ha : tx.model.Arranged pending) :
    TabsClosed pending ids tx (ids.foldl (fun tx tabId => tx.closeTab tabId t) tx) := by
  induction ids generalizing tx with
  | nil => exact ⟨hf, ha, rfl, fun id tab htab => ⟨by simp, htab⟩, fun _ _ hpane => hpane⟩
  | cons tabId ids ih =>
    have hfirst := closeTab_closed tabId t hf ha
    exact hfirst.cons (ih hfirst.filed hfirst.arranged)

/-- A workspace without tabs is removed. -/
theorem dropWorkspace_arranged (workspaceId : String) (ha : tx.model.Arranged pending)
    (free : ∀ id tab, tx.model.tabs.get id = some tab → tab.workspaceId ≠ workspaceId) :
    (tx.dropWorkspace workspaceId).model.Arranged pending := by
  rcases dropWorkspace_drops tx workspaceId with ⟨hsame, -⟩ | hdrops
  · rw [hsame]
    exact ha
  · refine hdrops.arranged ha (ha.removeWorkspace free) fun kind id hrow => ?_
    cases kind with
    | workspace =>
      simp only [DomainModel.HasRow, DomainModel.removeWorkspace, HashMap.get_remove] at hrow ⊢
      grind
    | tab => exact .inr hrow
    | pane => exact .inr hrow

/-- A row is removed with everything that belongs to it. -/
theorem applyTopologyClosure_arranged (entity : TopologyEntityId) (t : ℤ) (hf : tx.model.Filed)
    (ha : tx.model.Arranged pending) : (tx.applyTopologyClosure entity t).model.Arranged pending := by
  cases entity with
  | workspace workspaceId =>
    have htabs := closeTabs_closed t
      ((tx.model.tabs.values.filter fun tab => tab.workspaceId = workspaceId).map (·.tabId)) hf ha
    refine dropWorkspace_arranged workspaceId htabs.arranged fun id tab htab hworkspace => ?_
    obtain ⟨hnot, htab⟩ := htabs.tabs id tab htab
    refine hnot (List.mem_map.mpr ⟨tab, List.mem_filter.mpr ⟨HashMap.mem_values.mpr ⟨id, htab⟩, ?_⟩,
      ha.tabId id tab htab⟩)
    exact decide_eq_true hworkspace
  | tab tabId => exact (closeTab_closed tabId t hf ha).arranged
  | pane paneId => exact (closePane_closed paneId t hf ha).arranged

/-! ### Panes in the workspaces they name -/

/-- The event parts a pane from the workspace it names: it stores a tab with such a pane in another
workspace, or a pane that names another workspace than its tab's. -/
def Parts (m : DomainModel) : NormalizedEvent → Prop
  | .topologyUpsert _ _ (.tab tab) => ∃ id pane, m.panes.get id = some pane ∧ pane.tabId = tab.tabId ∧
      pane.workspaceId ≠ tab.workspaceId
  | .topologyUpsert _ _ (.pane pane) => ∃ tab, m.tabs.get pane.tabId = some tab ∧
      tab.workspaceId ≠ pane.workspaceId
  | _ => False

theorem storeTab_aligned {tab : Tab} {clear : Bool} (h : tx.storeTab tab clear = .ok tx')
    (hkeep : ∀ id pane, tx.model.panes.get id = some pane → pane.tabId = tab.tabId →
      pane.workspaceId = tab.workspaceId) (ha : tx.model.Aligned) : tx'.model.Aligned := by
  refine DomainModel.Aligned.congr (fun id pane tab' hpane htab => ?_) (storeTab_stores h).topology
  simp only [DomainModel.insertTab, HashMap.get_insert] at hpane htab
  split_ifs at htab with e
  · cases htab
    exact (hkeep id pane hpane e).symm
  · exact ha id pane tab' hpane htab

theorem storePane_aligned {pane : Pane} {clear : Bool} (h : tx.storePane pane clear = .ok tx')
    (hkeep : ∀ tab, tx.model.tabs.get pane.tabId = some tab → tab.workspaceId = pane.workspaceId)
    (ha : tx.model.Aligned) : tx'.model.Aligned := by
  refine DomainModel.Aligned.congr (fun id pane' tab hpane htab => ?_) (storePane_stores h).topology
  simp only [DomainModel.insertPane, HashMap.get_insert] at hpane htab
  split_ifs at hpane with e
  · cases hpane
    exact hkeep tab htab
  · exact ha id pane' tab hpane htab

theorem applyTopologyUpsert_aligned {metadata : EventMetadata} {authority : TopologyAuthority}
    {entity : TopologyEntity} (h : tx.applyTopologyUpsert authority entity = .ok tx')
    (hkeep : ¬Parts tx.model (.topologyUpsert metadata authority entity)) (ha : tx.model.Aligned) :
    tx'.model.Aligned := by
  unfold applyTopologyUpsert at h
  split at h
  · rename_i workspace
    have hstored : (tx.model.insertWorkspace workspace).Aligned := ha
    exact hstored.congr (storeWorkspace_stores h).topology
  · split_ifs at h
    · cases h
      exact ha
    · refine storeTab_aligned h (fun id pane hpane htab => ?_) ha
      by_contra hne
      exact hkeep ⟨id, pane, hpane, htab, hne⟩
  · split_ifs at h
    · cases h
      exact ha
    · refine storePane_aligned h (fun tab htab => ?_) ha
      by_contra hne
      exact hkeep ⟨tab, htab, hne⟩

theorem applyTopologyClosure_aligned (entity : TopologyEntityId) (t : ℤ) (hf : tx.model.Filed)
    (ha : tx.model.Arranged pending) (haligned : tx.model.Aligned) :
    (tx.applyTopologyClosure entity t).model.Aligned := by
  cases entity with
  | workspace workspaceId =>
    have htabs := closeTabs_closed t
      ((tx.model.tabs.values.filter fun tab => tab.workspaceId = workspaceId).map (·.tabId)) hf ha
    have hleft := haligned.mono htabs.panes fun id tab htab => (htabs.tabs id tab htab).2
    show (dropWorkspace _ workspaceId).model.Aligned
    revert hleft
    generalize List.foldl _ tx _ = tx₁
    intro hleft
    rcases dropWorkspace_drops tx₁ workspaceId with ⟨hsame, -⟩ | hdrops
    · rw [hsame]
      exact hleft
    · have hremoved : (tx₁.model.removeWorkspace workspaceId).Aligned := hleft
      exact hremoved.congr hdrops.topology
  | tab tabId =>
    have htab := closeTab_closed tabId t hf ha
    exact haligned.mono htab.panes fun id tab h => (htab.tabs id tab h).2
  | pane paneId =>
    have hpane := closePane_closed paneId t hf ha
    refine haligned.mono (fun id pane h => (hpane.panes id pane h).2) fun id tab h => ?_
    have h' : (tx.closePane paneId t).model.tabs.get id = some tab := h
    rwa [hpane.tabs] at h'

/-! ### Events -/

/-- After an event the rows belong to rows; the panes are in the workspaces they name if they were and
the event does not part one from it. -/
theorem applyInner_arranged {strict : Bool} {core : Core} {event : NormalizedEvent} {aliasRunId : RunId}
    (hobs : Observed strict event) (hf : core.model.Filed) (ha : core.model.Arranged pending)
    (h : applyInner core event aliasRunId = .ok tx') :
    tx'.model.Filed ∧ tx'.model.Arranged pending ∧
      (core.model.Aligned → ¬Parts core.model event → tx'.model.Aligned) := by
  obtain ⟨tx₁, tx₂, hw₁, hbody, hw₂, hm, -⟩ := applyInner_parts hobs hf h
  obtain ⟨hf₁, htopology₁, hordinal₁⟩ := ((hw₁ ⟨false, false⟩).mutates).topology hf
  have ha₁ : tx₁.model.Arranged pending :=
    ha.congr htopology₁ fun kind id ho => by rw [hordinal₁] at ho; exact ho
  have hparts : ∀ event, Parts tx₁.model event → Parts core.model event := by
    have hrows : tx₁.model.panes = core.model.panes ∧ tx₁.model.tabs = core.model.tabs := by
      simp only [DomainModel.topology, Prod.mk.injEq] at htopology₁
      exact ⟨htopology₁.2.2.1, htopology₁.2.1⟩
    intro event hp
    unfold Parts at hp ⊢
    rw [hrows.1, hrows.2] at hp
    exact hp
  have hbody' : tx₂.model.Filed ∧ tx₂.model.Arranged pending ∧
      (core.model.Aligned → ¬Parts core.model event → tx₂.model.Aligned) := by
    have hf₂ := (hw₂ ⟨true, true⟩ (.all event)).filed hf₁
    have hother : (Allowed ⟨false, false⟩ event) → tx₂.model.Filed ∧ tx₂.model.Arranged pending ∧
        (core.model.Aligned → ¬Parts core.model event → tx₂.model.Aligned) := by
      intro hallowed
      have hmutates := (hw₂ ⟨false, false⟩ hallowed).mutates
      refine ⟨hf₂, hmutates.arranged hf₁ ha₁, fun haligned _ => ?_⟩
      exact (haligned.congr htopology₁).congr (hmutates.topology hf₁).2.1
    cases event with
    | topologyUpsert metadata authority entity =>
      have hstore : tx₁.applyTopologyUpsert authority entity = .ok tx₂ := hbody
      refine ⟨hf₂, applyTopologyUpsert_arranged hstore ha₁, fun haligned hkeep => ?_⟩
      exact @applyTopologyUpsert_aligned _ _ metadata _ _ hstore (fun hp => hkeep (hparts _ hp))
        (haligned.congr htopology₁)
    | topologyClosure metadata entity =>
      cases hbody
      refine ⟨hf₂, applyTopologyClosure_arranged entity _ hf₁ ha₁, fun haligned _ => ?_⟩
      exact applyTopologyClosure_aligned entity _ hf₁ ha₁ (haligned.congr htopology₁)
    | _ => exact hother trivial
  obtain ⟨hf₂, ha₂, haligned₂⟩ := hbody'
  obtain ⟨hf₃, htopology₃, -⟩ := (hm ⟨false, false⟩).topology hf₂
  exact ⟨hf₃, (hm ⟨false, false⟩).arranged hf₂ ha₂, fun haligned hkeep =>
    (haligned₂ haligned hkeep).congr htopology₃⟩

/-- No event of an observation parts a pane from the workspace it names. -/
def NoneParts : Core → List (NormalizedEvent × RunId) → Prop
  | _, [] => True
  | core, (event, aliasRunId) :: events => ¬Parts core.model event ∧
      ∀ tx, applyInner core event aliasRunId = .ok tx → NoneParts tx.toCore events

theorem applyEvents_arranged {strict : Bool} {core : Core} {events : List (NormalizedEvent × RunId)}
    (hobs : ∀ e ∈ events, Observed strict e.1) (hf : core.model.Filed) (ha : core.model.Arranged pending)
    (h : applyEvents core events = .ok tx') :
    tx'.model.Filed ∧ tx'.model.Arranged pending ∧
      (core.model.Aligned → NoneParts core events → tx'.model.Aligned) := by
  induction events generalizing core tx' with
  | nil =>
    cases h
    exact ⟨hf, ha, fun haligned _ => haligned⟩
  | cons e events ih =>
    obtain ⟨tx₁, h₁, h⟩ := bind_eq_ok.mp h
    obtain ⟨later, h₂, h⟩ := bind_eq_ok.mp h
    cases h
    obtain ⟨hf₁, ha₁, haligned₁⟩ := applyInner_arranged (hobs e List.mem_cons_self) hf ha h₁
    obtain ⟨hf₂, ha₂, haligned₂⟩ := ih (fun e' he => hobs e' (List.mem_cons_of_mem _ he)) hf₁ ha₁ h₂
    exact ⟨hf₂, ha₂, fun haligned hkeep =>
      haligned₂ (haligned₁ haligned hkeep.1) (hkeep.2 tx₁ h₁)⟩

end

end Tx

end HerdrTop
