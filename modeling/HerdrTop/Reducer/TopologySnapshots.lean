import HerdrTop.Reducer.Placement

/-!
# Snapshots of the topology

A snapshot replaces the rows of the topology: all rows are removed, panes first, and the rows of the
snapshot are stored, workspaces first, under the ordinals that they had.

## What is proved

`Tx.reconcileSnapshotInner_arranged`: after a snapshot whose rows belong to rows of the snapshot, the rows
of the topology belong to rows, and panes are in the workspaces they name.
-/

namespace HerdrTop.Tx

section

variable {pending : TopologyKind → String → Prop} {tx tx' : Tx}

/-! ### Removing all rows -/

theorem dropTabs_closed (ids : List String) (hf : tx.model.Filed) (ha : tx.model.Arranged pending)
    (hnone : ∀ id, tx.model.panes.get id = none) :
    TabsClosed pending ids tx (ids.foldl dropTab tx) := by
  induction ids generalizing tx with
  | nil => exact ⟨hf, ha, rfl, fun id tab htab => ⟨by simp, htab⟩, fun _ _ hpane => hpane⟩
  | cons tabId ids ih =>
    have hfirst : TabsClosed pending [tabId] tx (tx.dropTab tabId) :=
      dropTab_closed tabId hf ha fun id pane hpane => by rw [hnone id] at hpane; cases hpane
    refine hfirst.cons (ih hfirst.filed hfirst.arranged fun id => ?_)
    by_contra hsome
    obtain ⟨pane, hpane⟩ := Option.ne_none_iff_exists'.mp hsome
    have hbefore := hfirst.panes id pane hpane
    rw [hnone id] at hbefore
    cases hbefore

/-- Workspaces were removed where there were no tabs. -/
structure WorkspacesDropped (pending : TopologyKind → String → Prop) (ids : List String) (tx tx' : Tx) :
    Prop where
  /-- The runs and what belongs to them. -/
  filed : tx'.model.Filed
  /-- The rows belong to rows. -/
  arranged : tx'.model.Arranged pending
  /-- The tabs. -/
  tabs : tx'.model.tabs = tx.model.tabs
  /-- The panes. -/
  panes : tx'.model.panes = tx.model.panes
  /-- The workspaces that are left. -/
  workspaces : ∀ id workspace, tx'.model.workspaces.get id = some workspace →
    id ∉ ids ∧ tx.model.workspaces.get id = some workspace

theorem dropWorkspace_dropped (workspaceId : String) (hf : tx.model.Filed)
    (ha : tx.model.Arranged pending) (hnone : ∀ id, tx.model.tabs.get id = none) :
    WorkspacesDropped pending [workspaceId] tx (tx.dropWorkspace workspaceId) := by
  have hw : tx.Writes outdoors (tx.dropWorkspace workspaceId) := dropWorkspace_writes tx workspaceId rfl
  have harranged := dropWorkspace_arranged workspaceId ha fun id tab htab => by
    rw [hnone id] at htab
    cases htab
  rcases dropWorkspace_drops tx workspaceId with ⟨hsame, hgone⟩ | hdrops
  · rw [hsame]
    refine ⟨hf, ha, rfl, rfl, fun id workspace h => ⟨?_, h⟩⟩
    rw [List.mem_singleton]
    rintro rfl
    rw [hgone] at h
    cases h
  · have htopology := hdrops.topology
    simp only [DomainModel.topology, Prod.mk.injEq] at htopology
    obtain ⟨hworkspaces, htabs, hpanes, -⟩ := htopology
    refine ⟨hw.filed hf, harranged, htabs, hpanes, fun id workspace h => ?_⟩
    rw [hworkspaces] at h
    simp only [DomainModel.removeWorkspace, HashMap.get_remove] at h
    split_ifs at h with e
    exact ⟨by simpa using e, h⟩

theorem dropWorkspaces_dropped (ids : List String) (hf : tx.model.Filed)
    (ha : tx.model.Arranged pending) (hnone : ∀ id, tx.model.tabs.get id = none) :
    WorkspacesDropped pending ids tx (ids.foldl dropWorkspace tx) := by
  induction ids generalizing tx with
  | nil => exact ⟨hf, ha, rfl, rfl, fun id workspace h => ⟨by simp, h⟩⟩
  | cons workspaceId ids ih =>
    have hfirst := dropWorkspace_dropped workspaceId hf ha hnone
    have hrest := ih hfirst.filed hfirst.arranged fun id => by rw [hfirst.tabs]; exact hnone id
    refine ⟨hrest.filed, hrest.arranged, hrest.tabs.trans hfirst.tabs, hrest.panes.trans hfirst.panes,
      fun id workspace h => ?_⟩
    obtain ⟨hnot, h⟩ := hrest.workspaces id workspace h
    obtain ⟨hne, h⟩ := hfirst.workspaces id workspace h
    exact ⟨by simpa using ⟨by simpa using hne, hnot⟩, h⟩

/-- Before a snapshot is stored there are no rows. -/
theorem clearTopology_arranged (closeMs : String → ℤ) (hf : tx.model.Filed)
    (ha : tx.model.Arranged pending) : (tx.clearTopology closeMs).model.Filed ∧
      (tx.clearTopology closeMs).model.Arranged pending ∧
        ∀ kind id, ¬(tx.clearTopology closeMs).model.HasRow kind id := by
  have hclosed := closePanes_closed closeMs (tx.model.panes.values.map (·.paneId)) hf ha
  unfold clearTopology
  dsimp only
  revert hclosed
  generalize (tx.model.panes.values.map (·.paneId)).foldl
    (fun tx paneId => tx.closePane paneId (closeMs paneId)) tx = tx₁
  intro hclosed
  have hpanes : ∀ id, tx₁.model.panes.get id = none := by
    intro id
    by_contra hsome
    obtain ⟨pane, hpane⟩ := Option.ne_none_iff_exists'.mp hsome
    obtain ⟨hnot, hpane⟩ := hclosed.panes id pane hpane
    exact hnot (ha.paneId.mem_names.mpr (by rw [hpane]; rfl))
  have hdropped := dropTabs_closed (tx.model.tabs.values.map (·.tabId)) hclosed.filed hclosed.arranged hpanes
  revert hdropped
  generalize (tx.model.tabs.values.map (·.tabId)).foldl dropTab tx₁ = tx₂
  intro hdropped
  have htabs : ∀ id, tx₂.model.tabs.get id = none := by
    intro id
    by_contra hsome
    obtain ⟨tab, htab⟩ := Option.ne_none_iff_exists'.mp hsome
    obtain ⟨hnot, htab⟩ := hdropped.tabs id tab htab
    rw [hclosed.tabs] at htab
    exact hnot (ha.tabId.mem_names.mpr (by rw [htab]; rfl))
  have hpanes₂ : ∀ id, tx₂.model.panes.get id = none := by
    intro id
    by_contra hsome
    obtain ⟨pane, hpane⟩ := Option.ne_none_iff_exists'.mp hsome
    have hbefore := hdropped.panes id pane hpane
    rw [hpanes id] at hbefore
    cases hbefore
  have hlast := dropWorkspaces_dropped (tx.model.workspaces.values.map (·.workspaceId)) hdropped.filed
    hdropped.arranged htabs
  refine ⟨hlast.filed, hlast.arranged, fun kind id hrow => ?_⟩
  cases kind with
  | workspace =>
    obtain ⟨workspace, hworkspace⟩ := Option.isSome_iff_exists.mp hrow
    obtain ⟨hnot, hworkspace⟩ := hlast.workspaces id workspace hworkspace
    rw [hdropped.workspaces, hclosed.workspaces] at hworkspace
    exact hnot (ha.workspaceId.mem_names.mpr (by rw [hworkspace]; rfl))
  | tab =>
    rw [DomainModel.HasRow, hlast.tabs, htabs] at hrow
    cases hrow
  | pane =>
    rw [DomainModel.HasRow, hlast.panes, hpanes₂] at hrow
    cases hrow

/-! ### Storing the rows of a snapshot -/

/-- The workspaces of a snapshot are stored. -/
theorem storeWorkspaces_arranged {workspaces : List Workspace} (hf : tx.model.Filed)
    (ha : tx.model.Arranged pending) (h : workspaces.foldlM storeWorkspace tx = .ok tx') :
    tx'.model.Filed ∧ tx'.model.Arranged pending ∧
      (tx'.model.tabs = tx.model.tabs ∧ tx'.model.panes = tx.model.panes) ∧
        ∀ workspace ∈ workspaces, tx'.model.HasRow .workspace workspace.workspaceId := by
  obtain ⟨⟨hf', ha', hsame⟩, hrows⟩ := foldlM_establishes
    (I := fun tx' => tx'.model.Filed ∧ tx'.model.Arranged pending ∧
      tx'.model.tabs = tx.model.tabs ∧ tx'.model.panes = tx.model.panes)
    (P := fun workspace tx' => tx'.model.HasRow .workspace workspace.workspaceId)
    (fun workspace _ tx₁ tx₂ hstore ⟨hf₁, ha₁, htabs, hpanes⟩ => by
      have hs := storeWorkspace_stores hstore
      have htopology := hs.topology
      simp only [DomainModel.topology, Prod.mk.injEq] at htopology
      refine ⟨⟨hs.filed hf₁, storeWorkspace_arranged hstore ha₁, htopology.2.1.trans htabs,
        htopology.2.2.1.trans hpanes⟩, ?_, fun other hrow => ?_⟩
      · rw [DomainModel.HasRow.congr hs.topology, DomainModel.hasRow_insertWorkspace]
        exact .inl rfl
      · rw [DomainModel.HasRow.congr hs.topology, DomainModel.hasRow_insertWorkspace]
        exact .inr hrow) h ⟨hf, ha, rfl, rfl⟩
  exact ⟨hf', ha', hsame, fun workspace hworkspace => hrows workspace (.inl hworkspace)⟩

/-- The tabs of a snapshot are stored after their workspaces. -/
theorem storeTabs_arranged {tabs : List Tab} (hf : tx.model.Filed) (ha : tx.model.Arranged pending)
    (hempty : ∀ id, tx.model.tabs.get id = none)
    (hworkspaces : ∀ tab ∈ tabs, tx.model.HasRow .workspace tab.workspaceId)
    (h : tabs.foldlM storeSnapshotTab tx = .ok tx') :
    tx'.model.Filed ∧ tx'.model.Arranged pending ∧
      (tx'.model.workspaces = tx.model.workspaces ∧ tx'.model.panes = tx.model.panes) ∧
      (∀ id tab, tx'.model.tabs.get id = some tab →
        ∃ tab' ∈ tabs, tab'.tabId = id ∧ tab'.workspaceId = tab.workspaceId) ∧
        ∀ tab ∈ tabs, tx'.model.HasRow .tab tab.tabId := by
  obtain ⟨⟨hf', ha', hsame, hfrom⟩, hrows⟩ := foldlM_establishes
    (I := fun tx' => tx'.model.Filed ∧ tx'.model.Arranged pending ∧
      (tx'.model.workspaces = tx.model.workspaces ∧ tx'.model.panes = tx.model.panes) ∧
      ∀ id tab, tx'.model.tabs.get id = some tab →
        ∃ tab' ∈ tabs, tab'.tabId = id ∧ tab'.workspaceId = tab.workspaceId)
    (P := fun tab tx' => tx'.model.HasRow .tab tab.tabId)
    (fun tab htab tx₁ tx₂ hstore ⟨hf₁, ha₁, ⟨hworkspaces₁, hpanes₁⟩, hfrom₁⟩ => by
      have hs := storeTab_stores hstore
      have htopology := hs.topology
      simp only [DomainModel.topology, Prod.mk.injEq] at htopology
      obtain ⟨hworkspaces₂, htabs₂, hpanes₂, -⟩ := htopology
      refine ⟨⟨hs.filed hf₁, storeTab_arranged hstore ?_ ha₁, ⟨hworkspaces₂.trans hworkspaces₁,
        hpanes₂.trans hpanes₁⟩, fun id tab' h => ?_⟩, ?_, fun other hrow => ?_⟩
      · rw [hworkspaces₁]
        exact hworkspaces tab htab
      · rw [htabs₂] at h
        simp only [DomainModel.insertTab, HashMap.get_insert] at h
        split_ifs at h with e
        · cases h
          exact ⟨tab, htab, e.symm, rfl⟩
        · exact hfrom₁ id tab' h
      · rw [DomainModel.HasRow.congr hs.topology, DomainModel.hasRow_insertTab]
        exact .inl rfl
      · rw [DomainModel.HasRow.congr hs.topology, DomainModel.hasRow_insertTab]
        exact .inr hrow) h
    ⟨hf, ha, ⟨rfl, rfl⟩, fun id tab htab => by rw [hempty id] at htab; cases htab⟩
  exact ⟨hf', ha', hsame, hfrom, fun tab htab => hrows tab (.inl htab)⟩

/-- The panes of a snapshot are stored after their tabs. -/
theorem storePanes_arranged {panes : List PaneSnapshot} (hf : tx.model.Filed)
    (ha : tx.model.Arranged pending) (haligned : tx.model.Aligned)
    (htabs : ∀ pane ∈ panes, tx.model.HasRow .tab pane.tabId)
    (hworkspaces : ∀ pane ∈ panes, ∀ tab, tx.model.tabs.get pane.tabId = some tab →
      tab.workspaceId = pane.workspaceId)
    (h : panes.foldlM storeSnapshotPane tx = .ok tx') :
    tx'.model.Filed ∧ tx'.model.Arranged pending ∧ tx'.model.Aligned ∧
      (tx'.model.workspaces = tx.model.workspaces ∧ tx'.model.tabs = tx.model.tabs) ∧
        ∀ pane ∈ panes, tx'.model.HasRow .pane pane.paneId := by
  obtain ⟨⟨hf', ha', haligned', hsame⟩, hrows⟩ := foldlM_establishes
    (I := fun tx' => tx'.model.Filed ∧ tx'.model.Arranged pending ∧ tx'.model.Aligned ∧
      tx'.model.workspaces = tx.model.workspaces ∧ tx'.model.tabs = tx.model.tabs)
    (P := fun pane tx' => tx'.model.HasRow .pane pane.paneId)
    (fun pane hpane tx₁ tx₂ hstore ⟨hf₁, ha₁, haligned₁, hworkspaces₁, htabs₁⟩ => by
      have hs := storePane_stores hstore
      have htopology := hs.topology
      simp only [DomainModel.topology, Prod.mk.injEq] at htopology
      obtain ⟨hworkspaces₂, htabs₂, -, -⟩ := htopology
      refine ⟨⟨hs.filed hf₁, storePane_arranged hstore ?_ ha₁, storePane_aligned hstore ?_ haligned₁,
        hworkspaces₂.trans hworkspaces₁, htabs₂.trans htabs₁⟩, ?_, fun other hrow => ?_⟩
      · rw [htabs₁]
        exact htabs pane hpane
      · rw [htabs₁]
        exact hworkspaces pane hpane
      · rw [DomainModel.HasRow.congr hs.topology, DomainModel.hasRow_insertPane]
        exact .inl rfl
      · rw [DomainModel.HasRow.congr hs.topology, DomainModel.hasRow_insertPane]
        exact .inr hrow) h ⟨hf, ha, haligned, rfl, rfl⟩
  exact ⟨hf', ha', haligned', hsame, fun pane hpane => hrows pane (.inl hpane)⟩

/-- Every ordinal belongs to a row. -/
abbrev Whole (m : DomainModel) : Prop := m.Arranged fun _ _ => False

/-- The ordinals that are kept for a snapshot belong to its rows, which are to be stored yet. -/
theorem retainTopology_arranged (topology : TopologySnapshot) (closeMs : String → ℤ)
    (hf : tx.model.Filed) (ha : Whole tx.model) :
    (tx.retainTopology topology closeMs).model.Filed ∧
      (tx.retainTopology topology closeMs).model.Arranged (fun kind id => id ∈ snapshotIds topology kind) ∧
        ∀ kind id, ¬(tx.retainTopology topology closeMs).model.HasRow kind id := by
  have hw : tx.Writes outdoors (tx.retainTopology topology closeMs) := retainTopology_writes tx _ _ rfl
  obtain ⟨ordinals, hretain, hget⟩ := retainTopology_get tx topology closeMs
  obtain ⟨-, hcleared, hnone⟩ := clearTopology_arranged closeMs hf ha
  have htopology : (tx.retainTopology topology closeMs).model.topology =
      (tx.clearTopology closeMs).model.topology := by
    rw [hretain]
    rfl
  refine ⟨hw.filed hf, ⟨hcleared.toPlaced.congr htopology, fun kind id ho => .inr ?_⟩, fun kind id => ?_⟩
  · rw [hretain] at ho
    have ho' : (ordinals.get (kind, id)).isSome = true := ho
    rw [hget, Option.isSome_or, Bool.or_eq_true] at ho'
    rcases ho' with hkept | hleft
    · dsimp only at hkept
      split_ifs at hkept with hmem
      · exact hmem
      · cases hkept
    · rcases hcleared.ordinal kind id hleft with hrow | hfalse
      · exact absurd hrow (hnone kind id)
      · exact hfalse.elim
  · rw [DomainModel.HasRow.congr htopology]
    exact hnone kind id

/-- After a snapshot whose rows belong to rows of the snapshot, rows belong to rows and panes are in the
workspaces they name. -/
theorem replaceTopology_arranged {topology : TopologySnapshot} {closeMs : String → ℤ}
    (hconsistent : topology.Consistent) (hf : tx.model.Filed) (ha : Whole tx.model)
    (h : tx.replaceTopology topology closeMs = .ok tx') :
    tx'.model.Filed ∧ Whole tx'.model ∧ tx'.model.Aligned := by
  obtain ⟨tx₁, h₁, h⟩ := bind_eq_ok.mp h
  obtain ⟨tx₂, h₂, h₃⟩ := bind_eq_ok.mp h
  obtain ⟨hf₀, ha₀, hnone⟩ := retainTopology_arranged topology closeMs hf ha
  have htabs₀ : ∀ id, (tx.retainTopology topology closeMs).model.tabs.get id = none := fun id => by
    simpa [DomainModel.HasRow] using hnone .tab id
  have hpanes₀ : ∀ id, (tx.retainTopology topology closeMs).model.panes.get id = none := fun id => by
    simpa [DomainModel.HasRow] using hnone .pane id
  obtain ⟨hf₁, ha₁, ⟨htabs₁, hpanes₁⟩, hworkspaces⟩ := storeWorkspaces_arranged hf₀ ha₀ h₁
  obtain ⟨hf₂, ha₂, ⟨hworkspaces₂, hpanes₂⟩, hfrom, htabs⟩ := storeTabs_arranged hf₁ ha₁
    (fun id => by rw [htabs₁]; exact htabs₀ id) (fun tab htab => by
      obtain ⟨workspace, hworkspace, hid⟩ := hconsistent.tab tab htab
      rw [← hid]
      exact hworkspaces workspace hworkspace) h₂
  have haligned₂ : tx₂.model.Aligned := by
    intro id pane tab hpane
    rw [hpanes₂, hpanes₁] at hpane
    rw [hpanes₀ id] at hpane
    cases hpane
  obtain ⟨hf₃, ha₃, haligned₃, ⟨hworkspaces₃, htabs₃⟩, hpanes⟩ := storePanes_arranged hf₂ ha₂ haligned₂
    (fun pane hpane => by
      obtain ⟨tab, htab, hid⟩ := hconsistent.pane pane hpane
      rw [← hid]
      exact htabs tab htab)
    (fun pane hpane tab htab => by
      obtain ⟨tab', htab', hid, hworkspace⟩ := hfrom pane.tabId tab htab
      rw [← hworkspace]
      exact hconsistent.workspace pane hpane tab' htab' hid) h₃
  refine ⟨hf₃, ⟨ha₃.toPlaced, fun kind id ho => .inl ?_⟩, haligned₃⟩
  rcases ha₃.ordinal kind id ho with hrow | hpending
  · exact hrow
  · cases kind with
    | workspace =>
      obtain ⟨workspace, hworkspace, rfl⟩ := List.mem_map.mp hpending
      have hrow := hworkspaces workspace hworkspace
      rw [DomainModel.HasRow] at hrow ⊢
      rw [hworkspaces₃, hworkspaces₂]
      exact hrow
    | tab =>
      obtain ⟨tab, htab, rfl⟩ := List.mem_map.mp hpending
      have hrow := htabs tab htab
      rw [DomainModel.HasRow] at hrow ⊢
      rw [htabs₃]
      exact hrow
    | pane =>
      obtain ⟨pane, hpane, rfl⟩ := List.mem_map.mp hpending
      exact hpanes pane hpane

/-- The agent statuses of a snapshot belong to panes. -/
theorem replacePaneAgentStatuses_arranged (panes : List PaneSnapshot) (ha : tx.model.Arranged pending) :
    (tx.replacePaneAgentStatuses panes).model.Arranged pending := by
  obtain ⟨⟨h1, h2, h3, h4, h5, -⟩, h7⟩ := ha
  refine ⟨⟨h1, h2, h3, h4, h5, fun paneId status hstatus => ?_⟩, fun kind id ho => ?_⟩
  · rcases HashMap.get_extend_cases hstatus with hmem | ⟨hempty, -⟩
    · obtain ⟨pane, hpane, hagent⟩ := List.mem_filterMap.mp hmem
      obtain ⟨agent, -, hpair⟩ := Option.map_eq_some_iff.mp hagent
      cases hpair
      exact (List.mem_filter.mp hpane).2
    · cases hempty
  · rcases h7 kind id ho with hrow | hp
    · left
      cases kind <;> exact hrow
    · exact .inr hp

theorem reconcileSnapshotInner_arranged {strict : Bool} {topology : TopologySnapshot}
    {draws : ℕ → PaneDraw} {nowMs : ℤ} {closeMs : String → ℤ} (hconsistent : topology.Consistent)
    (hfresh : FreshDraws strict tx.model topology.panes draws) (hf : tx.model.Filed)
    (ha : Whole tx.model) (h : tx.reconcileSnapshotInner topology draws nowMs closeMs = .ok tx') :
    tx'.model.Filed ∧ Whole tx'.model ∧ tx'.model.Aligned := by
  obtain ⟨tx₁, tx₂, h₁, hreplace, h₂⟩ :=
    @reconcileSnapshotInner_parts (.wide strict ⟨false, false⟩) _ _ _ _ _ _ hf hfresh rfl rfl rfl h
  obtain ⟨hf₁, -, -⟩ := h₁.mutates.topology hf
  obtain ⟨hf₂, ha₂, haligned₂⟩ :=
    replaceTopology_arranged hconsistent hf₁ (h₁.mutates.arranged hf ha) hreplace
  have hw : tx₂.Writes outdoors (tx₂.replacePaneAgentStatuses topology.panes) :=
    replacePaneAgentStatuses_writes tx₂ _ rfl
  have hf₃ := hw.filed hf₂
  have ha₃ := replacePaneAgentStatuses_arranged topology.panes ha₂
  have haligned₃ : (tx₂.replacePaneAgentStatuses topology.panes).model.Aligned := haligned₂
  obtain ⟨hf₄, htopology, -⟩ := h₂.mutates.topology hf₃
  exact ⟨hf₄, h₂.mutates.arranged hf₃ ha₃, haligned₃.congr htopology⟩

end

end HerdrTop.Tx
