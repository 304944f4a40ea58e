import HerdrTop.Library.Numbering
import HerdrTop.Reducer.Safety

/-!
# Display ordinals

Runs, agents and the rows of the topology take their ordinals from one counter. Every change of the
core is a step of the numbering, and says which holders may lose their ordinal: runs that it merges
into others, and rows that it closes.

## What is proved

* `Reducer.ordinals_stand`: in every state that is reached the ordinals are unique and below the
  counter, every row of the topology has one, and an action leaves the ordinal of whatever survives
  it as it was.
-/

namespace HerdrTop

/-- What has a display ordinal. -/
inductive OrdinalHolder
  | run (id : RunId)
  | agent (id : String)
  | row (kind : TopologyKind) (id : String)

/-- The ordinals that are given out. -/
def Core.numbering (c : Core) : Numbering OrdinalHolder where
  number
    | .run id => (c.model.taskRuns.get id).map (·.displayOrdinal)
    | .agent id => (c.model.agentNodes.get id).map (·.displayOrdinal)
    | .row kind id => c.model.topologyOrdinal kind id
  next := c.nextOrdinal

theorem Core.numbering_congr {c c' : Core} (rows : c'.model.rows = c.model.rows) :
    c'.numbering.number = c.numbering.number := by
  simp only [DomainModel.rows, Prod.mk.injEq] at rows
  obtain ⟨h1, -, -, -, h2, -, -, -, h3⟩ := rows
  funext holder
  cases holder with
  | run id => simp only [Core.numbering, h1]
  | agent id => simp only [Core.numbering, h2]
  | row kind id => simp only [Core.numbering, DomainModel.topologyOrdinal, h3]

/-- A holder may lose its ordinal: an absorbed run, or a row that may be closed. -/
inductive MayLose (rows : RowScope) (l : List Merge) : OrdinalHolder → Prop
  | run {id : RunId} (absorbed : ∃ p ∈ l, p.2 = id) : MayLose rows l (.run id)
  | row {kind : TopologyKind} {id : String} (closes : rows.closes = true) : MayLose rows l (.row kind id)

/-- A step of the numbering after which all but some holders have the ordinals they had. -/
structure Renumbers (lost : OrdinalHolder → Prop) (c c' : Core) : Prop where
  /-- One step at most. -/
  step : Numbering.Step c.numbering c'.numbering
  /-- Whoever may not lose its ordinal has it. -/
  kept : ∀ holder o, c.numbering.number holder = some o → ¬lost holder →
    c'.numbering.number holder = some o

section

variable {scope : Scope} {c c' : Core} {l ls : List Merge}

/-- All numbers stay. -/
theorem Renumbers.quiet {lost : OrdinalHolder → Prop} (next : c.nextOrdinal ≤ c'.nextOrdinal)
    (number : c'.numbering.number = c.numbering.number) : Renumbers lost c c' where
  step := .keep next fun h o ho => by rwa [number] at ho
  kept h o ho _ := by rwa [number]

theorem Applied.renumbers {m m' : DomainModel} {t : ℤ} (ha : Applied m t l m') (hf : m.Filed)
    (rows : RowScope) (hm : c.model = m) : Renumbers (MayLose rows l) c (c.withModel m') := by
  subst hm
  have hrun : ∀ run : TaskRun, c.model.taskRuns.get run.runId = some run → ∀ run' : TaskRun,
      run'.runId = run.runId → run'.displayOrdinal = run.displayOrdinal → ∀ id,
      ((if id = run'.runId then some run' else c.model.taskRuns.get id).map (·.displayOrdinal)) =
        (c.model.taskRuns.get id).map (·.displayOrdinal) := by
    intro run exist run' hid hordinal id
    split_ifs with e
    · rw [e, hid, exist, Option.map_some, Option.map_some, hordinal]
    · rfl
  cases ha with
  | unchanged => exact .quiet le_rfl rfl
  | touched run exist =>
    refine .quiet le_rfl (funext fun holder => ?_)
    cases holder with
    | run id =>
      simp only [Core.numbering, Core.withModel_model, DomainModel.insertTaskRun, HashMap.get_insert]
      exact hrun run exist _ (by simp) (by simp) id
    | agent id => rfl
    | row kind id => rfl
  | bound run provider sid exist =>
    refine .quiet le_rfl (funext fun holder => ?_)
    cases holder with
    | run id =>
      simp only [Core.numbering, Core.withModel_model]
      rw [get_taskRuns_boundModel rfl]
      split_ifs with e
      · rw [e, exist]
        simp
      · rfl
    | agent id =>
      simp only [Core.numbering, Core.withModel_model, boundModel]
      split_ifs <;> rfl
    | row kind id =>
      simp only [Core.numbering, Core.withModel_model, boundModel]
      split_ifs <;> rfl
  | @merged s a sr ar g hp =>
    have hget := get_taskRuns_mergedModel hp (hf.run s sr hp.survivor) t
    have hagent : ∀ id, ((mergedModel c.model s a sr g t).agentNodes.get id).map (·.displayOrdinal) =
        (c.model.agentNodes.get id).map (·.displayOrdinal) := by
      intro id
      rw [(rows_mergedModel _ _ _ _ _ _).2.1, HashMap.get_mapValues, Option.map_map]
      congr 1
      funext node
      exact AgentNode.repoint_displayOrdinal s a node
    have htopology : (mergedModel c.model s a sr g t).topologyOrdinals = c.model.topologyOrdinals :=
      (topology_mergedModel _ _ _ _ _ _).2.2.2.2
    have hsurvivor : ∀ id, id ≠ a →
        ((mergedModel c.model s a sr g t).taskRuns.get id).map (·.displayOrdinal) =
          (c.model.taskRuns.get id).map (·.displayOrdinal) := by
      intro id hid
      rw [hget, if_neg hid]
      split_ifs with e
      · rw [e, hp.survivor]
        simp
      · rfl
    have habsorbed : (mergedModel c.model s a sr g t).taskRuns.get a = none := by
      rw [hget, if_neg hp.ne.symm, if_pos rfl]
    refine ⟨.keep le_rfl fun holder o ho => ?_, fun holder o ho hlost => ?_⟩
    · cases holder with
      | run id =>
        by_cases e : id = a
        · subst e
          simp [Core.numbering, habsorbed] at ho
        · exact (hsurvivor id e).symm.trans ho
      | agent id => exact (hagent id).symm.trans ho
      | row kind id =>
        simpa only [Core.numbering, Core.withModel_model, DomainModel.topologyOrdinal, htopology] using ho
    · cases holder with
      | run id =>
        have hid : id ≠ a := fun e => hlost (.run ⟨(s, a), by simp, e.symm⟩)
        exact (hsurvivor id hid).trans ho
      | agent id => exact (hagent id).trans ho
      | row kind id =>
        simpa only [Core.numbering, Core.withModel_model, DomainModel.topologyOrdinal, htopology] using ho

/-- A holder that has no ordinal gets the next one. -/
theorem Renumbers.draw {lost : OrdinalHolder → Prop} (holder : OrdinalHolder)
    (absent : c.numbering.number holder = none) (next : c'.nextOrdinal = c.nextOrdinal + 1)
    (drawn : c'.numbering.number holder = some c.nextOrdinal)
    (kept : ∀ h, h ≠ holder → c'.numbering.number h = c.numbering.number h) : Renumbers lost c c' where
  step := .draw holder absent next drawn kept
  kept h o ho _ := by
    rw [kept h (fun e => by rw [e, absent] at ho; cases ho)]
    exact ho

/-- Every write of a strict run is a step of the numbering. -/
theorem Mutation.renumbers (h : Mutation scope c l c') (hs : scope.strict = true)
    (hf : c.model.Filed) : Renumbers (MayLose scope.toRowScope l) c c' := by
  cases h with
  | quiet rows topology ordinal => exact .quiet ordinal (Core.numbering_congr rows)
  | @create run new absent ordinal key =>
    refine .draw (.run run.runId) ?_ rfl ?_ fun holder hne => ?_
    · simp [Core.numbering, absent]
    · simp [Core.numbering, DomainModel.insertTaskRun, ordinal]
    · cases holder with
      | run id =>
        have hid : id ≠ run.runId := fun e => hne (by rw [e])
        simp [Core.numbering, DomainModel.insertTaskRun, HashMap.get_insert, hid]
      | agent id => rfl
      | row kind id => rfl
  | @update run old row key ordinal absorbing =>
    refine .quiet le_rfl (funext fun holder => ?_)
    cases holder with
    | run id =>
      simp only [Core.numbering, Core.withModel_model, DomainModel.insertTaskRun, HashMap.get_insert]
      split_ifs with e
      · rw [e, row, Option.map_some, Option.map_some, ordinal]
      · rfl
    | agent id => rfl
    | row kind id => rfl
  | binding applied => exact (applyBindingPlanAt_applied hf.run applied).renumbers hf _ rfl
  | execution => exact .quiet le_rfl rfl
  | @agentNode node old owner row ordinal =>
    refine .quiet le_rfl (funext fun holder => ?_)
    cases holder with
    | run id => rfl
    | agent id =>
      simp only [Core.numbering, Core.withModel_model, DomainModel.insertAgentNode, HashMap.get_insert]
      split_ifs with e
      · rw [e, row, Option.map_some, Option.map_some, ordinal]
      · rfl
    | row kind id => rfl
  | @createAgentNode node owner new absent ordinal =>
    refine .draw (.agent node.agentNodeId) ?_ rfl ?_ fun holder hne => ?_
    · simp [Core.numbering, absent hs]
    · simp [Core.numbering, DomainModel.insertAgentNode, ordinal]
    · cases holder with
      | run id => rfl
      | agent id =>
        have hid : id ≠ node.agentNodeId := fun e => hne (by rw [e])
        simp [Core.numbering, DomainModel.insertAgentNode, HashMap.get_insert, hid]
      | row kind id => rfl
  | openRow kind id allowed absent =>
    refine .draw (.row kind id) absent rfl ?_ fun holder hne => ?_
    · simp [Core.numbering, DomainModel.topologyOrdinal, DomainModel.setTopologyOrdinal]
    · cases holder with
      | run id => rfl
      | agent id => rfl
      | row kind' id' =>
        have hrow : (kind', id') ≠ (kind, id) := fun e => hne (by cases e; rfl)
        simp only [Core.numbering, DomainModel.topologyOrdinal, Core.withModel_model,
          DomainModel.setTopologyOrdinal, HashMap.get_insert, if_neg hrow]
  | closeRows ordinals allowed fewer =>
    refine ⟨.keep le_rfl fun holder o ho => ?_, fun holder o ho hlost => ?_⟩
    · cases holder with
      | run id => exact ho
      | agent id => exact ho
      | row kind id => exact fewer (kind, id) o ho
    · cases holder with
      | run id => exact ho
      | agent id => exact ho
      | row kind id => exact absurd (.row allowed) hlost
  | executionEdge => exact .quiet le_rfl rfl
  | dependencyEdge => exact .quiet le_rfl rfl
  | lifecycle => exact .quiet le_rfl rfl

theorem Change.renumbers (h : Change scope c l c') (hs : scope.strict = true)
    (hf : c.model.Filed) : Renumbers (MayLose scope.toRowScope l) c c' := by
  cases h with
  | mutation h => exact h.renumbers hs hf
  | history => exact .quiet le_rfl rfl

theorem MayLose.mono {rows : RowScope} {l l' : List Merge} {holder : OrdinalHolder}
    (h : MayLose rows l holder) (hsub : l ⊆ l') : MayLose rows l' holder := by
  cases h with
  | run absorbed =>
    obtain ⟨p, hp, rfl⟩ := absorbed
    exact .run ⟨p, hsub hp, rfl⟩
  | row closes => exact .row closes

/-- Ordinals stay unique, and whatever is not absorbed or closed keeps its own. -/
theorem Changes.ordinals (h : Changes scope c ls c') (hs : scope.strict = true) (hf : c.model.Filed)
    (hc : c.numbering.Unique) : c'.numbering.Unique ∧ c.nextOrdinal ≤ c'.nextOrdinal ∧
      ∀ holder o, c.numbering.number holder = some o → ¬MayLose scope.toRowScope ls holder →
        c'.numbering.number holder = some o := by
  induction h with
  | refl => exact ⟨hc, le_rfl, fun _ _ ho _ => ho⟩
  | tail hr hm ih =>
    obtain ⟨hunique, hnext, hkept⟩ := ih
    have hstep := hm.renumbers hs (Changes.filed hr hf)
    refine ⟨hstep.step.unique hunique, hnext.trans hstep.step.next_le, fun holder o ho hlost => ?_⟩
    refine hstep.kept holder o (hkept holder o ho fun h => hlost ?_) fun h => hlost ?_
    · exact h.mono (List.subset_append_left _ _)
    · exact h.mono (List.subset_append_right _ _)

/-! ### The rows of the topology -/

/-- Every row of the topology has an ordinal. -/
def DomainModel.Covered (m : DomainModel) : Prop :=
  ∀ kind id, m.HasRow kind id → (m.topologyOrdinal kind id).isSome = true

/-- No more rows and no fewer ordinals. -/
theorem DomainModel.Covered.of_rows {m m' : DomainModel} (h : m.Covered)
    (rows : ∀ kind id, m'.HasRow kind id → m.HasRow kind id)
    (ordinals : ∀ kind id o, m.topologyOrdinal kind id = some o → m'.topologyOrdinal kind id = some o) :
    m'.Covered := by
  intro kind id hrow
  obtain ⟨o, ho⟩ := Option.isSome_iff_exists.mp (h kind id (rows kind id hrow))
  rw [ordinals kind id o ho]
  rfl

theorem Change.topology (h : Change scope c l c') (hf : c.model.Filed)
    (hopens : scope.opens = false) (hcloses : scope.closes = false) :
    c'.model.topology = c.model.topology := by
  cases h with
  | mutation h => exact Mutations.topology (.one h) hf hopens hcloses
  | history => rfl

theorem Change.row_eq (h : Change scope c l c') (hf : c.model.Filed) (hopens : scope.opens = false)
    (hcloses : scope.closes = false) (row : TopologyKind × String) :
    c'.model.topologyOrdinals.get row = c.model.topologyOrdinals.get row := by
  cases h with
  | mutation h =>
    rcases h.row_cases hf row with h | ⟨h, -⟩ | ⟨h, -⟩
    · exact h
    · rw [hopens] at h
      cases h
    · rw [hcloses] at h
      cases h
  | history => rfl

/-- Where no row is opened or closed, the topology stays. -/
theorem Changes.topology (h : Changes scope c ls c') (hf : c.model.Filed)
    (hopens : scope.opens = false) (hcloses : scope.closes = false) :
    c'.model.topology = c.model.topology := by
  induction h with
  | refl => rfl
  | tail hr hm ih => exact (hm.topology (Changes.filed hr hf) hopens hcloses).trans ih

theorem Changes.row_eq (h : Changes scope c ls c') (hf : c.model.Filed) (hopens : scope.opens = false)
    (hcloses : scope.closes = false) (row : TopologyKind × String) :
    c'.model.topologyOrdinals.get row = c.model.topologyOrdinals.get row := by
  induction h with
  | refl => rfl
  | tail hr hm ih => exact (hm.row_eq (Changes.filed hr hf) hopens hcloses row).trans ih

/-- Where no row is opened or closed, every row still has an ordinal. -/
theorem Changes.covered (h : Changes scope c ls c') (hopens : scope.opens = false)
    (hcloses : scope.closes = false) (hf : c.model.Filed) (hc : c.model.Covered) :
    c'.model.Covered :=
  hc.of_rows (fun _ _ => (DomainModel.HasRow.congr (h.topology hf hopens hcloses)).mp) fun kind id _ ho =>
    (h.row_eq hf hopens hcloses (kind, id)).trans ho

end

namespace Tx

/-- A transaction leaves rows filed, and every row of the topology with an ordinal. -/
def Covers (tx tx' : Tx) : Prop :=
  tx.model.Filed → tx.model.Covered → tx'.model.Filed ∧ tx'.model.Covered

section

variable {tx tx' tx'' : Tx}

theorem Covers.refl (tx : Tx) : tx.Covers tx := fun hf hc => ⟨hf, hc⟩

theorem Covers.trans (h : tx.Covers tx') (h' : tx'.Covers tx'') : tx.Covers tx'' := fun hf hc =>
  h' (h hf hc).1 (h hf hc).2

theorem Covers.foldl {α : Type} {f : Tx → α → Tx} (hf : ∀ (tx : Tx) a, tx.Covers (f tx a))
    (l : List α) (tx : Tx) : tx.Covers (l.foldl f tx) := by
  induction l generalizing tx with
  | nil => exact .refl tx
  | cons a l ih => exact (hf tx a).trans (ih _)

theorem Covers.foldlM {α : Type} {f : Tx → α → Except ReducerFailure Tx}
    (hf : ∀ (tx : Tx) a tx', f tx a = .ok tx' → tx.Covers tx') {l : List α} {start last : Tx}
    (h : l.foldlM f start = .ok last) : start.Covers last := by
  induction l generalizing start with
  | nil =>
    cases h
    exact .refl _
  | cons a l ih =>
    rw [List.foldlM_cons, bind_eq_ok] at h
    obtain ⟨next, h₁, h₂⟩ := h
    exact (hf start a next h₁).trans (ih h₂)

/-- The scope of writes that leave the topology alone. -/
abbrev indoors : Scope := .wide true ⟨false, false⟩

theorem Mutates.covers (h : tx.Mutates indoors tx') : tx.Covers tx' := fun hf hc => by
  obtain ⟨ls, hm, -⟩ := h hf
  exact ⟨hm.filed hf, Changes.covered hm.changes rfl rfl hf hc⟩

theorem Writes.covers (h : tx.Writes indoors tx') : tx.Covers tx' := h.mutates.covers

/-- Rows are stored that have an ordinal. -/
theorem Covers.stored {m : DomainModel} {op : PersistOp} {kind : TopologyKind} {id : String}
    (rows : m.rows = tx.model.rows) (ordinal : (tx.model.topologyOrdinal kind id).isSome = true)
    (row : ∀ kind' id', m.HasRow kind' id' → (kind', id') = (kind, id) ∨ tx.model.HasRow kind' id') :
    tx.Covers ((tx.withModel m).push op) := fun hf hc => by
  have hnumber : ∀ kind id, m.topologyOrdinal kind id = tx.model.topologyOrdinal kind id := by
    simp only [DomainModel.rows, Prod.mk.injEq] at rows
    intro kind id
    rw [DomainModel.topologyOrdinal, rows.2.2.2.2.2.2.2.2]
    rfl
  have hw : tx.Writes (.wide true ⟨true, true⟩) (tx.withModel m) := .topology (.inl rfl) rows le_rfl rfl
  refine ⟨hw.filed hf, fun kind' id' hrow => ?_⟩
  show (m.topologyOrdinal kind' id').isSome = true
  rw [hnumber]
  rcases row kind' id' hrow with e | hrow
  · cases e
    exact ordinal
  · exact hc kind' id' hrow

/-- A row gets its ordinal. -/
theorem topologyOrdinal_covers {kind : TopologyKind} {id : String} {o : DisplayOrdinal}
    (h : tx.topologyOrdinalOrAllocate kind id = .ok (o, tx')) :
    tx.Covers tx' ∧ (tx'.model.topologyOrdinal kind id).isSome = true := by
  have hw : tx.Writes (.wide true ⟨true, true⟩) tx' := topologyOrdinal_writes rfl h
  unfold topologyOrdinalOrAllocate at h
  split at h
  · rename_i ordinal hsome
    cases h
    exact ⟨.refl tx, by rw [hsome]; rfl⟩
  · rename_i hnone
    obtain ⟨⟨o', tx₁⟩, h₁, h₂⟩ := bind_eq_ok.mp h
    obtain ⟨rfl, rfl⟩ := allocateOrdinal_ok h₁
    cases h₂
    have hget : ∀ kind' id', (tx.model.setTopologyOrdinal kind id tx.nextOrdinal).topologyOrdinal kind' id' =
        if (kind', id') = (kind, id) then some tx.nextOrdinal else tx.model.topologyOrdinal kind' id' :=
      fun kind' id' => HashMap.get_insert _ _ _ _
    refine ⟨fun hf hc => ⟨hw.filed hf,
      hc.of_rows (fun kind _ hrow => by cases kind <;> exact hrow) fun kind' id' o ho => ?_⟩, ?_⟩
    · refine (hget kind' id').trans ?_
      split_ifs with e
      · cases e
        cases hnone.symm.trans ho
      · exact ho
    · rw [withModel_model, hget, if_pos rfl]
      rfl

theorem storeWorkspace_covers {workspace : Workspace} (h : tx.storeWorkspace workspace = .ok tx') :
    tx.Covers tx' := by
  obtain ⟨⟨o, tx₁⟩, h₁, h₂⟩ := bind_eq_ok.mp h
  cases h₂
  obtain ⟨hcovers, hordinal⟩ := topologyOrdinal_covers h₁
  refine hcovers.trans (.stored rfl hordinal fun kind id hrow => ?_)
  cases kind with
  | workspace =>
    simp only [DomainModel.HasRow, DomainModel.insertWorkspace, HashMap.get_insert] at hrow ⊢
    grind
  | tab => exact .inr hrow
  | pane => exact .inr hrow

theorem storeTab_covers {tab : Tab} {clear : Bool} (h : tx.storeTab tab clear = .ok tx') :
    tx.Covers tx' := by
  obtain ⟨⟨o, tx₁⟩, h₁, h₂⟩ := bind_eq_ok.mp h
  cases h₂
  obtain ⟨hcovers, hordinal⟩ := topologyOrdinal_covers h₁
  have hstored : tx₁.Covers ((tx₁.withModel (tx₁.model.insertTab tab)).push (.upsertTab tab o)) := by
    refine .stored rfl hordinal fun kind id hrow => ?_
    cases kind with
    | tab =>
      simp only [DomainModel.HasRow, DomainModel.insertTab, HashMap.get_insert] at hrow ⊢
      grind
    | workspace => exact .inr hrow
    | pane => exact .inr hrow
  split_ifs
  · exact (hcovers.trans hstored).trans (Writes.push _ _ rfl).covers
  · exact hcovers.trans hstored

theorem storePane_covers {pane : Pane} {clear : Bool} (h : tx.storePane pane clear = .ok tx') :
    tx.Covers tx' := by
  obtain ⟨⟨o, tx₁⟩, h₁, h₂⟩ := bind_eq_ok.mp h
  cases h₂
  obtain ⟨hcovers, hordinal⟩ := topologyOrdinal_covers h₁
  have hstored : tx₁.Covers ((tx₁.withModel (tx₁.model.insertPane pane)).push (.upsertPane pane o)) := by
    refine .stored rfl hordinal fun kind id hrow => ?_
    cases kind with
    | pane =>
      simp only [DomainModel.HasRow, DomainModel.insertPane, HashMap.get_insert] at hrow ⊢
      grind
    | workspace => exact .inr hrow
    | tab => exact .inr hrow
  split_ifs
  · exact (hcovers.trans hstored).trans (Writes.push _ _ rfl).covers
  · exact hcovers.trans hstored

theorem applyTopologyUpsert_covers {authority : TopologyAuthority} {entity : TopologyEntity}
    (h : tx.applyTopologyUpsert authority entity = .ok tx') : tx.Covers tx' := by
  unfold applyTopologyUpsert at h
  split at h
  · exact storeWorkspace_covers h
  · split_ifs at h
    · cases h
      exact .refl _
    · exact storeTab_covers h
  · split_ifs at h
    · cases h
      exact .refl _
    · exact storePane_covers h

/-- The scope of writes to the topology. -/
abbrev outdoors : Scope := .wide true ⟨true, true⟩

/-- A row is removed with its ordinal. -/
theorem Covers.dropped {kind : TopologyKind} {id : String} (hw : tx.Writes outdoors tx')
    (row : ∀ kind' id', tx'.model.HasRow kind' id' →
      (kind', id') ≠ (kind, id) ∧ tx.model.HasRow kind' id')
    (ordinals : ∀ kind' id', (kind', id') ≠ (kind, id) →
      tx'.model.topologyOrdinal kind' id' = tx.model.topologyOrdinal kind' id') : tx.Covers tx' :=
  fun hf hc => ⟨hw.filed hf, fun kind' id' hrow => by
    obtain ⟨hne, hrow⟩ := row kind' id' hrow
    rw [ordinals kind' id' hne]
    exact hc kind' id' hrow⟩

theorem topologyOrdinal_remove {m : DomainModel} {kind kind' : TopologyKind} {id id' : String}
    (h : (kind', id') ≠ (kind, id)) :
    (m.removeTopologyOrdinal kind id).topologyOrdinal kind' id' = m.topologyOrdinal kind' id' :=
  HashMap.get_remove_ne _ h

theorem dropPane_covers (tx : Tx) (paneId : String) : tx.Covers (tx.dropPane paneId) := by
  have hw : tx.Writes outdoors (tx.dropPane paneId) := dropPane_writes tx paneId rfl
  have hrow : ∀ kind id, (tx.model.removePane paneId).HasRow kind id →
      (kind, id) ≠ (.pane, paneId) ∧ tx.model.HasRow kind id := by
    intro kind id hrow
    cases kind with
    | pane =>
      simp only [DomainModel.HasRow, DomainModel.removePane, DomainModel.removePaneAgentStatus,
        HashMap.get_remove] at hrow ⊢
      grind
    | workspace => exact ⟨by simp, hrow⟩
    | tab => exact ⟨by simp, hrow⟩
  refine @Covers.dropped _ _ .pane paneId hw (fun kind id h => hrow kind id ?_) fun kind id hne => ?_
  · unfold dropPane at h
    split_ifs at h <;> exact h
  · unfold dropPane
    split_ifs
    · exact topologyOrdinal_remove hne
    · rfl

theorem dropTab_covers (tx : Tx) (tabId : String) : tx.Covers (tx.dropTab tabId) := by
  have hw : tx.Writes outdoors (tx.dropTab tabId) := dropTab_writes tx tabId rfl
  unfold dropTab at hw ⊢
  split_ifs at hw ⊢
  · refine @Covers.dropped _ _ .tab tabId hw (fun kind id hrow => ?_)
      fun kind id hne => topologyOrdinal_remove hne
    cases kind with
    | tab =>
      simp only [DomainModel.HasRow, Tx.push, withModel, DomainModel.removeTopologyOrdinal,
        DomainModel.removeTab, HashMap.get_remove] at hrow ⊢
      grind
    | workspace => exact ⟨by simp, hrow⟩
    | pane => exact ⟨by simp, hrow⟩
  · exact .refl tx

theorem dropWorkspace_covers (tx : Tx) (workspaceId : String) :
    tx.Covers (tx.dropWorkspace workspaceId) := by
  have hw : tx.Writes outdoors (tx.dropWorkspace workspaceId) := dropWorkspace_writes tx workspaceId rfl
  unfold dropWorkspace at hw ⊢
  split_ifs at hw ⊢
  · refine @Covers.dropped _ _ .workspace workspaceId hw (fun kind id hrow => ?_)
      fun kind id hne => topologyOrdinal_remove hne
    cases kind with
    | workspace =>
      simp only [DomainModel.HasRow, Tx.push, withModel, DomainModel.removeTopologyOrdinal,
        DomainModel.removeWorkspace, HashMap.get_remove] at hrow ⊢
      grind
    | tab => exact ⟨by simp, hrow⟩
    | pane => exact ⟨by simp, hrow⟩
  · exact .refl tx

theorem closePane_covers (tx : Tx) (paneId : String) (t : ℤ) : tx.Covers (tx.closePane paneId t) :=
  (Covers.foldl (fun tx id => (endExecution_writes tx id t).covers) _ tx).trans (dropPane_covers _ _)

theorem closeTab_covers (tx : Tx) (tabId : String) (t : ℤ) : tx.Covers (tx.closeTab tabId t) :=
  (Covers.foldl (fun tx paneId => closePane_covers tx paneId t) _ tx).trans (dropTab_covers _ _)

theorem applyTopologyClosure_covers (tx : Tx) (entity : TopologyEntityId) (t : ℤ) :
    tx.Covers (tx.applyTopologyClosure entity t) := by
  cases entity with
  | workspace workspaceId =>
    exact (Covers.foldl (fun tx tabId => closeTab_covers tx tabId t) _ tx).trans
      (dropWorkspace_covers _ _)
  | tab tabId => exact closeTab_covers tx tabId t
  | pane paneId => exact closePane_covers tx paneId t

/-! ### Events -/

/-- After an event every row of the topology has an ordinal. -/
theorem applyInner_covers {core : Core} {event : NormalizedEvent} {aliasRunId : RunId}
    (hobs : Observed true event) (hf : core.model.Filed) (hc : core.model.Covered)
    (h : applyInner core event aliasRunId = .ok tx') : tx'.model.Filed ∧ tx'.model.Covered := by
  obtain ⟨tx₁, tx₂, hw₁, hbody, hw₂, hm, -⟩ := applyInner_parts hobs hf h
  have hbodyCovers : tx₁.Covers tx₂ := by
    cases event with
    | topologyUpsert md authority entity => exact applyTopologyUpsert_covers hbody
    | topologyClosure md entity =>
      cases hbody
      exact applyTopologyClosure_covers _ _ _
    | _ => exact (hw₂ ⟨false, false⟩ trivial).covers
  exact (((hw₁ _).covers.trans hbodyCovers).trans (hm _).covers) hf hc

/-- A row that is in the topology before and after an event keeps its ordinal. -/
theorem applyInner_row {core : Core} {event : NormalizedEvent} {aliasRunId : RunId}
    (hobs : Observed true event) (hf : core.model.Filed) (hc : core.model.Covered)
    (h : applyInner core event aliasRunId = .ok tx') {kind : TopologyKind} {id : String}
    {o : DisplayOrdinal} (ho : core.model.topologyOrdinal kind id = some o)
    (hrow : tx'.model.HasRow kind id) : tx'.model.topologyOrdinal kind id = some o := by
  have hkeep : ∀ rows, Allowed rows event → rows.closes = false →
      tx'.model.topologyOrdinal kind id = some o := fun rows hrows hcloses =>
    (applyInner_mutations hobs hrows hf h).row_after hf hcloses ho
  cases event with
  | topologyClosure md entity =>
    -- nothing is opened, so the ordinal that the row has is the old one
    obtain ⟨o', ho'⟩ := Option.isSome_iff_exists.mp ((applyInner_covers hobs hf hc h).2 kind id hrow)
    have hm : Mutations (.wide true ⟨false, true⟩) core _ tx'.toCore :=
      applyInner_mutations hobs rfl hf h
    have hbefore : core.model.topologyOrdinal kind id = some o' := hm.row_before hf rfl ho'
    rw [ho', ← hbefore, ho]
  | topologyUpsert md authority entity => exact hkeep ⟨true, false⟩ rfl rfl
  | _ => exact hkeep ⟨false, false⟩ trivial rfl

/-- The row is in the topology before and after each event of an observation. -/
def RowStays (kind : TopologyKind) (id : String) : Core → List (NormalizedEvent × RunId) → Prop
  | core, [] => core.model.HasRow kind id
  | core, (event, aliasRunId) :: events => core.model.HasRow kind id ∧
      ∀ tx, applyInner core event aliasRunId = .ok tx → RowStays kind id tx.toCore events

theorem RowStays.now {kind : TopologyKind} {id : String} {core : Core}
    {events : List (NormalizedEvent × RunId)} (h : RowStays kind id core events) :
    core.model.HasRow kind id := by
  cases events with
  | nil => exact h
  | cons => exact h.1

/-- The events of an observation leave every row of the topology with an ordinal, and a row that stays
in the topology with its own. -/
theorem applyEvents_rows {core : Core} {events : List (NormalizedEvent × RunId)}
    (hobs : ∀ e ∈ events, Observed true e.1) (hf : core.model.Filed) (hc : core.model.Covered)
    (h : applyEvents core events = .ok tx') : tx'.model.Covered ∧
      ∀ kind id o, RowStays kind id core events → core.model.topologyOrdinal kind id = some o →
        tx'.model.topologyOrdinal kind id = some o := by
  induction events generalizing core tx' with
  | nil =>
    cases h
    exact ⟨hc, fun _ _ _ _ ho => ho⟩
  | cons e events ih =>
    obtain ⟨tx₁, h₁, h⟩ := bind_eq_ok.mp h
    obtain ⟨later, h₂, h⟩ := bind_eq_ok.mp h
    cases h
    have hobs₁ := hobs e List.mem_cons_self
    obtain ⟨hf₁, hc₁⟩ := applyInner_covers hobs₁ hf hc h₁
    obtain ⟨hlater, hkeep⟩ := ih (fun e' he => hobs e' (List.mem_cons_of_mem _ he)) hf₁ hc₁ h₂
    refine ⟨hlater, fun kind id o hstays ho => ?_⟩
    have hnext := hstays.2 tx₁ h₁
    exact hkeep kind id o hnext (applyInner_row hobs₁ hf hc h₁ ho hnext.now)

/-! ### Snapshots -/

/-- After a snapshot every row of the topology has an ordinal. -/
theorem replaceTopology_covers {topology : TopologySnapshot} {closeMs : String → ℤ}
    (h : tx.replaceTopology topology closeMs = .ok tx') : tx.Covers tx' := by
  obtain ⟨tx₁, h₁, h⟩ := bind_eq_ok.mp h
  obtain ⟨tx₂, h₂, h₃⟩ := bind_eq_ok.mp h
  have hclear : tx.Covers (tx.clearTopology closeMs) :=
    ((Covers.foldl (fun tx paneId => closePane_covers tx paneId _) _ tx).trans
      (Covers.foldl dropTab_covers _ _)).trans (Covers.foldl dropWorkspace_covers _ _)
  have hretain : tx.Covers (tx.retainTopology topology closeMs) := by
    obtain ⟨ordinals, hretain, hget⟩ := retainTopology_get tx topology closeMs
    intro hf hc
    obtain ⟨-, hcleared⟩ := hclear hf hc
    have hw : tx.Writes outdoors (tx.retainTopology topology closeMs) := retainTopology_writes _ _ _ rfl
    refine ⟨hw.filed hf, ?_⟩
    rw [hretain]
    intro kind id hrow
    have hordinal := hcleared kind id hrow
    show (ordinals.get (kind, id)).isSome = true
    rw [hget, Option.isSome_or]
    exact Bool.or_eq_true_iff.mpr (.inr hordinal)
  exact hretain.trans ((Covers.foldlM (fun _ _ _ hs => storeWorkspace_covers hs) h₁).trans
    ((Covers.foldlM (fun _ _ _ hs => storeTab_covers hs) h₂).trans
      (Covers.foldlM (fun _ _ _ hs => storePane_covers hs) h₃)))

theorem reconcileSnapshotInner_covers {topology : TopologySnapshot} {draws : ℕ → PaneDraw} {nowMs : ℤ}
    {closeMs : String → ℤ} (hf : tx.model.Filed)
    (hfresh : FreshDraws true tx.model topology.panes draws)
    (h : tx.reconcileSnapshotInner topology draws nowMs closeMs = .ok tx') : tx.Covers tx' := by
  obtain ⟨tx₁, tx₂, h₁, hreplace, h₂⟩ :=
    @reconcileSnapshotInner_parts indoors _ _ _ _ _ _ hf hfresh rfl rfl rfl h
  have hstatuses : tx₂.Covers (tx₂.replacePaneAgentStatuses topology.panes) := by
    have hw : tx₂.Writes outdoors (tx₂.replacePaneAgentStatuses topology.panes) :=
      replacePaneAgentStatuses_writes tx₂ _ rfl
    refine fun hf hc => ⟨hw.filed hf, hc.of_rows (fun kind _ hrow => ?_) fun _ _ _ ho => ho⟩
    cases kind <;> exact hrow
  exact h₁.covers.trans ((replaceTopology_covers hreplace).trans (hstatuses.trans h₂.covers))

end

end Tx

namespace Reducer

section

variable {r r' : Reducer} {l ls : List Merge}

/-! ### Actions on the topology -/

/-- What an action leaves of the rows of the topology: they have ordinals, and those that stay have
theirs. -/
structure RowsStand (stays : TopologyKind → String → Prop) (c c' : Core) : Prop where
  /-- Every row has an ordinal. -/
  covered : c'.model.Covered
  /-- A row that stays has its own. -/
  kept : ∀ kind id o, stays kind id → c'.model.HasRow kind id → c.model.topologyOrdinal kind id = some o →
    c'.model.topologyOrdinal kind id = some o

/-- Changes that leave the topology alone. -/
theorem RowsStand.indoors {stays : TopologyKind → String → Prop} {c c' : Core}
    (h : Changes Tx.indoors c ls c') (hf : c.model.Filed) (hc : c.model.Covered) :
    RowsStand stays c c' where
  covered := h.covered rfl rfl hf hc
  kept kind id _ _ _ ho := (h.row_eq hf rfl rfl (kind, id)).trans ho

/-- Changes that leave the topology alone follow. -/
theorem RowsStand.followed {stays : TopologyKind → String → Prop} {c c' c'' : Core}
    (h : RowsStand stays c c') (hafter : Changes Tx.indoors c' ls c'') (hf : c'.model.Filed) :
    RowsStand stays c c'' where
  covered := hafter.covered rfl rfl hf h.covered
  kept kind id o hstays hrow ho := by
    have hbefore : c'.model.HasRow kind id :=
      (DomainModel.HasRow.congr (hafter.topology hf rfl rfl)).mp hrow
    exact (hafter.row_eq hf rfl rfl (kind, id)).trans (h.kept kind id o hstays hbefore ho)

theorem unmeasured_work_observation (r : Reducer) (events : List (NormalizedEvent × RunId)) (nowMs : ℤ) :
    (r.work nowMs (.observation events)).1.toCore.unmeasured =
      (r.applyObservation events nowMs).1.toCore.unmeasured := by
  dsimp only [Reducer.work]
  generalize r.applyObservation events nowMs = result
  split
  · rfl
  · exact (unmeasured_publish _ _).trans rfl
  · rfl

/-- The core and the events to which an action applies an observation. -/
def observed (r : Reducer) : Action → Core × List (NormalizedEvent × RunId)
  | .observation events _ => (r.toCore, events)
  | .paneObservation events observation _ => ((r.noted (some observation)).toCore, events)
  | .providerEvent _ (.observation events) _ _ _ _ _ => (r.toCore, events)
  | _ => (r.toCore, [])

/-- What comes with an observation changes nothing that carries identities, and no row. -/
theorem observed_rows (r : Reducer) (action : Action) :
    (r.observed action).1.model.rows = r.model.rows ∧
      ∀ kind id, (r.observed action).1.model.HasRow kind id ↔ r.model.HasRow kind id := by
  cases action with
  | paneObservation events observation nowMs =>
    obtain ⟨hkept, hrows, -⟩ := r.noted_rows (some observation)
    exact ⟨hkept, hrows⟩
  | providerEvent origin work =>
    cases work <;> exact ⟨rfl, fun _ _ => Iff.rfl⟩
  | _ => exact ⟨rfl, fun _ _ => Iff.rfl⟩

theorem observed_filed (action : Action) (hf : r.model.Filed) : (r.observed action).1.model.Filed := by
  cases action with
  | paneObservation events observation nowMs =>
    have hnoted : Changes Tx.outdoors r.toCore [] (r.noted (some observation)).toCore :=
      noted_changes (.inr rfl)
    exact hnoted.filed hf
  | providerEvent origin work =>
    cases work <;> exact hf
  | _ => exact hf

/-- How an action comes to change the topology, if it does: it applies the events of an observation or a
snapshot, and what it does afterwards leaves the topology alone. -/
inductive Rearranges (strict : Bool) (r : Reducer) (action : Action) (r' : Reducer) : Prop
  /-- The topology is left alone. -/
  | indoors {ls : List Merge} (changes : Changes (.wide strict ⟨false, false⟩) r.toCore ls r'.toCore)
  /-- Events of an observation. -/
  | events {tx : Tx} {ls : List Merge} (observed : ∀ e ∈ (r.observed action).2, Tx.Observed strict e.1)
      (applied : applyEvents (r.observed action).1 (r.observed action).2 = .ok tx)
      (after : Changes (.wide strict ⟨false, false⟩) tx.toCore ls r'.toCore)
  /-- A snapshot. -/
  | snapshot {topology : TopologySnapshot} {draws : ℕ → PaneDraw} {nowMs : ℤ} {closeMs : String → ℤ}
      {epochMs publishMs : ℤ} {tx : Tx} {ls : List Merge}
      (is : action = .snapshot topology draws nowMs closeMs epochMs publishMs)
      (applied : r.begin.reconcileSnapshotInner topology draws nowMs closeMs = .ok tx)
      (after : Changes (.wide strict ⟨false, false⟩) tx.toCore ls r'.toCore)

/-- What follows a snapshot that was applied leaves the topology alone. -/
theorem reconcileSnapshot_after {strict : Bool} {topology : TopologySnapshot} {draws : ℕ → PaneDraw}
    {nowMs : ℤ} {closeMs : String → ℤ} {epochMs publishMs : ℤ} {tx : Tx}
    (happ : r.begin.reconcileSnapshotInner topology draws nowMs closeMs = .ok tx) :
    Changes (.wide strict ⟨false, false⟩) tx.toCore []
      (r.reconcileSnapshot topology draws nowMs closeMs epochMs publishMs).1.toCore := by
  rw [reconcileSnapshot_eq]
  rw [happ]
  refine Changes.of_unmeasured ?_
  rw [unmeasured_publish, unmeasured_activateRateEpoch, unmeasured_beginRateEpoch,
    unmeasured_applyPendingTelemetry, unmeasured_applyOperatorSubmission]
  rfl

theorem perform_rearranges {strict : Bool} {action : Action} (hf : r.model.Filed)
    (hc : strict = true → r.model.IndexSound) (hadmissible : Admissible strict r action)
    (h : r.perform action = some (r', l)) : Rearranges strict r action r' := by
  have hchanges := perform_changes hadmissible h hf hc
  have hinner : ∀ (r : Reducer) events observation nowMs action,
      (∀ e ∈ events, Tx.Observed strict e.1) → r.observed action = ((r.noted observation).toCore, events) →
        Rearranges strict r action (r.applyObservationInner events observation nowMs).1 := by
    intro r events observation nowMs action hobs haction
    rcases r.applyObservationInner_cases events observation nowMs with ⟨hcore, -⟩ | ⟨tx, happ, hcore, -⟩
    · have hkept : Changes (.wide strict ⟨false, false⟩) r.toCore []
          (r.applyObservationInner events observation nowMs).1.toCore := by
        rw [hcore]
        exact .refl _
      exact .indoors hkept
    · exact .events (by rw [haction]; exact hobs) (by rw [haction]; exact happ)
        (Changes.of_unmeasured hcore)
  cases action with
  | observation events nowMs =>
    cases h
    exact hinner r events none nowMs _ hadmissible rfl
  | paneObservation events observation nowMs =>
    cases h
    exact hinner r events (some observation) nowMs _ hadmissible rfl
  | snapshot topology draws nowMs closeMs epochMs publishMs =>
    cases h
    cases happ : r.begin.reconcileSnapshotInner topology draws nowMs closeMs with
    | error error =>
      have hkept : Changes (.wide strict ⟨false, false⟩) r.toCore []
          (r.reconcileSnapshot topology draws nowMs closeMs epochMs publishMs).1.toCore := by
        rw [reconcileSnapshot_eq]
        rw [happ]
        exact .refl _
      exact .indoors hkept
    | ok tx => exact .snapshot rfl happ (reconcileSnapshot_after happ)
  | providerEvent origin work historyManifest providerAtMs observedAtMs nowMs outcome =>
    cases work with
    | observation events =>
      obtain ⟨result, hresult, h⟩ := Option.map_eq_some_iff.mp h
      cases h
      obtain ⟨r₁, hcore, ⟨hback, -⟩ | ⟨-, hafter⟩⟩ := applyProviderEvent_cases hresult
      · have hkept : Changes (.wide strict ⟨false, false⟩) r.toCore [] result.1.toCore := by
          rw [hback]
          exact .refl _
        exact .indoors hkept
      · have hf₁ : r₁.model.Filed := (congrArg Core.model hcore : r₁.model = r.model) ▸ hf
        have hobserved : Changes (.wide strict ⟨true, true⟩) r₁.toCore _
            (r₁.applyObservation events nowMs).1.toCore :=
          applyObservationInner_changes hf₁ (.inl rfl) hadmissible fun e _ => .all e.1
        have hwork : Changes (.wide strict ⟨false, false⟩) (r₁.applyObservation events nowMs).1.toCore []
            (r₁.work nowMs (.observation events)).1.toCore :=
          Changes.of_unmeasured (unmeasured_work_observation r₁ events nowMs)
        have hrest := Runs.before hwork
          (hafter (hwork.filed (hobserved.filed hf₁)) strict true ⟨false, false⟩)
        rcases r₁.applyObservationInner_cases events none nowMs with ⟨hsame, -⟩ | ⟨tx, happ, hsame, -⟩
        · have hkept : Changes (.wide strict ⟨false, false⟩) r.toCore [] result.1.toCore := by
            rw [← hcore, ← hsame]
            exact hrest
          exact .indoors hkept
        · have happlied : applyEvents (r.observed (.providerEvent origin (.observation events) historyManifest
              providerAtMs observedAtMs nowMs outcome)).1 events = .ok tx := by
            rw [← happ]
            show applyEvents r.toCore events = applyEvents r₁.toCore events
            rw [hcore]
          exact .events hadmissible happlied (Runs.before (Changes.of_unmeasured hsame) hrest)
    | _ => exact .indoors hchanges
  | _ => exact .indoors hchanges

/-- An action leaves every row of the topology with an ordinal, and one that stays with its own. -/
theorem perform_rows {action : Action} (hr : Start true r) (hc : r.model.Covered)
    (hadmissible : Admissible true r action) (h : r.perform action = some (r', l)) :
    RowsStand (fun kind id => Tx.RowStays kind id (r.observed action).1 (r.observed action).2)
      r.toCore r'.toCore := by
  have hf := hr.filed
  cases perform_rearranges hf (fun hs => (hr.identified hs).sound) hadmissible h with
  | indoors changes => exact .indoors changes hf hc
  | @events tx ls observed applied after =>
    obtain ⟨hkept, hrows⟩ := r.observed_rows action
    have hordinal : ∀ kind id,
        (r.observed action).1.model.topologyOrdinal kind id = r.model.topologyOrdinal kind id := by
      intro kind id
      simp only [DomainModel.rows, Prod.mk.injEq] at hkept
      rw [DomainModel.topologyOrdinal, hkept.2.2.2.2.2.2.2.2]
      rfl
    have hf' := observed_filed action hf
    have hc' : (r.observed action).1.model.Covered :=
      hc.of_rows (fun kind id => (hrows kind id).mp) fun kind id o ho => by rw [hordinal]; exact ho
    obtain ⟨hcovered, hstays⟩ := Tx.applyEvents_rows observed hf' hc' applied
    have hfiled : tx.model.Filed :=
      (Tx.applyEvents_mutations observed (fun e _ => .all e.1) hf' applied).filed hf'
    refine RowsStand.followed ⟨hcovered, fun kind id o hstay _ ho => ?_⟩ after hfiled
    exact hstays kind id o hstay (by rw [hordinal]; exact ho)
  | @snapshot topology draws nowMs closeMs epochMs publishMs tx ls is applied after =>
    subst is
    have hfresh : Tx.FreshDraws true r.begin.model topology.panes draws := hadmissible
    obtain ⟨hfiled, hcovered⟩ := Tx.reconcileSnapshotInner_covers hf hfresh applied hf hc
    refine RowsStand.followed ⟨hcovered, fun kind id o _ hrow ho => ?_⟩ after hfiled
    obtain ⟨o', ho'⟩ := Option.isSome_iff_exists.mp (hcovered kind id hrow)
    have hsame : o' = o := Tx.reconcileSnapshotInner_row hf hfresh applied ho ho'
    rw [ho', hsame]

/-! ### The ordinals of what survives -/

/-- What survives an action: a run that it does not absorb, every agent, and a row that is in the
topology afterwards, and after each event when the action applies an observation. -/
inductive Survives (r : Reducer) (action : Action) (l : List Merge) (r' : Reducer) : OrdinalHolder → Prop
  | run {id : RunId} (survives : ∀ p ∈ l, p.2 ≠ id) : Survives r action l r' (.run id)
  | agent {id : String} : Survives r action l r' (.agent id)
  | row {kind : TopologyKind} {id : String}
      (stays : Tx.RowStays kind id (r.observed action).1 (r.observed action).2)
      (present : r'.model.HasRow kind id) : Survives r action l r' (.row kind id)

theorem unique_fresh (headlessInactivityMs : ℤ) :
    (fresh headlessInactivityMs).toCore.numbering.Unique where
  distinct holder _ _ h _ := by cases holder <;> cases h
  below holder _ h := by cases holder <;> cases h

theorem covered_fresh (headlessInactivityMs : ℤ) : (fresh headlessInactivityMs).model.Covered := by
  intro kind id h
  cases kind <;> cases h

/-- In every state that is reached, ordinals are unique and every row of the topology has one. -/
theorem Reached.ordinals (h : Reached true ls r) : r.toCore.numbering.Unique ∧ r.model.Covered := by
  obtain ⟨ms, h⟩ := h
  have hall : Start true r ∧ r.toCore.numbering.Unique ∧ r.model.Covered := by
    refine h.invariant (I := fun r => Start true r ∧ r.toCore.numbering.Unique ∧ r.model.Covered) ?_
      ⟨start_fresh ms, unique_fresh ms, covered_fresh ms⟩
    rintro s l t hstep ⟨hs, hunique, hc⟩
    obtain ⟨ht, hchanges⟩ := Step.start hstep hs
    obtain ⟨action, hadmissible, hdone⟩ := hstep
    exact ⟨ht, (Changes.ordinals hchanges rfl hs.filed hunique).1,
      (perform_rows hs hc hadmissible hdone).covered⟩
  exact hall.2

/-- In every state that is reached the ordinals of runs, agents and rows of the topology are unique and
below the next one, every row has one, and an action leaves what survives it with its ordinal. -/
theorem ordinals_stand (h : Reached true ls r) :
    r.toCore.numbering.Unique ∧ r.model.Covered ∧
      ∀ action l r', Admissible true r action → r.perform action = some (r', l) →
        ∀ holder o, r.toCore.numbering.number holder = some o → Survives r action l r' holder →
          r'.toCore.numbering.number holder = some o := by
  obtain ⟨hunique, hc⟩ := h.ordinals
  refine ⟨hunique, hc, fun action l r' hadmissible hdone holder o ho hsurvives => ?_⟩
  have hr := h.start
  obtain ⟨-, hchanges⟩ := Step.start ⟨action, hadmissible, hdone⟩ hr
  have hkept := (Changes.ordinals hchanges rfl hr.filed hunique).2.2 holder o ho
  cases hsurvives with
  | run survives =>
    refine hkept fun hlost => ?_
    cases hlost with
    | run absorbed =>
      obtain ⟨p, hp, hid⟩ := absorbed
      exact survives p hp hid
  | agent => exact hkept fun hlost => by cases hlost
  | row stays present =>
    exact (perform_rows hr hc hadmissible hdone).kept _ _ o stays present ho

/-- A snapshot that shows nothing but some workspaces. -/
def workspacesSeen (ids : List String) : Action :=
  .snapshot { workspaces := ids.map fun id => { workspaceId := id } } (fun _ => ⟨⟨0⟩, ⟨0⟩⟩) 0
    (fun _ => 0) 0 0

theorem step_workspacesSeen (r : Reducer) (ids : List String) :
    Admissible true r (workspacesSeen ids) ∧ r.perform (workspacesSeen ids) =
      some ((r.next (workspacesSeen ids)).1, (r.next (workspacesSeen ids)).2) :=
  ⟨Tx.FreshDraws.of_no_agent fun _ hpane => (by cases hpane), rfl⟩

/-- A workspace that is seen again behind a new one keeps its ordinal. -/
theorem ordinals_stand_workspaces :
    (((fresh 0).next (workspacesSeen ["a"])).1.next (workspacesSeen ["b", "a"])).1.toCore.numbering.number
      (.row .workspace "a") = some 1 := by
  obtain ⟨hadmissible, hdone⟩ := step_workspacesSeen (fresh 0) ["a"]
  obtain ⟨hadmissible', hdone'⟩ := step_workspacesSeen ((fresh 0).next (workspacesSeen ["a"])).1 ["b", "a"]
  have hreached : Reached true _ ((fresh 0).next (workspacesSeen ["a"])).1 :=
    ⟨0, .one ⟨_, hadmissible, hdone⟩⟩
  obtain ⟨-, -, hstand⟩ := ordinals_stand hreached
  refine hstand _ _ _ hadmissible' hdone' _ 1 (by decide) (.row ?_ ?_)
  · show (((fresh 0).next (workspacesSeen ["a"])).1.model.workspaces.get "a").isSome = true
    decide
  · show ((((fresh 0).next (workspacesSeen ["a"])).1.next
      (workspacesSeen ["b", "a"])).1.model.workspaces.get "a").isSome = true
    decide

end

end Reducer

end HerdrTop
