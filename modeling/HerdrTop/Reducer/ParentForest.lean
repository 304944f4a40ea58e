import HerdrTop.Library.Forest
import HerdrTop.Reducer.Safety

/-!
# The parents of agents

An agent names its parent, which may be seen later than its children, or never. The links form a
forest in every state: a link is only set after a walk up from the new parent that does not meet the
agent.

## What is proved

* `Tx.providerParentIsValid_iff`: in a forest, a parent is valid exactly when it is neither the agent
  nor below it; the fuel of the walk never runs out early.
* `Reducer.parents_form_a_forest`: in every state that is reached the links form a forest, and an
  observation changes no link but that of its agent, which it leaves alone when the parent it names is
  not valid.
-/

namespace HerdrTop

open Forest Relation

/-- The parent that an agent names, which need not exist. -/
def DomainModel.parentOf (m : DomainModel) (id : String) : Option String :=
  (m.agentNode id).bind (·.parentAgentNodeId)

section

variable {m m' : DomainModel} {id parentId : String} {node : AgentNode}

theorem DomainModel.parentOf_congr (h : m'.agentNodes = m.agentNodes) : m'.parentOf = m.parentOf := by
  funext id
  unfold DomainModel.parentOf DomainModel.agentNode
  rw [h]

theorem DomainModel.parentOf_of_get (h : m.agentNodes.get id = some node) :
    m.parentOf id = node.parentAgentNodeId := by
  unfold DomainModel.parentOf DomainModel.agentNode
  rw [h]
  rfl

/-- An agent that is stored brings its parent. -/
theorem DomainModel.parentOf_insertAgentNode (m : DomainModel) (node : AgentNode) :
    (m.insertAgentNode node).parentOf =
      Function.update m.parentOf node.agentNodeId node.parentAgentNodeId := by
  funext id
  unfold DomainModel.parentOf DomainModel.agentNode DomainModel.insertAgentNode
  rw [HashMap.get_insert]
  split_ifs with h
  · rw [h, Function.update_self]
    rfl
  · rw [Function.update_of_ne h]

/-- Only agents that exist have parents. -/
theorem DomainModel.mem_keys_of_parentOf (h : m.parentOf id = some parentId) : id ∈ m.agentNodes.keys := by
  obtain ⟨node, hnode, -⟩ := Option.bind_eq_some_iff.mp h
  exact HashMap.mem_keys.mpr ⟨node, hnode⟩

/-! ### The check of a parent -/

namespace Tx

/-- The walk over agents is the walk over their links. -/
theorem parentChainAvoids_eq (m : DomainModel) (childId : String) (fuel : ℕ) (visited : List String)
    (nodeId : String) :
    parentChainAvoids m childId fuel visited nodeId = avoids m.parentOf childId fuel visited nodeId := by
  induction fuel generalizing visited nodeId with
  | zero => rfl
  | succ fuel ih =>
    unfold parentChainAvoids avoids
    split_ifs
    · rfl
    · have hparent : (m.agentNode nodeId).bind (·.parentAgentNodeId) = m.parentOf nodeId := rfl
      rw [hparent]
      cases m.parentOf nodeId with
      | none => rfl
      | some parentId => exact ih _ _

/-- A valid parent is not below the agent. -/
theorem not_above_of_valid {childId : String} (h : providerParentIsValid m childId parentId = true) :
    ¬ ReflTransGen (Ascends m.parentOf) parentId childId := by
  unfold providerParentIsValid at h
  split_ifs at h
  rw [parentChainAvoids_eq] at h
  exact not_above_of_avoids h

/-- In a forest, a parent is valid exactly when it is neither the agent nor below it. -/
theorem providerParentIsValid_iff (hforest : IsForest m.parentOf) {childId : String} :
    providerParentIsValid m childId parentId = true ↔
      ¬ ReflTransGen (Ascends m.parentOf) parentId childId := by
  refine ⟨not_above_of_valid, fun habove => ?_⟩
  have hne : childId ≠ parentId := by
    rintro rfl
    exact habove .refl
  unfold providerParentIsValid
  rw [if_neg hne, parentChainAvoids_eq]
  exact (avoids_iff hforest (fun _ _ => DomainModel.mem_keys_of_parentOf) (by omega)).mpr habove

end Tx

end

/-! ### Every write keeps the forest -/

section

variable {scope : Scope} {c c' : Core} {l ls : List Merge}

/-- A binding gives agents to other runs, and changes no link. -/
theorem Applied.parentOf {m m' : DomainModel} {t : ℤ} (ha : Applied m t l m') :
    m'.parentOf = m.parentOf := by
  cases ha with
  | unchanged => rfl
  | touched => rfl
  | bound =>
    unfold boundModel
    split_ifs <;> rfl
  | merged hp =>
    funext id
    unfold DomainModel.parentOf DomainModel.agentNode
    rw [(rows_mergedModel _ _ _ _ _ _).2.1, HashMap.get_mapValues, Option.bind_map]
    refine congrArg _ (funext fun node => ?_)
    show (node.repoint _ _).parentAgentNodeId = node.parentAgentNodeId
    unfold AgentNode.repoint
    split_ifs <;> rfl

theorem Mutation.forest (h : Mutation scope c l c') (hf : c.model.Filed)
    (hforest : IsForest c.model.parentOf) : IsForest c'.model.parentOf := by
  cases h with
  | quiet rows =>
    simp only [DomainModel.rows, Prod.mk.injEq] at rows
    rw [DomainModel.parentOf_congr rows.2.2.2.2.1]
    exact hforest
  | binding applied =>
    rw [Core.withModel_model, (applyBindingPlanAt_applied hf.run applied).parentOf]
    exact hforest
  | @agentNode node old owner row ordinal parent =>
    rw [Core.withModel_model, DomainModel.parentOf_insertAgentNode]
    rcases parent with hsame | ⟨parentId, hparent, hvalid⟩
    · rw [hsame, ← DomainModel.parentOf_of_get row, Function.update_eq_self]
      exact hforest
    · refine hforest.update fun b hb => ?_
      cases hparent.symm.trans hb
      exact Tx.not_above_of_valid hvalid
  | createAgentNode owner new absent ordinal parent =>
    rw [Core.withModel_model, DomainModel.parentOf_insertAgentNode]
    exact hforest.update fun b hb => Tx.not_above_of_valid (parent b hb)
  | create => exact hforest
  | update => exact hforest
  | execution => exact hforest
  | openRow => exact hforest
  | closeRows => exact hforest
  | executionEdge => exact hforest
  | dependencyEdge => exact hforest
  | lifecycle => exact hforest

theorem Changes.forest (h : Changes scope c ls c') (hf : c.model.Filed)
    (hforest : IsForest c.model.parentOf) : IsForest c'.model.parentOf := by
  refine (h.invariant (I := fun c => c.model.Filed ∧ IsForest c.model.parentOf) ?_ ⟨hf, hforest⟩).2
  rintro c l c' hm ⟨hf, hforest⟩
  refine ⟨hm.filed hf, ?_⟩
  cases hm with
  | mutation hm => exact hm.forest hf hforest
  | history => exact hforest

end

/-! ### An observation of an agent -/

namespace Tx

variable {tx tx' tx₁ : Tx} {observed : AgentNodeObservation} {node : AgentNode} {requestedId : String}

/-- A parent that is not valid is not given. -/
theorem linkParent_rejected (hinvalid : providerParentIsValid tx.model node.agentNodeId
      (resolveParentNodeId tx.model requestedId node.provider node.taskRunId) = false) :
    tx.linkParent node (some requestedId) =
      (node, tx.withModel (tx.model.updateDiagnostics (·.recordProviderParentConflict))) := by
  unfold linkParent
  dsimp only
  rw [hinvalid]
  rfl

/-- An agent whose requested parent is not valid keeps the parent it has, and no other link changes. -/
theorem parentOf_rejected (hf : tx.model.Filed)
    (hname : ∀ sid, observed.nativeSessionId = some sid →
      observed.agentNodeId = deterministicAgentNodeId observed.provider sid)
    (hnode : tx.observedAgentNode observed = .ok (node, tx₁))
    (hrequested : observed.parentAgentNodeId = some requestedId)
    (hinvalid : providerParentIsValid tx.model node.agentNodeId
      (resolveParentNodeId tx.model requestedId node.provider node.taskRunId) = false)
    (h : tx.applyAgentNodeObservation observed = .ok tx') : tx'.model.parentOf = tx.model.parentOf := by
  have hcases := observedAgentNode_cases hnode hf
  have hmodel : tx₁.model = tx.model := by
    rcases hcases with ⟨rfl, -⟩ | ⟨rfl, -⟩ <;> rfl
  have hparent : node.parentAgentNodeId = tx.model.parentOf node.agentNodeId := by
    rcases hcases with ⟨-, hrow⟩ | ⟨-, -, -, hroot, hfree⟩
    · exact (DomainModel.parentOf_of_get hrow).symm
    · unfold DomainModel.parentOf DomainModel.agentNode
      rw [hroot, hfree hname]
      rfl
  unfold applyAgentNodeObservation at h
  split_ifs at h
  · cases h
    rfl
  · obtain ⟨⟨node', tx₂⟩, hnode', h⟩ := bind_eq_ok.mp h
    cases hnode.symm.trans hnode'
    have hrejected : providerParentIsValid tx₁.model (patchAgentNode node observed).agentNodeId
        (resolveParentNodeId tx₁.model requestedId (patchAgentNode node observed).provider
          (patchAgentNode node observed).taskRunId) = false := by
      rw [hmodel]
      exact hinvalid
    have hlink := linkParent_rejected hrejected
    dsimp only at h
    rw [hrequested, hlink] at h
    cases h
    show (DomainModel.insertAgentNode _ (patchAgentNode node observed)).parentOf = _
    rw [DomainModel.parentOf_insertAgentNode]
    show Function.update tx₁.model.parentOf node.agentNodeId node.parentAgentNodeId = _
    rw [hparent, hmodel, Function.update_eq_self]

end Tx

/-! ### Every state that is reached -/

namespace Reducer

variable {r : Reducer} {ls : List Merge}

theorem Reached.forest (h : Reached false ls r) : IsForest r.model.parentOf := by
  obtain ⟨ms, h⟩ := h
  exact (run_changes h (start_fresh ms)).2.forest (filed_fresh ms) isForest_none

/-- In every state that is reached, the links of agents to their parents form a forest, and so they do
wherever a transaction stands; there, an agent whose requested parent is not valid keeps the parent it
has, and no other link changes. -/
theorem parents_form_a_forest (h : Reached false ls r) : IsForest r.model.parentOf ∧
    ∀ rows tx, r.begin.Mutates (.wide false rows) tx → IsForest tx.model.parentOf ∧
      ∀ (observed : AgentNodeObservation) (node : AgentNode) (tx₁ tx' : Tx) (requestedId : String),
        (∀ sid, observed.nativeSessionId = some sid →
          observed.agentNodeId = deterministicAgentNodeId observed.provider sid) →
        tx.observedAgentNode observed = .ok (node, tx₁) →
        observed.parentAgentNodeId = some requestedId →
        Tx.providerParentIsValid tx.model node.agentNodeId
          (Tx.resolveParentNodeId tx.model requestedId node.provider node.taskRunId) = false →
        tx.applyAgentNodeObservation observed = .ok tx' → tx'.model.parentOf = tx.model.parentOf := by
  refine ⟨h.forest, fun rows tx hmutates => ?_⟩
  obtain ⟨later, hchanges, -⟩ := hmutates h.start.filed
  refine ⟨(Mutations.changes hchanges).forest h.start.filed h.forest, ?_⟩
  intro observed node tx₁ tx' requestedId hname hnode hrequested hinvalid hdone
  exact Tx.parentOf_rejected (hchanges.filed h.start.filed) hname hnode hrequested hinvalid hdone

/-- An agent of the job, with the parent it names. -/
def jobAgent (id : String) (parent : Option String) : AgentNodeObservation where
  agentNodeId := id
  provider := .claude
  taskRunId := ⟨1⟩
  parentAgentNodeId := parent

/-- An agent of the job is seen. -/
def jobAgentSeen (id : String) (parent : Option String) : Action :=
  .observation [(.agentNodeUpsert
    { eventId := id, timestampMs := 1, receiptTimeMs := 1, source := "provider" } (jobAgent id parent),
    ⟨4⟩)] 1

/-- The job has an agent whose parent was not seen yet. -/
def childSeen : Reducer := (jobDone.next (jobAgentSeen "child" (some "parent"))).1

theorem reached_childSeen : ∃ ls, Reached false ls childSeen := by
  have hobserved : Admissible false jobDone (jobAgentSeen "child" (some "parent")) := by
    intro e he
    cases List.mem_singleton.mp he
    exact ⟨rfl, rfl, Bool.noConfusion, Bool.noConfusion⟩
  obtain ⟨ms, hdone⟩ := reached_jobDone
  exact ⟨_, ms, hdone.trans (.one (step_next hobserved rfl))⟩

/-- The parent is seen, and names its child as its parent. -/
theorem parents_form_a_forest_childSeen : childSeen.model.parentOf "child" = some "parent" ∧
    IsForest childSeen.model.parentOf ∧
      ∀ tx, childSeen.begin.applyAgentNodeObservation (jobAgent "parent" (some "child")) = .ok tx →
        tx.model.parentOf = childSeen.model.parentOf := by
  obtain ⟨ls, hreached⟩ := reached_childSeen
  obtain ⟨hforest, hrejected⟩ := parents_form_a_forest hreached
  refine ⟨by decide, hforest, fun tx hdone => ?_⟩
  refine (hrejected ⟨true, true⟩ childSeen.begin (.refl _)).2 (jobAgent "parent" (some "child")) _ _ tx
    "child" ?_ rfl rfl (by decide) hdone
  intro sid hsid
  cases hsid

end Reducer

end HerdrTop
