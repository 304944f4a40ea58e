import HerdrTop.Library.Closure
import HerdrTop.Status.Visibility

/-!
# What is in view

A run is in view for its own sake, or because it dispatched a run that is and only its end hides it. That is the
least set with the former which is closed under the latter, however the dispatches are ordered and whether they go in
circles or not.

## What is proved

* `mem_defaultVisible`: the rounds of the closure come to an end with the runs in view.
* `InView.least`: they are the least closed set.
* `InView.rehash`: the order in which the model is visited does not matter.
* `InView.earlier`: what is in view was in view before.
-/

namespace HerdrTop

open Closure

section

variable {ghostVisibilityMs nowMs t : ℤ} {m m' : DomainModel} {run : TaskRun} {id : RunId}

/-- The run is in view for its own sake. -/
def OwnInView (ghostVisibilityMs : ℤ) (m : DomainModel) (nowMs : ℤ) (id : RunId) : Prop :=
  ∃ run, m.taskRun id = some run ∧ isDefaultVisibleTaskRun ghostVisibilityMs m run nowMs = true

/-- The second run dispatched the first one, and only its end hides it. -/
def ExpiredParent (ghostVisibilityMs : ℤ) (m : DomainModel) (nowMs : ℤ) (child parent : RunId) : Prop :=
  ⟨parent, child⟩ ∈ m.executionEdges.keys ∧
    ∃ run, m.taskRun parent = some run ∧ isExpiredLifecycleAncestor ghostVisibilityMs m run nowMs = true

/-- The run is in view. -/
def InView (ghostVisibilityMs : ℤ) (m : DomainModel) (nowMs : ℤ) : RunId → Prop :=
  LedTo (ExpiredParent ghostVisibilityMs m nowMs) (OwnInView ghostVisibilityMs m nowMs)

theorem eligible_iff {endMs : Option ℤ} :
    isDefaultVisibilityPolicyEligible m run endMs nowMs ghostVisibilityMs = true ↔ run.dismissedAtMs = none ∧
      isGhost run endMs nowMs ghostVisibilityMs = false ∧ isHookOnlyStaleTaskRun m run nowMs = false := by
  unfold isDefaultVisibilityPolicyEligible
  split_ifs with hdismissed hghost hhook
  · simp [Option.isSome_iff_ne_none.mp hdismissed]
  · simp [hghost]
  · simp [hhook]
  · simpa [hghost, hhook] using hdismissed

theorem isDefaultVisible_iff : isDefaultVisibleTaskRun ghostVisibilityMs m run nowMs = true ↔
    isDefaultVisibilityPolicyEligible m run (m.effectiveLifecycleEndMs run) nowMs ghostVisibilityMs = true ∧
      ∀ endMs, m.effectiveLifecycleEndMs run = some endMs → nowMs < satAddI64 endMs defaultTerminalVisibilityMs := by
  unfold isDefaultVisibleTaskRun
  dsimp only
  split_ifs with h
  · rw [Bool.not_eq_true'] at h
    simp [h]
  · rw [Bool.not_eq_true', Bool.not_eq_false] at h
    rw [Option.all_eq_true]
    simp [h]

theorem isExpiredAncestor_iff : isExpiredLifecycleAncestor ghostVisibilityMs m run nowMs = true ↔
    isDefaultVisibilityPolicyEligible m run (m.effectiveLifecycleEndMs run) nowMs ghostVisibilityMs = true ∧
      ∃ endMs, m.effectiveLifecycleEndMs run = some endMs ∧ satAddI64 endMs defaultTerminalVisibilityMs ≤ nowMs := by
  unfold isExpiredLifecycleAncestor
  rw [Bool.and_eq_true, Option.any_eq_true]
  simp only [decide_eq_true_eq]

/-! ### The rounds -/

theorem mem_ownVisible (hkeyed : ∀ id run, m.taskRuns.get id = some run → run.runId = id) :
    id ∈ (ownVisible ghostVisibilityMs m nowMs).keys ↔ OwnInView ghostVisibilityMs m nowMs id := by
  simp only [ownVisible, HashSet.mem_keys_ofList, List.mem_map, List.mem_filter, HashMap.mem_values]
  constructor
  · rintro ⟨run, ⟨⟨name, hname⟩, hvisible⟩, rfl⟩
    refine ⟨run, ?_, hvisible⟩
    rw [hkeyed name run hname]
    exact hname
  · rintro ⟨run, hrun, hvisible⟩
    exact ⟨run, ⟨⟨id, hrun⟩, hvisible⟩, hkeyed id run hrun⟩

theorem mem_expiredAncestors (hkeyed : ∀ id run, m.taskRuns.get id = some run → run.runId = id)
    (visible : HashSet RunId) : id ∈ expiredAncestors ghostVisibilityMs m nowMs visible ↔
      id ∉ visible.keys ∧ ∃ child ∈ visible.keys, ExpiredParent ghostVisibilityMs m nowMs child id := by
  simp only [expiredAncestors, List.mem_map, List.mem_filter, List.mem_filterMap, Bool.not_eq_true',
    HashSet.contains_iff_mem_keys, ← Bool.not_eq_true]
  constructor
  · rintro ⟨run, ⟨⟨parent, ⟨⟨edge, ⟨hedge, hchild⟩, rfl⟩, hhidden⟩, hrun⟩, hexpired⟩, rfl⟩
    rw [hkeyed _ run hrun]
    exact ⟨hhidden, edge.childRunId, hchild, hedge, run, hrun, hexpired⟩
  · rintro ⟨hhidden, child, hchild, hedge, run, hrun, hexpired⟩
    exact ⟨run, ⟨⟨id, ⟨⟨⟨id, child⟩, ⟨hedge, hchild⟩, rfl⟩, hhidden⟩, hrun⟩, hexpired⟩, hkeyed id run hrun⟩

theorem closeOverAncestors_eq (turns : ℕ) (visible : HashSet RunId) :
    closeOverAncestors ghostVisibilityMs m nowMs turns visible =
      saturate (expiredAncestors ghostVisibilityMs m nowMs) turns visible := by
  induction turns generalizing visible with
  | zero => rfl
  | succ turns ih =>
    rw [closeOverAncestors, saturate]
    split_ifs
    · rfl
    · exact ih _

/-- A turn for each run is enough: the closure ends with the runs in view. -/
theorem mem_defaultVisible (hkeyed : ∀ id run, m.taskRuns.get id = some run → run.runId = id) :
    id ∈ (defaultVisibleTaskRunIds ghostVisibilityMs m nowMs).keys ↔ InView ghostVisibilityMs m nowMs id := by
  have hknown : ∀ child parent, ExpiredParent ghostVisibilityMs m nowMs child parent →
      parent ∈ m.taskRuns.values.map (·.runId) := by
    rintro child parent ⟨-, run, hrun, -⟩
    exact List.mem_map.mpr ⟨run, HashMap.mem_values.mpr ⟨parent, hrun⟩, hkeyed parent run hrun⟩
  have hturns : missing (m.taskRuns.values.map (·.runId)) (ownVisible ghostVisibilityMs m nowMs) ≤
      m.taskRuns.values.length := by
    have h := missing_le_length (m.taskRuns.values.map (·.runId)) (ownVisible ghostVisibilityMs m nowMs)
    rwa [List.length_map] at h
  rw [defaultVisibleTaskRunIds, closeOverAncestors_eq,
    mem_saturate (fun visible _ => mem_expiredAncestors hkeyed visible) hknown hturns]
  constructor
  · exact fun h => h.mono (fun _ => (mem_ownVisible hkeyed).mp) fun _ _ h => h
  · exact fun h => h.mono (fun _ => (mem_ownVisible hkeyed).mpr) fun _ _ h => h

/-- There is nothing left to add in the end. -/
theorem closeOverAncestors_closed (hkeyed : ∀ id run, m.taskRuns.get id = some run → run.runId = id) :
    expiredAncestors ghostVisibilityMs m nowMs (defaultVisibleTaskRunIds ghostVisibilityMs m nowMs) = [] := by
  refine List.eq_nil_iff_forall_not_mem.mpr fun id hid => ?_
  obtain ⟨hhidden, child, hchild, hparent⟩ := (mem_expiredAncestors hkeyed _).mp hid
  rw [mem_defaultVisible hkeyed] at hhidden hchild
  exact hhidden (hchild.step hparent)

/-- The runs in view are in every set that has those in view for their own sake and that is closed. -/
theorem InView.least (h : InView ghostVisibilityMs m nowMs id) {S : RunId → Prop}
    (hown : ∀ id, OwnInView ghostVisibilityMs m nowMs id → S id)
    (hclosed : ∀ child parent, S child → ExpiredParent ghostVisibilityMs m nowMs child parent → S parent) : S id :=
  h.mem_closed hown hclosed

theorem InView.known (h : InView ghostVisibilityMs m nowMs id) : (m.taskRun id).isSome = true := by
  refine h.least (S := fun id => (m.taskRun id).isSome = true) (fun id hown => ?_) fun child parent _ hparent => ?_
  · obtain ⟨run, hrun, -⟩ := hown
    rw [hrun]
    rfl
  · obtain ⟨-, run, hrun, -⟩ := hparent
    rw [hrun]
    rfl

/-! ### The order of the model -/

/-- The same runs, executions and dispatches, visited in other orders. -/
structure DomainModel.Reordered (m m' : DomainModel) : Prop where
  runs : HashMap.Rehash m.taskRuns m'.taskRuns
  states : HashMap.Rehash m.v6States m'.v6States
  executions : HashMap.Rehash m.executions m'.executions
  edges : HashMap.Rehash m.executionEdges m'.executionEdges

namespace DomainModel.Reordered

theorem symm (h : m.Reordered m') : m'.Reordered m :=
  ⟨List.Perm.symm h.runs, List.Perm.symm h.states, List.Perm.symm h.executions, List.Perm.symm h.edges⟩

theorem lifecycleEnd (h : m.Reordered m') (run : TaskRun) :
    m'.effectiveLifecycleEndMs run = m.effectiveLifecycleEndMs run := by
  unfold effectiveLifecycleEndMs v6State
  rw [h.states.get]

theorem hasExecution (h : m.Reordered m') (id : RunId) : m'.hasExecution id = m.hasExecution id := by
  unfold DomainModel.hasExecution
  exact (h.executions.values_perm.any_eq).symm

theorem eligible (h : m.Reordered m') (run : TaskRun) (endMs : Option ℤ) :
    isDefaultVisibilityPolicyEligible m' run endMs nowMs ghostVisibilityMs =
      isDefaultVisibilityPolicyEligible m run endMs nowMs ghostVisibilityMs := by
  unfold isDefaultVisibilityPolicyEligible isHookOnlyStaleTaskRun
  rw [h.hasExecution]

theorem ownInView (h : m.Reordered m') (hown : OwnInView ghostVisibilityMs m nowMs id) :
    OwnInView ghostVisibilityMs m' nowMs id := by
  obtain ⟨run, hrun, hvisible⟩ := hown
  refine ⟨run, (h.runs.get id).trans hrun, ?_⟩
  rw [isDefaultVisible_iff] at hvisible ⊢
  rwa [h.lifecycleEnd, h.eligible]

theorem expiredParent (h : m.Reordered m') {child parent : RunId}
    (hparent : ExpiredParent ghostVisibilityMs m nowMs child parent) :
    ExpiredParent ghostVisibilityMs m' nowMs child parent := by
  obtain ⟨hedge, run, hrun, hexpired⟩ := hparent
  refine ⟨h.edges.keys_perm.mem_iff.mp hedge, run, (h.runs.get parent).trans hrun, ?_⟩
  rw [isExpiredAncestor_iff] at hexpired ⊢
  rwa [h.lifecycleEnd, h.eligible]

/-- The order in which the model is visited does not matter. -/
theorem inView (h : m.Reordered m') : InView ghostVisibilityMs m' nowMs id ↔ InView ghostVisibilityMs m nowMs id :=
  ⟨fun hview => hview.mono (fun _ => h.symm.ownInView) fun _ _ => h.symm.expiredParent,
    fun hview => hview.mono (fun _ => h.ownInView) fun _ _ => h.expiredParent⟩

end DomainModel.Reordered

/-! ### The passage of time -/

theorem isGhost_mono {endMs : Option ℤ} (hle : nowMs ≤ t) (h : isGhost run endMs nowMs ghostVisibilityMs = true) :
    isGhost run endMs t ghostVisibilityMs = true := by
  unfold isGhost at h ⊢
  split at h
  · exact decide_eq_true ((of_decide_eq_true h).trans hle)
  · cases h

theorem isHookOnlyStale_mono (hle : nowMs ≤ t) (h : isHookOnlyStaleTaskRun m run nowMs = true) :
    isHookOnlyStaleTaskRun m run t = true := by
  unfold isHookOnlyStaleTaskRun at h ⊢
  rw [Bool.and_eq_true, Option.any_eq_true] at h ⊢
  obtain ⟨hhook, updatedAtMs, hupdated, hpast⟩ := h
  exact ⟨hhook, updatedAtMs, hupdated, decide_eq_true ((of_decide_eq_true hpast).trans hle)⟩

theorem eligible_earlier {endMs : Option ℤ} (hle : nowMs ≤ t)
    (h : isDefaultVisibilityPolicyEligible m run endMs t ghostVisibilityMs = true) :
    isDefaultVisibilityPolicyEligible m run endMs nowMs ghostVisibilityMs = true := by
  rw [eligible_iff] at h ⊢
  obtain ⟨hdismissed, hghost, hhook⟩ := h
  refine ⟨hdismissed, ?_, ?_⟩
  · exact Bool.eq_false_iff.mpr fun hbefore => by simp [isGhost_mono hle hbefore] at hghost
  · exact Bool.eq_false_iff.mpr fun hbefore => by simp [isHookOnlyStale_mono hle hbefore] at hhook

theorem OwnInView.earlier (hle : nowMs ≤ t) (h : OwnInView ghostVisibilityMs m t id) :
    OwnInView ghostVisibilityMs m nowMs id := by
  obtain ⟨run, hrun, hvisible⟩ := h
  rw [isDefaultVisible_iff] at hvisible
  refine ⟨run, hrun, isDefaultVisible_iff.mpr ⟨eligible_earlier hle hvisible.1, fun endMs hend => ?_⟩⟩
  exact hle.trans_lt (hvisible.2 endMs hend)

/-- What is in view was in view before. -/
theorem InView.earlier (hle : nowMs ≤ t) (h : InView ghostVisibilityMs m t id) :
    InView ghostVisibilityMs m nowMs id := by
  refine h.least (fun id hown => .seed (hown.earlier hle)) fun child parent hchild ⟨hedge, run, hrun, hexpired⟩ => ?_
  obtain ⟨heligible, endMs, hend, hpast⟩ := isExpiredAncestor_iff.mp hexpired
  have hbefore := eligible_earlier hle heligible
  -- a parent that was not yet hidden was in view for its own sake
  by_cases hover : satAddI64 endMs defaultTerminalVisibilityMs ≤ nowMs
  · exact hchild.step ⟨hedge, run, hrun, isExpiredAncestor_iff.mpr ⟨hbefore, endMs, hend, hover⟩⟩
  · refine .seed ⟨run, hrun, isDefaultVisible_iff.mpr ⟨hbefore, fun last hlast => ?_⟩⟩
    obtain rfl := Option.some.inj (hend.symm.trans hlast)
    exact not_le.mp hover

end

end HerdrTop
