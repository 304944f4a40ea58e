import HerdrTop.Reducer.Safety

/-!
# The times of runs

A run has a creation, a last change and, when it is over, an end. The times that observations bring
may lie before anything seen so far; a run only moves forward all the same, since every write of a row
keeps its times or touches it, and a touch takes the later of two times.

## What is proved

`Reducer.times_in_order`: in every state that is reached, a run has an end exactly when it is over, its
end lies between its creation and its last change, and the last change of a run that no other run
absorbs never moves back.
-/

namespace HerdrTop

/-- A run has an end exactly when it is over, and its end lies between its creation and its last
change. -/
structure TaskRun.Timed (run : TaskRun) : Prop where
  /-- It has an end exactly when it is over. -/
  finished : run.finishedAtMs.isSome = true ↔ run.state.isTerminal = true
  /-- Creation, end and last change, in this order. -/
  ordered : ∃ created updated, run.createdAtMs = some created ∧ run.updatedAtMs = some updated ∧
    created ≤ updated ∧ ∀ finished, run.finishedAtMs = some finished →
      created ≤ finished ∧ finished ≤ updated

/-- The last change of a run did not move back. -/
def TaskRun.NoEarlier (old run : TaskRun) : Prop :=
  ∀ updated, old.updatedAtMs = some updated →
    ∃ updated', run.updatedAtMs = some updated' ∧ updated ≤ updated'

theorem TaskRun.NoEarlier.refl (run : TaskRun) : run.NoEarlier run := fun updated h => ⟨updated, h, le_rfl⟩

theorem TaskRun.NoEarlier.trans {run₁ run₂ run₃ : TaskRun} (h : run₁.NoEarlier run₂)
    (h' : run₂.NoEarlier run₃) : run₁.NoEarlier run₃ := by
  intro updated hupdated
  obtain ⟨updated₂, hupdated₂, hle⟩ := h updated hupdated
  obtain ⟨updated₃, hupdated₃, hle'⟩ := h' updated₂ hupdated₂
  exact ⟨updated₃, hupdated₃, hle.trans hle'⟩

/-- A row comes after another one of its run: it stays in order, and its last change does not move
back. -/
structure TaskRun.Advances (old run : TaskRun) : Prop where
  /-- It stays in order. -/
  timed : old.Timed → run.Timed
  /-- Its last change does not move back. -/
  noEarlier : old.NoEarlier run

theorem TaskRun.Advances.refl (run : TaskRun) : run.Advances run := ⟨id, .refl run⟩

theorem TaskRun.Advances.trans {run₁ run₂ run₃ : TaskRun} (h : run₁.Advances run₂)
    (h' : run₂.Advances run₃) : run₁.Advances run₃ :=
  ⟨fun ht => h'.timed (h.timed ht), h.noEarlier.trans h'.noEarlier⟩

/-- A new run is in order. -/
theorem TaskRun.Stamped.timed {run : TaskRun} (h : run.Stamped) : run.Timed := by
  obtain ⟨t, hcreated, hupdated, hfinished⟩ := h
  refine ⟨?_, t, t, hcreated, hupdated, le_rfl, fun finished h => ?_⟩
  · rw [hfinished]
    split_ifs with hover <;> simp [hover]
  · rw [hfinished] at h
    split_ifs at h
    cases h
    exact ⟨le_rfl, le_rfl⟩

/-- A row that is stored again comes after the one it replaces. -/
theorem TaskRun.Follows.advances {old run : TaskRun} (h : old.Follows run) : old.Advances run := by
  obtain ⟨hcreated, -, ⟨hstate, hupdated, hfinished⟩ | ⟨t, hupdated, hfinished⟩⟩ := h
  · refine ⟨fun ht => ⟨?_, ?_⟩, fun updated h => ⟨updated, hupdated.trans h, le_rfl⟩⟩
    · rw [hfinished, hstate]
      exact ht.finished
    · rw [hcreated, hupdated, hfinished]
      exact ht.ordered
  · refine ⟨fun ht => ⟨?_, ?_⟩, fun updated h => ⟨_, hupdated, ?_⟩⟩
    · rw [hfinished]
      split_ifs with hover <;> simp [hover]
    · obtain ⟨created, updated, hc, hu, hle, hend⟩ := ht.ordered
      refine ⟨created, _, hcreated.trans hc, hupdated, ?_, fun finished h => ?_⟩
      · rw [hu, Option.getD_some]
        exact hle.trans (le_max_left _ _)
      · rw [hfinished] at h
        split_ifs at h
        cases hold : old.finishedAtMs with
        | none =>
          rw [hold, Option.getD_none, hu, Option.getD_some, Option.some.injEq] at h
          rw [hu, Option.getD_some, ← h]
          exact ⟨hle.trans (le_max_left _ _), le_rfl⟩
        | some end₀ =>
          rw [hold, Option.getD_some, Option.some.injEq] at h
          rw [hu, Option.getD_some, ← h]
          obtain ⟨hafter, hbefore⟩ := hend end₀ hold
          exact ⟨hafter, hbefore.trans (le_max_left _ _)⟩
    · rw [h, Option.getD_some]
      exact le_max_left _ _

theorem TaskRun.advances_touch (run : TaskRun) (t : ℤ) : run.Advances (touchTaskRun run t) :=
  (TaskRun.Follows.touched t rfl id rfl rfl).advances

/-! ### Every write -/

section

variable {scope : Scope} {c c' : Core} {l ls : List Merge}

/-- A binding touches the row that it binds, and a merge the row of the survivor. -/
theorem Applied.advances {m m' : DomainModel} {t : ℤ} (ha : Applied m t l m')
    (hf : ∀ id run, m.taskRuns.get id = some run → run.runId = id) {id : RunId} {run' : TaskRun}
    (hrun : m'.taskRuns.get id = some run') :
    ∃ run, m.taskRuns.get id = some run ∧ run.Advances run' := by
  cases ha with
  | unchanged => exact ⟨run', hrun, .refl run'⟩
  | touched run exist =>
    simp only [DomainModel.insertTaskRun, HashMap.get_insert, touchTaskRun_runId] at hrun
    split_ifs at hrun with e
    · cases hrun
      exact ⟨run, e ▸ exist, run.advances_touch t⟩
    · exact ⟨run', hrun, .refl run'⟩
  | bound run provider sid exist =>
    rw [get_taskRuns_boundModel rfl] at hrun
    split_ifs at hrun with e
    · cases hrun
      refine ⟨run, e ▸ exist, ?_⟩
      unfold boundRow
      split_ifs
      · exact run.advances_touch t
      · refine TaskRun.Follows.advances ?_
        exact .touched t rfl (fun h => h) rfl rfl
    · exact ⟨run', hrun, .refl run'⟩
  | @merged s a sr ar g hp =>
    rw [get_taskRuns_mergedModel hp (hf s sr hp.survivor)] at hrun
    split_ifs at hrun with e
    · cases hrun
      refine ⟨sr, e ▸ hp.survivor, TaskRun.Advances.trans ?_ (TaskRun.advances_touch _ t)⟩
      unfold adoptedRow
      split_ifs
      · refine TaskRun.Follows.advances ?_
        exact .touched t rfl (fun _ => rfl) rfl rfl
      · exact .refl sr
    · exact ⟨run', hrun, .refl run'⟩

/-- Every row is a new one in order, or it comes after the row of its run. -/
theorem Mutation.advances (h : Mutation scope c l c') (hf : c.model.Filed) {id : RunId} {run' : TaskRun}
    (hrun : c'.model.taskRuns.get id = some run') :
    (c.model.taskRuns.get id = none ∧ run'.Timed) ∨
      ∃ run, c.model.taskRuns.get id = some run ∧ run.Advances run' := by
  have hsame : c'.model.taskRuns = c.model.taskRuns →
      ∃ run, c.model.taskRuns.get id = some run ∧ run.Advances run' := by
    intro heq
    rw [heq] at hrun
    exact ⟨run', hrun, .refl run'⟩
  cases h with
  | quiet rows =>
    simp only [DomainModel.rows, Prod.mk.injEq] at rows
    exact .inr (hsame rows.1)
  | @create run new absent ordinal key stamped =>
    simp only [Core.withModel_model, DomainModel.insertTaskRun, HashMap.get_insert] at hrun
    split_ifs at hrun with e
    · cases hrun
      exact .inl ⟨e ▸ absent, stamped.timed⟩
    · exact .inr ⟨run', hrun, .refl run'⟩
  | @update run old row key ordinal absorbing follows =>
    simp only [Core.withModel_model, DomainModel.insertTaskRun, HashMap.get_insert] at hrun
    split_ifs at hrun with e
    · cases hrun
      exact .inr ⟨old, e ▸ row, follows.advances⟩
    · exact .inr ⟨run', hrun, .refl run'⟩
  | binding applied => exact .inr ((applyBindingPlanAt_applied hf.run applied).advances hf.run hrun)
  | execution => exact .inr (hsame rfl)
  | agentNode => exact .inr (hsame rfl)
  | createAgentNode => exact .inr (hsame rfl)
  | openRow => exact .inr (hsame rfl)
  | closeRows => exact .inr (hsame rfl)
  | executionEdge => exact .inr (hsame rfl)
  | dependencyEdge => exact .inr (hsame rfl)
  | lifecycle => exact .inr (hsame rfl)

theorem Change.advances (h : Change scope c l c') (hf : c.model.Filed) {id : RunId} {run' : TaskRun}
    (hrun : c'.model.taskRuns.get id = some run') :
    (c.model.taskRuns.get id = none ∧ run'.Timed) ∨
      ∃ run, c.model.taskRuns.get id = some run ∧ run.Advances run' := by
  cases h with
  | mutation h => exact h.advances hf hrun
  | history => exact .inr ⟨run', hrun, .refl run'⟩

/-! ### Every run -/

/-- The rows of a core are in order. -/
def DomainModel.InOrder (m : DomainModel) : Prop := ∀ id run, m.taskRuns.get id = some run → run.Timed

theorem Changes.inOrder (h : Changes scope c ls c') (hf : c.model.Filed) (hc : c.model.InOrder) :
    c'.model.InOrder := by
  refine (h.invariant (I := fun c => c.model.Filed ∧ c.model.InOrder) ?_ ⟨hf, hc⟩).2
  rintro c l c' hm ⟨hf, hc⟩
  refine ⟨hm.filed hf, fun id run' hrun => ?_⟩
  rcases hm.advances hf hrun with ⟨-, hnew⟩ | ⟨run, hold, hadvances⟩
  · exact hnew
  · exact hadvances.timed (hc id run hold)

/-- The last change of a run that is not absorbed does not move back. -/
theorem Changes.noEarlier (h : Changes scope c ls c') (hf : c.model.Filed) {id : RunId} {run : TaskRun}
    (hrun : c.model.taskRuns.get id = some run) (hl : ∀ p ∈ ls, p.2 ≠ id) :
    ∃ run', c'.model.taskRuns.get id = some run' ∧ run.NoEarlier run' := by
  induction h with
  | refl => exact ⟨run, hrun, .refl run⟩
  | tail hr hm ih =>
    obtain ⟨run', hrun', hbefore⟩ := ih fun p h => hl p (List.mem_append_left _ h)
    have hfiled := Changes.filed hr hf
    obtain ⟨run'', hrun'', -⟩ := hm.keeps_run hfiled hrun' fun p h => hl p (List.mem_append_right _ h)
    refine ⟨run'', hrun'', hbefore.trans ?_⟩
    rcases hm.advances hfiled hrun'' with ⟨habsent, -⟩ | ⟨old, hold, hadvances⟩
    · rw [hrun'] at habsent
      cases habsent
    · cases hrun'.symm.trans hold
      exact hadvances.noEarlier

end

namespace Reducer

variable {r r' : Reducer} {ls : List Merge}

/-- In every state that is reached, whatever the times of the observations, a run has an end exactly
when it is over, and its end lies between its creation and its last change; from then on the last
change of a run that is not absorbed never moves back. -/
theorem times_in_order (h : Reached false ls r) :
    (∀ id run, r.model.taskRun id = some run → run.Timed) ∧
      ∀ later r', Runs (Step false) r later r' → ∀ id run, r.model.taskRun id = some run →
        (∀ p ∈ later, p.2 ≠ id) → ∃ run', r'.model.taskRun id = some run' ∧
          ∃ updated updated', run.updatedAtMs = some updated ∧ run'.updatedAtMs = some updated' ∧
            updated ≤ updated' := by
  have hstart := h.start
  have hinOrder : r.model.InOrder := by
    obtain ⟨ms, h⟩ := h
    refine (run_changes h (start_fresh ms)).2.inOrder (filed_fresh ms) ?_
    intro id run hrun
    cases hrun
  refine ⟨hinOrder, fun later r' hlater id run hrun hsurvives => ?_⟩
  obtain ⟨run', hrun', hnoEarlier⟩ :=
    (run_changes hlater hstart).2.noEarlier hstart.filed hrun hsurvives
  obtain ⟨created, updated, -, hupdated, -⟩ := (hinOrder id run hrun).ordered
  obtain ⟨updated', hupdated', hle⟩ := hnoEarlier updated hupdated
  exact ⟨run', hrun', updated, updated', hupdated, hupdated', hle⟩

/-- The job is blocked, reported at a time before anything else. -/
def jobBlockedEarlier : Action :=
  .controllerEvent
    { schemaVersion := 1, taskRunId := "job", event := .blocked
      metadata := { eventId := "b", timestampMs := -1, receiptTimeMs := -1, source := "cli" } }
    ⟨⟨1⟩, ⟨2⟩, ⟨3⟩⟩ 1

theorem step_jobBlockedEarlier :
    Step false jobDone (jobDone.next jobBlockedEarlier).2 (jobDone.next jobBlockedEarlier).1 :=
  step_next trivial rfl

/-- A report from before the end of a job moves nothing back. -/
theorem times_in_order_jobDone : ∃ run run', jobDone.model.taskRun ⟨1⟩ = some run ∧ run.Timed ∧
    (jobDone.next jobBlockedEarlier).1.model.taskRun ⟨1⟩ = some run' ∧
      ∃ updated updated', run.updatedAtMs = some updated ∧ run'.updatedAtMs = some updated' ∧
        updated ≤ updated' := by
  obtain ⟨hinOrder, hlater⟩ := times_in_order reached_jobDone
  obtain ⟨run, hrun⟩ := Option.isSome_iff_exists.mp (show (jobDone.model.taskRun ⟨1⟩).isSome = true by decide)
  obtain ⟨run', hrun', hle⟩ := hlater _ _ (.one step_jobBlockedEarlier) ⟨1⟩
    run hrun (by decide)
  exact ⟨run, run', hrun, hinOrder ⟨1⟩ run hrun, hrun', hle⟩

end Reducer

end HerdrTop
