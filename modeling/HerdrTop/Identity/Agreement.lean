import HerdrTop.Identity.Apply

/-!
# Plans and their application agree

A plan reads the model, its application reads it again. For a coherent model the two never
disagree: what was planned as a binding or a merge succeeds, and what fails leaves the
model as it was.
-/

namespace HerdrTop

open NameIndex

/-- The run the evidence is about. -/
def BindingEvidence.run : BindingEvidence → RunId
  | .nativeSession run _ _ => run
  | .heuristicNativeSession run _ => run
  | .nativePathResolved run _ _ => run
  | .controllerNativeSession controllerRun _ _ => controllerRun
  | .controllerTerminal controllerRun _ => controllerRun

/-- A key of a run: indexed for it, or its own. -/
def KeyOf (m : DomainModel) (run : RunId) (k : RunKey) : Prop :=
  m.index.names k = some run ∨ m.index.own run = some k

/-- The keys that evidence asks to bring together: those of its run, and the session it names
or those of the runs that live in the terminal it names. -/
def RequestedKey (m : DomainModel) (ev : BindingEvidence) (k : RunKey) : Prop :=
  KeyOf m ev.run k ∨
    match ev with
    | .nativeSession _ provider sid => k = .native provider sid
    | .heuristicNativeSession _ sid => k = .native .codex sid
    | .nativePathResolved _ provider sid => k = .native provider sid
    | .controllerNativeSession _ provider sid => k = .native provider sid
    | .controllerTerminal _ terminalId => ∃ run ∈ m.liveRuns terminalId, KeyOf m run k

/-- What a plan to bind promises: the run can take the session, and nothing else is asked. -/
def BindPromise (m : DomainModel) (ev : BindingEvidence) (run : RunId) (key : RunKey) : Prop :=
  ∃ r provider sid, key = .native provider sid ∧ BindPermitted m run r provider sid ∧
    ∀ k, RequestedKey m ev k → KeyOf m run k ∨ k = key

/-- What a plan to merge promises: the merge is permitted, and nothing else is asked. -/
def MergePromise (m : DomainModel) (ev : BindingEvidence) (s a : RunId) : Prop :=
  (∃ c, preflightMerge m s a = .ok c) ∧ ∀ k, RequestedKey m ev k → KeyOf m s k ∨ KeyOf m a k

/-- What a plan promises. -/
def PlanPromise (m : DomainModel) (ev : BindingEvidence) : BindingPlan → Prop
  | .bind run key => BindPromise m ev run key
  | .merge s a => MergePromise m ev s a
  | _ => True

variable {m : DomainModel}

/-- A run whose own key is neither a session nor a Controller name has no session. -/
theorem bindPermitted_of_weak (h : m.IndexCoherent) {run : RunId} {r : TaskRun}
    {provider : Provider} {sid : String} (hr : m.taskRun run = some r)
    (hweak : keyPriority r.key ≤ 1) (hfree : m.taskRunByKey (.native provider sid) = none) :
    BindPermitted m run r provider sid := by
  refine ⟨hr, h.sound.names_eq_none hfree, ?_⟩
  obtain ⟨b, hb⟩ := h.sound.singleNativeBinding_ok run
  cases b with
  | none => exact hb
  | some n =>
    have hn := h.sound.ownsNative_iff.mp ((singleNativeBinding_ok hb n).mpr rfl)
    have := h.index.special_owner run r.key _ (DomainModel.own_of_get hr) hn rfl
    cases hk : r.key <;> rw [hk] at hweak this <;>
      simp [keyPriority, runKeyKinds, RunKey.isNative, RunKey.isController] at hweak this

theorem plannedMerge_promise {ev : BindingEvidence} {s a : RunId}
    (hreq : ∀ k, RequestedKey m ev k → KeyOf m s k ∨ KeyOf m a k) :
    PlanPromise m ev (plannedMerge m s a) := by
  cases hp : plannedMerge m s a with
  | noChange => trivial
  | conflict _ => trivial
  | bind run key => exact absurd hp plannedMerge_not_bind
  | merge s' a' =>
    obtain ⟨rfl, rfl, hc⟩ := plannedMerge_merge hp
    exact ⟨hc, hreq⟩

theorem planNativeSession_promise (h : m.IndexCoherent) {ev : BindingEvidence} {run : RunId}
    {provider : Provider} {sid : String}
    (hreq : ∀ k, RequestedKey m ev k → KeyOf m run k ∨ k = .native provider sid) :
    PlanPromise m ev (planNativeSession m run provider sid) := by
  unfold planNativeSession
  cases hr : m.taskRun run with
  | none => trivial
  | some observed =>
    cases ho : m.taskRunByKey (.native provider sid) with
    | some owner =>
      simp only
      split_ifs with h1 h2 h3 h4
      · trivial
      · trivial
      · trivial
      · refine plannedMerge_promise fun k hk => (hreq k hk).elim .inr ?_
        rintro rfl
        exact .inl (.inl (h.sound.taskRunByKey ho).1)
      · trivial
    | none =>
      simp only
      split_ifs with h1 h2 h3
      · have hweak : keyPriority observed.key ≤ 1 := by
          cases hk : observed.key <;> rw [hk] at h1 <;> simp [RunKey.isProvisional, keyPriority] at h1 ⊢
        exact ⟨observed, provider, sid, rfl, bindPermitted_of_weak h hr hweak ho, hreq⟩
      · -- the run's own key would be listed
        have := h.index.names_of_own_special (DomainModel.own_of_get hr) (h2 ▸ rfl)
        rw [h2, h.sound.names_eq_none ho] at this
        cases this
      · trivial
      · trivial

theorem planHeuristicNativeSession_promise (h : m.IndexCoherent) (run : RunId) (sid : String) :
    PlanPromise m (.heuristicNativeSession run sid) (planHeuristicNativeSession m run sid) := by
  unfold planHeuristicNativeSession
  cases hr : m.taskRun run with
  | none => trivial
  | some observed =>
    cases hk : observed.key with
    | controller _ => simp only [hk]; trivial
    | nativePath _ _ => simp only [hk]; trivial
    | native _ _ => simp only [hk]; split <;> trivial
    | provisional _ _ _ =>
      simp only [hk]
      cases ho : m.taskRunByKey (.native .codex sid) with
      | some owner => trivial
      | none => exact planNativeSession_promise h fun k hreq => hreq

theorem planNativePathResolution_promise (h : m.IndexCoherent) (run : RunId) (provider : Provider)
    (sid : String) : PlanPromise m (.nativePathResolved run provider sid)
      (planNativePathResolution m run provider sid) := by
  unfold planNativePathResolution
  cases hr : m.taskRun run with
  | none => trivial
  | some observed =>
    cases hk : observed.key with
    | controller _ => simp only [hk]; trivial
    | native _ _ => simp only [hk]; trivial
    | provisional _ _ _ => simp only [hk]; trivial
    | nativePath current _ =>
      simp only [hk]
      split_ifs
      · trivial
      · cases ho : m.taskRunByKey (.native provider sid) with
        | some owner =>
          simp only
          split_ifs
          · trivial
          · refine plannedMerge_promise fun k hreq => hreq.elim .inr ?_
            rintro rfl
            exact .inl (.inl (h.sound.taskRunByKey ho).1)
        | none =>
          exact ⟨observed, provider, sid, rfl, bindPermitted_of_weak h hr (by simp [hk, keyPriority]) ho,
            fun k hreq => hreq⟩

theorem planControllerNative_promise (h : m.IndexCoherent) (run : RunId) (provider : Provider)
    (sid : String) : PlanPromise m (.controllerNativeSession run provider sid)
      (planControllerNative m run provider sid) := by
  unfold planControllerNative
  cases hr : m.taskRun run with
  | none => trivial
  | some controller =>
    simp only
    split_ifs with hc
    · trivial
    · cases ho : m.taskRunByKey (.native provider sid) with
      | some owner =>
        simp only
        split_ifs
        · trivial
        · trivial
        · refine plannedMerge_promise fun k hreq => hreq.elim .inl ?_
          rintro rfl
          exact .inr (.inl (h.sound.taskRunByKey ho).1)
      | none =>
        obtain ⟨b, hb⟩ := h.sound.singleNativeBinding_ok run
        have hfree := h.sound.names_eq_none ho
        cases b with
        | none =>
          simp only [hb]
          exact ⟨controller, provider, sid, rfl, ⟨hr, hfree, hb⟩, fun k hreq => hreq⟩
        | some n =>
          have := h.sound.unbound_of_free (n := (provider, sid)) hfree hb
          simp only [hb, ne_eq, this, not_false_eq_true, if_true]
          trivial

theorem planControllerTerminal_promise (run : RunId) (terminalId : String) :
    PlanPromise m (.controllerTerminal run terminalId) (planControllerTerminal m run terminalId) := by
  unfold planControllerTerminal
  cases hr : m.taskRun run with
  | none => trivial
  | some controller =>
    simp only
    split_ifs
    · trivial
    · cases hl : m.liveRuns terminalId with
      | nil => trivial
      | cons live rest =>
        cases rest with
        | cons _ _ => trivial
        | nil =>
          simp only
          split_ifs
          · trivial
          · cases ht : m.taskRun live with
            | none => trivial
            | some target =>
              simp only
              split_ifs
              · trivial
              · refine plannedMerge_promise fun k hreq => hreq.elim .inl ?_
                rintro ⟨run', hrun', hk⟩
                rw [hl, List.mem_singleton] at hrun'
                exact .inr (hrun' ▸ hk)

theorem planBinding_promise (h : m.IndexCoherent) (ev : BindingEvidence) :
    PlanPromise m ev (planBinding m ev) := by
  cases ev with
  | nativeSession run provider sid => exact planNativeSession_promise h fun k hreq => hreq
  | heuristicNativeSession run sid => exact planHeuristicNativeSession_promise h run sid
  | nativePathResolved run provider sid => exact planNativePathResolution_promise h run provider sid
  | controllerNativeSession run provider sid => exact planControllerNative_promise h run provider sid
  | controllerTerminal run terminalId => exact planControllerTerminal_promise run terminalId

/-- The plan succeeded, and every requested key leads to one run. -/
def BoundTogether (m : DomainModel) (ev : BindingEvidence)
    (result : DomainModel × Except MergeConflict PersistBatch) : Prop :=
  (∃ persist, result.2 = .ok persist) ∧
    ∃ target row, result.1.taskRun target = some row ∧
      ∀ k, RequestedKey m ev k → result.1.taskRunByKey k = some row

theorem taskRunByKey_of_names {m : DomainModel} {k : RunKey} {row : TaskRun} (target : RunId)
    (hk : m.index.names k = some target) (hrow : m.taskRuns.get target = some row) :
    m.taskRunByKey k = some row :=
  Option.bind_eq_some_iff.mpr ⟨target, hk, hrow⟩

theorem bind_keeps_promise (h : m.IndexCoherent) {ev : BindingEvidence} {run : RunId} {key : RunKey}
    (hp : BindPromise m ev run key) (t : ℤ) (x : RunId) :
    BoundTogether m ev (applyBind m run key t x) := by
  obtain ⟨r, provider, sid, rfl, hperm, hreq⟩ := hp
  rw [applyBind_of_permitted h.sound hperm]
  have hid := h.filed run r hperm.exist
  refine ⟨⟨_, rfl⟩, run, boundRow r (.native provider sid) t, ?_, fun k hk => ?_⟩
  · show (boundModel m r _ t).taskRuns.get run = _
    rw [get_taskRuns_boundModel hid, if_pos rfl]
  · refine taskRunByKey_of_names run ?_ ?_
    · rw [names_boundModel h.sound hperm.exist]
      split_ifs with hkk
      · rfl
      · rcases hreq k hk with (hn | ho) | rfl
        · exact hn
        · rw [DomainModel.own_of_get hperm.exist] at ho
          exact absurd (.inl (Option.some.inj ho).symm) hkk
        · exact absurd (.inr rfl) hkk
    · rw [get_taskRuns_boundModel hid, if_pos rfl]

theorem merge_keeps_promise (h : m.IndexCoherent) {ev : BindingEvidence} {s a : RunId}
    (hp : MergePromise m ev s a) (t : ℤ) : BoundTogether m ev (applyMerge m s a t) := by
  obtain ⟨⟨c, hc⟩, hreq⟩ := hp
  obtain ⟨sr, ar, b, hperm, happ⟩ := applyMerge_of_preflight (t := t) h.sound hc
  rw [happ]
  have hid := h.filed s sr hperm.survivor
  refine ⟨⟨_, rfl⟩, s, touchTaskRun (adoptedRow m a sr t) t, ?_, fun k hk => ?_⟩
  · show (mergedModel m s a sr c t).taskRuns.get s = _
    rw [get_taskRuns_mergedModel hperm hid, if_pos rfl]
  · refine taskRunByKey_of_names s ?_ ?_
    · rw [names_mergedModel hperm hid]
      split_ifs with hkk
      · rfl
      · rcases hreq k hk with (hn | ho) | hka
        · exact hn
        · rw [DomainModel.own_of_get hperm.survivor] at ho
          exact absurd (.inl (Option.some.inj ho).symm) hkk
        · exact absurd (.inr hka) hkk
    · rw [get_taskRuns_mergedModel hperm hid, if_pos rfl]

/-- Plans and their application agree: a planned binding or merge succeeds and brings the
requested keys together, and whatever fails leaves the model as it was. -/
theorem binding_plan_agrees (m : DomainModel) (h : m.IndexCoherent) (ev : BindingEvidence) (t : ℤ)
    (x : RunId) :
    ((∃ run key, planBinding m ev = .bind run key) ∨ (∃ s a, planBinding m ev = .merge s a) →
      BoundTogether m ev (applyBindingPlanAt m (planBinding m ev) t x)) ∧
    (∀ conflict, planBinding m ev = .conflict conflict →
      applyBindingPlanAt m (planBinding m ev) t x = (m, .error conflict)) ∧
    (∀ plan conflict, (applyBindingPlanAt m plan t x).2 = .error conflict →
      (applyBindingPlanAt m plan t x).1 = m) := by
  refine ⟨?_, ?_, fun plan conflict he => applyBindingPlanAt_error h.sound he⟩
  · have hp := planBinding_promise h ev
    rintro (⟨run, key, hplan⟩ | ⟨s, a, hplan⟩) <;> rw [hplan] at hp ⊢
    · exact bind_keeps_promise h hp t x
    · exact merge_keeps_promise h hp t
  · intro conflict hplan
    rw [hplan]
    rfl

/-- A pane run that turns out to be a session another run already has. -/
def sessionSeenTwice : DomainModel :=
  (({} : DomainModel).insertTaskRun
    { runId := ⟨1⟩, key := .native .codex "s", displayOrdinal := 1, state := .running,
      hasControllerTaskStateEvent := false }).insertTaskRun
    { runId := ⟨2⟩, key := .provisional "term" 7 2, displayOrdinal := 2, state := .running,
      hasControllerTaskStateEvent := false }

theorem sessionSeenTwice_coherent : sessionSeenTwice.IndexCoherent := by
  refine DomainModel.IndexCoherent.insertTaskRun_new
    (DomainModel.IndexCoherent.insertTaskRun_new DomainModel.IndexCoherent.empty rfl rfl ?_)
    (by decide) (by decide) ?_
  · intro id run h
    cases h
  · intro id run h
    simp only [DomainModel.insertTaskRun, HashMap.get_insert] at h
    split_ifs at h
    · cases h
      decide
    · cases h

theorem sessionSeenTwice_merges :
    planBinding sessionSeenTwice (.nativeSession ⟨2⟩ .codex "s") = .merge ⟨1⟩ ⟨2⟩ ∧
      BoundTogether sessionSeenTwice (.nativeSession ⟨2⟩ .codex "s")
        (applyBindingPlanAt sessionSeenTwice (planBinding sessionSeenTwice
          (.nativeSession ⟨2⟩ .codex "s")) 9 ⟨3⟩) :=
  ⟨by decide, (binding_plan_agrees sessionSeenTwice sessionSeenTwice_coherent
    (.nativeSession ⟨2⟩ .codex "s") 9 ⟨3⟩).1 (.inr ⟨⟨1⟩, ⟨2⟩, by decide⟩)⟩

end HerdrTop
