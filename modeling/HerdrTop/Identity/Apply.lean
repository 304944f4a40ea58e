import HerdrTop.Identity.Index

/-!
# Applying binding plans

Inversion lemmas for the checks and for the two ways of applying a plan, and what they
say together about a sound model.

## What is proved

* `applyBindingPlanAt_error`: a plan that fails leaves the model as it was.
* `applyBindingPlanAt_steps`: a plan that succeeds is a run of `NameIndex` steps whose
  absorptions are the merges handed to the store, so the index stays sound.
* `names_mergedModel`, `names_boundModel`: where every key leads afterwards.
-/

namespace HerdrTop

open NameIndex

/-! ### Native sessions of a run -/

/-- The run owns a key for the session, as its own key or in the index. -/
def OwnsNative (m : DomainModel) (run : RunId) (n : Provider × String) : Prop :=
  ∃ k : RunKey, (m.index.own run = some k ∨ m.index.names k = some run) ∧ k.nativeId = some n

theorem RunKey.nativeId_eq_some {k : RunKey} {n : Provider × String} :
    k.nativeId = some n ↔ k = .native n.1 n.2 := by
  cases k <;> simp [RunKey.nativeId, Prod.ext_iff]

theorem RunKey.isNative_iff {k : RunKey} : k.isNative = true ↔ ∃ n, k.nativeId = some n := by
  cases k <;> simp [RunKey.nativeId, RunKey.isNative]

theorem mem_nativeBindings {m : DomainModel} {run : RunId} {n : Provider × String} :
    n ∈ ((m.taskRun run).bind (·.key.nativeId)).toList ++ (m.keysOf run).filterMap (·.nativeId) ↔
      OwnsNative m run n := by
  simp only [List.mem_append, Option.mem_toList, Option.bind_eq_some_iff, List.mem_filterMap,
    DomainModel.mem_keysOf, OwnsNative, DomainModel.own_eq_some]
  constructor
  · rintro (⟨r, hr, hn⟩ | ⟨k, hk, hn⟩)
    · exact ⟨r.key, .inl ⟨r, hr, rfl⟩, hn⟩
    · exact ⟨k, .inr hk, hn⟩
  · rintro ⟨k, ⟨r, hr, rfl⟩ | hk, hn⟩
    · exact .inl ⟨r, hr, hn⟩
    · exact .inr ⟨k, hk, hn⟩

theorem singleNativeBinding_ok {m : DomainModel} {run : RunId} {b : Option (Provider × String)}
    (h : singleNativeBinding m run = .ok b) (n : Provider × String) :
    OwnsNative m run n ↔ b = some n := by
  unfold singleNativeBinding at h
  simp only at h
  set l := ((m.taskRun run).bind (·.key.nativeId)).toList ++ (m.keysOf run).filterMap (·.nativeId)
    with hl
  split_ifs at h with hlen
  cases h
  rw [← mem_nativeBindings, ← hl, ← HashSet.mem_keys_ofList]
  cases hk : (HashSet.ofList l).keys with
  | nil => simp
  | cons x xs =>
    have : xs = [] := by
      rw [hk, List.length_cons] at hlen
      exact List.length_eq_zero_iff.mp (by omega)
    subst this
    simp [eq_comm]

theorem singleNativeBinding_of_unique {m : DomainModel} {run : RunId}
    (h : ∀ n n', OwnsNative m run n → OwnsNative m run n' → n = n') :
    ∃ b, singleNativeBinding m run = .ok b := by
  unfold singleNativeBinding
  simp only
  set l := ((m.taskRun run).bind (·.key.nativeId)).toList ++ (m.keysOf run).filterMap (·.nativeId)
    with hl
  refine ⟨_, if_neg fun hlen => ?_⟩
  -- two entries of a list without repetition would be two sessions
  have hnd := HashMap.keys_nodup (HashSet.ofList l)
  have hmem : ∀ x ∈ (HashSet.ofList l).keys, OwnsNative m run x := fun x hx =>
    mem_nativeBindings.mp (HashSet.mem_keys_ofList.mp hx)
  match hk : (HashSet.ofList l).keys with
  | [] => simp [hk] at hlen
  | [x] => simp [hk] at hlen
  | x :: y :: zs =>
    rw [hk] at hnd hmem
    have hxy := h x y (hmem x (by simp)) (hmem y (by simp))
    simp [hxy] at hnd

theorem DomainModel.IndexSound.ownsNative_iff {m : DomainModel} (h : m.IndexSound)
    {run : RunId} {n : Provider × String} :
    OwnsNative m run n ↔ m.index.names (.native n.1 n.2) = some run := by
  constructor
  · rintro ⟨k, hk, hn⟩
    rw [RunKey.nativeId_eq_some] at hn
    subst hn
    exact hk.elim (fun hk => h.index.names_of_own_special hk rfl) id
  · exact fun hk => ⟨_, .inr hk, rfl⟩

/-- In a sound model no run has two sessions. -/
theorem DomainModel.IndexSound.singleNativeBinding_ok {m : DomainModel} (h : m.IndexSound)
    (run : RunId) : ∃ b, singleNativeBinding m run = .ok b := by
  refine singleNativeBinding_of_unique fun n n' hn hn' => ?_
  have := h.index.special_unique run _ _ (h.ownsNative_iff.mp hn) (h.ownsNative_iff.mp hn') rfl rfl
  rw [RunKey.native.injEq] at this
  exact Prod.ext this.1 this.2

theorem DomainModel.IndexSound.taskRunByKey {m : DomainModel} (h : m.IndexSound)
    {k : RunKey} {run : TaskRun} (hk : m.taskRunByKey k = some run) :
    m.index.names k = some run.runId ∧ m.taskRuns.get run.runId = some run := by
  obtain ⟨id, hid, hrun⟩ := Option.bind_eq_some_iff.mp hk
  rw [h.filed id run hrun]
  exact ⟨hid, hrun⟩

theorem DomainModel.IndexSound.names_eq_none {m : DomainModel} (h : m.IndexSound)
    {k : RunKey} (hk : m.taskRunByKey k = none) : m.index.names k = none := by
  cases hn : m.index.names k with
  | none => rfl
  | some id =>
    obtain ⟨c, hc⟩ := h.index.leads k id hn
    obtain ⟨run, hrun, -⟩ := DomainModel.own_eq_some.mp hc
    have : m.taskRunByKey k = some run := Option.bind_eq_some_iff.mpr ⟨id, hn, hrun⟩
    rw [hk] at this
    cases this

/-! ### The permission to merge -/

/-- What a permitted merge satisfies. -/
structure MergePermitted (m : DomainModel) (s a : RunId) (sr ar : TaskRun) (c : ContractedGraphs) :
    Prop where
  /-- The survivor exists. -/
  survivor : m.taskRuns.get s = some sr
  /-- The absorbed run exists. -/
  absorbed : m.taskRuns.get a = some ar
  /-- They are two runs. -/
  ne : s ≠ a
  /-- The survivor's key is not the weaker one. -/
  priority : keyPriority ar.key ≤ keyPriority sr.key
  /-- They are not both Controller runs. -/
  notBoth : ¬ (sr.key.isController = true ∧ ar.key.isController = true)
  /-- At most one of them has a session. -/
  sessions : ∃ bs ba, singleNativeBinding m s = .ok bs ∧ singleNativeBinding m a = .ok ba ∧
    (bs = none ∨ ba = none)
  /-- The dispatch graph can be contracted. -/
  execution : contractExecutionEdges m s a = .ok c.executionEdges
  /-- The dependency graph can be contracted. -/
  dependency : contractDependencyEdges m s a = .ok c.dependencyEdges

theorem preflightMerge_ok {m : DomainModel} {s a : RunId} {c : ContractedGraphs}
    (h : preflightMerge m s a = .ok c) : ∃ sr ar, MergePermitted m s a sr ar c := by
  unfold preflightMerge at h
  cases hs : m.taskRun s with
  | none => simp [hs] at h
  | some sr =>
    cases ha : m.taskRun a with
    | none => simp [hs, ha] at h
    | some ar =>
      simp only [hs, ha] at h
      split_ifs at h with hne hpr hboth
      refine ⟨sr, ar, ?_⟩
      cases hbs : singleNativeBinding m s with
      | error e => simp [hbs] at h
      | ok bs =>
        cases hba : singleNativeBinding m a with
        | error e => simp [hbs, hba] at h
        | ok ba =>
          rw [hbs, hba] at h
          have key : (bs = none ∨ ba = none) ∧
              contractExecutionEdges m s a = .ok c.executionEdges ∧
              contractDependencyEdges m s a = .ok c.dependencyEdges := by
            cases bs with
            | none =>
              cases he : contractExecutionEdges m s a with
              | error e => simp [he] at h
              | ok es =>
                cases hd : contractDependencyEdges m s a with
                | error e => simp [he, hd] at h
                | ok ds =>
                  simp only [he, hd, Except.ok.injEq] at h
                  subst h
                  exact ⟨.inl rfl, rfl, rfl⟩
            | some left =>
              cases ba with
              | some right => simp only [] at h; split_ifs at h
              | none =>
                cases he : contractExecutionEdges m s a with
                | error e => simp [he] at h
                | ok es =>
                  cases hd : contractDependencyEdges m s a with
                  | error e => simp [he, hd] at h
                  | ok ds =>
                    simp only [he, hd, Except.ok.injEq] at h
                    subst h
                    exact ⟨.inr rfl, rfl, rfl⟩
          exact ⟨hs, ha, hne, by omega, by simpa using hboth, ⟨bs, ba, hbs, hba, key.1⟩,
            key.2.1, key.2.2⟩

theorem plannedMerge_merge {m : DomainModel} {s a s' a' : RunId}
    (h : plannedMerge m s a = .merge s' a') :
    s' = s ∧ a' = a ∧ ∃ c, preflightMerge m s a = .ok c := by
  unfold plannedMerge at h
  cases hp : preflightMerge m s a with
  | error e => simp [hp] at h
  | ok c =>
    simp only [hp, BindingPlan.merge.injEq] at h
    exact ⟨h.1.symm, h.2.symm, c, rfl⟩

theorem plannedMerge_not_bind {m : DomainModel} {s a run : RunId} {key : RunKey} :
    plannedMerge m s a ≠ .bind run key := by
  unfold plannedMerge
  split <;> simp

/-- A Controller run is never the one absorbed. -/
theorem MergePermitted.absorbed_not_controller {m : DomainModel} {s a : RunId} {sr ar : TaskRun}
    {c : ContractedGraphs} (h : MergePermitted m s a sr ar c) : ¬ ar.key.isController = true := by
  intro ha
  refine h.notBoth ⟨?_, ha⟩
  have hp := h.priority
  cases hk : ar.key <;> rw [hk] at ha hp <;> simp [RunKey.isController] at ha
  cases hs : sr.key <;> rw [hs] at hp <;> simp [keyPriority, RunKey.isController] at hp ⊢

/-! ### Merging -/

/-- The survivor's row once it has adopted the Controller evidence of the absorbed run. -/
def adoptedRow (m : DomainModel) (a : RunId) (sr : TaskRun) (t : ℤ) : TaskRun :=
  if (m.taskRun a).any (·.hasControllerTaskStateEvent) then
    touchTaskRun { sr with hasControllerTaskStateEvent := true } t
  else sr

@[simp] theorem adoptedRow_runId (m : DomainModel) (a : RunId) (sr : TaskRun) (t : ℤ) :
    (adoptedRow m a sr t).runId = sr.runId := by
  unfold adoptedRow
  split <;> simp

@[simp] theorem adoptedRow_key (m : DomainModel) (a : RunId) (sr : TaskRun) (t : ℤ) :
    (adoptedRow m a sr t).key = sr.key := by
  unfold adoptedRow
  split <;> simp

@[simp] theorem adoptedRow_state (m : DomainModel) (a : RunId) (sr : TaskRun) (t : ℤ) :
    (adoptedRow m a sr t).state = sr.state := by
  unfold adoptedRow
  split <;> simp

@[simp] theorem adoptedRow_displayOrdinal (m : DomainModel) (a : RunId) (sr : TaskRun) (t : ℤ) :
    (adoptedRow m a sr t).displayOrdinal = sr.displayOrdinal := by
  unfold adoptedRow
  split <;> simp

theorem adoptControllerEvidence_eq {m : DomainModel} {s : RunId} {sr : TaskRun}
    (hs : m.taskRuns.get s = some sr) (a : RunId) (t : ℤ) :
    adoptControllerEvidence m s a t =
      if (m.taskRun a).any (·.hasControllerTaskStateEvent) then m.insertTaskRun (adoptedRow m a sr t)
      else m := by
  have hs' : m.taskRun s = some sr := hs
  unfold adoptControllerEvidence adoptedRow
  split_ifs with h
  · simp [hs']
  · rfl

theorem get_taskRuns_adopt {m : DomainModel} {s : RunId} {sr : TaskRun}
    (hs : m.taskRuns.get s = some sr) (hid : sr.runId = s) (a : RunId) (t : ℤ) (id : RunId) :
    (adoptControllerEvidence m s a t).taskRuns.get id =
      if id = s then some (adoptedRow m a sr t) else m.taskRuns.get id := by
  rw [adoptControllerEvidence_eq hs]
  split_ifs with h hids hids
  · simp only [DomainModel.insertTaskRun, HashMap.get_insert, adoptedRow_runId, hid, if_pos hids]
  · simp only [DomainModel.insertTaskRun, HashMap.get_insert, adoptedRow_runId, hid, if_neg hids]
  · rw [hids, hs, adoptedRow, if_neg h]
  · rfl

theorem index_adopt {m : DomainModel} {s : RunId} {sr : TaskRun}
    (hs : m.taskRuns.get s = some sr) (hid : sr.runId = s) (a : RunId) (t : ℤ) :
    Steps runKeyKinds m.index [] (adoptControllerEvidence m s a t).index := by
  rw [adoptControllerEvidence_eq hs]
  split_ifs with h
  · have hrow : (adoptedRow m a sr t).runId = s := by rw [adoptedRow_runId, hid]
    rw [DomainModel.index_insertTaskRun_same sr (by rw [hrow, hs]) (by simp), hrow]
    simpa using Steps.one (Step.relist (K := runKeyKinds) s _
      (DomainModel.own_eq_some.mpr ⟨sr, hs, by simp⟩))
  · exact Steps.refl _

/-- The model after a permitted merge. -/
def mergedModel (m : DomainModel) (s a : RunId) (sr : TaskRun) (c : ContractedGraphs) (t : ℤ) :
    DomainModel :=
  (mergeInMemory m s a c t).insertTaskRun (touchTaskRun (adoptedRow m a sr t) t)

theorem get_taskRuns_mergedModel {m : DomainModel} {s a : RunId} {sr ar : TaskRun}
    {c : ContractedGraphs} (hp : MergePermitted m s a sr ar c) (hid : sr.runId = s) (t : ℤ)
    (id : RunId) : (mergedModel m s a sr c t).taskRuns.get id =
      if id = s then some (touchTaskRun (adoptedRow m a sr t) t)
      else if id = a then none else m.taskRuns.get id := by
  unfold mergedModel
  simp only [DomainModel.insertTaskRun, HashMap.get_insert, touchTaskRun_runId, adoptedRow_runId, hid]
  split_ifs with h1 h2
  · rfl
  · rw [get_taskRuns_mergeInMemory, if_pos h2]
  · rw [get_taskRuns_mergeInMemory, if_neg h2, get_taskRuns_adopt hp.survivor hid, if_neg h1]

/-- A permitted merge is one absorption. -/
theorem steps_mergedModel {m : DomainModel} (h : m.IndexSound) {s a : RunId} {sr ar : TaskRun}
    {c : ContractedGraphs} (hp : MergePermitted m s a sr ar c) (t : ℤ) :
    Steps runKeyKinds m.index [(s, a)] (mergedModel m s a sr c t).index := by
  have hid := h.filed s sr hp.survivor
  have hadopt := index_adopt hp.survivor hid a t
  set m₁ := adoptControllerEvidence m s a t with hm₁
  have hs₁ : m₁.index.own s = some sr.key := by
    rw [DomainModel.own_eq_some]
    exact ⟨_, by rw [hm₁, get_taskRuns_adopt hp.survivor hid, if_pos rfl], by simp⟩
  have ha₁ : m₁.index.own a = some ar.key := by
    rw [DomainModel.own_eq_some]
    exact ⟨ar, by rw [hm₁, get_taskRuns_adopt hp.survivor hid, if_neg hp.ne.symm, hp.absorbed], rfl⟩
  -- re-listing a native key changes nothing about native keys
  have hback : ∀ k i, runKeyKinds.special k → m₁.index.names k = some i →
      m.index.names k = some i := by
    intro k i hk hi
    rw [hm₁, adoptControllerEvidence_eq hp.survivor] at hi
    split_ifs at hi
    · have hrow : (adoptedRow m a sr t).runId = s := by rw [adoptedRow_runId, hid]
      rw [DomainModel.index_insertTaskRun_same sr (by rw [hrow, hp.survivor]) (by simp),
        hrow, adoptedRow_key, names_link] at hi
      split_ifs at hi with e
      · cases hi
        exact e ▸ h.index.names_of_own_special (DomainModel.own_of_get hp.survivor) (e ▸ hk)
      · exact hi
    · exact hi
  obtain ⟨bs, ba, hbs, hba, hone⟩ := hp.sessions
  have habsorb : Step runKeyKinds m₁.index (some (s, a)) (mergeInMemory m s a c t).index := by
    rw [index_mergeInMemory]
    refine Step.absorb s a sr.key ar.key hp.ne hs₁ ha₁ hp.absorbed_not_controller ?_ ?_
    · intro k k' hk hk' hsk hsk'
      obtain ⟨n, hn⟩ := RunKey.isNative_iff.mp hsk
      obtain ⟨n', hn'⟩ := RunKey.isNative_iff.mp hsk'
      have h1 := (HerdrTop.singleNativeBinding_ok hbs n).mp ⟨k, .inr (hback k s hsk hk), hn⟩
      have h2 := (HerdrTop.singleNativeBinding_ok hba n').mp ⟨k', .inr (hback k' a hsk' hk'), hn'⟩
      rw [h1, h2] at hone
      simp at hone
    · intro hsk
      have hpr := hp.priority
      cases hkey : ar.key <;> rw [hkey] at hpr hsk <;> simp [runKeyKinds, RunKey.isNative] at hsk
      cases hsk' : sr.key <;> rw [hsk'] at hpr <;>
        simp [keyPriority, runKeyKinds, RunKey.isNative, RunKey.isController] at hpr ⊢
  have hrow : (touchTaskRun (adoptedRow m a sr t) t).runId = s := by simp [hid]
  have hget : (mergeInMemory m s a c t).taskRuns.get s = some (adoptedRow m a sr t) := by
    rw [get_taskRuns_mergeInMemory, if_neg hp.ne, get_taskRuns_adopt hp.survivor hid, if_pos rfl]
  have hlast : Step runKeyKinds (mergeInMemory m s a c t).index none
      (mergedModel m s a sr c t).index := by
    unfold mergedModel
    rw [DomainModel.index_insertTaskRun_same (adoptedRow m a sr t) (by rw [hrow, hget])
      (by simp), hrow]
    exact Step.relist s _ (DomainModel.own_eq_some.mpr ⟨_, hget, by simp⟩)
  simpa using (hadopt.tail habsorb).tail hlast

/-- After a merge, the keys of both runs lead to the survivor. -/
theorem names_mergedModel {m : DomainModel} {s a : RunId} {sr ar : TaskRun} {c : ContractedGraphs}
    (hp : MergePermitted m s a sr ar c) (hid : sr.runId = s) (t : ℤ) (k : RunKey) :
    (mergedModel m s a sr c t).index.names k =
      if k = sr.key ∨ m.index.names k = some a ∨ m.index.own a = some k then some s
      else m.index.names k := by
  have hrow : ∀ t', (touchTaskRun (adoptedRow m a sr t) t').runId = s := by simp [hid]
  have hrow' : (adoptedRow m a sr t).runId = s := by simp [hid]
  have hget : (mergeInMemory m s a c t).taskRuns.get s = some (adoptedRow m a sr t) := by
    rw [get_taskRuns_mergeInMemory, if_neg hp.ne, get_taskRuns_adopt hp.survivor hid, if_pos rfl]
  have hadopt : ∀ k, k ≠ sr.key →
      (adoptControllerEvidence m s a t).index.names k = m.index.names k := by
    intro k hk
    rw [adoptControllerEvidence_eq hp.survivor]
    split_ifs
    · rw [DomainModel.index_insertTaskRun_same sr (by rw [hrow', hp.survivor]) (by simp),
        names_link, adoptedRow_key, if_neg hk]
    · rfl
  have hown : (adoptControllerEvidence m s a t).index.own a = m.index.own a := by
    simp only [DomainModel.index, get_taskRuns_adopt hp.survivor hid, if_neg hp.ne.symm]
  unfold mergedModel
  rw [DomainModel.index_insertTaskRun_same (adoptedRow m a sr t) (by rw [hrow, hget])
    (by simp), names_link, hrow, touchTaskRun_key, adoptedRow_key, index_mergeInMemory]
  by_cases hk : k = sr.key
  · rw [if_pos hk, if_pos (.inl hk)]
  · rw [if_neg hk]
    simp only [absorb, hadopt k hk, hown, hk, false_or]

theorem sound_mergedModel {m : DomainModel} (h : m.IndexSound) {s a : RunId} {sr ar : TaskRun}
    {c : ContractedGraphs} (hp : MergePermitted m s a sr ar c) (t : ℤ) :
    (mergedModel m s a sr c t).IndexSound where
  filed id run hrun := by
    have hid := h.filed s sr hp.survivor
    rw [get_taskRuns_mergedModel hp hid] at hrun
    split_ifs at hrun with h1
    · cases hrun
      simp [hid, h1]
    · exact h.filed id run hrun
  index := h.index.steps (steps_mergedModel h hp t)

/-- A merge that is permitted succeeds. -/
theorem applyMerge_of_preflight {m : DomainModel} (h : m.IndexSound) {s a : RunId} {t : ℤ}
    {c : ContractedGraphs} (hpre : preflightMerge m s a = .ok c) :
    ∃ sr ar b, MergePermitted m s a sr ar c ∧ applyMerge m s a t =
      (mergedModel m s a sr c t, .ok [.mergeTaskRuns s a,
        .upsertTaskRun (persistedRun (touchTaskRun (adoptedRow m a sr t) t) b t)]) := by
  unfold applyMerge
  obtain ⟨sr, ar, hp⟩ := preflightMerge_ok hpre
  have hid := h.filed s sr hp.survivor
  have hget : (mergeInMemory m s a c t).taskRun s = some (adoptedRow m a sr t) := by
    show (mergeInMemory m s a c t).taskRuns.get s = _
    rw [get_taskRuns_mergeInMemory, if_neg hp.ne, get_taskRuns_adopt hp.survivor hid, if_pos rfl]
  obtain ⟨b, hb⟩ := (sound_mergedModel h hp t).singleNativeBinding_ok s
  refine ⟨sr, ar, b, hp, ?_⟩
  simp only [hpre, hget]
  unfold mergedModel at hb
  simp only [hb]
  rfl

theorem applyMerge_cases {m : DomainModel} (h : m.IndexSound) (s a : RunId) (t : ℤ) :
    (∃ e, applyMerge m s a t = (m, .error e)) ∨
      ∃ sr ar c b, MergePermitted m s a sr ar c ∧ applyMerge m s a t =
        (mergedModel m s a sr c t, .ok [.mergeTaskRuns s a,
          .upsertTaskRun (persistedRun (touchTaskRun (adoptedRow m a sr t) t) b t)]) := by
  cases hpre : preflightMerge m s a with
  | error e => exact .inl ⟨e, by rw [applyMerge, hpre]⟩
  | ok c =>
    obtain ⟨sr, ar, b, hp, happ⟩ := applyMerge_of_preflight (t := t) h hpre
    exact .inr ⟨sr, ar, c, b, hp, happ⟩

/-! ### Binding -/

/-- The row of a run that gets a session key. -/
def boundRow (run : TaskRun) (key : RunKey) (t : ℤ) : TaskRun :=
  if run.key.isController then touchTaskRun run t else touchTaskRun { run with key := key } t

@[simp] theorem boundRow_runId (run : TaskRun) (key : RunKey) (t : ℤ) :
    (boundRow run key t).runId = run.runId := by
  unfold boundRow
  split <;> simp

@[simp] theorem boundRow_state (run : TaskRun) (key : RunKey) (t : ℤ) :
    (boundRow run key t).state = run.state := by
  unfold boundRow
  split <;> simp

@[simp] theorem boundRow_displayOrdinal (run : TaskRun) (key : RunKey) (t : ℤ) :
    (boundRow run key t).displayOrdinal = run.displayOrdinal := by
  unfold boundRow
  split <;> simp

theorem boundRow_key (run : TaskRun) (key : RunKey) (t : ℤ) :
    (boundRow run key t).key = run.key ∨ (boundRow run key t).key = key := by
  unfold boundRow
  split <;> simp

/-- The model after a session key was bound. -/
def boundModel (m : DomainModel) (run : TaskRun) (key : RunKey) (t : ℤ) : DomainModel :=
  if run.key.isController then
    (m.insertTaskRunAlias key run.runId).insertTaskRun (boundRow run key t)
  else (m.insertTaskRun (boundRow run key t)).insertTaskRunAlias run.key run.runId

/-- The operation for the store when a session key was bound. -/
def boundOp (run : TaskRun) (provider : Provider) (sid : String) (t : ℤ) (x : RunId) : PersistOp :=
  let persisted := persistedRun (boundRow run (.native provider sid) t) (some (provider, sid)) t
  match run.key with
  | .nativePath _ _ => .promoteTaskRunKey persisted run.key x
  | _ => .upsertTaskRun persisted

/-- What a successful binding satisfies. -/
structure BindPermitted (m : DomainModel) (run : RunId) (r : TaskRun) (provider : Provider)
    (sid : String) : Prop where
  /-- The run exists. -/
  exist : m.taskRuns.get run = some r
  /-- Nobody has the session. -/
  free : m.index.names (.native provider sid) = none
  /-- The run has no session. -/
  unbound : singleNativeBinding m run = .ok none

theorem not_native_of_unbound {m : DomainModel} {run : RunId} {r : TaskRun}
    (hr : m.taskRuns.get run = some r) (hb : HerdrTop.singleNativeBinding m run = .ok none) : ¬ r.key.isNative = true := by
  intro hn
  obtain ⟨n, hn⟩ := RunKey.isNative_iff.mp hn
  have := (HerdrTop.singleNativeBinding_ok hb n).mp
    ⟨r.key, .inl (DomainModel.own_of_get hr), hn⟩
  cases this

/-- No session leads to a run without one. -/
theorem not_special_of_unbound {m : DomainModel} {run : RunId} {k : RunKey}
    (hb : HerdrTop.singleNativeBinding m run = .ok none) (hk : m.index.names k = some run) :
    ¬ runKeyKinds.special k := by
  intro hs
  obtain ⟨n, hn⟩ := RunKey.isNative_iff.mp hs
  have := (HerdrTop.singleNativeBinding_ok hb n).mp ⟨k, .inr hk, hn⟩
  cases this

/-- A binding that is permitted succeeds. -/
theorem applyBind_of_permitted {m : DomainModel} (h : m.IndexSound) {run : RunId} {r : TaskRun}
    {provider : Provider} {sid : String} (hb : BindPermitted m run r provider sid) (t : ℤ)
    (x : RunId) : applyBind m run (.native provider sid) t x =
      (boundModel m r (.native provider sid) t, .ok [boundOp r provider sid t x]) := by
  have hid := h.filed run r hb.exist
  have hr : m.taskRun run = some r := hb.exist
  have hfree : m.taskRunByKey (.native provider sid) = none := by
    have hn : m.runIdsByKey.get (.native provider sid) = none := hb.free
    rw [DomainModel.taskRunByKey, hn, Option.bind_none]
  have hnn := not_native_of_unbound hb.exist hb.unbound
  unfold applyBind
  simp only [hr, hfree, hb.unbound, Option.any_none, Bool.false_eq_true, if_false]
  cases hk : r.key with
  | native _ _ => exact absurd (by rw [hk]; rfl) hnn
  | controller _ =>
    simp only [boundModel, boundRow, boundOp, hk, RunKey.isController, if_true, hid]
  | nativePath _ _ =>
    simp only [boundModel, boundRow, boundOp, hk, RunKey.isController, Bool.false_eq_true, if_false,
      hid]
  | provisional _ _ _ =>
    simp only [boundModel, boundRow, boundOp, hk, RunKey.isController, Bool.false_eq_true, if_false,
      hid]

/-- In a sound model a session that nobody has is bound already to no run. -/
theorem DomainModel.IndexSound.unbound_of_free {m : DomainModel} (h : m.IndexSound)
    {run : RunId} {n b : Provider × String} (hfree : m.index.names (.native n.1 n.2) = none)
    (hb : HerdrTop.singleNativeBinding m run = .ok (some b)) : b ≠ n := by
  rintro rfl
  have := h.ownsNative_iff.mp ((HerdrTop.singleNativeBinding_ok hb b).mpr rfl)
  rw [hfree] at this
  cases this

/-- In a sound model a binding fails, changes nothing, or is one the run can take. -/
theorem applyBind_cases {m : DomainModel} (h : m.IndexSound) (run : RunId) (key : RunKey)
    (t : ℤ) (x : RunId) :
    (∃ e, applyBind m run key t x = (m, .error e)) ∨ applyBind m run key t x = (m, .ok []) ∨
      ∃ r provider sid, key = .native provider sid ∧ BindPermitted m run r provider sid ∧
        applyBind m run key t x = (boundModel m r key t, .ok [boundOp r provider sid t x]) := by
  cases key with
  | controller _ => exact .inl ⟨_, rfl⟩
  | nativePath _ _ => exact .inl ⟨_, rfl⟩
  | provisional _ _ _ => exact .inl ⟨_, rfl⟩
  | native provider sid =>
    cases hr : m.taskRun run with
    | none => exact .inl ⟨.missingRun run, by simp [applyBind, hr]⟩
    | some r =>
      cases ho : m.taskRunByKey (.native provider sid) with
      | some owner =>
        simp only [applyBind, hr, ho]
        split_ifs
        · exact .inr (.inl rfl)
        · exact .inl ⟨_, rfl⟩
      | none =>
        have hfree := h.names_eq_none ho
        obtain ⟨b, hb⟩ := h.singleNativeBinding_ok run
        cases b with
        | none =>
          have hp : BindPermitted m run r provider sid := ⟨hr, hfree, hb⟩
          exact .inr (.inr ⟨r, provider, sid, rfl, hp, applyBind_of_permitted h hp t x⟩)
        | some b =>
          have hne := h.unbound_of_free (n := (provider, sid)) hfree hb
          refine .inl ⟨.nativeSessionRebind run, ?_⟩
          simp [applyBind, hr, ho, hb, hne]

theorem steps_boundModel {m : DomainModel} (h : m.IndexSound) {run : RunId} {r : TaskRun}
    {provider : Provider} {sid : String} (hb : BindPermitted m run r provider sid) (t : ℤ) :
    Steps runKeyKinds m.index [] (boundModel m r (.native provider sid) t).index := by
  have hid := h.filed run r hb.exist
  have hown := DomainModel.own_of_get hb.exist
  have hnn := not_native_of_unbound hb.exist hb.unbound
  unfold boundModel boundRow
  by_cases hc : r.key.isController = true
  · simp only [hc, if_true]
    have hbind : Step runKeyKinds m.index none
        (m.insertTaskRunAlias (.native provider sid) r.runId).index := by
      rw [DomainModel.index_insertTaskRunAlias, hid]
      exact Step.bind run r.key _ hown hc rfl hb.free fun k' => not_special_of_unbound hb.unbound
    have hget : (m.insertTaskRunAlias (.native provider sid) r.runId).taskRuns.get r.runId =
        some r := by rw [hid]; exact hb.exist
    have hlist : Step runKeyKinds (m.insertTaskRunAlias (.native provider sid) r.runId).index none
        ((m.insertTaskRunAlias (.native provider sid) r.runId).insertTaskRun
          (touchTaskRun r t)).index := by
      rw [DomainModel.index_insertTaskRun_same r (by simpa using hget) (by simp)]
      simp only [touchTaskRun_key, touchTaskRun_runId]
      exact Step.relist r.runId r.key (DomainModel.own_of_get hget)
    simpa using ((Steps.refl _).tail hbind).tail hlist
  · simp only [hc, Bool.false_eq_true, if_false]
    have hget : m.taskRuns.get (touchTaskRun { r with key := .native provider sid } t).runId =
        some r := by
      rw [touchTaskRun_runId]
      show m.taskRuns.get r.runId = _
      rw [hid, hb.exist]
    have heq := DomainModel.index_promote hget
    simp only [touchTaskRun_runId, touchTaskRun_key] at heq
    rw [heq]
    rw [hid]
    exact Steps.one (Step.promote run r.key _ hown hnn hc rfl hb.free fun k' =>
      not_special_of_unbound hb.unbound)

theorem get_taskRuns_boundModel {m : DomainModel} {run : RunId} {r : TaskRun} (hid : r.runId = run)
    (key : RunKey) (t : ℤ) (id : RunId) : (boundModel m r key t).taskRuns.get id =
      if id = run then some (boundRow r key t) else m.taskRuns.get id := by
  unfold boundModel
  split <;> simp only [DomainModel.insertTaskRunAlias, DomainModel.insertTaskRun,
    HashMap.get_insert, boundRow_runId, hid]

/-- After a binding, the session and the run's own key lead to the run. -/
theorem names_boundModel {m : DomainModel} (h : m.IndexSound) {run : RunId} {r : TaskRun}
    (hr : m.taskRuns.get run = some r) (key : RunKey) (t : ℤ) (k : RunKey) :
    (boundModel m r key t).index.names k =
      if k = r.key ∨ k = key then some run else m.index.names k := by
  have hid := h.filed run r hr
  unfold boundModel boundRow
  by_cases hc : r.key.isController = true
  · have hget : (m.insertTaskRunAlias key r.runId).taskRuns.get (touchTaskRun r t).runId =
        some r := by rw [touchTaskRun_runId, hid]; exact hr
    simp only [hc, if_true]
    rw [DomainModel.index_insertTaskRun_same _ hget (by simp), names_link, touchTaskRun_key,
      touchTaskRun_runId, hid, DomainModel.index_insertTaskRunAlias, names_link]
    by_cases h1 : k = r.key <;> by_cases h2 : k = key <;> simp [h1, h2]
  · have hget : m.taskRuns.get (touchTaskRun { r with key := key } t).runId = some r := by
      rw [touchTaskRun_runId]
      exact hid ▸ hr
    have heq := DomainModel.index_promote hget
    simp only [touchTaskRun_runId, touchTaskRun_key] at heq
    simp only [hc, Bool.false_eq_true, if_false]
    rw [heq]
    simp only [rename, Function.update_apply, hid]
    by_cases h1 : k = r.key <;> by_cases h2 : k = key <;> simp [h1, h2]

theorem sound_boundModel {m : DomainModel} (h : m.IndexSound) {run : RunId} {r : TaskRun}
    {provider : Provider} {sid : String} (hb : BindPermitted m run r provider sid) (t : ℤ) :
    (boundModel m r (.native provider sid) t).IndexSound where
  filed id row hrow := by
    have hid := h.filed run r hb.exist
    rw [get_taskRuns_boundModel hid] at hrow
    split_ifs at hrow with h1
    · cases hrow
      rw [boundRow_runId, hid, h1]
    · exact h.filed id row hrow
  index := h.index.steps (steps_boundModel h hb t)

/-! ### Plans -/

/-- The merges among the operations of a batch. -/
def mergesOf (persist : PersistBatch) : List (RunId × RunId) :=
  persist.filterMap fun
    | .mergeTaskRuns survivor absorbed => some (survivor, absorbed)
    | _ => none

theorem mergesOf_append (batch batch' : PersistBatch) :
    mergesOf (batch ++ batch') = mergesOf batch ++ mergesOf batch' :=
  List.filterMap_append ..

theorem mergesOf_boundOp (run : TaskRun) (provider : Provider) (sid : String) (t : ℤ) (x : RunId) :
    mergesOf [boundOp run provider sid t x] = [] := by
  unfold boundOp
  cases run.key <;> rfl

/-- A plan that fails leaves the model as it was. -/
theorem applyBindingPlanAt_error {m : DomainModel} (h : m.IndexSound) {plan : BindingPlan}
    {t : ℤ} {x : RunId} {e : MergeConflict} (he : (applyBindingPlanAt m plan t x).2 = .error e) :
    (applyBindingPlanAt m plan t x).1 = m := by
  cases plan with
  | noChange => cases he
  | conflict c => rfl
  | bind run key =>
    simp only [applyBindingPlanAt] at he ⊢
    rcases applyBind_cases h run key t x with ⟨_, hb⟩ | hb | ⟨_, _, _, -, -, hb⟩ <;>
      rw [hb] at he ⊢
    cases he
  | merge s a =>
    simp only [applyBindingPlanAt] at he ⊢
    rcases applyMerge_cases h s a t with ⟨_, hb⟩ | ⟨_, _, _, _, -, hb⟩ <;> rw [hb] at he ⊢
    cases he

/-- A plan that succeeds is a run of index steps with the merges handed to the store. -/
theorem applyBindingPlanAt_steps {m : DomainModel} (h : m.IndexSound) {plan : BindingPlan}
    {t : ℤ} {x : RunId} {persist : PersistBatch}
    (hok : (applyBindingPlanAt m plan t x).2 = .ok persist) :
    Steps runKeyKinds m.index (mergesOf persist) (applyBindingPlanAt m plan t x).1.index ∧
      (applyBindingPlanAt m plan t x).1.IndexSound := by
  cases plan with
  | noChange =>
    cases hok
    exact ⟨Steps.refl _, h⟩
  | conflict c => cases hok
  | bind run key =>
    simp only [applyBindingPlanAt] at hok ⊢
    rcases applyBind_cases h run key t x with ⟨_, hb⟩ | hb | ⟨r, p, s, rfl, hperm, hb⟩ <;>
      rw [hb] at hok ⊢
    · cases hok
    · cases hok
      exact ⟨Steps.refl _, h⟩
    · cases hok
      refine ⟨?_, sound_boundModel h hperm t⟩
      rw [mergesOf_boundOp]
      exact steps_boundModel h hperm t
  | merge s a =>
    simp only [applyBindingPlanAt] at hok ⊢
    rcases applyMerge_cases h s a t with ⟨_, hb⟩ | ⟨sr, ar, c, b, hperm, hb⟩ <;> rw [hb] at hok ⊢
    · cases hok
    · cases hok
      exact ⟨steps_mergedModel h hperm t, sound_mergedModel h hperm t⟩

/-- What a plan that succeeds has made of a model whose rows are filed under their identities. -/
inductive Applied (m : DomainModel) (t : ℤ) : List (RunId × RunId) → DomainModel → Prop
  /-- Nothing. -/
  | unchanged : Applied m t [] m
  /-- A run was stored again. -/
  | touched (run : TaskRun) (exist : m.taskRuns.get run.runId = some run) :
      Applied m t [] (m.insertTaskRun (touchTaskRun run t))
  /-- A session was bound. -/
  | bound (run : TaskRun) (provider : Provider) (sid : String)
      (exist : m.taskRuns.get run.runId = some run) :
      Applied m t [] (boundModel m run (.native provider sid) t)
  /-- Two runs were merged. -/
  | merged {s a : RunId} {sr ar : TaskRun} {c : ContractedGraphs}
      (permitted : MergePermitted m s a sr ar c) : Applied m t [(s, a)] (mergedModel m s a sr c t)

/-- Every row is one from before, under its ordinal; a key that is new is a session key. -/
theorem Applied.row {m m' : DomainModel} {t : ℤ} {l : List (RunId × RunId)} (ha : Applied m t l m')
    (hf : ∀ id run, m.taskRuns.get id = some run → run.runId = id) {id : RunId} {run' : TaskRun}
    (hrun : m'.taskRuns.get id = some run') : ∃ run, m.taskRuns.get id = some run ∧
      run'.displayOrdinal = run.displayOrdinal ∧
      (run'.key = run.key ∨ run'.key.isNative = true) := by
  cases ha with
  | unchanged => exact ⟨run', hrun, rfl, .inl rfl⟩
  | touched run exist =>
    simp only [DomainModel.insertTaskRun, HashMap.get_insert, touchTaskRun_runId] at hrun
    split_ifs at hrun with e
    · cases hrun
      exact ⟨run, e ▸ exist, by simp, .inl (by simp)⟩
    · exact ⟨run', hrun, rfl, .inl rfl⟩
  | bound run provider sid exist =>
    rw [get_taskRuns_boundModel rfl] at hrun
    split_ifs at hrun with e
    · cases hrun
      refine ⟨run, e ▸ exist, by simp, ?_⟩
      rcases boundRow_key run (.native provider sid) t with h | h
      · exact .inl h
      · exact .inr (by rw [h]; rfl)
    · exact ⟨run', hrun, rfl, .inl rfl⟩
  | @merged s a sr ar c hp =>
    rw [get_taskRuns_mergedModel hp (hf s sr hp.survivor)] at hrun
    split_ifs at hrun with e
    · cases hrun
      exact ⟨sr, e ▸ hp.survivor, by simp, .inl (by simp)⟩
    · exact ⟨run', hrun, rfl, .inl rfl⟩

theorem applyBind_applied {m : DomainModel}
    (hf : ∀ id run, m.taskRuns.get id = some run → run.runId = id) {run : RunId} {key : RunKey} {t : ℤ}
    {x : RunId} {m' : DomainModel} {persist : PersistBatch}
    (h : applyBind m run key t x = (m', .ok persist)) : Applied m t (mergesOf persist) m' := by
  cases key with
  | controller _ => cases h
  | nativePath _ _ => cases h
  | provisional _ _ _ => cases h
  | native provider sid =>
    cases hr : m.taskRun run with
    | none => simp [applyBind, hr] at h
    | some r =>
      have hid := hf run r hr
      subst hid
      cases ho : m.taskRunByKey (.native provider sid) with
      | some owner =>
        simp only [applyBind, hr, ho] at h
        split_ifs at h <;> cases h
        exact .unchanged
      | none =>
        cases hb : singleNativeBinding m r.runId with
        | error e => simp [applyBind, hr, ho, hb] at h
        | ok b =>
          simp only [applyBind, hr, ho, hb] at h
          split_ifs at h
          · cases h
          cases hk : r.key with
          | controller id =>
            simp only [hk] at h
            cases h
            have hm := Applied.bound (t := t) r provider sid hr
            simpa [boundModel, boundRow, hk, RunKey.isController, mergesOf] using hm
          | native p sid' =>
            simp only [hk] at h
            split_ifs at h
            · cases h
              exact .touched r hr
            · cases h
          | nativePath p path =>
            simp only [hk] at h
            cases h
            have hm := Applied.bound (t := t) r provider sid hr
            simpa [boundModel, boundRow, hk, RunKey.isController, mergesOf] using hm
          | provisional term ms seq =>
            simp only [hk] at h
            cases h
            have hm := Applied.bound (t := t) r provider sid hr
            simpa [boundModel, boundRow, hk, RunKey.isController, mergesOf] using hm

theorem applyMerge_applied {m : DomainModel}
    (hf : ∀ id run, m.taskRuns.get id = some run → run.runId = id) {s a : RunId} {t : ℤ}
    {m' : DomainModel} {persist : PersistBatch} (h : applyMerge m s a t = (m', .ok persist)) :
    Applied m t (mergesOf persist) m' := by
  unfold applyMerge at h
  cases hpre : preflightMerge m s a with
  | error e => simp [hpre] at h
  | ok c =>
    obtain ⟨sr, ar, hp⟩ := preflightMerge_ok hpre
    have hget : (mergeInMemory m s a c t).taskRun s = some (adoptedRow m a sr t) := by
      show (mergeInMemory m s a c t).taskRuns.get s = _
      rw [get_taskRuns_mergeInMemory, if_neg hp.ne,
        get_taskRuns_adopt hp.survivor (hf s sr hp.survivor), if_pos rfl]
    simp only [hpre, hget] at h
    split at h
    · cases h
    · cases h
      exact .merged hp

theorem applyBindingPlanAt_applied {m : DomainModel}
    (hf : ∀ id run, m.taskRuns.get id = some run → run.runId = id) {plan : BindingPlan} {t : ℤ}
    {x : RunId} {m' : DomainModel} {persist : PersistBatch}
    (h : applyBindingPlanAt m plan t x = (m', .ok persist)) : Applied m t (mergesOf persist) m' := by
  cases plan with
  | noChange =>
    cases h
    exact .unchanged
  | conflict c => cases h
  | bind run key => exact applyBind_applied hf h
  | merge s a => exact applyMerge_applied hf h

end HerdrTop
