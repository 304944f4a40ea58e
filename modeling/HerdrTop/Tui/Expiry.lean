import HerdrTop.Status.InView
import HerdrTop.Tui.Projection

/-!
# When the rows change by themselves

With the rows comes the time until when the interface does not ask again. Agents turn stale, runs leave with their own
deadlines, and a run that its end hides leaves with the last run that keeps it in view. Without a query the deadlines
of all runs in view are counted, so all of them stay until the first one.

## What is proved

* `KeptUntil.inView`, `KeptUntil.of_inView`: what is in view at a later time, by the deadlines that are known now.
* `inView_all`: without a query the same runs are in view until the time that is given.
* `stale_later`: until then no agent turns stale.
* `nextExpiry_later`: the time that is given is to come.
-/

namespace HerdrTop.Tui

open Closure Outline Relation

/-! ### Deadlines -/

theorem before_minExpiry {a b : Option ℤ} {t : ℤ} :
    (∀ d, minExpiry a b = some d → t < d) ↔ (∀ d, a = some d → t < d) ∧ ∀ d, b = some d → t < d := by
  cases a <;> cases b <;> simp [minExpiry]

theorem minExpiry_eq {a b : Option ℤ} {d : ℤ} (h : minExpiry a b = some d) : a = some d ∨ b = some d := by
  cases a with
  | none => cases b with
    | none => cases h
    | some b => exact .inr h
  | some a => cases b with
    | none => exact .inl h
    | some b =>
      simp only [minExpiry, Option.some.injEq] at h ⊢
      omega

theorem before_min {l : List ℤ} {t : ℤ} : (∀ d, l.min? = some d → t < d) ↔ ∀ d ∈ l, t < d := by
  cases hmin : l.min? with
  | none =>
    rw [List.min?_eq_none_iff] at hmin
    simp [hmin]
  | some least =>
    obtain ⟨hmem, hleast⟩ := List.min?_eq_some_iff.mp hmin
    constructor
    · exact fun h d hd => (h least rfl).trans_le (hleast d hd)
    · rintro h _ ⟨⟩
      exact h least hmem

section

variable {ghostVisibilityMs headlessInactivityMs nowMs t : ℤ} {model : DomainModel} {run : TaskRun} {id : RunId}

/-- When a Controller run without execution goes out of view. -/
def hookOnlyExpiryMs (model : DomainModel) (run : TaskRun) : Option ℤ :=
  if run.key.isController && !model.hasExecution run.runId then
    run.updatedAtMs.map fun updatedAtMs => satAddI64 updatedAtMs hookOnlyStaleVisibilityMs
  else none

theorem isHookOnlyStale_eq_false : isHookOnlyStaleTaskRun model run t = false ↔
    ∀ d, hookOnlyExpiryMs model run = some d → t < d := by
  unfold isHookOnlyStaleTaskRun hookOnlyExpiryMs
  cases hhook : run.key.isController && !model.hasExecution run.runId with
  | false => simp
  | true =>
    cases run.updatedAtMs with
    | none => simp
    | some updatedAtMs => simp

/-- When a run goes out of view by its lifecycle. -/
def lifecycleExpiryMs (ghostVisibilityMs : ℤ) (model : DomainModel) (nowMs : ℤ) (run : TaskRun) : Option ℤ :=
  match model.effectiveLifecycleEndMs run, run.key with
  | none, .provisional _ startMs _ => some (satAddI64 (lastObservedMs run startMs) ghostVisibilityMs)
  | none, _ => none
  | some firstTerminalMs, _ =>
    if isDefaultVisibleTaskRun ghostVisibilityMs model run nowMs then
      some (satAddI64 firstTerminalMs defaultTerminalVisibilityMs)
    else none

theorem runVisibilityExpiryMs_eq : runVisibilityExpiryMs ghostVisibilityMs model nowMs run =
    minExpiry (lifecycleExpiryMs ghostVisibilityMs model nowMs run) (hookOnlyExpiryMs model run) := rfl

/-- For how long a run that is in view for its own sake stays so. -/
theorem isDefaultVisible_later
    (hvisible : isDefaultVisibleTaskRun ghostVisibilityMs model run nowMs = true) :
    isDefaultVisibleTaskRun ghostVisibilityMs model run t = true ↔
      ∀ d, runVisibilityExpiryMs ghostVisibilityMs model nowMs run = some d → t < d := by
  have hdismissed := (eligible_iff.mp (isDefaultVisible_iff.mp hvisible).1).1
  have hhook : (∀ d, runVisibilityExpiryMs ghostVisibilityMs model nowMs run = some d → t < d) ↔
      (∀ d, lifecycleExpiryMs ghostVisibilityMs model nowMs run = some d → t < d) ∧
        isHookOnlyStaleTaskRun model run t = false := by
    rw [isHookOnlyStale_eq_false, ← before_minExpiry, runVisibilityExpiryMs_eq]
  rw [hhook, isDefaultVisible_iff, eligible_iff]
  unfold lifecycleExpiryMs
  cases hend : model.effectiveLifecycleEndMs run with
  | none =>
    cases hkey : run.key with
    | provisional terminalId startMs seq => simp [isGhost, hkey, hdismissed]
    | _ => simp [isGhost, hkey, hdismissed]
  | some endMs => simp [isGhost, hdismissed, hvisible, and_comm]

/-- A run leaves with its hook at the latest. -/
theorem exists_expiry_le {d : ℤ} (h : hookOnlyExpiryMs model run = some d) :
    ∃ first, runVisibilityExpiryMs ghostVisibilityMs model nowMs run = some first ∧ first ≤ d := by
  rw [runVisibilityExpiryMs_eq, h]
  cases lifecycleExpiryMs ghostVisibilityMs model nowMs run with
  | none => exact ⟨d, rfl, le_refl d⟩
  | some first => exact ⟨min first d, rfl, min_le_right first d⟩

/-! ### What keeps a run in view -/

/-- A run is in view, and what keeps it there has deadlines of one kind only: its own ones, or those of a run that it
dispatched, where its end is no deadline any more. -/
inductive KeptUntil (ghostVisibilityMs : ℤ) (model : DomainModel) (nowMs : ℤ) (enough : ℤ → Prop) : RunId → Prop
  /-- It is in view for its own sake. -/
  | own {id : RunId} {run : TaskRun} (row : model.taskRun id = some run)
      (visible : isDefaultVisibleTaskRun ghostVisibilityMs model run nowMs = true)
      (lasts : ∀ d, runVisibilityExpiryMs ghostVisibilityMs model nowMs run = some d → enough d) :
      KeptUntil ghostVisibilityMs model nowMs enough id
  /-- It has an end, and dispatched a run that is kept. -/
  | above {child parent : RunId} {run : TaskRun} (kept : KeptUntil ghostVisibilityMs model nowMs enough child)
      (edge : ⟨parent, child⟩ ∈ model.executionEdges.keys) (row : model.taskRun parent = some run)
      (eligible : isDefaultVisibilityPolicyEligible model run (model.effectiveLifecycleEndMs run) nowMs
        ghostVisibilityMs = true)
      (ended : (model.effectiveLifecycleEndMs run).isSome = true)
      (lasts : ∀ d, hookOnlyExpiryMs model run = some d → enough d) :
      KeptUntil ghostVisibilityMs model nowMs enough parent

variable {enough : ℤ → Prop}

/-- A run is in view until the deadlines of what keeps it there. -/
theorem KeptUntil.inView (h : KeptUntil ghostVisibilityMs model nowMs enough id) (_ : nowMs ≤ t)
    (hbefore : ∀ d, enough d → t < d) : InView ghostVisibilityMs model t id := by
  induction h with
  | @own id run row visible lasts =>
    exact .seed ⟨run, row, (isDefaultVisible_later visible).mpr fun d hd => hbefore d (lasts d hd)⟩
  | @above child parent run kept edge row eligible ended lasts ih =>
    obtain ⟨endMs, hend⟩ := Option.isSome_iff_exists.mp ended
    have heligible : isDefaultVisibilityPolicyEligible model run (model.effectiveLifecycleEndMs run) t
        ghostVisibilityMs = true := by
      refine eligible_iff.mpr ⟨(eligible_iff.mp eligible).1, by simp [isGhost, hend], ?_⟩
      exact isHookOnlyStale_eq_false.mpr fun d hd => hbefore d (lasts d hd)
    by_cases hover : satAddI64 endMs defaultTerminalVisibilityMs ≤ t
    · exact ih.step ⟨edge, run, row, isExpiredAncestor_iff.mpr ⟨heligible, endMs, hend, hover⟩⟩
    · refine .seed ⟨run, row, isDefaultVisible_iff.mpr ⟨heligible, fun last hlast => ?_⟩⟩
      obtain rfl := Option.some.inj (hend.symm.trans hlast)
      exact not_le.mp hover

/-- What is in view later is kept there by deadlines that come later. -/
theorem KeptUntil.of_inView (h : InView ghostVisibilityMs model t id) (hle : nowMs ≤ t)
    (henough : ∀ d, t < d → enough d) : KeptUntil ghostVisibilityMs model nowMs enough id := by
  refine h.least (fun id hown => ?_) fun child parent hkept ⟨hedge, run, hrun, hexpired⟩ => ?_
  · obtain ⟨run, hrun, hlater⟩ := hown
    obtain ⟨run', hrun', hvisible⟩ := OwnInView.earlier hle ⟨run, hrun, hlater⟩
    obtain rfl := Option.some.inj (hrun.symm.trans hrun')
    refine .own hrun hvisible fun d hd => ?_
    exact henough d ((isDefaultVisible_later hvisible).mp hlater d hd)
  · obtain ⟨heligible, endMs, hend, -⟩ := isExpiredAncestor_iff.mp hexpired
    refine .above hkept hedge hrun (eligible_earlier hle heligible) (by rw [hend]; rfl) fun d hd => ?_
    exact henough d (isHookOnlyStale_eq_false.mp (eligible_iff.mp heligible).2.2 d hd)

/-- The deadlines of a run in view are to come. -/
theorem InView.before_expiry (h : InView ghostVisibilityMs model nowMs id) (hrun : model.taskRun id = some run) {d : ℤ}
    (hd : runVisibilityExpiryMs ghostVisibilityMs model nowMs run = some d) : nowMs < d := by
  have hkept : KeptUntil ghostVisibilityMs model nowMs (nowMs < ·) id :=
    .of_inView h (le_refl nowMs) fun _ hlater => hlater
  cases hkept with
  | own row visible lasts =>
    obtain rfl := Option.some.inj (row.symm.trans hrun)
    exact lasts d hd
  | above kept edge row eligible ended lasts =>
    obtain rfl := Option.some.inj (hrun.symm.trans row)
    by_cases hvisible : isDefaultVisibleTaskRun ghostVisibilityMs model run nowMs = true
    · exact (isDefaultVisible_later hvisible).mp hvisible d hd
    · obtain ⟨endMs, hend⟩ := Option.isSome_iff_exists.mp ended
      rcases minExpiry_eq hd with hd | hd
      · rw [hend] at hd
        dsimp only at hd
        rw [if_neg hvisible] at hd
        cases hd
      · exact lasts d hd

/-! ### Deadlines of what is shown -/

variable {rows : List TreeRow}

/-- The states in which an agent turns stale when nothing is heard of it. -/
def agentAging (agent : AgentNode) : Bool :=
  match agent.state with
  | none | some .unknown | some .ended => true
  | _ => false

theorem agentAging_iff {agent : AgentNode} : agentAging agent = true ↔
    agent.state = none ∨ agent.state = some .unknown ∨ agent.state = some .ended := by
  unfold agentAging
  split <;> simp_all

theorem nextAgentVisibilityExpiryMs_eq : nextAgentVisibilityExpiryMs headlessInactivityMs model nowMs =
    ((((model.agentNodes.values.filter agentAging).filter fun agent =>
      !agentNodeIsDisplayStale headlessInactivityMs agent nowMs).filterMap (·.lastActivityAtMs)).map
        fun lastActivityAtMs => satAddI64 lastActivityAtMs headlessInactivityMs).min? := rfl

theorem before_agents : (∀ d, nextAgentVisibilityExpiryMs headlessInactivityMs model nowMs = some d → t < d) ↔
    ∀ agent ∈ model.agentNodes.values,
      (agent.state = none ∨ agent.state = some .unknown ∨ agent.state = some .ended) →
      agentNodeIsDisplayStale headlessInactivityMs agent nowMs = false →
      ∀ lastActivityAtMs, agent.lastActivityAtMs = some lastActivityAtMs →
        t < satAddI64 lastActivityAtMs headlessInactivityMs := by
  rw [nextAgentVisibilityExpiryMs_eq, before_min]
  simp only [List.mem_map, List.mem_filterMap, List.mem_filter, Bool.not_eq_true']
  constructor
  · rintro h agent hagent hstate hfresh last hlast
    exact h _ ⟨last, ⟨agent, ⟨⟨hagent, agentAging_iff.mpr hstate⟩, hfresh⟩, hlast⟩, rfl⟩
  · rintro h _ ⟨last, ⟨agent, ⟨⟨hagent, hstate⟩, hfresh⟩, hlast⟩, rfl⟩
    exact h agent hagent (agentAging_iff.mp hstate) hfresh last hlast

theorem before_runs : (∀ d, nextRunVisibilityExpiryMs ghostVisibilityMs model rows nowMs = some d → t < d) ↔
    ∀ id run d, id ∈ rows.filterMap (·.key.runId) → model.taskRun id = some run →
      runVisibilityExpiryMs ghostVisibilityMs model nowMs run = some d → t < d := by
  rw [nextRunVisibilityExpiryMs, before_min]
  constructor
  · exact fun h id run d hid hrun hd =>
      h d (List.mem_filterMap.mpr ⟨run, List.mem_filterMap.mpr ⟨id, hid, hrun⟩, hd⟩)
  · intro h d hd
    obtain ⟨run, hrun, hd⟩ := List.mem_filterMap.mp hd
    obtain ⟨id, hid, hrun⟩ := List.mem_filterMap.mp hrun
    exact h id run d hid hrun hd

theorem before_second : (∀ d, nextLiveDurationExpiryMs model rows nowMs = some d → t < d) ↔
    ∀ id run createdAtMs elapsedMs second d, id ∈ rows.filterMap (·.key.runId) → model.taskRun id = some run →
      model.effectiveLifecycleEndMs run = none → run.createdAtMs = some createdAtMs →
      checkedI64 (nowMs - createdAtMs) = some elapsedMs → 0 ≤ elapsedMs →
      checkedI64 (nowMs - nowMs % 1000) = some second → checkedI64 (second + 1000) = some d → t < d := by
  unfold nextLiveDurationExpiryMs
  dsimp only
  have hrenders : (((((rows.filterMap (·.key.runId)).filterMap model.taskRun).filter fun run =>
      (model.effectiveLifecycleEndMs run).isNone).filterMap (·.createdAtMs)).filterMap fun createdAtMs =>
        checkedI64 (nowMs - createdAtMs)).any (0 ≤ ·) = true ↔
      ∃ id run createdAtMs elapsedMs, id ∈ rows.filterMap (·.key.runId) ∧ model.taskRun id = some run ∧
        model.effectiveLifecycleEndMs run = none ∧ run.createdAtMs = some createdAtMs ∧
        checkedI64 (nowMs - createdAtMs) = some elapsedMs ∧ 0 ≤ elapsedMs := by
    rw [List.any_eq_true]
    constructor
    · rintro ⟨elapsedMs, hmem, hle⟩
      obtain ⟨createdAtMs, hmem, helapsed⟩ := List.mem_filterMap.mp hmem
      obtain ⟨run, hmem, hcreated⟩ := List.mem_filterMap.mp hmem
      obtain ⟨hmem, hlive⟩ := List.mem_filter.mp hmem
      obtain ⟨id, hid, hrun⟩ := List.mem_filterMap.mp hmem
      exact ⟨id, run, createdAtMs, elapsedMs, hid, hrun, Option.isNone_iff_eq_none.mp hlive, hcreated, helapsed,
        of_decide_eq_true hle⟩
    · rintro ⟨id, run, createdAtMs, elapsedMs, hid, hrun, hlive, hcreated, helapsed, hle⟩
      refine ⟨elapsedMs, List.mem_filterMap.mpr ⟨createdAtMs, ?_, helapsed⟩, decide_eq_true hle⟩
      refine List.mem_filterMap.mpr ⟨run, List.mem_filter.mpr ⟨?_, Option.isNone_iff_eq_none.mpr hlive⟩, hcreated⟩
      exact List.mem_filterMap.mpr ⟨id, hid, hrun⟩
  split_ifs with hlive
  · rw [Bool.not_eq_true', ← Bool.not_eq_true, hrenders] at hlive
    refine ⟨fun _ => ?_, nofun⟩
    intro id run createdAtMs elapsedMs second d hid hrun hend hcreated helapsed hle
    exact absurd ⟨id, run, createdAtMs, elapsedMs, hid, hrun, hend, hcreated, helapsed, hle⟩ hlive
  · rw [Bool.not_eq_true', Bool.not_eq_false, hrenders] at hlive
    obtain ⟨id, run, createdAtMs, elapsedMs, hid, hrun, hend, hcreated, helapsed, hle⟩ := hlive
    constructor
    · intro h id run createdAtMs elapsedMs second d _ _ _ _ _ _ hsecond hd
      exact h d (Option.bind_eq_some_iff.mpr ⟨second, hsecond, hd⟩)
    · intro h d hd
      obtain ⟨second, hsecond, hd⟩ := Option.bind_eq_some_iff.mp hd
      exact h id run createdAtMs elapsedMs second d hid hrun hend hcreated helapsed hle hsecond hd

/-! ### The passage of time -/

/-- Until its deadline an agent does not turn stale, and a stale one stays so. -/
theorem stale_later (hpositive : 0 ≤ headlessInactivityMs) (hbounded : headlessInactivityMs ≤ i64Max)
    (hnow : i64Min ≤ nowMs) (hle : nowMs ≤ t) {agent : AgentNode}
    (hbefore : (agent.state = none ∨ agent.state = some .unknown ∨ agent.state = some .ended) →
      agentNodeIsDisplayStale headlessInactivityMs agent nowMs = false →
      ∀ lastActivityAtMs, agent.lastActivityAtMs = some lastActivityAtMs →
        t < satAddI64 lastActivityAtMs headlessInactivityMs) :
    agentNodeIsDisplayStale headlessInactivityMs agent t = agentNodeIsDisplayStale headlessInactivityMs agent nowMs := by
  have hsub : ∀ t last, headlessInactivityMs ≤ satSubI64 t last ↔ headlessInactivityMs ≤ t - last := by
    intro t last
    unfold satSubI64 i64Min
    unfold i64Max at *
    omega
  have hstale : ∀ t, agentNodeIsDisplayStale headlessInactivityMs agent t = true ↔
      (agent.state = none ∨ agent.state = some .unknown ∨ agent.state = some .ended) ∧
        ∃ last, agent.lastActivityAtMs = some last ∧ headlessInactivityMs ≤ t - last := by
    intro t
    unfold agentNodeIsDisplayStale
    rw [Bool.and_eq_true, Option.any_eq_true]
    simp only [decide_eq_true_eq, hsub]
    refine and_congr_left' ?_
    split <;> simp_all
  rw [Bool.eq_iff_iff, hstale, hstale]
  refine and_congr_right fun haging => ?_
  constructor
  · rintro ⟨last, hlast, hover⟩
    refine ⟨last, hlast, ?_⟩
    by_contra hfresh
    have hlater := hbefore haging (Bool.eq_false_iff.mpr fun h => ?_) last hlast
    · unfold satAddI64 i64Min at hlater
      unfold i64Min at hnow
      omega
    · obtain ⟨-, last', hlast', hover'⟩ := (hstale nowMs).mp h
      obtain rfl := Option.some.inj (hlast.symm.trans hlast')
      exact hfresh hover'
  · rintro ⟨last, hlast, hover⟩
    exact ⟨last, hlast, by omega⟩

variable {toLowercase : String → String} {fullRows : List TreeRow} {visibleRuns : HashSet RunId} {query : String}
  {collapsed : HashSet NodeKey} {mode : ViewMode}

/-! ### The time that comes with the rows -/

/-- When the projection changes by itself: runs are counted before rows are collapsed, durations after that. -/
def nextExpiry (headlessInactivityMs ghostVisibilityMs : ℤ) (model : DomainModel) (counted drawn : List TreeRow)
    (nowMs : ℤ) : Option ℤ :=
  minExpiry
    (minExpiry (nextAgentVisibilityExpiryMs headlessInactivityMs model nowMs)
      (nextRunVisibilityExpiryMs ghostVisibilityMs model counted nowMs))
    (nextLiveDurationExpiryMs model drawn nowMs)

/-- Without a query, what is left and until when. -/
theorem projectRows_all (headlessInactivityMs ghostVisibilityMs nowMs : ℤ) (hquery : query.isEmpty = true) :
    projectRowsWithVisible toLowercase headlessInactivityMs ghostVisibilityMs model fullRows visibleRuns query collapsed
        mode nowMs =
      let visible := visibleRows model fullRows visibleRuns
      let rows := if mode = .executionTree then applyCollapse visible collapsed else visible
      some ⟨rows, nextExpiry headlessInactivityMs ghostVisibilityMs model visible rows nowMs⟩ := by
  simp only [projectRowsWithVisible, hquery, Bool.not_true, Bool.false_eq_true, if_false]
  rfl

/-- Where every run in view has a row, all of them have their deadlines counted, and stay until then. -/
theorem inView_all (hkeyed : RunsKeyed model)
    (hrows : ∀ id, InView ghostVisibilityMs model nowMs id → ∃ row ∈ fullRows, row.key.runId = some id) (hle : nowMs ≤ t)
    (hbefore : ∀ d, nextRunVisibilityExpiryMs ghostVisibilityMs model
      (visibleRows model fullRows (defaultVisibleTaskRunIds ghostVisibilityMs model nowMs)) nowMs = some d → t < d) :
    InView ghostVisibilityMs model t id ↔ InView ghostVisibilityMs model nowMs id := by
  refine ⟨InView.earlier hle, fun hview => ?_⟩
  have hcounted : ∀ id run d, InView ghostVisibilityMs model nowMs id → model.taskRun id = some run →
      runVisibilityExpiryMs ghostVisibilityMs model nowMs run = some d → t < d := by
    intro id run d hid hrun hd
    obtain ⟨row, hmem, hkey⟩ := hrows id hid
    refine before_runs.mp hbefore id run d (List.mem_filterMap.mpr ⟨row, List.mem_filter.mpr ⟨hmem, ?_⟩, hkey⟩) hrun hd
    rw [hkey, Option.all_some, hrun]
    exact HashSet.contains_iff_mem_keys.mpr ((mem_defaultVisible hkeyed).mpr hid)
  have hkept : InView ghostVisibilityMs model nowMs id ∧ KeptUntil ghostVisibilityMs model nowMs (t < ·) id := by
    refine InView.least (S := fun id => InView ghostVisibilityMs model nowMs id ∧
      KeptUntil ghostVisibilityMs model nowMs (t < ·) id) hview (fun id hown => ?_)
      fun child parent ⟨hchild, hkept⟩ hparent => ?_
    · obtain ⟨run, hrun, hvisible⟩ := hown
      exact ⟨.seed ⟨run, hrun, hvisible⟩, .own hrun hvisible fun d hd =>
        hcounted id run d (.seed ⟨run, hrun, hvisible⟩) hrun hd⟩
    · have hinview := hchild.step hparent
      obtain ⟨hedge, run, hrun, hexpired⟩ := hparent
      obtain ⟨heligible, endMs, hend, -⟩ := isExpiredAncestor_iff.mp hexpired
      refine ⟨hinview, .above hkept hedge hrun heligible (by rw [hend]; rfl) fun d hd => ?_⟩
      obtain ⟨first, hfirst, hfirstLe⟩ := exists_expiry_le hd
      exact (hcounted parent run first hinview hrun hfirst).trans_le hfirstLe
  exact hkept.2.inView hle fun d hd => hd

/-- The time that is given is to come. -/
theorem nextExpiry_later (hpositive : 0 ≤ headlessInactivityMs) (hbounded : headlessInactivityMs ≤ i64Max)
    (hnow : nowMs < i64Max) {counted drawn : List TreeRow}
    (hcounted : ∀ id ∈ counted.filterMap (·.key.runId), InView ghostVisibilityMs model nowMs id) :
    ∀ d, nextExpiry headlessInactivityMs ghostVisibilityMs model counted drawn nowMs = some d → nowMs < d := by
  refine before_minExpiry.mpr ⟨before_minExpiry.mpr ⟨before_agents.mpr ?_, before_runs.mpr ?_⟩, before_second.mpr ?_⟩
  · intro agent _ haging hfresh last hlast
    have hyoung : ¬headlessInactivityMs ≤ satSubI64 nowMs last := by
      intro hstale
      refine absurd hfresh ?_
      unfold agentNodeIsDisplayStale
      rcases haging with h | h | h <;> simp [h, hlast, hstale]
    unfold satSubI64 i64Min at hyoung
    unfold satAddI64 i64Min
    unfold i64Max at *
    omega
  · intro id run d hid hrun hd
    exact InView.before_expiry (hcounted id hid) hrun hd
  · intro id run createdAtMs elapsedMs second d _ _ _ _ _ _ hsecond hd
    have hvalue : ∀ {a b : ℤ}, checkedI64 a = some b → b = a := by
      intro a b h
      unfold checkedI64 at h
      split_ifs at h
      exact (Option.some.inj h).symm
    have hfull := hvalue hsecond
    have hnext := hvalue hd
    have hlt := Int.emod_lt_of_pos nowMs (show (0 : ℤ) < 1000 by omega)
    omega

end

end HerdrTop.Tui
