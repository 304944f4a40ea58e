import HerdrTop.Provider.SynthesisTerminals
import Mathlib.Order.Bounds.Basic

/-!
# Notifications of the end of a subagent

Several files report the end of one subagent. A batch joins the reports in it, and the lane joins each batch
with what it knows; both take the earliest time and the least ordinal, and a failure if there is one. So a
held completion depends on the reports only, not on their order or on their split into batches. A failure is
not held: it is emitted with the batch that brings it, and later reports find it durable.

## What is proved

* `SubagentEnd.joinAll_sums`: what joining reports one after the other gives.
* `Synthesis.collapsedEnds_get`: a batch joins its reports in the same way.
* `Synthesis.ends_merge`: what is held and what is emitted, over every run in a grace period.
* `Synthesis.failure_first_sticks`: a report after a failure does not change it, so order matters there.
-/

namespace HerdrTop

/-! ### Joining reports -/

namespace SubagentEnd

/-- What is known after some reports, one after the other. -/
def joinAll (current : Option SubagentEnd) (reports : List SubagentEnd) : Option SubagentEnd :=
  reports.foldl (fun current report => some (join current report.failed report.ordinal report.atMs)) current

/-- The end that some reports describe together: a failure if one of them is, the least ordinal, the least
time. -/
structure Sums (reports : List SubagentEnd) (terminal : SubagentEnd) : Prop where
  failed : terminal.failed = true ↔ ∃ report ∈ reports, report.failed = true
  ordinal : IsLeast {ordinal | ∃ report ∈ reports, report.ordinal = ordinal} terminal.ordinal
  atMs : IsLeast {atMs | ∃ report ∈ reports, report.atMs = atMs} terminal.atMs

variable {reports reports' : List SubagentEnd} {current terminal terminal' report : SubagentEnd}

/-- Reports describe one end. -/
theorem Sums.unique (h : Sums reports terminal) (h' : Sums reports terminal') : terminal = terminal' := by
  obtain ⟨failed, ordinal, atMs⟩ := terminal
  obtain ⟨failed', ordinal', atMs'⟩ := terminal'
  have hfailed : failed = failed' := Bool.eq_iff_iff.mpr (h.failed.trans h'.failed.symm)
  have hordinal : ordinal = ordinal' := h.ordinal.unique h'.ordinal
  have hatMs : atMs = atMs' := h.atMs.unique h'.atMs
  rw [hfailed, hordinal, hatMs]

/-- The order of the reports does not matter, nor does how often each comes. -/
theorem Sums.congr (h : Sums reports terminal) (hsame : ∀ report, report ∈ reports ↔ report ∈ reports') :
    Sums reports' terminal := by
  constructor
  · simpa only [hsame] using h.failed
  · simpa only [hsame] using h.ordinal
  · simpa only [hsame] using h.atMs

theorem Sums.one (report : SubagentEnd) : Sums [report] report := by
  refine ⟨by simp, ⟨⟨report, by simp, rfl⟩, ?_⟩, ⟨report, by simp, rfl⟩, ?_⟩
  · rintro _ ⟨other, hother, rfl⟩
    rw [List.mem_singleton.mp hother]
  · rintro _ ⟨other, hother, rfl⟩
    rw [List.mem_singleton.mp hother]

/-- Values of the reports of two lists. -/
theorem values_append {α : Type*} (f : SubagentEnd → α) (reports reports' : List SubagentEnd) :
    {a | ∃ report ∈ reports ++ reports', f report = a} =
      {a | ∃ report ∈ reports, f report = a} ∪ {a | ∃ report ∈ reports', f report = a} := by
  ext a
  simp [or_and_right, exists_or]

/-- Joining two ends is joining what they describe. -/
theorem Sums.append (h : Sums reports terminal) (h' : Sums reports' terminal') :
    Sums (reports ++ reports')
      (join (some terminal) terminal'.failed terminal'.ordinal terminal'.atMs) := by
  constructor
  · simp only [join, Bool.or_eq_true, h.failed, h'.failed, List.mem_append, or_and_right, exists_or]
  · rw [values_append]
    exact h.ordinal.union h'.ordinal
  · rw [values_append]
    exact h.atMs.union h'.atMs

@[simp] theorem joinAll_nil (current : Option SubagentEnd) : joinAll current [] = current := rfl

theorem joinAll_append (current : Option SubagentEnd) (reports reports' : List SubagentEnd) :
    joinAll current (reports ++ reports') = joinAll (joinAll current reports) reports' :=
  List.foldl_append

/-- One report or more describe an end. -/
theorem joinAll_sums (h : reports ≠ []) : ∃ terminal, joinAll none reports = some terminal ∧
    Sums reports terminal := by
  induction reports using List.reverseRecOn with
  | nil => exact absurd rfl h
  | append_singleton reports report ih =>
    rw [joinAll_append]
    by_cases hreports : reports = []
    · subst hreports
      exact ⟨report, rfl, Sums.one report⟩
    · obtain ⟨current, hcurrent, hsums⟩ := ih hreports
      rw [hcurrent]
      exact ⟨_, rfl, hsums.append (Sums.one report)⟩

/-- What is known and some reports make the same end, joined at once or one after the other. -/
theorem joinAll_eq_join (known : Option SubagentEnd) (h : joinAll none reports = some terminal) :
    joinAll known reports = some (join known terminal.failed terminal.ordinal terminal.atMs) := by
  cases known with
  | none => exact h
  | some current =>
    have hreports : reports ≠ [] := by
      rintro rfl
      cases h
    obtain ⟨terminal', hterminal', hsums⟩ := joinAll_sums hreports
    cases h.symm.trans hterminal'
    obtain ⟨whole, hwhole, hsums'⟩ := @joinAll_sums (current :: reports) (List.cons_ne_nil _ _)
    have hjoined : joinAll (some current) reports = some whole := hwhole
    rw [hjoined, hsums'.unique ((Sums.one current).append hsums)]

/-- Without a failure there is none. -/
theorem joinAll_unfailed {known : Option SubagentEnd} (hknown : ∀ terminal ∈ known, terminal.failed = false)
    (h : ∀ report ∈ reports, report.failed = false) :
    ∀ terminal ∈ joinAll known reports, terminal.failed = false := by
  induction reports using List.reverseRecOn with
  | nil => exact hknown
  | append_singleton reports report ih =>
    rw [joinAll_append]
    have hbefore := ih fun other hother => h other (List.mem_append_left _ hother)
    have hreport := h report (List.mem_append_right _ (List.mem_singleton_self _))
    intro terminal hterminal
    cases hterminal
    cases hjoined : joinAll known reports with
    | none => exact hreport
    | some current =>
      show (current.failed || report.failed) = false
      rw [hbefore current hjoined, hreport]
      rfl

end SubagentEnd

namespace Synthesis

/-! ### Reports in a batch -/

/-- The report of an end of this agent. -/
def reportOf (agent : String × String) (fact : ℕ × LogFact) : Option SubagentEnd :=
  match asSubagentEnded fact.2 with
  | none => none
  | some (agent', failed, atMs) => if agent' = agent then some ⟨failed, fact.1, atMs⟩ else none

/-- The reports of the end of this agent. -/
def reportsOf (agent : String × String) (facts : List (ℕ × LogFact)) : List SubagentEnd :=
  facts.filterMap (reportOf agent)

/-- A batch joins the reports of each agent. -/
theorem collapsedEnds_get (facts : List (ℕ × LogFact)) (agent : String × String) :
    (collapsedEnds facts).get agent =
      (SubagentEnd.joinAll none (reportsOf agent facts)).map fun terminal =>
        (terminal.ordinal, terminal.failed, terminal.atMs) := by
  suffices h : ∀ (ended : HashMap (String × String) (ℕ × Bool × ℤ)) (known : Option SubagentEnd),
      ended.get agent = known.map (fun terminal => (terminal.ordinal, terminal.failed, terminal.atMs)) →
      (facts.foldl collapseEnd ended).get agent =
        (SubagentEnd.joinAll known (reportsOf agent facts)).map fun terminal =>
          (terminal.ordinal, terminal.failed, terminal.atMs) from h ∅ none rfl
  induction facts with
  | nil => exact fun ended known h => h
  | cons fact facts ih =>
    intro ended known h
    obtain ⟨ordinal, fact⟩ := fact
    rw [List.foldl_cons]
    unfold collapseEnd
    cases hfact : asSubagentEnded fact with
    | none =>
      have hreports : reportsOf agent ((ordinal, fact) :: facts) = reportsOf agent facts := by
        simp [reportsOf, reportOf, hfact]
      rw [hreports]
      exact ih ended known h
    | some reported =>
      obtain ⟨agent', failed, atMs⟩ := reported
      by_cases hagent : agent' = agent
      · subst hagent
        have hreports : reportsOf agent' ((ordinal, fact) :: facts) =
            ⟨failed, ordinal, atMs⟩ :: reportsOf agent' facts := by
          simp [reportsOf, reportOf, hfact]
        rw [hreports]
        refine ih _ (some (.join known failed ordinal atMs)) ?_
        rw [HashMap.get_insert_self, h]
        cases known with
        | none => simp [SubagentEnd.join]
        | some current => simp [SubagentEnd.join]
      · have hreports : reportsOf agent ((ordinal, fact) :: facts) = reportsOf agent facts := by
          simp [reportsOf, reportOf, hfact, hagent]
        rw [hreports]
        refine ih _ known ?_
        rw [HashMap.get_insert_ne _ _ (Ne.symm hagent)]
        exact h

/-- The agents whose ends are among facts in order. -/
def endedAgents (facts : List OrderedFact) : List (String × String) :=
  facts.filterMap fun fact => (asSubagentEnded fact.fact).map Prod.fst

/-- The ends in a batch are of different agents. -/
theorem endedAgents_nodup (facts : List (ℕ × LogFact)) : (endedAgents (batchFacts facts)).Nodup := by
  have hperm : (batchFacts facts).Perm (ordinaryFacts facts ++ endedFacts facts) :=
    List.perm_insertionSort _ _
  have hordinary : endedAgents (ordinaryFacts facts) = [] := by
    refine List.filterMap_eq_nil_iff.mpr fun fact hfact => ?_
    obtain ⟨⟨⟨ordinal, f⟩, order⟩, -, hsome⟩ := List.mem_filterMap.mp hfact
    dsimp only at hsome
    split_ifs at hsome with hended
    cases hsome
    rw [Bool.not_eq_true, Option.isSome_eq_false_iff, Option.isNone_iff_eq_none] at hended
    rw [hended]
    rfl
  have hended : endedAgents (endedFacts facts) = (collapsedEnds facts).keys := by
    rw [HashMap.keys_eq_map_toList, endedAgents, endedFacts, List.filterMap_map]
    rw [← List.filterMap_eq_map]
    rfl
  have h := hperm.filterMap fun fact => (asSubagentEnded fact.fact).map Prod.fst
  refine h.nodup_iff.mpr ?_
  rw [List.filterMap_append]
  show (endedAgents (ordinaryFacts facts) ++ endedAgents (endedFacts facts)).Nodup
  rw [hordinary, hended, List.nil_append]
  exact HashMap.keys_nodup _

/-! ### What spares a scope -/

/-- Whether an event ends the scope. -/
def endsScope (scope : SessionScope) (e : ScopedEvent) : Bool :=
  e.scope = scope && (markOf e.event).any Mark.isTerminal

/-- The terminal events of a scope. -/
def terminals (scope : SessionScope) (events : List ScopedEvent) : List ProviderEvent :=
  (events.filter (endsScope scope)).map (·.event)

@[simp] theorem terminals_nil (scope : SessionScope) : terminals scope [] = [] := rfl

@[simp] theorem terminals_append (scope : SessionScope) (events events' : List ScopedEvent) :
    terminals scope (events ++ events') = terminals scope events ++ terminals scope events' := by
  simp [terminals]

theorem terminals_eq_nil {scope : SessionScope} {events : List ScopedEvent}
    (h : ∀ e ∈ events, e.scope ≠ scope ∨ (markOf e.event).any Mark.isTerminal = false) :
    terminals scope events = [] := by
  rw [terminals, List.map_eq_nil_iff, List.filter_eq_nil_iff]
  intro e he hends
  obtain ⟨hscope, hterminal⟩ := Bool.and_eq_true_iff.mp hends
  rcases h e he with hne | hnot
  · exact hne (of_decide_eq_true hscope)
  · rw [hnot] at hterminal
    cases hterminal

/-- A function that leaves the end of a scope as it is. -/
structure Spares (scope : SessionScope) (s : Synthesis) (r : Synthesis × List ScopedEvent) : Prop where
  held : r.1.pendingCompletes.get scope = s.pendingCompletes.get scope
  noted : r.1.endOf scope = s.endOf scope
  completed : r.1.completed.contains scope = s.completed.contains scope
  grace : r.1.completeGraceMs = s.completeGraceMs
  silent : terminals scope r.2 = []

variable {s : Synthesis} {scope other : SessionScope} {artifact : ArtifactPath} {context : FactContext}
  {atMs nowMs : ℤ} {events : List ScopedEvent}

theorem Spares.trans {r r' : Synthesis × List ScopedEvent} (h : Spares scope s r) (h' : Spares scope r.1 r') :
    Spares scope s (r'.1, r.2 ++ r'.2) where
  held := h'.held.trans h.held
  noted := h'.noted.trans h.noted
  completed := h'.completed.trans h.completed
  grace := h'.grace.trans h.grace
  silent := by
    show terminals scope (r.2 ++ r'.2) = []
    rw [terminals_append, h.silent, h'.silent]
    rfl

/-- A function that only emits events, none of which ends the scope. -/
theorem Spares.of_events
    (h : ∀ e ∈ events, e.scope ≠ scope ∨ (markOf e.event).any Mark.isTerminal = false) :
    Spares scope s (s, events) := ⟨rfl, rfl, rfl, rfl, terminals_eq_nil h⟩

/-- What is emitted besides, when it does not end the scope. -/
theorem Spares.emit {t : Synthesis} (h : Spares scope s (t, []))
    (hevents : ∀ e ∈ events, e.scope ≠ scope ∨ (markOf e.event).any Mark.isTerminal = false) :
    Spares scope s (t, events) := ⟨h.held, h.noted, h.completed, h.grace, terminals_eq_nil hevents⟩

/-- A flush at a time at which nothing is due for the scope. -/
theorem flush_spares (h : ∀ event, s.pendingCompletes.get scope = some event → s.isDue nowMs event = false) :
    Spares scope s (s.flushDueCompletes nowMs) := by
  have hnot : scope ∉ byEventId (s.pendingCompletes.toList.filter fun held => s.isDue nowMs held.2) := by
    intro hmem
    obtain ⟨event, hevent⟩ := mem_byEventId.mp hmem
    obtain ⟨hheld, hdue⟩ := List.mem_filter.mp hevent
    exact absurd ((h event (HashMap.mem_toList.mp hheld)).symm.trans hdue) (by simp)
  obtain ⟨hgrace, -, -, hends⟩ := flushDueCompletes_fields s nowMs
  refine ⟨releaseCompletes_pending.trans (if_neg hnot), ?_, ?_, hgrace, terminals_eq_nil fun e he => .inl ?_⟩
  · unfold endOf
    rw [hends]
  · exact congrArg ScopePhase.completed (releaseCompletes_ne hnot)
  · intro heq
    exact hnot (heq ▸ (mem_releaseCompletes he).1)

/-- A function that flushes first, when nothing is due for the scope. -/
theorem Spares.after_flush {f : Synthesis → Synthesis × List ScopedEvent}
    (h : ∀ event, s.pendingCompletes.get scope = some event → s.isDue nowMs event = false)
    (hf : ∀ s₁, Spares scope s₁ (f s₁)) :
    Spares scope s ((f (s.flushDueCompletes nowMs).1).1,
      (s.flushDueCompletes nowMs).2 ++ (f (s.flushDueCompletes nowMs).1).2) :=
  (flush_spares h).trans (hf _)

theorem resume_spares (hne : scope ≠ other) : Spares scope s (s.resume other, []) := by
  refine ⟨HashMap.get_remove_ne _ hne, ?_, ?_, rfl, rfl⟩
  · cases other with
    | claudeSubagent parent agentId => exact endOf_congr hne fun key hkey => HashMap.get_remove_ne _ hkey
    | claudeRoot _ => rfl
    | codex _ => rfl
  · show (HashMap.get (s.completed.remove other) scope).isSome = _
    rw [HashMap.get_remove_ne _ hne]
    rfl

theorem startScope_spares {origin : ObservationOrigin} :
    Spares scope s ((s.startScope other atMs origin).1, []) := by
  unfold startScope
  split <;> exact ⟨rfl, rfl, rfl, rfl, rfl⟩

/-- Another scope goes on and starts, if it has not. -/
theorem begin_spares {origin : ObservationOrigin} (hne : scope ≠ other)
    (hevents : ∀ e ∈ events, e.scope ≠ scope ∨ (markOf e.event).any Mark.isTerminal = false) :
    Spares scope s (((s.resume other).startScope other atMs origin).1, events) :=
  ((resume_spares hne).trans startScope_spares).emit hevents

theorem growScope_spares {reopen : Bool} (hne : scope ≠ other) :
    Spares scope s (s.growScope artifact context other atMs reopen) := by
  have hgrown : Spares scope s ({ s with
      lastAppendMs := s.lastAppendMs.insert other atMs
      lastAppendOrigins := s.lastAppendOrigins.insert other context.origin }, []) :=
    ⟨rfl, rfl, rfl, rfl, rfl⟩
  unfold growScope
  dsimp only
  split
  · refine (hgrown.trans startScope_spares).emit fun e he => .inl ?_
    rcases List.mem_cons.mp he with rfl | he
    · exact hne.symm
    · split at he
      · rw [List.mem_singleton.mp he]
        exact hne.symm
      · cases he
  · refine hgrown.emit fun e he => .inl ?_
    rw [List.mem_singleton.mp he]
    exact hne.symm

theorem synthesizeAppend_spares (hne : scope ≠ other)
    (hdue : ∀ event, s.pendingCompletes.get scope = some event → s.isDue atMs event = false) :
    Spares scope s (s.synthesizeAppend artifact context other atMs) := by
  have hflush := flush_spares hdue
  by_cases hended : (s.flushDueCompletes atMs).1.endedSince atMs other = true
  · simp only [synthesizeAppend, prepareResume, hended, if_true]
    exact hflush
  · simp only [synthesizeAppend, prepareResume, if_neg hended]
    exact hflush.trans (@Spares.trans _ _ (_, []) _ (resume_spares hne) (growScope_spares hne))

/-- Metadata of a known rollout changes nothing; the first metadata flushes. -/
theorem synthesizeCodexMeta_spares {rolloutId cwd originator cliVersion : String}
    {internal : Option CodexInternal} (hne : scope ≠ .codex rolloutId)
    (hdue : s.sessionMeta.contains artifact = true ∨ ∀ event, s.pendingCompletes.get scope = some event →
      s.isDue ((s.lastAppendMs.get (.codex rolloutId)).getD s.latestLifecycleMs) event = false) :
    Spares scope s (s.synthesizeCodexMeta artifact context rolloutId cwd originator internal cliVersion) := by
  unfold synthesizeCodexMeta
  split_ifs with hknown
  · exact ⟨rfl, rfl, rfl, rfl, rfl⟩
  · have hdue' := hdue.resolve_left hknown
    have hnoted : Spares scope s ({ s with
        sessionMeta := s.sessionMeta.insert artifact ⟨cwd, originator, internal, cliVersion⟩ }, []) :=
      ⟨rfl, rfl, rfl, rfl, rfl⟩
    have hflush : Spares scope { s with
        sessionMeta := s.sessionMeta.insert artifact ⟨cwd, originator, internal, cliVersion⟩ } _ :=
      flush_spares hdue'
    have hbegin : ∀ s₁ : Synthesis, Spares scope s₁ (((s₁.resume (.codex rolloutId)).startScope (.codex rolloutId)
        ((s.lastAppendMs.get (.codex rolloutId)).getD s.latestLifecycleMs) context.origin).1,
        [synthesized artifact context (.codex rolloutId) .taskStarted
          ((s.lastAppendMs.get (.codex rolloutId)).getD s.latestLifecycleMs) none
          (some { eventKind := codexRunKind originator internal })]) := fun _ =>
      begin_spares hne fun e he => .inl (List.mem_singleton.mp he ▸ hne.symm)
    exact hnoted.trans (hflush.trans (hbegin _))

theorem synthesizeCodexTurnStarted_spares {rolloutId : String} (hne : scope ≠ .codex rolloutId)
    (hdue : ∀ event, s.pendingCompletes.get scope = some event → s.isDue atMs event = false) :
    Spares scope s (s.synthesizeCodexTurnStarted artifact context rolloutId atMs) := by
  have hlines : ∀ s₁ : Synthesis, Spares scope (s₁.resume (.codex rolloutId))
      ({ s₁.resume (.codex rolloutId) with liveLines := s₁.liveLines.remove (.codex rolloutId) }, []) :=
    fun _ => ⟨rfl, rfl, rfl, rfl, rfl⟩
  have hstarted := ((resume_spares hne).trans (hlines (s.flushDueCompletes atMs).1)).trans
    (@startScope_spares _ _ (.codex rolloutId) atMs context.origin)
  refine (flush_spares hdue).trans (Spares.emit hstarted fun e he => .inl ?_)
  simp only [List.mem_append, List.mem_ite_nil_right, List.mem_singleton] at he
  rcases he with (⟨-, rfl⟩ | ⟨-, rfl⟩) | rfl <;> exact hne.symm

theorem synthesizeCodexTurnComplete_spares {rolloutId : String} (hne : scope ≠ .codex rolloutId)
    (hdue : ∀ event, s.pendingCompletes.get scope = some event → s.isDue atMs event = false) :
    Spares scope s (s.synthesizeCodexTurnComplete artifact context rolloutId atMs) := by
  have hidle : Spares scope (s.flushDueCompletes atMs).1 ((s.flushDueCompletes atMs).1, [⟨.codex rolloutId,
      rootRuntimeStateEvent artifact context.ordinal context.sequence rolloutId atMs false⟩]) := by
    refine .of_events fun e he => .inl ?_
    rw [List.mem_singleton.mp he]
    exact hne.symm
  exact (flush_spares hdue).trans hidle

theorem dropScope_spares (hne : scope ≠ other) : Spares scope s (s.dropScope other, []) := by
  refine ⟨HashMap.get_remove_ne _ hne, rfl, ?_, rfl, rfl⟩
  exact congrArg ScopePhase.completed (dropScope_ne hne)

theorem synthesizeCodexTurnAborted_spares {rolloutId : String} (hne : scope ≠ .codex rolloutId)
    (hdue : ∀ event, s.pendingCompletes.get scope = some event → s.isDue atMs event = false) :
    Spares scope s (s.synthesizeCodexTurnAborted artifact context rolloutId atMs) := by
  refine Spares.after_flush (f := fun s₁ => (s₁.dropScope (.codex rolloutId), _)) hdue fun s₁ =>
    (dropScope_spares hne).emit fun e he => .inl ?_
  rw [List.mem_singleton.mp he]
  exact hne.symm

theorem synthesizeSubagentAppeared_spares {parent agentId agentType description : String}
    (hne : scope ≠ .claudeSubagent parent agentId)
    (hdue : ∀ event, s.pendingCompletes.get scope = some event → s.isDue atMs event = false) :
    Spares scope s
      (s.synthesizeSubagentAppeared artifact context parent agentId agentType description atMs) := by
  have hflush := flush_spares hdue
  by_cases hended : (s.flushDueCompletes atMs).1.endedSince atMs (.claudeSubagent parent agentId) = true
  · simp only [synthesizeSubagentAppeared, prepareResume, hended, if_true, Option.isNone_none]
    exact hflush
  · simp only [synthesizeSubagentAppeared, prepareResume, if_neg hended, Option.isNone_some,
      Bool.false_eq_true, if_false]
    refine hflush.trans (begin_spares hne fun e he => .inl ?_)
    rcases List.mem_cons.mp he with rfl | he
    · exact hne.symm
    · rw [List.mem_singleton.mp he]
      exact hne.symm

/-- The end of another subagent. -/
theorem synthesizeSubagentEnded_spares {parent agentId : String} {failed : Bool}
    (hne : scope ≠ .claudeSubagent parent agentId)
    (hdue : ∀ nowMs ≤ atMs, ∀ event, s.pendingCompletes.get scope = some event → s.isDue nowMs event = false) :
    Spares scope s (s.synthesizeSubagentEnded artifact context parent agentId failed atMs) := by
  unfold synthesizeSubagentEnded
  dsimp only
  split
  · exact ⟨rfl, rfl, rfl, rfl, rfl⟩
  · generalize hterminal : SubagentEnd.join (s.subagentEnds.get (parent, agentId)) failed context.ordinal
      atMs = terminal
    have hle : terminal.atMs ≤ atMs := hterminal ▸ joinedEnd_le
    have hnoted : Spares scope s (s.noteEnd parent agentId terminal, []) :=
      ⟨rfl, endOf_congr hne fun _ hkey => HashMap.get_insert_ne _ _ hkey, rfl, rfl, rfl⟩
    have hflush : Spares scope (s.noteEnd parent agentId terminal)
        ((s.noteEnd parent agentId terminal).flushDueCompletes terminal.atMs) :=
      flush_spares (hdue terminal.atMs hle)
    have hspared := @Spares.trans _ _ (_, []) _ hnoted hflush
    split
    · refine hspared.trans ((dropScope_spares hne).emit fun e he => .inl ?_)
      rw [List.mem_singleton.mp he]
      exact hne.symm
    · refine ⟨?_, hspared.noted, hspared.completed, hspared.grace, hspared.silent⟩
      exact (HashMap.get_insert_ne _ _ hne).trans hspared.held

theorem publishClaudeSubject_spares {sessionId : String} :
    Spares scope s (s.publishClaudeSubject artifact context sessionId) := by
  unfold publishClaudeSubject
  split
  · exact ⟨rfl, rfl, rfl, rfl, rfl⟩
  · split
    · exact ⟨rfl, rfl, rfl, rfl, rfl⟩
    · refine ⟨rfl, rfl, rfl, rfl, terminals_eq_nil fun e he => .inr ?_⟩
      rw [List.mem_singleton.mp he]
      rfl

theorem synthesizeClaudeCwd_spares {sessionId cwd : String} :
    Spares scope s (s.synthesizeClaudeCwd artifact context sessionId cwd) := by
  unfold synthesizeClaudeCwd
  split
  · exact ⟨rfl, rfl, rfl, rfl, rfl⟩
  · have h : ∀ s₁ : Synthesis, Spares scope s (s₁, []) →
        Spares scope s (s₁.publishClaudeSubject artifact context sessionId) := fun s₁ hs₁ =>
      @Spares.trans _ _ (_, []) _ hs₁ publishClaudeSubject_spares
    exact h _ ⟨rfl, rfl, rfl, rfl, rfl⟩

theorem synthesizeAiTitle_spares {sessionId title : String} :
    Spares scope s (s.synthesizeAiTitle artifact context sessionId title) := by
  have h : Spares scope s ({ s with aiTitles := s.aiTitles.insert sessionId title }, []) :=
    ⟨rfl, rfl, rfl, rfl, rfl⟩
  exact h.trans publishClaudeSubject_spares

theorem synthesizeActivity_spares {source : ActivitySource} {line : String} :
    Spares scope s (s.synthesizeActivity artifact context other atMs source line) := by
  refine ⟨rfl, rfl, rfl, rfl, terminals_eq_nil fun e he => .inr ?_⟩
  unfold synthesizeActivity at he
  dsimp only at he
  split_ifs at he
  · cases he
  · rw [List.mem_singleton.mp he]
    rfl

theorem synthesizeUsage_spares {sampleId : String} {outputTokens : ℕ} {tokenBreakdown : TokenBreakdown}
    {model effort : Option String} :
    Spares scope s (s.synthesizeUsage other atMs sampleId outputTokens tokenBreakdown model effort) := by
  unfold synthesizeUsage
  split_ifs
  · exact ⟨rfl, rfl, rfl, rfl, rfl⟩
  · refine ⟨rfl, rfl, rfl, rfl, terminals_eq_nil fun e he => .inr ?_⟩
    rw [List.mem_singleton.mp he]
    rfl

theorem synthesizeLineage_spares {parent child : SessionScope} :
    Spares scope s (s.synthesizeLineage artifact context parent child atMs) := by
  unfold synthesizeLineage
  split_ifs
  · exact ⟨rfl, rfl, rfl, rfl, rfl⟩
  · refine ⟨rfl, rfl, rfl, rfl, terminals_eq_nil fun e he => .inr ?_⟩
    rw [List.mem_singleton.mp he]
    rfl

/-- The silent scopes close, which ends none. -/
theorem closeAllInactive_spares {silent : List (SessionScope × ℤ)} :
    Spares scope s (s.closeAllInactive silent) := by
  induction silent generalizing s with
  | nil => exact ⟨rfl, rfl, rfl, rfl, rfl⟩
  | cons p silent ih =>
    have hclose : Spares scope s (s.closeInactive p.1 p.2) := by
      refine ⟨rfl, rfl, rfl, rfl, terminals_eq_nil fun e he => .inr ?_⟩
      rw [List.mem_singleton.mp he]
      rfl
    exact hclose.trans ih

theorem noteTime_spares (fact : LogFact) : Spares scope s (s.noteTime fact, []) := by
  unfold noteTime
  cases fact.lifecycleTime <;> exact ⟨rfl, rfl, rfl, rfl, rfl⟩

/-! ### The end of one subagent -/

/-- The event of an end. -/
def endEvent (artifact : ArtifactPath) (parent agentId : String) (terminal : SubagentEnd) : ControllerEvent :=
  controllerEvent artifact terminal.ordinal (.claudeSubagent parent agentId)
    (if terminal.failed then .failed else .complete) terminal.atMs none none

/-- The lane knows this much of the end of a subagent, last from this artifact, and it holds the completion,
whose grace lasts until `limit` at least. -/
structure Awaits (parent agentId : String) (limit graceMs : ℤ) (artifact : ArtifactPath)
    (known : Option SubagentEnd) (s : Synthesis) : Prop where
  noted : s.subagentEnds.get (parent, agentId) = known
  held : s.pendingCompletes.get (.claudeSubagent parent agentId) =
    known.bind fun terminal => if terminal.failed then none else some (endEvent artifact parent agentId terminal)
  completed : s.completed.contains (.claudeSubagent parent agentId) = false
  dated : ∀ terminal ∈ known, terminal.atMs < i64Max
  late : ∀ terminal ∈ known, limit ≤ satAddI64 terminal.atMs graceMs
  grace : s.completeGraceMs = graceMs
  positive : 0 < graceMs

variable {parent agentId : String} {limit graceMs : ℤ} {artifact' : ArtifactPath} {known : Option SubagentEnd}

/-- What is held is the known end. -/
theorem Awaits.held_eq {event : ControllerEvent} (h : s.Awaits parent agentId limit graceMs artifact known)
    (hheld : s.pendingCompletes.get (.claudeSubagent parent agentId) = some event) :
    ∃ terminal ∈ known, event = endEvent artifact parent agentId terminal := by
  rw [h.held, Option.bind_eq_some_iff] at hheld
  obtain ⟨terminal, hknown, hevent⟩ := hheld
  split_ifs at hevent
  cases hevent
  exact ⟨terminal, hknown, rfl⟩

/-- The completion is not due before the limit. -/
theorem Awaits.not_due (h : s.Awaits parent agentId limit graceMs artifact known) (hnow : nowMs < limit) :
    ∀ event, s.pendingCompletes.get (.claudeSubagent parent agentId) = some event →
      s.isDue nowMs event = false := by
  intro event hheld
  obtain ⟨terminal, hknown, rfl⟩ := h.held_eq hheld
  have hlate := h.late terminal hknown
  refine decide_eq_false (not_le.mpr (hnow.trans_le ?_))
  rw [h.grace]
  exact hlate

theorem Awaits.spares {r : Synthesis × List ScopedEvent} (h : s.Awaits parent agentId limit graceMs artifact known)
    (hspares : Spares (.claudeSubagent parent agentId) s r) :
    r.1.Awaits parent agentId limit graceMs artifact known where
  noted := hspares.noted.trans h.noted
  held := hspares.held.trans h.held
  completed := hspares.completed.trans h.completed
  dated := h.dated
  late := h.late
  grace := hspares.grace.trans h.grace
  positive := h.positive

/-- Facts that do not flush at the limit or later, and show no life of the subagent. The first metadata of a
rollout flushes at its last append, or at the clock of the lane. -/
def InWindow (parent agentId : String) (limit : ℤ) (artifact : ArtifactPath) (s : Synthesis) : LogFact → Prop
  | .append scope atMs => scope ≠ .claudeSubagent parent agentId ∧ atMs < limit
  | .subagentAppeared parent' agentId' _ _ atMs => (parent', agentId') ≠ (parent, agentId) ∧ atMs < limit
  | .subagentEnded parent' agentId' _ atMs =>
    if (parent', agentId') = (parent, agentId) then atMs < i64Max else atMs < limit
  | .codexTurnStarted _ atMs | .codexTurnComplete _ atMs | .codexTurnAborted _ atMs => atMs < limit
  | .codexMeta rolloutId _ _ _ _ => s.sessionMeta.contains artifact = true ∨
    (s.lastAppendMs.get (.codex rolloutId)).getD s.latestLifecycleMs < limit
  | _ => True

/-- Such a fact that is not an end of the subagent leaves what is known and held. -/
theorem synthesizeFact_spares {fact : LogFact} (artifact : ArtifactPath) (context : FactContext)
    (admission : Admission) (discovered : AdmissionIndex)
    (h : s.Awaits parent agentId limit graceMs artifact' known)
    (hwindow : InWindow parent agentId limit artifact s fact)
    (hother : (asSubagentEnded fact).map Prod.fst ≠ some (parent, agentId)) :
    Spares (.claudeSubagent parent agentId) s
      ((s.synthesizeFact artifact context fact admission discovered).1,
        (s.synthesizeFact artifact context fact admission discovered).2.2) := by
  have hnoted : Spares (.claudeSubagent parent agentId) s (s.noteTime fact, []) := noteTime_spares fact
  have h' := h.spares hnoted
  have hdue : ∀ nowMs < limit, ∀ event, (s.noteTime fact).pendingCompletes.get
      (.claudeSubagent parent agentId) = some event → (s.noteTime fact).isDue nowMs event = false :=
    fun _ hnow => h'.not_due hnow
  by_cases hmeta : ∃ rolloutId cwd originator internal cliVersion,
      fact = .codexMeta rolloutId cwd originator internal cliVersion
  · obtain ⟨rolloutId, cwd, originator, internal, cliVersion, rfl⟩ := hmeta
    exact synthesizeCodexMeta_spares nofun (hwindow.imp_right fun hbefore => hdue _ hbefore)
  refine @Spares.trans _ _ _ (_, _) hnoted ?_
  clear hnoted
  unfold synthesizeFact
  dsimp only
  generalize s.noteTime fact = s₁ at h' hdue ⊢
  cases fact with
  | append scope atMs => exact synthesizeAppend_spares hwindow.1.symm (hdue _ hwindow.2)
  | aiTitle sessionId title => exact synthesizeAiTitle_spares
  | claudeCwd sessionId cwd => exact synthesizeClaudeCwd_spares
  | codexMeta => exact absurd ⟨_, _, _, _, _, rfl⟩ hmeta
  | codexTurn => exact ⟨rfl, rfl, rfl, rfl, rfl⟩
  | codexPid => exact ⟨rfl, rfl, rfl, rfl, rfl⟩
  | codexTurnStarted rolloutId atMs => exact synthesizeCodexTurnStarted_spares nofun (hdue _ hwindow)
  | codexTurnComplete rolloutId atMs => exact synthesizeCodexTurnComplete_spares nofun (hdue _ hwindow)
  | codexTurnAborted rolloutId atMs => exact synthesizeCodexTurnAborted_spares nofun (hdue _ hwindow)
  | subagentAppeared parent' agentId' agentType description atMs =>
    refine synthesizeSubagentAppeared_spares (fun heq => hwindow.1 ?_) (hdue _ hwindow.2)
    cases heq
    rfl
  | subagentEnded parent' agentId' failed atMs =>
    have hne : (parent', agentId') ≠ (parent, agentId) := fun heq => hother (congrArg some heq)
    have hcase : if (parent', agentId') = (parent, agentId) then atMs < i64Max else atMs < limit := hwindow
    have hbefore : atMs < limit := by rwa [if_neg hne] at hcase
    refine synthesizeSubagentEnded_spares (fun heq => hne ?_) fun nowMs hnow => hdue nowMs (hnow.trans_lt hbefore)
    cases heq
    rfl
  | activity scope atMs source line => exact synthesizeActivity_spares
  | usage scope atMs sampleId outputTokens tokenBreakdown model effort => exact synthesizeUsage_spares
  | evidenceId parent' id atMs =>
    cases hchild : (admission.onEvidence parent' id discovered).2 with
    | none =>
      simp only [hchild]
      exact ⟨rfl, rfl, rfl, rfl, rfl⟩
    | some child =>
      simp only [hchild]
      exact synthesizeLineage_spares

/-- After a failure, further reports change nothing. -/
theorem ended_after_failure {terminal : SubagentEnd} {failed : Bool} (artifact : ArtifactPath)
    (context : FactContext)
    (h : s.Awaits parent agentId limit graceMs artifact' (some terminal)) (hfailed : terminal.failed = true) :
    s.synthesizeSubagentEnded artifact context parent agentId failed atMs = (s, []) := by
  unfold synthesizeSubagentEnded
  rw [if_pos]
  rw [h.noted, Bool.or_eq_true]
  exact .inl hfailed

/-- A report joins what is known, and a failure is emitted at once. -/
theorem ended_awaits {failed : Bool} (artifact : ArtifactPath) (context : FactContext)
    (h : s.Awaits parent agentId limit graceMs artifact' known)
    (hopen : ∀ terminal ∈ known, terminal.failed = false) (hdated : atMs < i64Max)
    (hlate : limit ≤ satAddI64 atMs graceMs) :
    (s.synthesizeSubagentEnded artifact context parent agentId failed atMs).1.Awaits parent agentId limit
        graceMs artifact (some (.join known failed context.ordinal atMs)) ∧
      terminals (.claudeSubagent parent agentId)
          (s.synthesizeSubagentEnded artifact context parent agentId failed atMs).2 =
        if (SubagentEnd.join known failed context.ordinal atMs).failed then
          [.synthesized (endEvent artifact parent agentId (.join known failed context.ordinal atMs))] else [] := by
  have hguard : ¬((s.subagentEnds.get (parent, agentId)).any (·.failed) ||
      s.completed.contains (.claudeSubagent parent agentId)) = true := by
    rw [h.noted, h.completed, Bool.or_false]
    cases known with
    | none => simp
    | some terminal => simp [hopen terminal rfl]
  unfold synthesizeSubagentEnded
  dsimp only
  rw [if_neg hguard, h.noted]
  generalize hterminal : SubagentEnd.join known failed context.ordinal atMs = terminal
  have hbound : terminal.atMs < i64Max ∧ limit ≤ satAddI64 terminal.atMs graceMs ∧
      ∀ current ∈ known, terminal.atMs ≤ current.atMs := by
    subst hterminal
    cases known with
    | none => exact ⟨hdated, hlate, fun _ hcurrent => by cases hcurrent⟩
    | some current =>
      refine ⟨(min_le_right _ _).trans_lt hdated, ?_, fun _ hcurrent => ?_⟩
      · show limit ≤ satAddI64 (min current.atMs atMs) graceMs
        rcases min_choice current.atMs atMs with hmin | hmin
        · rw [hmin]
          exact h.late current rfl
        · rw [hmin]
          exact hlate
      · cases hcurrent
        exact min_le_left _ _
  obtain ⟨hdated', hlate', hearlier⟩ := hbound
  have hflush : Spares (.claudeSubagent parent agentId) (s.noteEnd parent agentId terminal)
      ((s.noteEnd parent agentId terminal).flushDueCompletes terminal.atMs) := by
    refine flush_spares fun event hheld => ?_
    obtain ⟨current, hcurrent, rfl⟩ := h.held_eq hheld
    have hle := hearlier current hcurrent
    have hcurrentDated := h.dated current hcurrent
    have hpositive := h.positive
    refine decide_eq_false fun hdue => ?_
    have hdue' : satAddI64 current.atMs graceMs ≤ terminal.atMs := h.grace ▸ hdue
    unfold satAddI64 at hdue'
    rw [max_le_iff, min_le_iff] at hdue'
    omega
  have hnotedEnd : ((s.noteEnd parent agentId terminal).flushDueCompletes terminal.atMs).1.subagentEnds.get
      (parent, agentId) = some terminal := hflush.noted.trans (HashMap.get_insert_self _ _ _)
  have hgrace' : ((s.noteEnd parent agentId terminal).flushDueCompletes terminal.atMs).1.completeGraceMs =
      graceMs := hflush.grace.trans h.grace
  have hcompleted := hflush.completed.trans h.completed
  have hsilent := hflush.silent
  generalize hs₁ : (s.noteEnd parent agentId terminal).flushDueCompletes terminal.atMs = flush
    at hnotedEnd hgrace' hcompleted hsilent
  have hflushed : ({ s with subagentEnds := s.subagentEnds.insert (parent, agentId) terminal } :
      Synthesis).flushDueCompletes terminal.atMs = flush := hs₁
  rw [hflushed]
  obtain ⟨s₁, flushed⟩ := flush
  have hlate₁ : ∀ current ∈ some terminal, limit ≤ satAddI64 current.atMs graceMs := fun current hcurrent => by
    cases hcurrent
    exact hlate'
  have hdated₁ : ∀ current ∈ some terminal, current.atMs < i64Max := fun current hcurrent => by
    cases hcurrent
    exact hdated'
  dsimp only
  cases hfail : terminal.failed with
  | true =>
    simp only [if_true]
    refine ⟨⟨hnotedEnd, ?_, ?_, hdated₁, hlate₁, hgrace', h.positive⟩, ?_⟩
    · show (s₁.pendingCompletes.remove _).get _ = _
      rw [HashMap.get_remove_self, Option.bind_some, if_pos hfail]
    · show (HashMap.get (s₁.completed.remove _) _).isSome = false
      rw [HashMap.get_remove_self]
      rfl
    · rw [terminals_append, hsilent]
      simp [terminals, endsScope, markOf, controllerEvent, Mark.isTerminal, endEvent, hfail]
  | false =>
    simp only [Bool.false_eq_true, if_false]
    refine ⟨⟨hnotedEnd, ?_, hcompleted, hdated₁, hlate₁, hgrace', h.positive⟩, hsilent⟩
    show (s₁.pendingCompletes.insert _ _).get _ = _
    rw [HashMap.get_insert_self, Option.bind_some, if_neg (by simp [hfail])]
    simp [endEvent, hfail]

/-! ### Batches -/

theorem mem_reportsOf {agent : String × String} {facts : List (ℕ × LogFact)} {report : SubagentEnd} :
    report ∈ reportsOf agent facts ↔
      (report.ordinal, .subagentEnded agent.1 agent.2 report.failed report.atMs) ∈ facts := by
  constructor
  · intro h
    obtain ⟨⟨ordinal, fact⟩, hmem, hreport⟩ := List.mem_filterMap.mp h
    cases fact with
    | subagentEnded parent agentId failed atMs =>
      simp only [reportOf, asSubagentEnded] at hreport
      split_ifs at hreport with hagent
      cases hreport
      rw [← hagent]
      exact hmem
    | _ => cases hreport
  · exact fun h => List.mem_filterMap.mpr ⟨_, h, by simp [reportOf, asSubagentEnded]⟩

/-- A batch with reports of an end has one fact of it, and other facts before and after. -/
theorem batchFacts_split {agent : String × String} {facts : List (ℕ × LogFact)} {terminal : SubagentEnd}
    (h : SubagentEnd.joinAll none (reportsOf agent facts) = some terminal) :
    ∃ before own after, batchFacts facts = before ++ own :: after ∧ own.ordinal = terminal.ordinal ∧
      own.fact = .subagentEnded agent.1 agent.2 terminal.failed terminal.atMs ∧
      ∀ fact ∈ before ++ after, (asSubagentEnded fact.fact).map Prod.fst ≠ some agent := by
  have hget : (collapsedEnds facts).get agent = some (terminal.ordinal, terminal.failed, terminal.atMs) := by
    rw [collapsedEnds_get, h]
    rfl
  have hmem : (⟨terminal.ordinal, usizeMax, 0,
      .subagentEnded agent.1 agent.2 terminal.failed terminal.atMs⟩ : OrderedFact) ∈ batchFacts facts := by
    rw [batchFacts, List.mem_insertionSort]
    exact List.mem_append_right _ (List.mem_map.mpr ⟨_, HashMap.mem_toList.mpr hget, rfl⟩)
  obtain ⟨before, after, hsplit⟩ := List.append_of_mem hmem
  refine ⟨before, _, after, hsplit, rfl, rfl, fun fact hfact hagent => ?_⟩
  have hnodup := endedAgents_nodup facts
  rw [hsplit, endedAgents, List.filterMap_append] at hnodup
  have hmiddle : (endedAgents before ++ agent :: endedAgents after).Nodup := hnodup
  have hnot := (List.nodup_middle.mp hmiddle).notMem
  rw [endedAgents, endedAgents, ← List.filterMap_append] at hnot
  exact hnot (List.mem_filterMap.mpr ⟨fact, hfact, hagent⟩)

/-- A batch without reports of an end has no fact of it. -/
theorem batchFacts_others {agent : String × String} {facts : List (ℕ × LogFact)}
    (h : reportsOf agent facts = []) :
    ∀ fact ∈ batchFacts facts, (asSubagentEnded fact.fact).map Prod.fst ≠ some agent := by
  intro fact hfact hagent
  rw [batchFacts, List.mem_insertionSort, List.mem_append] at hfact
  rcases hfact with hfact | hfact
  · obtain ⟨⟨⟨ordinal, f⟩, order⟩, -, hsome⟩ := List.mem_filterMap.mp hfact
    dsimp only at hsome
    split_ifs at hsome with hended
    cases hsome
    cases hf : asSubagentEnded f <;> simp_all
  · obtain ⟨⟨agent', collapsed⟩, hmem, rfl⟩ := List.mem_map.mp hfact
    have hget := HashMap.mem_toList.mp hmem
    cases hagent
    rw [collapsedEnds_get, h] at hget
    cases hget

section Facts

variable (artifact : ArtifactPath) (origin : ObservationOrigin) (discovered : AdmissionIndex)

theorem synthesizeFacts_append (s : Synthesis) (admission : Admission) (facts facts' : List OrderedFact) :
    synthesizeFacts artifact origin discovered s admission (facts ++ facts') =
      ((synthesizeFacts artifact origin discovered
          (synthesizeFacts artifact origin discovered s admission facts).1
          (synthesizeFacts artifact origin discovered s admission facts).2.1 facts').1,
        (synthesizeFacts artifact origin discovered
          (synthesizeFacts artifact origin discovered s admission facts).1
          (synthesizeFacts artifact origin discovered s admission facts).2.1 facts').2.1,
        (synthesizeFacts artifact origin discovered s admission facts).2.2 ++
          (synthesizeFacts artifact origin discovered
            (synthesizeFacts artifact origin discovered s admission facts).1
            (synthesizeFacts artifact origin discovered s admission facts).2.1 facts').2.2) := by
  induction facts generalizing s admission with
  | nil => rfl
  | cons fact facts ih =>
    simp only [List.cons_append, synthesizeFacts, ih, List.append_assoc]

/-- Each fact of a list is in the window, in the state that it meets. -/
def FactsInWindow (parent agentId : String) (limit : ℤ) (s : Synthesis) (admission : Admission)
    (facts : List OrderedFact) : Prop :=
  ∀ done fact rest, facts = done ++ fact :: rest → InWindow parent agentId limit artifact
    (synthesizeFacts artifact origin discovered s admission done).1 fact.fact

variable {artifact origin discovered} {admission : Admission} {facts facts' : List OrderedFact}

theorem FactsInWindow.left (h : FactsInWindow artifact origin discovered parent agentId limit s admission
    (facts ++ facts')) : FactsInWindow artifact origin discovered parent agentId limit s admission facts := by
  rintro done fact rest rfl
  exact h done fact (rest ++ facts') (List.append_assoc _ _ _)

theorem FactsInWindow.right (h : FactsInWindow artifact origin discovered parent agentId limit s admission
    (facts ++ facts')) : FactsInWindow artifact origin discovered parent agentId limit
      (synthesizeFacts artifact origin discovered s admission facts).1
      (synthesizeFacts artifact origin discovered s admission facts).2.1 facts' := by
  rintro done fact rest rfl
  have hfact := h (facts ++ done) fact rest (List.append_assoc _ _ _).symm
  rwa [synthesizeFacts_append] at hfact

/-- What is collapsed in a batch is one of its facts, or joins some of them. -/
theorem FactsInWindow.of_batch {facts : List (ℕ × LogFact)}
    (hwindow : ∀ fact ∈ facts, ∀ s, InWindow parent agentId limit artifact s fact.2) :
    FactsInWindow artifact origin discovered parent agentId limit s admission (batchFacts facts) := by
  suffices hall : ∀ fact ∈ batchFacts facts, ∀ s, InWindow parent agentId limit artifact s fact.fact from
    fun _ fact _ hsplit => hall fact (hsplit ▸ List.mem_append_right _ List.mem_cons_self) _
  intro fact hfact s
  rw [batchFacts, List.mem_insertionSort, List.mem_append] at hfact
  rcases hfact with hfact | hfact
  · obtain ⟨⟨⟨ordinal, f⟩, order⟩, hmem, hsome⟩ := List.mem_filterMap.mp hfact
    dsimp only at hsome
    split_ifs at hsome
    cases hsome
    have hzip := List.mem_zipIdx hmem
    exact hwindow (ordinal, f) (hzip.2.2 ▸ List.getElem_mem _) s
  · obtain ⟨⟨agent, collapsed⟩, hmem, rfl⟩ := List.mem_map.mp hfact
    have hget := HashMap.mem_toList.mp hmem
    rw [collapsedEnds_get, Option.map_eq_some_iff] at hget
    obtain ⟨terminal, hterminal, rfl⟩ := hget
    have hreports : reportsOf agent facts ≠ [] := by
      intro hnone
      rw [hnone] at hterminal
      cases hterminal
    obtain ⟨terminal', hterminal', hsums⟩ := SubagentEnd.joinAll_sums hreports
    cases hterminal.symm.trans hterminal'
    obtain ⟨report, hreport, hatMs⟩ := hsums.atMs.1
    have hfact := hwindow _ (mem_reportsOf.mp hreport) s
    show InWindow parent agentId limit artifact s (.subagentEnded agent.1 agent.2 terminal.failed terminal.atMs)
    rw [← hatMs]
    exact hfact

variable (artifact origin discovered)

/-- Facts that are not ends of the subagent leave what is known and held. -/
theorem synthesizeFacts_spares (admission : Admission) {facts : List OrderedFact}
    (h : s.Awaits parent agentId limit graceMs artifact' known)
    (hwindow : FactsInWindow artifact origin discovered parent agentId limit s admission facts)
    (hother : ∀ fact ∈ facts, (asSubagentEnded fact.fact).map Prod.fst ≠ some (parent, agentId)) :
    Spares (.claudeSubagent parent agentId) s
      ((synthesizeFacts artifact origin discovered s admission facts).1,
        (synthesizeFacts artifact origin discovered s admission facts).2.2) := by
  induction facts generalizing s admission with
  | nil => exact ⟨rfl, rfl, rfl, rfl, rfl⟩
  | cons fact facts ih =>
    have hfact := synthesizeFact_spares artifact ⟨fact.ordinal, fact.sequence, origin⟩ admission discovered h
      (hwindow [] fact facts rfl) (hother fact List.mem_cons_self)
    exact hfact.trans (ih _ (h.spares hfact) (@FactsInWindow.right _ _ _ _ _ _ _ _ [fact] facts hwindow)
      fun fact hf => hother fact (List.mem_cons_of_mem _ hf))

end Facts

/-- A batch that brings no reports, or brings them after a failure. -/
theorem synthesizeBatch_spares {facts : List (ℕ × LogFact)} {admission : Admission}
    {discovered : AdmissionIndex} {origin : ObservationOrigin}
    (h : s.Awaits parent agentId limit graceMs artifact' known)
    (hwindow : FactsInWindow artifact origin discovered parent agentId limit s admission (batchFacts facts))
    (hquiet : reportsOf (parent, agentId) facts = [] ∨ ∃ terminal, known = some terminal ∧
      terminal.failed = true) :
    Spares (.claudeSubagent parent agentId) s
      ((s.synthesizeBatch artifact facts admission discovered origin).1,
        (s.synthesizeBatch artifact facts admission discovered origin).2.2) := by
  unfold synthesizeBatch
  by_cases hreports : reportsOf (parent, agentId) facts = []
  · exact synthesizeFacts_spares artifact origin discovered admission h hwindow (batchFacts_others hreports)
  · obtain ⟨terminal, rfl, hfailed⟩ := hquiet.resolve_left hreports
    obtain ⟨joined, hjoined, -⟩ := SubagentEnd.joinAll_sums hreports
    obtain ⟨before, own, after, hsplit, hordinal, hfact, hother⟩ := batchFacts_split hjoined
    rw [hsplit] at hwindow ⊢
    rw [synthesizeFacts_append]
    have hbefore := synthesizeFacts_spares artifact origin discovered admission h hwindow.left
      (fun fact hf => hother fact (List.mem_append_left _ hf))
    refine @Spares.trans _ _ _ (_, _) hbefore ?_
    have h₁ := h.spares hbefore
    have hrest := hwindow.right
    generalize synthesizeFacts artifact origin discovered s admission before = first at h₁ hrest ⊢
    have hown : Spares (.claudeSubagent parent agentId) first.1
        ((first.1.synthesizeFact artifact ⟨own.ordinal, own.sequence, origin⟩ own.fact first.2.1 discovered).1,
          (first.1.synthesizeFact artifact ⟨own.ordinal, own.sequence, origin⟩ own.fact first.2.1
            discovered).2.2) := by
      have hnoted : Spares (.claudeSubagent parent agentId) first.1 (first.1.noteTime own.fact, []) :=
        noteTime_spares own.fact
      have hsame := fun failed => @ended_after_failure _ joined.atMs _ _ _ _ _ _ failed artifact
        ⟨own.ordinal, own.sequence, origin⟩ (h₁.spares hnoted) hfailed
      rw [hfact] at hnoted hsame ⊢
      simp only [synthesizeFact, hsame]
      exact hnoted
    refine hown.trans (synthesizeFacts_spares artifact origin discovered _ (h₁.spares hown)
      (@FactsInWindow.right _ _ _ _ _ _ _ _ [own] after hrest)
      (fun fact hf => hother fact (List.mem_append_right _ hf)))

/-- A batch with reports of an end that has not failed: they join what is known, and a failure is emitted. -/
theorem synthesizeBatch_awaits {facts : List (ℕ × LogFact)} {admission : Admission}
    {discovered : AdmissionIndex} {origin : ObservationOrigin}
    (h : s.Awaits parent agentId limit graceMs artifact' known)
    (hwindow : FactsInWindow artifact origin discovered parent agentId limit s admission (batchFacts facts))
    (hopen : ∀ terminal ∈ known, terminal.failed = false)
    (hreports : reportsOf (parent, agentId) facts ≠ [])
    (hlate : ∀ report ∈ reportsOf (parent, agentId) facts, limit ≤ satAddI64 report.atMs graceMs) :
    ∃ terminal, SubagentEnd.joinAll known (reportsOf (parent, agentId) facts) = some terminal ∧
      (s.synthesizeBatch artifact facts admission discovered origin).1.Awaits parent agentId limit graceMs artifact
        (some terminal) ∧
      terminals (.claudeSubagent parent agentId)
          (s.synthesizeBatch artifact facts admission discovered origin).2.2 =
        if terminal.failed then [.synthesized (endEvent artifact parent agentId terminal)] else [] := by
  obtain ⟨joined, hjoined, hsums⟩ := SubagentEnd.joinAll_sums hreports
  obtain ⟨before, own, after, hsplit, hordinal, hfact, hother⟩ := batchFacts_split hjoined
  refine ⟨_, SubagentEnd.joinAll_eq_join known hjoined, ?_⟩
  unfold synthesizeBatch
  rw [hsplit] at hwindow ⊢
  rw [synthesizeFacts_append]
  have hbefore := synthesizeFacts_spares artifact origin discovered admission h hwindow.left
    (fun fact hf => hother fact (List.mem_append_left _ hf))
  have hnotedSpares : ∀ s₁ : Synthesis, Spares (.claudeSubagent parent agentId) s₁ (s₁.noteTime own.fact, []) :=
    fun _ => noteTime_spares own.fact
  have h₁ := (h.spares hbefore).spares (hnotedSpares _)
  have hsilent := hbefore.silent
  have hrest := hwindow.right
  generalize synthesizeFacts artifact origin discovered s admission before = first at h₁ hsilent hrest ⊢
  have hlateOwn : limit ≤ satAddI64 joined.atMs graceMs := by
    obtain ⟨report, hreport, hatMs⟩ := hsums.atMs.1
    rw [← hatMs]
    exact hlate report hreport
  have hdatedOwn : joined.atMs < i64Max := by
    have hown := hrest [] own after rfl
    rw [hfact] at hown
    have hcase : if (parent, agentId) = (parent, agentId) then joined.atMs < i64Max else joined.atMs < limit :=
      hown
    rwa [if_pos rfl] at hcase
  obtain ⟨hawaits, hterminals⟩ := @ended_awaits _ joined.atMs _ _ _ _ _ _ joined.failed artifact
    ⟨own.ordinal, own.sequence, origin⟩ h₁ hopen hdatedOwn hlateOwn
  have hstep : first.1.synthesizeFact artifact ⟨own.ordinal, own.sequence, origin⟩ own.fact first.2.1 discovered =
      (((first.1.noteTime own.fact).synthesizeSubagentEnded artifact ⟨own.ordinal, own.sequence, origin⟩ parent
          agentId joined.failed joined.atMs).1, first.2.1,
        ((first.1.noteTime own.fact).synthesizeSubagentEnded artifact ⟨own.ordinal, own.sequence, origin⟩ parent
          agentId joined.failed joined.atMs).2) := by
    rw [hfact]
    rfl
  simp only [synthesizeFacts, hstep]
  rw [hordinal] at hawaits hterminals ⊢
  have hlater := @FactsInWindow.right _ _ _ _ _ _ _ _ [own] after hrest
  simp only [synthesizeFacts, hstep] at hlater
  rw [hordinal] at hlater
  have hafter := synthesizeFacts_spares artifact origin discovered first.2.1 hawaits hlater
    (fun fact hf => hother fact (List.mem_append_right _ hf))
  refine ⟨hawaits.spares hafter, ?_⟩
  rw [terminals_append, terminals_append, hsilent, hterminals, hafter.silent, List.nil_append, List.append_nil]

end Synthesis

/-! ### Arrivals -/

/-- A command that does not flush at the limit or later, and shows no life of the subagent. -/
def LaneCommand.InWindow (parent agentId : String) (limit : ℤ) (s : Synthesis) : LaneCommand → Prop
  | .batch artifact facts admission discovered origin => Synthesis.FactsInWindow artifact origin discovered
    parent agentId limit s admission (Synthesis.batchFacts facts)
  | .advance nowMs => nowMs < limit
  | .flush => False
  | .takeOrigin _ => True

/-- A command and what the lane emits at it. -/
structure Arrival where
  command : LaneCommand
  events : List ScopedEvent

/-- The reports of the end of an agent. -/
def Arrival.reports (agent : String × String) (arrival : Arrival) : List SubagentEnd :=
  match arrival.command with
  | .batch _ facts _ _ _ => Synthesis.reportsOf agent facts
  | _ => []

/-- A step of the lane before the grace of a subagent is over. Between commands its maps may come to be visited
in another order. -/
inductive ArrivalStep (parent agentId : String) (limit : ℤ) : Synthesis → List Arrival → Synthesis → Prop
  | perform {s : Synthesis} (command : LaneCommand) : command.InWindow parent agentId limit s →
      ArrivalStep parent agentId limit s [⟨command, (s.perform command).2⟩] (s.perform command).1
  | rehash {s : Synthesis} {started : HashMap SessionScope ℤ}
      {pendingCompletes : HashMap SessionScope ControllerEvent} :
      s.started.Rehash started → s.pendingCompletes.Rehash pendingCompletes →
      ArrivalStep parent agentId limit s [] { s with started, pendingCompletes }

/-- All reports of the end of an agent. -/
def reports (agent : String × String) (arrivals : List Arrival) : List SubagentEnd :=
  arrivals.flatMap (Arrival.reports agent)

/-- All events that are emitted. -/
def emitted (arrivals : List Arrival) : List ScopedEvent := arrivals.flatMap (·.events)

@[simp] theorem reports_nil (agent : String × String) : reports agent [] = [] := rfl

@[simp] theorem reports_append (agent : String × String) (arrivals arrivals' : List Arrival) :
    reports agent (arrivals ++ arrivals') = reports agent arrivals ++ reports agent arrivals' :=
  List.flatMap_append

@[simp] theorem reports_cons (agent : String × String) (arrival : Arrival) (arrivals : List Arrival) :
    reports agent (arrival :: arrivals) = arrival.reports agent ++ reports agent arrivals :=
  List.flatMap_cons

@[simp] theorem emitted_append (arrivals arrivals' : List Arrival) :
    emitted (arrivals ++ arrivals') = emitted arrivals ++ emitted arrivals' :=
  List.flatMap_append

namespace Synthesis

variable {s t : Synthesis} {parent agentId : String} {limit graceMs nowMs : ℤ}
  {artifact artifact' : ArtifactPath} {known : Option SubagentEnd} {arrivals before after : List Arrival}
  {scope : SessionScope}

/-- A step that brings no reports, or brings them after a failure. -/
theorem arrival_spares (hstep : ArrivalStep parent agentId limit s arrivals t)
    (h : s.Awaits parent agentId limit graceMs artifact known)
    (hquiet : reports (parent, agentId) arrivals = [] ∨ ∃ terminal, known = some terminal ∧
      terminal.failed = true) :
    Spares (.claudeSubagent parent agentId) s (t, emitted arrivals) := by
  cases hstep with
  | perform command hwindow =>
    rw [reports_cons, reports_nil, List.append_nil] at hquiet
    rw [emitted, List.flatMap_singleton]
    cases command with
    | batch artifact' facts admission discovered origin =>
      exact synthesizeBatch_spares h hwindow hquiet
    | advance nowMs =>
      have hclock : Spares (.claudeSubagent parent agentId) s
          ({ s with latestLifecycleMs := max s.latestLifecycleMs nowMs }, []) := ⟨rfl, rfl, rfl, rfl, rfl⟩
      have hflush := flush_spares ((h.spares hclock).not_due hwindow)
      exact hclock.trans (hflush.trans closeAllInactive_spares)
    | flush => exact hwindow.elim
    | takeOrigin event =>
      show Spares _ s ((s.takeLifecycleOrigin event).1, [])
      unfold takeLifecycleOrigin
      split <;> exact ⟨rfl, rfl, rfl, rfl, rfl⟩
  | @rehash started pendingCompletes hstarted hpending =>
    exact ⟨hpending.get _, rfl, rfl, rfl, rfl⟩

/-- A run without reports, or after a failure. -/
theorem arrivals_spare (hrun : Runs (ArrivalStep parent agentId limit) s arrivals t)
    (h : s.Awaits parent agentId limit graceMs artifact known)
    (hquiet : reports (parent, agentId) arrivals = [] ∨ ∃ terminal, known = some terminal ∧
      terminal.failed = true) :
    Spares (.claudeSubagent parent agentId) s (t, emitted arrivals) := by
  induction hrun with
  | refl => exact ⟨rfl, rfl, rfl, rfl, rfl⟩
  | tail _ hstep ih =>
    rw [reports_append, List.append_eq_nil_iff] at hquiet
    have hbefore := ih (hquiet.imp_left And.left)
    rw [emitted_append]
    exact hbefore.trans (arrival_spares hstep (h.spares hbefore) (hquiet.imp_left And.right))

/-- A step joins its reports with what is known. -/
theorem arrival_joins (hstep : ArrivalStep parent agentId limit s arrivals t)
    (h : s.Awaits parent agentId limit graceMs artifact known)
    (hopen : ∀ terminal ∈ known, terminal.failed = false)
    (hlate : ∀ report ∈ reports (parent, agentId) arrivals, limit ≤ satAddI64 report.atMs graceMs)
    (hunfailed : ∀ report ∈ reports (parent, agentId) arrivals, report.failed = false) :
    (∃ artifact, t.Awaits parent agentId limit graceMs artifact
      (SubagentEnd.joinAll known (reports (parent, agentId) arrivals))) ∧
    terminals (.claudeSubagent parent agentId) (emitted arrivals) = [] := by
  by_cases hreports : reports (parent, agentId) arrivals = []
  · have hspares := arrival_spares hstep h (.inl hreports)
    rw [hreports]
    exact ⟨⟨artifact, h.spares hspares⟩, hspares.silent⟩
  · cases hstep with
    | rehash => exact absurd rfl hreports
    | perform command hwindow =>
      rw [reports_cons, reports_nil, List.append_nil] at hreports hlate hunfailed ⊢
      rw [emitted, List.flatMap_singleton]
      cases command with
      | batch artifact' facts admission discovered origin =>
        obtain ⟨terminal, hjoined, hawaits, hterminals⟩ :=
          synthesizeBatch_awaits h hwindow hopen hreports hlate
        have hfailed := SubagentEnd.joinAll_unfailed hopen hunfailed terminal hjoined
        refine ⟨⟨artifact', hjoined ▸ hawaits⟩, hterminals.trans ?_⟩
        rw [hfailed]
        rfl
      | advance nowMs => exact absurd rfl hreports
      | flush => exact absurd rfl hreports
      | takeOrigin event => exact absurd rfl hreports

/-- A run without a failure joins its reports. -/
theorem arrivals_join (hrun : Runs (ArrivalStep parent agentId limit) s arrivals t)
    (h : s.Awaits parent agentId limit graceMs artifact none)
    (hlate : ∀ report ∈ reports (parent, agentId) arrivals, limit ≤ satAddI64 report.atMs graceMs)
    (hunfailed : ∀ report ∈ reports (parent, agentId) arrivals, report.failed = false) :
    (∃ artifact, t.Awaits parent agentId limit graceMs artifact
      (SubagentEnd.joinAll none (reports (parent, agentId) arrivals))) ∧
    terminals (.claudeSubagent parent agentId) (emitted arrivals) = [] := by
  induction hrun with
  | refl => exact ⟨⟨artifact, h⟩, rfl⟩
  | @tail u v earlier l _ hstep ih =>
    rw [reports_append] at hlate hunfailed ⊢
    obtain ⟨⟨artifact', hawaits⟩, hsilent⟩ := ih (fun report hr => hlate report (List.mem_append_left _ hr))
      fun report hr => hunfailed report (List.mem_append_left _ hr)
    have hopen := SubagentEnd.joinAll_unfailed (nofun : ∀ terminal ∈ (none : Option SubagentEnd), terminal.failed = false)
      fun report hr => hunfailed report (List.mem_append_left (reports (parent, agentId) l) hr)
    obtain ⟨hjoined, hsilent'⟩ := arrival_joins hstep hawaits hopen
      (fun report hr => hlate report (List.mem_append_right _ hr))
      fun report hr => hunfailed report (List.mem_append_right _ hr)
    rw [SubagentEnd.joinAll_append, emitted_append, terminals_append, hsilent, hsilent']
    exact ⟨hjoined, rfl⟩

/-- The runs before and after an arrival. -/
theorem arrivals_around {arrival : Arrival}
    (hrun : Runs (ArrivalStep parent agentId limit) s (before ++ arrival :: after) t) :
    ∃ u, Runs (ArrivalStep parent agentId limit) s before u ∧
      arrival.command.InWindow parent agentId limit u ∧ arrival.events = (u.perform arrival.command).2 ∧
      Runs (ArrivalStep parent agentId limit) (u.perform arrival.command).1 after t := by
  obtain ⟨u, v, earlier, later, l₁, l₂, hearlier, hstep, hlater, rfl, rfl⟩ := hrun.around rfl
  generalize hl : l₁ ++ arrival :: l₂ = l at hstep
  cases hstep with
  | perform command hwindow =>
    obtain ⟨rfl, hrest⟩ : l₁ = [] ∧ arrival :: l₂ = [⟨command, (u.perform command).2⟩] := by
      cases l₁ with
      | nil => exact ⟨rfl, hl⟩
      | cons head tail =>
        have htail : tail ++ arrival :: l₂ = [] := (List.cons.inj hl).2
        simp at htail
    obtain ⟨rfl, rfl⟩ := List.cons.inj hrest
    rw [List.append_nil]
    exact ⟨u, hearlier, hwindow, rfl, hlater⟩
  | rehash => simp at hl

/-- A release of some scopes emits the completion of each once. -/
theorem releaseCompletes_terminals {scopes : List SessionScope} {event : ControllerEvent}
    (hnodup : scopes.Nodup) (hmem : scope ∈ scopes) (hheld : s.pendingCompletes.get scope = some event)
    (hkind : event.event = .complete) :
    terminals scope (s.releaseCompletes scopes).2 = [.synthesized event] := by
  induction scopes generalizing s with
  | nil => cases hmem
  | cons head scopes ih =>
    rw [List.nodup_cons] at hnodup
    rw [releaseCompletes_cons]
    show terminals scope (_ ++ _) = _
    rw [terminals_append]
    rcases List.mem_cons.mp hmem with rfl | hmem
    · have hrest : terminals scope ((s.releaseComplete scope).1.releaseCompletes scopes).2 = [] :=
        terminals_eq_nil fun e he => .inl fun heq => hnodup.1 (heq ▸ (mem_releaseCompletes he).1)
      rw [hrest, List.append_nil]
      simp [releaseComplete, hheld, terminals, endsScope, markOf, hkind, Mark.isTerminal]
    · have hne : scope ≠ head := fun heq => hnodup.1 (heq ▸ hmem)
      have hhead : terminals scope (s.releaseComplete head).2 = [] :=
        terminals_eq_nil fun e he => .inl fun heq => hne (heq.symm.trans (mem_releaseComplete he).1)
      rw [hhead, List.nil_append]
      exact ih hnodup.2 hmem ((releaseComplete_pending_ne hne).trans hheld)

/-- When its grace is over, the completion is emitted. -/
theorem advance_emits {event : ControllerEvent} (hheld : s.pendingCompletes.get scope = some event)
    (hkind : event.event = .complete) (hdue : s.isDue nowMs event = true) :
    terminals scope (s.perform (.advance nowMs)).2 = [.synthesized event] := by
  show terminals scope (_ ++ _) = _
  rw [terminals_append, closeAllInactive_spares.silent, List.append_nil]
  refine releaseCompletes_terminals ?_ ((mem_flushDue hheld).mpr hdue) hheld hkind
  refine ((List.perm_insertionSort _ _).map Prod.fst).nodup_iff.mpr ?_
  have hkeys : (s.pendingCompletes.toList.map Prod.fst).Nodup := by
    rw [← HashMap.keys_eq_map_toList]
    exact s.pendingCompletes.keys_nodup
  exact hkeys.sublist (List.filter_sublist.map Prod.fst)

/-- The grace period of a lane does not change. -/
theorem run_grace {s₀ : Synthesis} {events : List ScopedEvent} (h : Runs LaneStep s₀ events s) (hs₀ : s₀.Sane)
    (hfresh : ∀ scope, s₀.phase scope = .fresh) : s.completeGraceMs = s₀.completeGraceMs := by
  induction h with
  | refl => rfl
  | tail hrun hstep ih =>
    obtain ⟨hsane, hlives⟩ := run_lives hrun hs₀ hfresh
    have hconsistent : Consistent _ := fun scope =>
      (hlives scope).invariant (fun hstep hv => ScopePhase.Consistent.step hv hstep) .fresh
    refine Eq.trans ?_ ih
    cases hstep with
    | perform command hdated =>
      by_cases hflush : command = .flush
      · subst hflush
        exact (releaseCompletes_fields _ _).1
      · exact (perform_follows hsane hconsistent hdated hflush).grace
    | rehash => rfl

/-- A lane in which a subagent has not ended holds no completion of it. -/
theorem awaits_start {headlessInactivityMs startMs : ℤ} {events : List ScopedEvent} (artifact : ArtifactPath)
    (hgrace : 0 < graceMs)
    (hrun : Runs LaneStep (withLifecycleTimingAt graceMs headlessInactivityMs startMs) events s)
    (hended : s.subagentEnds.get (parent, agentId) = none)
    (hcompleted : s.completed.contains (.claudeSubagent parent agentId) = false) :
    s.Awaits parent agentId limit graceMs artifact none := by
  obtain ⟨hsane, hlives⟩ := run_lives hrun (sane_new hgrace) phase_new
  have hconsistent := (hlives (.claudeSubagent parent agentId)).invariant
    (fun hstep hv => ScopePhase.Consistent.step hv hstep) .fresh
  refine ⟨hended, ?_, hcompleted, nofun, nofun, run_grace hrun (sane_new hgrace) phase_new, hgrace⟩
  cases hheld : s.pendingCompletes.get (.claudeSubagent parent agentId) with
  | none => rfl
  | some event =>
    have hphase := (hconsistent.pending event.metadata.timestampMs (by simp [phase, hheld])).2
    simp [phase, endOf, SessionScope.endKey, hended] at hphase

/-- Over every run of the lane in which reports of the end of one subagent arrive, in any order and in any
batches, with other commands between them, before the grace of any of these ends is over and without a sign of
life of the subagent:
as long as none reports a failure, nothing is emitted, and the completion that is held has the least ordinal and
the least time of the reports, names the artifact that reported last, and is emitted when its grace is over;
with the first batch that reports a failure one is emitted, with the least ordinal and the least time of the
reports so far, and no other terminal event before or after. -/
theorem ends_merge {headlessInactivityMs startMs : ℤ} {events : List ScopedEvent} (hgrace : 0 < graceMs)
    (hrun : Runs LaneStep (withLifecycleTimingAt graceMs headlessInactivityMs startMs) events s)
    (hended : s.subagentEnds.get (parent, agentId) = none)
    (hcompleted : s.completed.contains (.claudeSubagent parent agentId) = false)
    (harrivals : Runs (ArrivalStep parent agentId limit) s arrivals t)
    (hlimit : ∀ report ∈ reports (parent, agentId) arrivals, limit ≤ satAddI64 report.atMs graceMs) :
    ∀ before artifact facts admission discovered origin emission after,
      arrivals = before ++ ⟨.batch artifact facts admission discovered origin, emission⟩ :: after →
      reportsOf (parent, agentId) facts ≠ [] →
      ((∀ report ∈ reports (parent, agentId) arrivals, report.failed = false) →
        reports (parent, agentId) after = [] →
        ∃ terminal, SubagentEnd.Sums (reports (parent, agentId) arrivals) terminal ∧
          terminals (.claudeSubagent parent agentId) (emitted arrivals) = [] ∧
          t.pendingCompletes.get (.claudeSubagent parent agentId) =
            some (endEvent artifact parent agentId terminal) ∧
          ∀ nowMs, satAddI64 terminal.atMs graceMs ≤ nowMs →
            terminals (.claudeSubagent parent agentId) (t.perform (.advance nowMs)).2 =
              [.synthesized (endEvent artifact parent agentId terminal)]) ∧
      ((∀ report ∈ reports (parent, agentId) before, report.failed = false) →
        (∃ report ∈ reportsOf (parent, agentId) facts, report.failed = true) →
        ∃ terminal, SubagentEnd.Sums (reports (parent, agentId) before ++ reportsOf (parent, agentId) facts)
            terminal ∧
          terminals (.claudeSubagent parent agentId) (emitted arrivals) =
            [.synthesized (endEvent artifact parent agentId terminal)]) := by
  rintro before artifact facts admission discovered origin emission after rfl hreports
  have hstart := @awaits_start _ _ _ limit _ _ _ _ artifact hgrace hrun hended hcompleted
  obtain ⟨u, hbefore, hwindow, hemission, hafter⟩ := arrivals_around harrivals
  have hevents : emission = (u.perform (.batch artifact facts admission discovered origin)).2 := hemission
  clear hemission
  subst hevents
  rw [reports_append, reports_cons] at hlimit
  have hlateBefore : ∀ report ∈ reports (parent, agentId) before, limit ≤ satAddI64 report.atMs graceMs :=
    fun report hr => hlimit report (List.mem_append_left _ hr)
  have hlateOwn : ∀ report ∈ reportsOf (parent, agentId) facts, limit ≤ satAddI64 report.atMs graceMs :=
    fun report hr => hlimit report (List.mem_append_right _ (List.mem_append_left _ hr))
  -- what the lane knows after this batch, when the earlier ones brought no failure
  have hbatch : (∀ report ∈ reports (parent, agentId) before, report.failed = false) →
      ∃ terminal, SubagentEnd.Sums (reports (parent, agentId) before ++ reportsOf (parent, agentId) facts)
          terminal ∧
        (u.perform (.batch artifact facts admission discovered origin)).1.Awaits parent agentId limit graceMs
          artifact (some terminal) ∧
        terminals (.claudeSubagent parent agentId) (emitted before ++
          (u.perform (.batch artifact facts admission discovered origin)).2) =
            if terminal.failed then [.synthesized (endEvent artifact parent agentId terminal)] else [] := by
    intro hunfailed
    obtain ⟨⟨artifact', hawaits⟩, hsilent⟩ := arrivals_join hbefore hstart hlateBefore hunfailed
    have hopen := SubagentEnd.joinAll_unfailed
      (nofun : ∀ terminal ∈ (none : Option SubagentEnd), terminal.failed = false) hunfailed
    obtain ⟨terminal, hjoined, hawaits', hterminals⟩ :=
      @synthesizeBatch_awaits _ artifact _ _ _ _ _ _ _ admission discovered origin hawaits hwindow hopen hreports
        hlateOwn
    obtain ⟨terminal', hjoined', hsums⟩ := @SubagentEnd.joinAll_sums
      (reports (parent, agentId) before ++ reportsOf (parent, agentId) facts) (by simp [hreports])
    rw [SubagentEnd.joinAll_append, hjoined] at hjoined'
    cases hjoined'
    refine ⟨terminal, hsums, hawaits', ?_⟩
    rw [terminals_append, hsilent, List.nil_append]
    exact hterminals
  have hemitted : ∀ emission : List ScopedEvent,
      emitted (before ++ ⟨.batch artifact facts admission discovered origin, emission⟩ :: after) =
        (emitted before ++ emission) ++ emitted after := by
    intro emission
    rw [emitted_append, List.append_assoc]
    rfl
  refine ⟨fun hunfailed hlast => ?_, fun hunfailed hfailed => ?_⟩
  · rw [reports_append, reports_cons, hlast, List.append_nil] at hunfailed ⊢
    obtain ⟨terminal, hsums, hawaits, hterminals⟩ :=
      hbatch fun report hr => hunfailed report (List.mem_append_left _ hr)
    have hspares := arrivals_spare hafter hawaits (.inl hlast)
    have hfailed : terminal.failed = false := by
      rw [← Bool.not_eq_true, hsums.failed]
      rintro ⟨report, hreport, hfailed⟩
      rw [hunfailed report hreport] at hfailed
      cases hfailed
    have hheld : t.pendingCompletes.get (.claudeSubagent parent agentId) =
        some (endEvent artifact parent agentId terminal) := by
      refine (hawaits.spares hspares).held.trans ?_
      rw [Option.bind_some, hfailed]
      rfl
    have hgraceEnd : t.completeGraceMs = graceMs := (hawaits.spares hspares).grace
    refine ⟨terminal, hsums, ?_, hheld, fun nowMs hnow => advance_emits hheld ?_ ?_⟩
    · rw [hemitted, terminals_append, hterminals, hfailed, hspares.silent]
      rfl
    · simp [endEvent, controllerEvent, hfailed]
    · refine decide_eq_true ?_
      rw [hgraceEnd]
      exact hnow
  · obtain ⟨terminal, hsums, hawaits, hterminals⟩ := hbatch hunfailed
    obtain ⟨report, hreport, hreportFailed⟩ := hfailed
    have hterminalFailed : terminal.failed = true :=
      hsums.failed.mpr ⟨report, List.mem_append_right _ hreport, hreportFailed⟩
    have hspares := arrivals_spare hafter hawaits (.inr ⟨terminal, rfl, hterminalFailed⟩)
    refine ⟨terminal, hsums, ?_⟩
    rw [hemitted, terminals_append, hterminals, hterminalFailed, hspares.silent]
    rfl

/-! ### Two reports of one end -/

/-- A batch with one report of the end of a subagent. -/
def reportBatch (ordinal : ℕ) (failed : Bool) (atMs : ℤ) : LaneCommand :=
  .batch ⟨[.normal (.text "r.jsonl")]⟩ [(ordinal, .subagentEnded "p" "a" failed atMs)] (.new 0) {} .live

/-- Two batches, one after the other, in a new lane. -/
def twoReports (first second : LaneCommand) : List Arrival :=
  [⟨first, (freshLane.perform first).2⟩, ⟨second, ((freshLane.perform first).1.perform second).2⟩]

/-- Two reports arrive in a grace period. -/
theorem twoReports_arrive {ordinal ordinal' : ℕ} {failed failed' : Bool} {atMs atMs' : ℤ}
    (h : atMs < i64Max) (h' : atMs' < i64Max) :
    Runs (ArrivalStep "p" "a" limit) freshLane
      (twoReports (reportBatch ordinal failed atMs) (reportBatch ordinal' failed' atMs'))
      ((freshLane.perform (reportBatch ordinal failed atMs)).1.perform (reportBatch ordinal' failed' atMs')).1 := by
  have hwindow : ∀ ordinal failed atMs s, atMs < i64Max →
      (reportBatch ordinal failed atMs).InWindow "p" "a" limit s := by
    intro ordinal failed atMs s hdated
    refine FactsInWindow.of_batch fun fact hfact _ => ?_
    rw [List.mem_singleton.mp hfact]
    show if ("p", "a") = ("p", "a") then atMs < i64Max else atMs < limit
    rw [if_pos rfl]
    exact hdated
  exact (Runs.one (ArrivalStep.perform _ (hwindow _ _ _ _ h))).trans
    (.one (ArrivalStep.perform _ (hwindow _ _ _ _ h')))

theorem ends_merge_twoBatches : ∃ terminal, SubagentEnd.Sums [⟨false, 7, 20⟩, ⟨false, 9, 12⟩] terminal ∧
    ((freshLane.perform (reportBatch 7 false 20)).1.perform (reportBatch 9 false 12)).1.pendingCompletes.get
        (.claudeSubagent "p" "a") =
      some (endEvent ⟨[.normal (.text "r.jsonl")]⟩ "p" "a" terminal) := by
  have harrive : Runs (ArrivalStep "p" "a" 40) freshLane
      (twoReports (reportBatch 7 false 20) (reportBatch 9 false 12)) _ :=
    twoReports_arrive (by decide) (by decide)
  obtain ⟨terminal, hsums, -, hheld, -⟩ := (ends_merge (by decide) (.refl freshLane) rfl rfl harrive
    (by decide) [⟨reportBatch 7 false 20, (freshLane.perform (reportBatch 7 false 20)).2⟩]
    ⟨[.normal (.text "r.jsonl")]⟩ [(9, .subagentEnded "p" "a" false 12)] (.new 0) {} .live _ [] rfl
    (by decide)).1 (by decide) rfl
  exact ⟨terminal, hsums, hheld⟩

/-- A failure is emitted with its own time: a report that comes later and is dated earlier does not change it. -/
theorem failure_first_sticks :
    ¬∀ (arrivals : List Arrival) (t : Synthesis), Runs (ArrivalStep "p" "a" 35) freshLane arrivals t →
      (∀ report ∈ reports ("p", "a") arrivals, 35 ≤ satAddI64 report.atMs 30) →
      ∀ terminal, SubagentEnd.Sums (reports ("p", "a") arrivals) terminal → terminal.failed = true →
        ∃ artifact, terminals (.claudeSubagent "p" "a") (emitted arrivals) =
          [.synthesized (endEvent artifact "p" "a" terminal)] := by
  intro h
  obtain ⟨terminal, hjoined, hsums⟩ := @SubagentEnd.joinAll_sums
    (reports ("p", "a") (twoReports (reportBatch 5 true 10) (reportBatch 3 false 8))) (by decide)
  have hterminal : terminal = ⟨true, 3, 8⟩ := by
    cases hjoined
    rfl
  subst hterminal
  obtain ⟨artifact, hemitted⟩ := h _ _ (twoReports_arrive (by decide) (by decide)) (by decide) _ hsums rfl
  have hfirst : terminals (.claudeSubagent "p" "a")
      (emitted (twoReports (reportBatch 5 true 10) (reportBatch 3 false 8))) =
        [.synthesized (endEvent ⟨[.normal (.text "r.jsonl")]⟩ "p" "a" ⟨true, 5, 10⟩)] := rfl
  rw [hfirst] at hemitted
  have htime : (10 : ℤ) = 8 := by
    injection hemitted with hevent
    injection hevent with hevent
    exact congrArg (fun event : ControllerEvent => event.metadata.timestampMs) hevent
  omega

end Synthesis

end HerdrTop
