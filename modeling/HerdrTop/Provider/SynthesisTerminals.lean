import HerdrTop.Provider.ScopeLifecycle
import HerdrTop.Provider.Synthesis

/-!
# Terminal events of the lane

What `Synthesis` does to its maps is, for every scope, a life in the sense of `PhaseStep`, and what it emits
about the scope are the marks of that life. So the order of terminal events and closes is that of lives.

## What is proved

* `Synthesis.Follows`: what one function does: a life for each scope, and completions only when their grace
  is over; with one lemma for each function, up to `synthesizeBatch_follows` and `advanceLifecycle_follows`.
* `Synthesis.terminals_disciplined`: over every run of batches, lifecycle advances and flushes.
* `Synthesis.aborts_repeat`: two terminal events of one scope can follow each other.
-/

namespace HerdrTop

/-! ### Phases and marks -/

def SessionScope.sort : SessionScope → ScopeSort
  | .claudeRoot _ => .root
  | .claudeSubagent _ _ => .subagent
  | .codex _ => .codex

/-- The key under which the end of a scope is kept. -/
def SessionScope.endKey : SessionScope → Option (String × String)
  | .claudeSubagent parent agentId => some (parent, agentId)
  | _ => none

/-- What an event says about its scope. -/
def markOf : ProviderEvent → Option Mark
  | .synthesized event =>
    match event.event with
    | .taskStarted => some .started
    | .complete => some .completed
    | .failed => some (.failed event.metadata.timestampMs)
    | .cancelled => some .cancelled
    | _ => none
  | .runLiveness _ atMs => some (.alive atMs)
  | .laneClose _ _ => some .closed
  | _ => none

/-- What an event says about a scope. -/
def ScopedEvent.markFor (scope : SessionScope) (event : ScopedEvent) : Option Mark :=
  if event.scope = scope then markOf event.event else none

/-- What events say about a scope. -/
def marks (scope : SessionScope) (events : List ScopedEvent) : List Mark :=
  events.filterMap (ScopedEvent.markFor scope)

@[simp] theorem marks_nil (scope : SessionScope) : marks scope [] = [] := rfl

@[simp] theorem marks_append (scope : SessionScope) (events events' : List ScopedEvent) :
    marks scope (events ++ events') = marks scope events ++ marks scope events' :=
  List.filterMap_append

/-- Events about other scopes, or that say nothing, leave no marks. -/
theorem marks_eq_nil {scope : SessionScope} {events : List ScopedEvent}
    (h : ∀ e ∈ events, e.scope ≠ scope ∨ markOf e.event = none) : marks scope events = [] := by
  refine List.filterMap_eq_nil_iff.mpr fun e he => ?_
  unfold ScopedEvent.markFor
  rcases h e he with hne | hnone
  · rw [if_neg hne]
  · split_ifs
    · exact hnone
    · rfl

namespace Synthesis

/-- The end of a scope that notifications report. -/
def endOf (s : Synthesis) (scope : SessionScope) : Option SubagentEnd :=
  scope.endKey.bind s.subagentEnds.get

/-- Where a scope stands. -/
def phase (s : Synthesis) (scope : SessionScope) : ScopePhase where
  started := s.started.contains scope
  pending := (s.pendingCompletes.get scope).map (·.metadata.timestampMs)
  completed := s.completed.contains scope
  inactive := s.inactivityClosed.contains scope
  ended := (s.endOf scope).map fun terminal => (terminal.failed, terminal.atMs)

/-- What every state of the lane satisfies apart from the phases. -/
structure Sane (s : Synthesis) : Prop where
  grace : 0 < s.completeGraceMs
  /-- Only completions are held. -/
  held : ∀ scope event, s.pendingCompletes.get scope = some event → event.event = .complete
  /-- Held completions are dated before the end of time. -/
  dated : ∀ scope event, s.pendingCompletes.get scope = some event → event.metadata.timestampMs < i64Max
  /-- No append is ahead of the clock. -/
  appended : ∀ scope atMs, s.lastAppendMs.get scope = some atMs → atMs ≤ s.latestLifecycleMs

/-- An event that is not a completion whose grace is not over on the clock of the lane. -/
def OnTime (s : Synthesis) (e : ScopedEvent) : Prop :=
  ∀ event, e.event = .synthesized event → event.event = .complete →
    satAddI64 event.metadata.timestampMs s.completeGraceMs ≤ s.latestLifecycleMs

/-- What a function of the lane does: the scopes live on, with the marks of what is emitted, and completions
are emitted on time. -/
structure Follows (s : Synthesis) (r : Synthesis × List ScopedEvent) : Prop where
  lives : ∀ scope, Runs (PhaseStep scope.sort) (s.phase scope) (marks scope r.2) (r.1.phase scope)
  sane : r.1.Sane
  grace : r.1.completeGraceMs = s.completeGraceMs
  clock : s.latestLifecycleMs ≤ r.1.latestLifecycleMs
  onTime : ∀ e ∈ r.2, r.1.OnTime e

variable {s s₁ : Synthesis} {scope other : SessionScope} {events flushed : List ScopedEvent} {nowMs atMs : ℤ}

theorem Follows.trans {r r' : Synthesis × List ScopedEvent} (h : Follows s r) (h' : Follows r.1 r') :
    Follows s (r'.1, r.2 ++ r'.2) where
  lives := fun scope => by
    show Runs _ _ (marks scope (r.2 ++ r'.2)) _
    rw [marks_append]
    exact (h.lives scope).trans (h'.lives scope)
  sane := h'.sane
  grace := h'.grace.trans h.grace
  clock := h.clock.trans h'.clock
  onTime := fun e he => by
    rcases List.mem_append.mp he with he | he
    · intro event hevent hkind
      have := h.onTime e he event hevent hkind
      rw [h'.grace]
      exact this.trans h'.clock
    · exact h'.onTime e he

/-- A function that changes one scope by steps of its life. -/
theorem Follows.of_own (scope : SessionScope) {r : Synthesis × List ScopedEvent} (hsane : r.1.Sane)
    (hgrace : r.1.completeGraceMs = s.completeGraceMs) (hclock : s.latestLifecycleMs ≤ r.1.latestLifecycleMs)
    (hothers : ∀ other, other ≠ scope → r.1.phase other = s.phase other)
    (hown : Runs (PhaseStep scope.sort) (s.phase scope) (marks scope r.2) (r.1.phase scope))
    (hevents : ∀ e ∈ r.2, (e.scope = scope ∨ markOf e.event = none) ∧ markOf e.event ≠ some .completed) :
    Follows s r where
  lives := fun other => by
    by_cases hother : other = scope
    · exact hother ▸ hown
    · rw [hothers other hother, marks_eq_nil fun e he => (hevents e he).1.imp_left fun h => by
        rw [h]
        exact Ne.symm hother]
      exact .refl _
  sane := hsane
  grace := hgrace
  clock := hclock
  onTime := fun e he event hevent hkind => by
    refine absurd ?_ (hevents e he).2
    simp [markOf, hevent, hkind]

/-- A function that changes nothing about the phases. -/
theorem Follows.of_quiet {r : Synthesis × List ScopedEvent} (hsane : r.1.Sane)
    (hgrace : r.1.completeGraceMs = s.completeGraceMs) (hclock : s.latestLifecycleMs ≤ r.1.latestLifecycleMs)
    (hphase : ∀ scope, r.1.phase scope = s.phase scope) (hevents : ∀ e ∈ r.2, markOf e.event = none) :
    Follows s r where
  lives := fun scope => by
    rw [hphase, marks_eq_nil fun e he => .inr (hevents e he)]
    exact .refl _
  sane := hsane
  grace := hgrace
  clock := hclock
  onTime := fun e he event hevent hkind => by
    have := hevents e he
    simp [markOf, hevent, hkind] at this

/-! ### Phases of updated states -/

theorem phase_congr {s' : Synthesis} (hstarted : s'.started.get scope = s.started.get scope)
    (hpending : s'.pendingCompletes.get scope = s.pendingCompletes.get scope)
    (hcompleted : HashMap.get s'.completed scope = HashMap.get s.completed scope)
    (hinactive : HashMap.get s'.inactivityClosed scope = HashMap.get s.inactivityClosed scope)
    (hended : s'.endOf scope = s.endOf scope) : s'.phase scope = s.phase scope := by
  simp only [phase, HashMap.contains, hstarted, hpending, hcompleted, hinactive, hended]

theorem endKey_ne {parent agentId : String} (h : other ≠ .claudeSubagent parent agentId) :
    ∀ key ∈ other.endKey, key ≠ (parent, agentId) := by
  intro key hkey heq
  cases other with
  | claudeSubagent parent' agentId' =>
    cases hkey
    cases heq
    exact h rfl
  | claudeRoot _ => cases hkey
  | codex _ => cases hkey

/-- The ends of other scopes do not change when the end of one does. -/
theorem endOf_congr {s' : Synthesis} {parent agentId : String} (hne : other ≠ .claudeSubagent parent agentId)
    (h : ∀ key, key ≠ (parent, agentId) → s'.subagentEnds.get key = s.subagentEnds.get key) :
    s'.endOf other = s.endOf other := by
  unfold endOf
  cases hkey : other.endKey with
  | none => rfl
  | some key => exact h key (endKey_ne hne key hkey)

/-! ### Releasing held completions -/

theorem releaseComplete_ne (hne : other ≠ scope) : (s.releaseComplete scope).1.phase other = s.phase other := by
  unfold releaseComplete
  cases s.pendingCompletes.get scope with
  | none => rfl
  | some event =>
    exact phase_congr (HashMap.get_remove_ne _ hne) (HashMap.get_remove_ne _ hne)
      (HashMap.get_insert_ne _ _ hne) rfl rfl

theorem releaseComplete_pending_ne (hne : other ≠ scope) :
    (s.releaseComplete scope).1.pendingCompletes.get other = s.pendingCompletes.get other := by
  unfold releaseComplete
  cases s.pendingCompletes.get scope with
  | none => rfl
  | some event => exact HashMap.get_remove_ne _ hne

theorem releaseComplete_pending_self : (s.releaseComplete scope).1.pendingCompletes.get scope = none := by
  unfold releaseComplete
  cases h : s.pendingCompletes.get scope with
  | none => exact h
  | some event => exact HashMap.get_remove_self _ _

theorem releaseComplete_self {event : ControllerEvent} (h : s.pendingCompletes.get scope = some event) :
    (s.releaseComplete scope).1.phase scope =
      { s.phase scope with started := false, pending := none, completed := true } := by
  simp only [releaseComplete, h, phase, HashMap.contains, HashSet.insert, HashMap.get_remove_self,
    HashMap.get_insert_self]
  rfl

theorem releaseComplete_fields (s : Synthesis) (scope : SessionScope) :
    (s.releaseComplete scope).1.completeGraceMs = s.completeGraceMs ∧
      (s.releaseComplete scope).1.latestLifecycleMs = s.latestLifecycleMs ∧
      (s.releaseComplete scope).1.lastAppendMs = s.lastAppendMs ∧
      (s.releaseComplete scope).1.subagentEnds = s.subagentEnds := by
  unfold releaseComplete
  cases s.pendingCompletes.get scope <;> exact ⟨rfl, rfl, rfl, rfl⟩

/-- What a release emits is what was held. -/
theorem mem_releaseComplete {e : ScopedEvent} (h : e ∈ (s.releaseComplete scope).2) :
    e.scope = scope ∧ ∃ event, e.event = .synthesized event ∧ s.pendingCompletes.get scope = some event := by
  unfold releaseComplete at h
  cases hp : s.pendingCompletes.get scope with
  | none =>
    rw [hp] at h
    cases h
  | some event =>
    rw [hp] at h
    rw [List.mem_singleton.mp h]
    exact ⟨rfl, event, rfl, rfl⟩

theorem Sane.releaseComplete (h : s.Sane) (scope : SessionScope) : (s.releaseComplete scope).1.Sane := by
  obtain ⟨hgrace, hclock, happend, -⟩ := releaseComplete_fields s scope
  have hpending : ∀ other event, (s.releaseComplete scope).1.pendingCompletes.get other = some event →
      s.pendingCompletes.get other = some event := by
    intro other event hother
    by_cases hne : other = scope
    · rw [hne, releaseComplete_pending_self] at hother
      cases hother
    · rwa [releaseComplete_pending_ne hne] at hother
  refine ⟨hgrace ▸ h.grace, fun other event ho => h.held other event (hpending other event ho),
    fun other event ho => h.dated other event (hpending other event ho), fun other atMs ho => ?_⟩
  rw [hclock]
  exact h.appended other atMs (happend ▸ ho)

theorem releaseComplete_lives (h : s.Sane) (scope other : SessionScope) :
    Runs (PhaseStep other.sort) (s.phase other) (marks other (s.releaseComplete scope).2)
      ((s.releaseComplete scope).1.phase other) := by
  by_cases hne : other = scope
  · subst hne
    cases hp : s.pendingCompletes.get other with
    | none =>
      have : s.releaseComplete other = (s, []) := by simp only [Synthesis.releaseComplete, hp]
      rw [this]
      exact .refl _
    | some event =>
      have hmarks : marks other (s.releaseComplete other).2 = [.completed] := by
        simp [Synthesis.releaseComplete, hp, marks, ScopedEvent.markFor, markOf, h.held other event hp]
      rw [hmarks, releaseComplete_self hp]
      exact @PhaseStep.release _ _ event.metadata.timestampMs (by simp [phase, hp]) |> .one
  · rw [releaseComplete_ne hne, marks_eq_nil fun e he => .inl ?_]
    · exact .refl _
    · rw [(mem_releaseComplete he).1]
      exact Ne.symm hne

theorem releaseCompletes_cons (s : Synthesis) (scope : SessionScope) (scopes : List SessionScope) :
    s.releaseCompletes (scope :: scopes) =
      (((s.releaseComplete scope).1.releaseCompletes scopes).1,
        (s.releaseComplete scope).2 ++ ((s.releaseComplete scope).1.releaseCompletes scopes).2) := rfl

theorem Sane.releaseCompletes (h : s.Sane) (scopes : List SessionScope) :
    (s.releaseCompletes scopes).1.Sane := by
  induction scopes generalizing s with
  | nil => exact h
  | cons scope scopes ih => exact ih (h.releaseComplete scope)

theorem releaseCompletes_lives (h : s.Sane) (scopes : List SessionScope) (other : SessionScope) :
    Runs (PhaseStep other.sort) (s.phase other) (marks other (s.releaseCompletes scopes).2)
      ((s.releaseCompletes scopes).1.phase other) := by
  induction scopes generalizing s with
  | nil => exact .refl _
  | cons scope scopes ih =>
    rw [releaseCompletes_cons]
    show Runs _ _ (marks other (_ ++ _)) _
    rw [marks_append]
    exact (releaseComplete_lives h scope other).trans (ih (h.releaseComplete scope))

theorem releaseCompletes_fields (s : Synthesis) (scopes : List SessionScope) :
    (s.releaseCompletes scopes).1.completeGraceMs = s.completeGraceMs ∧
      (s.releaseCompletes scopes).1.latestLifecycleMs = s.latestLifecycleMs ∧
      (s.releaseCompletes scopes).1.lastAppendMs = s.lastAppendMs ∧
      (s.releaseCompletes scopes).1.subagentEnds = s.subagentEnds := by
  induction scopes generalizing s with
  | nil => exact ⟨rfl, rfl, rfl, rfl⟩
  | cons scope scopes ih =>
    obtain ⟨h₁, h₂, h₃, h₄⟩ := releaseComplete_fields s scope
    obtain ⟨h₁', h₂', h₃', h₄'⟩ := ih (s.releaseComplete scope).1
    rw [releaseCompletes_cons]
    exact ⟨h₁'.trans h₁, h₂'.trans h₂, h₃'.trans h₃, h₄'.trans h₄⟩

/-- What releases emit is what was held before. -/
theorem mem_releaseCompletes {scopes : List SessionScope} {e : ScopedEvent}
    (h : e ∈ (s.releaseCompletes scopes).2) :
    e.scope ∈ scopes ∧ ∃ event, e.event = .synthesized event ∧
      s.pendingCompletes.get e.scope = some event := by
  induction scopes generalizing s with
  | nil => cases h
  | cons scope scopes ih =>
    rw [releaseCompletes_cons] at h
    rcases List.mem_append.mp h with h | h
    · obtain ⟨rfl, event, hevent, hpending⟩ := mem_releaseComplete h
      exact ⟨List.mem_cons_self, event, hevent, hpending⟩
    · obtain ⟨hmem, event, hevent, hpending⟩ := ih h
      refine ⟨List.mem_cons_of_mem _ hmem, event, hevent, ?_⟩
      by_cases hne : e.scope = scope
      · rw [hne, releaseComplete_pending_self] at hpending
        cases hpending
      · rwa [releaseComplete_pending_ne hne] at hpending

/-- A scope that is not among the released ones stays as it is. -/
theorem releaseCompletes_ne {scopes : List SessionScope} (hne : other ∉ scopes) :
    (s.releaseCompletes scopes).1.phase other = s.phase other := by
  induction scopes generalizing s with
  | nil => rfl
  | cons scope scopes ih =>
    rw [List.mem_cons, not_or] at hne
    rw [releaseCompletes_cons]
    exact (ih hne.2).trans (releaseComplete_ne hne.1)

/-- No scope among the released ones has a completion held afterwards. -/
theorem releaseCompletes_pending {scopes : List SessionScope} :
    (s.releaseCompletes scopes).1.pendingCompletes.get scope =
      if scope ∈ scopes then none else s.pendingCompletes.get scope := by
  induction scopes generalizing s with
  | nil => rfl
  | cons head scopes ih =>
    rw [releaseCompletes_cons]
    show ((s.releaseComplete head).1.releaseCompletes scopes).1.pendingCompletes.get scope = _
    rw [ih]
    by_cases hne : scope = head
    · subst hne
      simp [releaseComplete_pending_self]
    · simp [releaseComplete_pending_ne hne, hne]

theorem mem_byEventId {held : List (SessionScope × ControllerEvent)} :
    scope ∈ byEventId held ↔ ∃ event, (scope, event) ∈ held := by
  simp [byEventId, List.mem_insertionSort]

theorem mem_flushDue {held : ControllerEvent} (h : s.pendingCompletes.get scope = some held) :
    scope ∈ byEventId (s.pendingCompletes.toList.filter fun held => s.isDue nowMs held.2) ↔
      s.isDue nowMs held = true := by
  simp only [mem_byEventId, List.mem_filter, HashMap.mem_toList, h]
  constructor
  · rintro ⟨event, heq, hdue⟩
    rwa [Option.some.inj heq]
  · exact fun hdue => ⟨held, rfl, hdue⟩

theorem flushDueCompletes_fields (s : Synthesis) (nowMs : ℤ) :
    (s.flushDueCompletes nowMs).1.completeGraceMs = s.completeGraceMs ∧
      (s.flushDueCompletes nowMs).1.latestLifecycleMs = s.latestLifecycleMs ∧
      (s.flushDueCompletes nowMs).1.lastAppendMs = s.lastAppendMs ∧
      (s.flushDueCompletes nowMs).1.subagentEnds = s.subagentEnds :=
  releaseCompletes_fields s _

/-- A flush at a time that the clock has reached is on time. -/
theorem flushDueCompletes_follows (h : s.Sane) (hnow : nowMs ≤ s.latestLifecycleMs) :
    Follows s (s.flushDueCompletes nowMs) := by
  obtain ⟨hgrace, hclock, -, -⟩ := flushDueCompletes_fields s nowMs
  refine ⟨releaseCompletes_lives h _, h.releaseCompletes _, hgrace, le_of_eq hclock.symm,
    fun e he event hevent _ => ?_⟩
  obtain ⟨hmem, event', hevent', hpending⟩ := mem_releaseCompletes he
  rw [hevent] at hevent'
  cases hevent'
  have hdue := (mem_flushDue hpending).mp hmem
  rw [hgrace, hclock]
  exact (of_decide_eq_true hdue).trans hnow

/-! ### Resuming and starting -/

theorem resume_ne (hne : other ≠ scope) : (s.resume scope).phase other = s.phase other := by
  refine phase_congr rfl (HashMap.get_remove_ne _ hne) (HashMap.get_remove_ne _ hne)
    (HashMap.get_remove_ne _ hne) ?_
  cases scope with
  | claudeSubagent parent agentId =>
    exact endOf_congr hne fun key hkey => HashMap.get_remove_ne _ hkey
  | claudeRoot _ => rfl
  | codex _ => rfl

theorem resume_self : (s.resume scope).phase scope = (s.phase scope).resumed := by
  refine ScopePhase.ext rfl ?_ ?_ ?_ ?_
  · simp [phase, resume, ScopePhase.resumed]
  · simp [phase, resume, ScopePhase.resumed, HashMap.contains]
  · simp [phase, resume, ScopePhase.resumed, HashMap.contains]
  · cases scope <;> simp [phase, resume, ScopePhase.resumed, endOf, SessionScope.endKey]

theorem Sane.resume (h : s.Sane) (scope : SessionScope) : (s.resume scope).Sane := by
  refine ⟨h.grace, fun other event ho => ?_, fun other event ho => ?_, h.appended⟩ <;>
  · have hpending : (s.pendingCompletes.remove scope).get other = some event := ho
    rw [HashMap.get_remove] at hpending
    split_ifs at hpending
    first
    | exact h.held other event hpending
    | exact h.dated other event hpending

/-- A scope that has not ended since can be resumed. -/
theorem resumable (h : s.endedSince atMs scope = false) : (s.phase scope).Resumable atMs := by
  intro failed endMs hended
  simp only [phase, endOf, Option.map_eq_some_iff, Option.bind_eq_some_iff] at hended
  obtain ⟨terminal, ⟨key, hkey, hget⟩, heq⟩ := hended
  cases heq
  cases scope with
  | claudeSubagent parent agentId =>
    cases hkey
    unfold endedSince at h
    simpa [hget] using h
  | claudeRoot _ => cases hkey
  | codex _ => cases hkey

theorem startScope_ne {origin : ObservationOrigin} (hne : other ≠ scope) :
    (s.startScope scope atMs origin).1.phase other = s.phase other := by
  unfold startScope
  split
  · rfl
  · exact phase_congr (HashMap.get_insert_ne _ _ hne) rfl rfl rfl rfl

theorem startScope_self {origin : ObservationOrigin} :
    (s.startScope scope atMs origin).1.phase scope = { s.phase scope with started := true } := by
  unfold startScope
  split
  · rename_i hstarted
    refine ScopePhase.ext hstarted rfl rfl rfl rfl
  · refine ScopePhase.ext ?_ rfl rfl rfl rfl
    simp [phase, HashMap.contains]

theorem startScope_snd {origin : ObservationOrigin} :
    (s.startScope scope atMs origin).2 = !(s.phase scope).started := by
  unfold startScope phase
  split <;> simp_all

theorem startScope_fields (s : Synthesis) (scope : SessionScope) (atMs : ℤ) (origin : ObservationOrigin) :
    (s.startScope scope atMs origin).1.completeGraceMs = s.completeGraceMs ∧
      (s.startScope scope atMs origin).1.latestLifecycleMs = s.latestLifecycleMs ∧
      (s.startScope scope atMs origin).1.lastAppendMs = s.lastAppendMs ∧
      (s.startScope scope atMs origin).1.pendingCompletes = s.pendingCompletes := by
  unfold startScope
  split <;> exact ⟨rfl, rfl, rfl, rfl⟩

/-- A state with the same grace, held completions, appends and a clock that is not earlier. -/
theorem Sane.of_fields {s' : Synthesis} (h : s.Sane) (hgrace : s'.completeGraceMs = s.completeGraceMs)
    (hclock : s.latestLifecycleMs ≤ s'.latestLifecycleMs) (happend : s'.lastAppendMs = s.lastAppendMs)
    (hpending : s'.pendingCompletes = s.pendingCompletes) : s'.Sane where
  grace := hgrace ▸ h.grace
  held := hpending ▸ h.held
  dated := hpending ▸ h.dated
  appended := fun scope atMs ha => (h.appended scope atMs (happend ▸ ha)).trans hclock

theorem Sane.startScope (h : s.Sane) (scope : SessionScope) (atMs : ℤ) (origin : ObservationOrigin) :
    (s.startScope scope atMs origin).1.Sane := by
  obtain ⟨hgrace, hclock, happend, hpending⟩ := startScope_fields s scope atMs origin
  exact h.of_fields hgrace (le_of_eq hclock.symm) happend hpending

theorem dropScope_ne (hne : other ≠ scope) : (s.dropScope scope).phase other = s.phase other :=
  phase_congr (HashMap.get_remove_ne _ hne) (HashMap.get_remove_ne _ hne) (HashMap.get_remove_ne _ hne) rfl rfl

theorem dropScope_self : (s.dropScope scope).phase scope =
    { s.phase scope with started := false, pending := none, completed := false } := by
  refine ScopePhase.ext ?_ ?_ ?_ rfl rfl <;> simp [phase, dropScope, HashMap.contains]

theorem Sane.dropScope (h : s.Sane) (scope : SessionScope) : (s.dropScope scope).Sane :=
  ⟨h.grace, (h.resume scope).held, (h.resume scope).dated, h.appended⟩

/-! ### The facts -/

section Facts

variable {artifact : ArtifactPath} {context : FactContext}

/-- A function that flushes what is due first. -/
theorem Follows.after_flush {f : Synthesis → Synthesis × List ScopedEvent} (h : s.Sane)
    (hat : atMs ≤ s.latestLifecycleMs)
    (hf : ∀ s₁ : Synthesis, s₁.Sane → s₁.latestLifecycleMs = s.latestLifecycleMs → Follows s₁ (f s₁)) :
    Follows s ((f (s.flushDueCompletes atMs).1).1,
      (s.flushDueCompletes atMs).2 ++ (f (s.flushDueCompletes atMs).1).2) := by
  have hflush := flushDueCompletes_follows h hat
  obtain ⟨-, hclock, -, -⟩ := flushDueCompletes_fields s atMs
  exact hflush.trans (hf _ hflush.sane hclock)

/-- Whether a sign of life opens a scope, as the maps say it. -/
theorem opens_iff : (s.phase scope).opens scope.sort = true ↔
    (scope.isClaudeRoot || (s.completed.contains scope || s.inactivityClosed.contains scope)) = true := by
  cases scope <;> simp [ScopePhase.opens, SessionScope.sort, SessionScope.isClaudeRoot, phase]

/-- A scope that goes on: its log has grown. -/
theorem growScope_follows (h : s.Sane) (hat : atMs ≤ s.latestLifecycleMs)
    (hresumable : (s.phase scope).Resumable atMs) :
    Follows s ((s.resume scope).growScope artifact context scope atMs
      (s.completed.contains scope || s.inactivityClosed.contains scope)) := by
  have hs : Sane { s.resume scope with
      lastAppendMs := (s.resume scope).lastAppendMs.insert scope atMs
      lastAppendOrigins := (s.resume scope).lastAppendOrigins.insert scope context.origin } := by
    refine ⟨(h.resume scope).grace, (h.resume scope).held, (h.resume scope).dated, fun other at' ha => ?_⟩
    have hget : (s.lastAppendMs.insert scope atMs).get other = some at' := ha
    rw [HashMap.get_insert] at hget
    split_ifs at hget
    · cases hget
      exact hat
    · exact h.appended other at' hget
  unfold growScope
  generalize hs₂ : ({ s.resume scope with
      lastAppendMs := (s.resume scope).lastAppendMs.insert scope atMs
      lastAppendOrigins := (s.resume scope).lastAppendOrigins.insert scope context.origin } : Synthesis) = s₂
    at hs ⊢
  have hphase : ∀ other, s₂.phase other = (s.resume scope).phase other := fun _ => hs₂ ▸ rfl
  have hclock : s₂.latestLifecycleMs = s.latestLifecycleMs := hs₂ ▸ rfl
  have hgrace : s₂.completeGraceMs = s.completeGraceMs := hs₂ ▸ rfl
  obtain ⟨hgrace', hclock', -, -⟩ := startScope_fields s₂ scope atMs context.origin
  dsimp only
  split
  · rename_i hreopen
    have hopens := opens_iff.mpr hreopen
    refine Follows.of_own scope (hs.startScope _ _ _) (hgrace'.trans hgrace)
      (le_of_eq (hclock'.trans hclock).symm) (fun other hne => ?_) ?_ (fun e he => ?_)
    · exact (startScope_ne hne).trans ((hphase other).trans (resume_ne hne))
    · have hown : (s₂.startScope scope atMs context.origin).1.phase scope =
          { (s.phase scope).resumed with started := true } := by
        rw [startScope_self, hphase, resume_self]
      have hstarted : (s₂.startScope scope atMs context.origin).2 = !(s.phase scope).started := by
        rw [startScope_snd, hphase, resume_self]
        rfl
      dsimp only
      rw [hown, hstarted]
      cases hv : (s.phase scope).started with
      | true =>
        have hgrow := Runs.one (@PhaseStep.grow scope.sort _ _ hresumable fun _ => hv)
        rw [show (s.phase scope).resumed = { (s.phase scope).resumed with started := true } from
          ScopePhase.ext hv rfl rfl rfl rfl] at hgrow
        simpa [marks, ScopedEvent.markFor, markOf] using hgrow
      | false =>
        have hgrow := Runs.one (PhaseStep.growOpen hresumable hopens)
        simpa [marks, ScopedEvent.markFor, markOf, synthesized, controllerEvent] using hgrow
    · rcases List.mem_cons.mp he with rfl | he
      · exact ⟨.inl rfl, by simp [markOf]⟩
      · split_ifs at he
        · rw [List.mem_singleton.mp he]
          exact ⟨.inl rfl, by simp [markOf, synthesized, controllerEvent]⟩
        · cases he
  · rename_i hreopen
    refine Follows.of_own scope hs hgrace (le_of_eq hclock.symm)
      (fun other hne => (hphase other).trans (resume_ne hne)) ?_ (fun e he => ?_)
    · have hgrow := Runs.one (@PhaseStep.grow scope.sort _ _ hresumable
        fun hopen => absurd (opens_iff.mp hopen) hreopen)
      dsimp only
      rw [hphase, resume_self]
      simpa [marks, ScopedEvent.markFor, markOf] using hgrow
    · rw [List.mem_singleton.mp he]
      exact ⟨.inl rfl, by simp [markOf]⟩

theorem synthesizeAppend_follows (h : s.Sane) (hat : atMs ≤ s.latestLifecycleMs) :
    Follows s (s.synthesizeAppend artifact context scope atMs) := by
  have hflush := flushDueCompletes_follows h hat
  obtain ⟨-, hclock, -, -⟩ := flushDueCompletes_fields s atMs
  by_cases hended : (s.flushDueCompletes atMs).1.endedSince atMs scope = true
  · simp only [synthesizeAppend, prepareResume, hended, if_true]
    exact hflush
  · simp only [synthesizeAppend, prepareResume, if_neg hended]
    exact hflush.trans (growScope_follows hflush.sane (hclock ▸ hat)
      (resumable (Bool.eq_false_of_not_eq_true hended)))

/-- A scope is announced: it goes on and starts, and one of the events says so. -/
theorem begin_follows {origin : ObservationOrigin} (h : s.Sane) (hresumable : (s.phase scope).Resumable atMs)
    (hmarks : marks scope events = [.started])
    (hevents : ∀ e ∈ events, (e.scope = scope ∨ markOf e.event = none) ∧ markOf e.event ≠ some .completed) :
    Follows s (((s.resume scope).startScope scope atMs origin).1, events) := by
  obtain ⟨hgrace, hclock, -, -⟩ := startScope_fields (s.resume scope) scope atMs origin
  refine Follows.of_own scope ((h.resume scope).startScope _ _ _) hgrace (le_of_eq hclock.symm)
    (fun other hne => (startScope_ne hne).trans (resume_ne hne)) ?_ hevents
  dsimp only
  rw [hmarks, startScope_self, resume_self]
  exact .one (.begin hresumable)

theorem codex_resumable (rolloutId : String) (atMs : ℤ) : (s.phase (.codex rolloutId)).Resumable atMs := by
  intro failed endMs h
  simp [phase, endOf, SessionScope.endKey] at h

theorem synthesizeCodexMeta_follows {rolloutId cwd originator cliVersion : String}
    {internal : Option CodexInternal} (h : s.Sane) :
    Follows s (s.synthesizeCodexMeta artifact context rolloutId cwd originator internal cliVersion) := by
  unfold synthesizeCodexMeta
  split
  · exact .of_quiet h rfl le_rfl (fun _ => rfl) (fun _ he => by cases he)
  · let s₀ : Synthesis :=
      { s with sessionMeta := s.sessionMeta.insert artifact ⟨cwd, originator, internal, cliVersion⟩ }
    have hs₀ : s₀.Sane := h.of_fields rfl le_rfl rfl rfl
    have hquiet : Follows s (s₀, []) :=
      .of_quiet hs₀ rfl le_rfl (fun _ => rfl) (fun _ he => by cases he)
    have hat : (s₀.lastAppendMs.get (.codex rolloutId)).getD s₀.latestLifecycleMs ≤ s₀.latestLifecycleMs := by
      cases hget : s₀.lastAppendMs.get (.codex rolloutId) with
      | none => exact le_rfl
      | some atMs => exact hs₀.appended _ _ hget
    have hflush := flushDueCompletes_follows hs₀ hat
    refine hquiet.trans (hflush.trans (begin_follows hflush.sane (codex_resumable rolloutId _) ?_ fun e he => ?_))
    · simp [marks, ScopedEvent.markFor, markOf, synthesized, controllerEvent]
    · rw [List.mem_singleton.mp he]
      exact ⟨.inl rfl, by simp [markOf, synthesized, controllerEvent]⟩

/-- A turn of a rollout starts, after what was due is flushed. -/
theorem turnStarted_follows {rolloutId : String} {selected : Bool} (h : s.Sane) :
    Follows s
      (({ s.resume (.codex rolloutId) with
          liveLines := s.liveLines.remove (.codex rolloutId) }.startScope (.codex rolloutId) atMs
          context.origin).1,
        (if selected then
          [⟨.codex rolloutId,
            liveLineEvent artifact context.ordinal context.sequence (.codex rolloutId) atMs none⟩] else []) ++
        (if ({ s.resume (.codex rolloutId) with
            liveLines := s.liveLines.remove (.codex rolloutId) }.startScope (.codex rolloutId) atMs
            context.origin).2 then
          [synthesized artifact context (.codex rolloutId) .taskStarted atMs none none] else []) ++
        [⟨.codex rolloutId,
          rootRuntimeStateEvent artifact context.ordinal context.sequence rolloutId atMs true⟩]) := by
  generalize hs₁ : ({ s.resume (.codex rolloutId) with
    liveLines := s.liveLines.remove (.codex rolloutId) } : Synthesis) = s₁
  have hsane : s₁.Sane := hs₁ ▸ (h.resume (.codex rolloutId)).of_fields rfl le_rfl rfl rfl
  have hphase : ∀ other, s₁.phase other = (s.resume (.codex rolloutId)).phase other := fun _ => hs₁ ▸ rfl
  have hclock : s₁.latestLifecycleMs = s.latestLifecycleMs := hs₁ ▸ rfl
  have hgrace : s₁.completeGraceMs = s.completeGraceMs := hs₁ ▸ rfl
  obtain ⟨hgrace', hclock', -, -⟩ := startScope_fields s₁ (.codex rolloutId) atMs context.origin
  have hown : (s₁.startScope (.codex rolloutId) atMs context.origin).1.phase (.codex rolloutId) =
      { (s.phase (.codex rolloutId)).resumed with started := true } := by
    rw [startScope_self, hphase, resume_self]
  have hstarted : (s₁.startScope (.codex rolloutId) atMs context.origin).2 =
      !(s.phase (.codex rolloutId)).started := by
    rw [startScope_snd, hphase, resume_self]
    rfl
  rw [hstarted]
  refine Follows.of_own (.codex rolloutId) (hsane.startScope _ _ _) (hgrace'.trans hgrace)
    (le_of_eq (hclock'.trans hclock).symm)
    (fun other hne => (startScope_ne hne).trans ((hphase other).trans (resume_ne hne))) ?_ (fun e he => ?_)
  · have hmarks : marks (.codex rolloutId) ((if selected then
        [⟨.codex rolloutId,
          liveLineEvent artifact context.ordinal context.sequence (.codex rolloutId) atMs none⟩] else []) ++
        (if !(s.phase (.codex rolloutId)).started then
          [synthesized artifact context (.codex rolloutId) .taskStarted atMs none none] else []) ++
        [⟨.codex rolloutId,
          rootRuntimeStateEvent artifact context.ordinal context.sequence rolloutId atMs true⟩]) =
        if (s.phase (.codex rolloutId)).started then [] else [.started] := by
      cases selected <;> cases (s.phase (.codex rolloutId)).started <;>
        simp [marks, ScopedEvent.markFor, markOf, liveLineEvent, rootRuntimeStateEvent, synthesized,
          controllerEvent]
    dsimp only
    rw [hmarks, hown]
    cases hv : (s.phase (.codex rolloutId)).started with
    | true =>
      rw [show { (s.phase (.codex rolloutId)).resumed with started := true } =
        (s.phase (.codex rolloutId)).resumed from ScopePhase.ext hv.symm rfl rfl rfl rfl]
      exact .one (.turn rfl hv)
    | false => exact .one (.begin (codex_resumable rolloutId atMs))
  · simp only [List.mem_append, List.mem_ite_nil_right, List.mem_singleton] at he
    rcases he with (⟨-, rfl⟩ | ⟨-, rfl⟩) | rfl
    · exact ⟨.inl rfl, by simp [markOf, liveLineEvent]⟩
    · exact ⟨.inl rfl, by simp [markOf, synthesized, controllerEvent]⟩
    · exact ⟨.inl rfl, by simp [markOf, rootRuntimeStateEvent]⟩

theorem synthesizeCodexTurnStarted_follows {rolloutId : String} (h : s.Sane)
    (hat : atMs ≤ s.latestLifecycleMs) :
    Follows s (s.synthesizeCodexTurnStarted artifact context rolloutId atMs) :=
  Follows.after_flush h hat fun _ hs _ => turnStarted_follows hs

theorem synthesizeCodexTurnComplete_follows {rolloutId : String} (h : s.Sane)
    (hat : atMs ≤ s.latestLifecycleMs) :
    Follows s (s.synthesizeCodexTurnComplete artifact context rolloutId atMs) := by
  refine Follows.after_flush (f := fun s₁ => (s₁, [⟨.codex rolloutId,
    rootRuntimeStateEvent artifact context.ordinal context.sequence rolloutId atMs false⟩])) h hat
    fun s₁ hs _ => .of_quiet hs rfl le_rfl (fun _ => rfl) fun e he => ?_
  rw [List.mem_singleton.mp he]
  rfl

theorem synthesizeCodexTurnAborted_follows {rolloutId : String} (h : s.Sane)
    (hat : atMs ≤ s.latestLifecycleMs) :
    Follows s (s.synthesizeCodexTurnAborted artifact context rolloutId atMs) := by
  refine Follows.after_flush (f := fun s₁ => (s₁.dropScope (.codex rolloutId), _)) h hat fun s₁ hs _ =>
    .of_own (.codex rolloutId) (hs.dropScope _) rfl le_rfl (fun other hne => dropScope_ne hne) ?_
      (fun e he => ?_)
  · dsimp only
    rw [dropScope_self]
    simpa [marks, ScopedEvent.markFor, markOf, synthesized, controllerEvent] using
      Runs.one (@PhaseStep.abort (SessionScope.codex rolloutId).sort _ rfl)
  · rw [List.mem_singleton.mp he]
    exact ⟨.inl rfl, by simp [markOf, synthesized, controllerEvent]⟩

theorem synthesizeSubagentAppeared_follows {parent agentId agentType description : String} (h : s.Sane)
    (hat : atMs ≤ s.latestLifecycleMs) :
    Follows s (s.synthesizeSubagentAppeared artifact context parent agentId agentType description atMs) := by
  have hflush := flushDueCompletes_follows h hat
  by_cases hended : (s.flushDueCompletes atMs).1.endedSince atMs (.claudeSubagent parent agentId) = true
  · simp only [synthesizeSubagentAppeared, prepareResume, hended, if_true, Option.isNone_none]
    exact hflush
  · simp only [synthesizeSubagentAppeared, prepareResume, if_neg hended, Option.isNone_some,
      Bool.false_eq_true, if_false]
    refine hflush.trans (begin_follows hflush.sane (resumable (Bool.eq_false_of_not_eq_true hended)) ?_
      fun e he => ?_)
    · simp [marks, ScopedEvent.markFor, markOf, synthesized, controllerEvent]
    · rcases List.mem_cons.mp he with rfl | he
      · exact ⟨.inl rfl, by simp [markOf, synthesized, controllerEvent]⟩
      · rw [List.mem_singleton.mp he]
        exact ⟨.inl rfl, by simp [markOf, synthesized, controllerEvent]⟩

/-! ### Ends of subagents -/

/-- A held completion that is as late as the new end is not due yet. -/
theorem not_due {event : ControllerEvent} (h : s.Sane) (hpending : s.pendingCompletes.get scope = some event)
    (hlate : atMs ≤ event.metadata.timestampMs) : s.isDue atMs event = false := by
  have hgrace := h.grace
  have hdated := h.dated scope event hpending
  refine decide_eq_false fun hdue => ?_
  unfold satAddI64 at hdue
  rw [max_le_iff, min_le_iff] at hdue
  omega

/-- The end that the notifications report after one more. -/
def joinedEnd (s : Synthesis) (context : FactContext) (parent agentId : String) (failed : Bool) (atMs : ℤ) :
    SubagentEnd :=
  .join (s.subagentEnds.get (parent, agentId)) failed context.ordinal atMs

/-- The state in which that end is noted. -/
def noteEnd (s : Synthesis) (parent agentId : String) (terminal : SubagentEnd) : Synthesis :=
  { s with subagentEnds := s.subagentEnds.insert (parent, agentId) terminal }

variable {parent agentId : String} {failed : Bool} {terminal : SubagentEnd}

theorem joinedEnd_le : (s.joinedEnd context parent agentId failed atMs).atMs ≤ atMs := by
  unfold joinedEnd
  cases s.subagentEnds.get (parent, agentId) with
  | none => exact le_rfl
  | some current => exact min_le_right _ _

/-- The end is not later than the one reported before. -/
theorem joinedEnd_le_ended {endMs : ℤ} {failed' : Bool}
    (h : (s.phase (.claudeSubagent parent agentId)).ended = some (failed', endMs)) :
    (s.joinedEnd context parent agentId failed atMs).atMs ≤ endMs := by
  simp only [phase, endOf, SessionScope.endKey, Option.bind_some, Option.map_eq_some_iff,
    Prod.mk.injEq] at h
  obtain ⟨current, hget, -, rfl⟩ := h
  unfold joinedEnd
  rw [hget]
  exact min_le_left _ _

theorem noteEnd_ne (terminal : SubagentEnd) (hne : other ≠ .claudeSubagent parent agentId) :
    (s.noteEnd parent agentId terminal).phase other = s.phase other :=
  phase_congr rfl rfl rfl rfl (endOf_congr hne fun _ hkey => HashMap.get_insert_ne _ _ hkey)

theorem noteEnd_self : (s.noteEnd parent agentId terminal).phase (.claudeSubagent parent agentId) =
    { s.phase (.claudeSubagent parent agentId) with ended := some (terminal.failed, terminal.atMs) } := by
  refine ScopePhase.ext rfl rfl rfl rfl ?_
  simp [phase, endOf, noteEnd, SessionScope.endKey]

/-- Flushing at the end of a subagent does not release its own completion. -/
theorem flush_noteEnd_self (h : s.Sane)
    (hconsistent : (s.phase (.claudeSubagent parent agentId)).Consistent .subagent)
    (hterminal : terminal = s.joinedEnd context parent agentId failed atMs) :
    .claudeSubagent parent agentId ∉ byEventId ((s.noteEnd parent agentId terminal).pendingCompletes.toList.filter
      fun held => (s.noteEnd parent agentId terminal).isDue terminal.atMs held.2) := by
  intro hmem
  obtain ⟨event, hevent⟩ := mem_byEventId.mp hmem
  obtain ⟨hheld, hdue⟩ := List.mem_filter.mp hevent
  have hpending : s.pendingCompletes.get (.claudeSubagent parent agentId) = some event :=
    HashMap.mem_toList.mp hheld
  have hended := (hconsistent.pending event.metadata.timestampMs (by simp [phase, hpending])).2
  have hnot : s.isDue terminal.atMs event = false := not_due h hpending (hterminal ▸ joinedEnd_le_ended hended)
  exact absurd (hnot.symm.trans hdue) (by simp)

/-- Marks of what a flush emits for a scope that it does not release. -/
theorem marks_flush {nowMs : ℤ}
    (hne : scope ∉ byEventId (s.pendingCompletes.toList.filter fun held => s.isDue nowMs held.2)) :
    marks scope (s.flushDueCompletes nowMs).2 = [] := by
  refine marks_eq_nil fun e he => .inl fun heq => hne ?_
  rw [← heq]
  exact (mem_releaseCompletes he).1

/-- The end of a subagent is noted, what is due is flushed, and then its own scope changes. -/
theorem Follows.of_ended {t : Synthesis} {later : List ScopedEvent} (h : s.Sane)
    (hconsistent : (s.phase (.claudeSubagent parent agentId)).Consistent .subagent)
    (hat : atMs ≤ s.latestLifecycleMs)
    (hterminal : terminal = s.joinedEnd context parent agentId failed atMs)
    (hflushed : (s.noteEnd parent agentId terminal).flushDueCompletes terminal.atMs = (s₁, flushed))
    (hsane : s₁.Sane → t.Sane) (hgrace : t.completeGraceMs = s₁.completeGraceMs)
    (hclock : t.latestLifecycleMs = s₁.latestLifecycleMs)
    (hothers : ∀ other, other ≠ .claudeSubagent parent agentId → t.phase other = s₁.phase other)
    (hown : s₁.phase (.claudeSubagent parent agentId) =
        { s.phase (.claudeSubagent parent agentId) with ended := some (terminal.failed, terminal.atMs) } →
      Runs (PhaseStep .subagent) (s.phase (.claudeSubagent parent agentId))
        (marks (.claudeSubagent parent agentId) later) (t.phase (.claudeSubagent parent agentId)))
    (hevents : ∀ e ∈ later, e.scope = .claudeSubagent parent agentId ∧ markOf e.event ≠ some .completed) :
    Follows s (t, flushed ++ later) := by
  have hnoted : (s.noteEnd parent agentId terminal).Sane := h.of_fields rfl le_rfl rfl rfl
  have hnow : terminal.atMs ≤ (s.noteEnd parent agentId terminal).latestLifecycleMs :=
    (hterminal ▸ joinedEnd_le).trans hat
  have hflush := flushDueCompletes_follows hnoted hnow
  have hself := flush_noteEnd_self h hconsistent hterminal
  have hphase : ((s.noteEnd parent agentId terminal).flushDueCompletes terminal.atMs).1.phase
      (.claudeSubagent parent agentId) =
        (s.noteEnd parent agentId terminal).phase (.claudeSubagent parent agentId) := releaseCompletes_ne hself
  have hmarks := marks_flush hself
  rw [hflushed, noteEnd_self] at hphase
  rw [hflushed] at hflush hmarks
  refine ⟨fun other => ?_, hsane hflush.sane, hgrace.trans hflush.grace, hclock ▸ hflush.clock,
    fun e he event hevent hkind => ?_⟩
  · show Runs _ _ (marks other (flushed ++ later)) _
    rw [marks_append]
    by_cases hne : other = .claudeSubagent parent agentId
    · subst hne
      rw [show marks (.claudeSubagent parent agentId) flushed = [] from hmarks]
      exact hown hphase
    · rw [@marks_eq_nil other later fun e he => .inl ((hevents e he).1 ▸ Ne.symm hne), List.append_nil,
        hothers other hne, ← noteEnd_ne terminal hne]
      exact hflush.lives other
  · rcases List.mem_append.mp he with he | he
    · rw [hgrace, hclock]
      exact hflush.onTime e he event hevent hkind
    · exact absurd (by simp [markOf, hevent, hkind]) (hevents e he).2

/-- A completion is held. -/
theorem holdComplete_self {event : ControllerEvent}
    {pendingCompleteOrigins : HashMap SessionScope ObservationOrigin} :
    ({ s with
        pendingCompletes := s.pendingCompletes.insert scope event
        pendingCompleteOrigins } : Synthesis).phase scope =
      { s.phase scope with pending := some event.metadata.timestampMs } :=
  ScopePhase.ext rfl (by simp [phase]) rfl rfl rfl

theorem synthesizeSubagentEnded_follows (h : s.Sane)
    (hconsistent : (s.phase (.claudeSubagent parent agentId)).Consistent .subagent)
    (hat : atMs ≤ s.latestLifecycleMs) (hdated : atMs < i64Max) :
    Follows s (s.synthesizeSubagentEnded artifact context parent agentId failed atMs) := by
  unfold synthesizeSubagentEnded
  dsimp only
  split
  · exact .of_quiet h rfl le_rfl (fun _ => rfl) (fun _ he => by cases he)
  · rename_i hopen
    rw [Bool.or_eq_true, not_or] at hopen
    obtain ⟨hfailed, hcompleted⟩ := hopen
    have hcompleted' : (s.phase (.claudeSubagent parent agentId)).completed = false :=
      Bool.eq_false_of_not_eq_true hcompleted
    have hended : ∀ failed' endMs,
        (s.phase (.claudeSubagent parent agentId)).ended = some (failed', endMs) → failed' = false := by
      intro failed' endMs hend
      simp only [phase, endOf, SessionScope.endKey, Option.bind_some, Option.map_eq_some_iff,
        Prod.mk.injEq] at hend
      obtain ⟨current, hget, rfl, -⟩ := hend
      simpa [hget] using hfailed
    have hle : (s.joinedEnd context parent agentId failed atMs).atMs ≤ atMs := joinedEnd_le
    generalize hterminal : SubagentEnd.join (s.subagentEnds.get (parent, agentId)) failed context.ordinal
      atMs = terminal
    have hterminal' : terminal = s.joinedEnd context parent agentId failed atMs := hterminal.symm
    rw [← hterminal'] at hle
    generalize hflushed : ({ s with
      subagentEnds := s.subagentEnds.insert (parent, agentId) terminal } : Synthesis).flushDueCompletes
        terminal.atMs = flush
    obtain ⟨s₁, flushed⟩ := flush
    dsimp only
    cases hfail : terminal.failed with
    | true =>
      simp only [if_true]
      refine Follows.of_ended h hconsistent hat hterminal' hflushed (fun hs => hs.dropScope _) rfl rfl
        (fun other hne => dropScope_ne hne) (fun hphase => ?_) (fun e he => ?_)
      · rw [dropScope_self, hphase, hfail]
        have hstep := Runs.one (@PhaseStep.fail _ _ terminal.atMs rfl hcompleted' hended)
        rw [show ({ s.phase (.claudeSubagent parent agentId) with
            started := false, pending := none, ended := some (true, terminal.atMs) } : ScopePhase) =
          { s.phase (.claudeSubagent parent agentId) with
            started := false, pending := none, completed := false,
            ended := some (true, terminal.atMs) } from
          ScopePhase.ext rfl rfl hcompleted' rfl rfl] at hstep
        simpa [marks, ScopedEvent.markFor, markOf, controllerEvent] using hstep
      · rw [List.mem_singleton.mp he]
        exact ⟨rfl, by simp [markOf, controllerEvent]⟩
    | false =>
      simp only [Bool.false_eq_true, if_false]
      rw [← List.append_nil flushed]
      refine Follows.of_ended h hconsistent hat hterminal' hflushed (fun hs => ?_) rfl rfl
        (fun other hne => ?_) (fun hphase => ?_) (fun e he => by cases he)
      · have hpending : ∀ scope event, (s₁.pendingCompletes.insert (.claudeSubagent parent agentId)
            (controllerEvent artifact terminal.ordinal (.claudeSubagent parent agentId) .complete
              terminal.atMs none none)).get scope = some event →
            event.event = .complete ∧ event.metadata.timestampMs < i64Max := by
          intro scope event hget
          rw [HashMap.get_insert] at hget
          split_ifs at hget
          · cases hget
            exact ⟨rfl, hle.trans_lt hdated⟩
          · exact ⟨hs.held scope event hget, hs.dated scope event hget⟩
        exact ⟨hs.grace, fun scope event hget => (hpending scope event hget).1,
          fun scope event hget => (hpending scope event hget).2, hs.appended⟩
      · exact phase_congr rfl (HashMap.get_insert_ne _ _ hne) rfl rfl rfl
      · rw [marks_nil, holdComplete_self, hphase, hfail]
        exact .one (.hold rfl hcompleted' hended)

/-! ### The other facts -/

theorem publishClaudeSubject_follows {sessionId : String} (h : s.Sane) :
    Follows s (s.publishClaudeSubject artifact context sessionId) := by
  unfold publishClaudeSubject
  split
  · exact .of_quiet h rfl le_rfl (fun _ => rfl) (fun _ he => by cases he)
  · split
    · exact .of_quiet h rfl le_rfl (fun _ => rfl) (fun _ he => by cases he)
    · refine .of_quiet (h.of_fields rfl le_rfl rfl rfl) rfl le_rfl (fun _ => rfl) fun e he => ?_
      rw [List.mem_singleton.mp he]
      simp [markOf, controllerEvent]

theorem synthesizeAiTitle_follows {sessionId title : String} (h : s.Sane) :
    Follows s (s.synthesizeAiTitle artifact context sessionId title) := by
  have hs : Sane { s with aiTitles := s.aiTitles.insert sessionId title } := h.of_fields rfl le_rfl rfl rfl
  have hquiet : Follows s ({ s with aiTitles := s.aiTitles.insert sessionId title }, []) :=
    .of_quiet hs rfl le_rfl (fun _ => rfl) (fun _ he => by cases he)
  exact hquiet.trans (publishClaudeSubject_follows hs)

theorem synthesizeClaudeCwd_follows {sessionId cwd : String} (h : s.Sane) :
    Follows s (s.synthesizeClaudeCwd artifact context sessionId cwd) := by
  unfold synthesizeClaudeCwd
  split
  · exact .of_quiet h rfl le_rfl (fun _ => rfl) (fun _ he => by cases he)
  · rename_i basename _
    have hs : Sane { s with claudeCwds := s.claudeCwds.insert sessionId basename } :=
      h.of_fields rfl le_rfl rfl rfl
    have hquiet : Follows s ({ s with claudeCwds := s.claudeCwds.insert sessionId basename }, []) :=
      .of_quiet hs rfl le_rfl (fun _ => rfl) (fun _ he => by cases he)
    exact hquiet.trans (publishClaudeSubject_follows hs)

theorem synthesizeActivity_follows {source : ActivitySource} {line : String} (h : s.Sane) :
    Follows s (s.synthesizeActivity artifact context scope atMs source line) := by
  refine .of_quiet (h.of_fields rfl le_rfl rfl rfl) rfl le_rfl (fun _ => rfl) fun e he => ?_
  unfold synthesizeActivity at he
  dsimp only at he
  split_ifs at he
  · cases he
  · rw [List.mem_singleton.mp he]
    rfl

theorem synthesizeUsage_follows {sampleId : String} {outputTokens : ℕ} {tokenBreakdown : TokenBreakdown}
    {model effort : Option String} (h : s.Sane) :
    Follows s (s.synthesizeUsage scope atMs sampleId outputTokens tokenBreakdown model effort) := by
  unfold synthesizeUsage
  split_ifs
  · exact .of_quiet h rfl le_rfl (fun _ => rfl) (fun _ he => by cases he)
  · refine .of_quiet (h.of_fields rfl le_rfl rfl rfl) rfl le_rfl (fun _ => rfl) fun e he => ?_
    rw [List.mem_singleton.mp he]
    rfl

theorem synthesizeLineage_follows {parent child : SessionScope} (h : s.Sane) :
    Follows s (s.synthesizeLineage artifact context parent child atMs) := by
  unfold synthesizeLineage
  split_ifs
  · exact .of_quiet h rfl le_rfl (fun _ => rfl) (fun _ he => by cases he)
  · refine .of_quiet (h.of_fields rfl le_rfl rfl rfl) rfl le_rfl (fun _ => rfl) fun e he => ?_
    rw [List.mem_singleton.mp he]
    simp [markOf, synthesized, controllerEvent]

/-- The end of a subagent that is dated before the end of time. -/
def DatedFact (fact : LogFact) : Prop :=
  ∀ agent failed atMs, asSubagentEnded fact = some (agent, failed, atMs) → atMs < i64Max

/-- A state whose phases are consistent. -/
def Consistent (s : Synthesis) : Prop := ∀ scope, (s.phase scope).Consistent scope.sort

/-- Lives keep phases consistent. -/
theorem Follows.consistent {r : Synthesis × List ScopedEvent} (h : Follows s r) (hs : s.Consistent) :
    r.1.Consistent := fun scope =>
  (h.lives scope).invariant (fun hstep hv => ScopePhase.Consistent.step hv hstep) (hs scope)

/-- The clock moves to the time of a fact. -/
theorem noteTime_follows (h : s.Sane) (fact : LogFact) :
    (s.noteTime fact).Sane ∧ Follows s (s.noteTime fact, []) ∧
      ∀ atMs, fact.lifecycleTime = some atMs → atMs ≤ (s.noteTime fact).latestLifecycleMs := by
  unfold noteTime
  cases fact.lifecycleTime with
  | none => exact ⟨h, .of_quiet h rfl le_rfl (fun _ => rfl) (fun _ he => by cases he), fun _ h => by cases h⟩
  | some atMs =>
    have hs : Sane { s with latestLifecycleMs := max s.latestLifecycleMs atMs } :=
      h.of_fields rfl (le_max_left _ _) rfl rfl
    refine ⟨hs, .of_quiet hs rfl (le_max_left _ _) (fun _ => rfl) (fun _ he => by cases he), fun at' h => ?_⟩
    cases h
    exact le_max_right _ _

/-- What consuming one fact does. -/
theorem synthesizeFact_follows {fact : LogFact} (artifact : ArtifactPath) (context : FactContext)
    (admission : Admission) (discovered : AdmissionIndex) (h : s.Sane) (hconsistent : s.Consistent)
    (hdated : DatedFact fact) :
    Follows s ((s.synthesizeFact artifact context fact admission discovered).1,
      (s.synthesizeFact artifact context fact admission discovered).2.2) := by
  obtain ⟨hsane, hclock, hat⟩ := noteTime_follows h fact
  have hconsistent' := hclock.consistent hconsistent
  refine @Follows.trans _ _ (_, _) hclock ?_
  unfold synthesizeFact
  dsimp only
  generalize s.noteTime fact = s₁ at hsane hat hconsistent' ⊢
  cases fact with
  | append scope atMs => exact synthesizeAppend_follows hsane (hat _ rfl)
  | aiTitle sessionId title => exact synthesizeAiTitle_follows hsane
  | claudeCwd sessionId cwd => exact synthesizeClaudeCwd_follows hsane
  | codexMeta rolloutId cwd originator internal cliVersion => exact synthesizeCodexMeta_follows hsane
  | codexTurn =>
    exact .of_quiet (hsane.of_fields rfl le_rfl rfl rfl) rfl le_rfl (fun _ => rfl) (fun _ he => by cases he)
  | codexPid => exact .of_quiet hsane rfl le_rfl (fun _ => rfl) (fun _ he => by cases he)
  | codexTurnStarted rolloutId atMs => exact synthesizeCodexTurnStarted_follows hsane (hat _ rfl)
  | codexTurnComplete rolloutId atMs => exact synthesizeCodexTurnComplete_follows hsane (hat _ rfl)
  | codexTurnAborted rolloutId atMs => exact synthesizeCodexTurnAborted_follows hsane (hat _ rfl)
  | subagentAppeared parent agentId agentType description atMs =>
    exact synthesizeSubagentAppeared_follows hsane (hat _ rfl)
  | subagentEnded parent agentId failed atMs =>
    exact synthesizeSubagentEnded_follows hsane (hconsistent' (.claudeSubagent parent agentId)) (hat _ rfl)
      (hdated _ _ _ rfl)
  | activity scope atMs source line => exact synthesizeActivity_follows hsane
  | usage scope atMs sampleId outputTokens tokenBreakdown model effort => exact synthesizeUsage_follows hsane
  | evidenceId parent id atMs =>
    cases hchild : (admission.onEvidence parent id discovered).2 with
    | none =>
      simp only [hchild]
      exact .of_quiet hsane rfl le_rfl (fun _ => rfl) (fun _ he => by cases he)
    | some child =>
      simp only [hchild]
      exact synthesizeLineage_follows hsane

end Facts

/-! ### Batches -/

theorem synthesizeFacts_follows {artifact : ArtifactPath} {origin : ObservationOrigin}
    {discovered : AdmissionIndex} {admission : Admission} {facts : List OrderedFact} (h : s.Sane)
    (hconsistent : s.Consistent) (hdated : ∀ fact ∈ facts, DatedFact fact.fact) :
    Follows s ((synthesizeFacts artifact origin discovered s admission facts).1,
      (synthesizeFacts artifact origin discovered s admission facts).2.2) := by
  induction facts generalizing s admission with
  | nil => exact .of_quiet h rfl le_rfl (fun _ => rfl) (fun _ he => by cases he)
  | cons fact facts ih =>
    have hfact := synthesizeFact_follows artifact ⟨fact.ordinal, fact.sequence, origin⟩ admission discovered h
      hconsistent (hdated fact List.mem_cons_self)
    exact hfact.trans (ih hfact.sane (hfact.consistent hconsistent)
      fun fact hf => hdated fact (List.mem_cons_of_mem _ hf))

/-- What one fact adds to the ends of a batch. -/
def collapseEnd (ended : HashMap (String × String) (ℕ × Bool × ℤ)) (fact : ℕ × LogFact) :
    HashMap (String × String) (ℕ × Bool × ℤ) :=
  match asSubagentEnded fact.2 with
  | none => ended
  | some (agent, failed, atMs) =>
    let (ordinal', failed', atMs') := (ended.get agent).getD (fact.1, false, atMs)
    ended.insert agent (min ordinal' fact.1, failed' || failed, min atMs' atMs)

theorem collapsedEnds_eq (facts : List (ℕ × LogFact)) : collapsedEnds facts = facts.foldl collapseEnd ∅ := rfl

/-- The collapsed ends of a batch are not later than the ends that were reported. -/
theorem collapsedEnds_dated {facts : List (ℕ × LogFact)} (hdated : ∀ fact ∈ facts, DatedFact fact.2)
    {agent : String × String} {terminal : ℕ × Bool × ℤ} (h : (collapsedEnds facts).get agent = some terminal) :
    terminal.2.2 < i64Max := by
  rw [collapsedEnds_eq] at h
  suffices hall : ∀ ended : HashMap (String × String) (ℕ × Bool × ℤ),
      (∀ agent terminal, ended.get agent = some terminal → terminal.2.2 < i64Max) →
      ∀ agent terminal, (facts.foldl collapseEnd ended).get agent = some terminal → terminal.2.2 < i64Max from
    hall ∅ (fun _ _ h => by cases h) agent terminal h
  clear h
  induction facts with
  | nil => exact fun ended hended => hended
  | cons fact facts ih =>
    intro ended hended
    rw [List.foldl_cons]
    refine ih (fun fact hf => hdated fact (List.mem_cons_of_mem _ hf)) _ fun agent' terminal' h => ?_
    obtain ⟨ordinal, fact⟩ := fact
    unfold collapseEnd at h
    dsimp only at h
    cases hfact : asSubagentEnded fact with
    | none =>
      rw [hfact] at h
      exact hended _ _ h
    | some reported =>
      obtain ⟨agent, failed, atMs⟩ := reported
      have hat := hdated (ordinal, fact) List.mem_cons_self agent failed atMs hfact
      rw [hfact] at h
      dsimp only at h
      rw [HashMap.get_insert] at h
      split_ifs at h
      · cases h
        exact (min_le_right _ _).trans_lt hat
      · exact hended _ _ h

theorem batchFacts_dated {facts : List (ℕ × LogFact)} (hdated : ∀ fact ∈ facts, DatedFact fact.2) :
    ∀ fact ∈ batchFacts facts, DatedFact fact.fact := by
  intro fact hfact
  rw [batchFacts, List.mem_insertionSort, List.mem_append] at hfact
  rcases hfact with hfact | hfact
  · obtain ⟨⟨⟨ordinal, f⟩, order⟩, -, hsome⟩ := List.mem_filterMap.mp hfact
    dsimp only at hsome
    split_ifs at hsome with hend
    cases hsome
    intro agent failed atMs h
    exact absurd (by rw [h]; rfl) hend
  · obtain ⟨⟨⟨parent, agentId⟩, ordinal, failed, atMs⟩, hmem, rfl⟩ := List.mem_map.mp hfact
    intro agent failed' atMs' h
    cases h
    exact collapsedEnds_dated hdated (HashMap.mem_toList.mp hmem)

theorem synthesizeBatch_follows {artifact : ArtifactPath} {facts : List (ℕ × LogFact)}
    {admission : Admission} {discovered : AdmissionIndex} {origin : ObservationOrigin} (h : s.Sane)
    (hconsistent : s.Consistent) (hdated : ∀ fact ∈ facts, DatedFact fact.2) :
    Follows s ((s.synthesizeBatch artifact facts admission discovered origin).1,
      (s.synthesizeBatch artifact facts admission discovered origin).2.2) :=
  synthesizeFacts_follows h hconsistent (batchFacts_dated hdated)

/-! ### Time passes -/

theorem closeInactive_ne {anchorMs : ℤ} (hne : other ≠ scope) :
    (s.closeInactive scope anchorMs).1.phase other = s.phase other :=
  phase_congr (HashMap.get_remove_ne _ hne) rfl rfl (HashMap.get_insert_ne _ _ hne) rfl

theorem closeInactive_self {anchorMs : ℤ} : (s.closeInactive scope anchorMs).1.phase scope =
    { s.phase scope with started := false, inactive := true } := by
  refine ScopePhase.ext ?_ rfl rfl ?_ rfl <;>
    simp [phase, closeInactive, HashMap.contains, HashSet.insert]

theorem closeInactive_follows (anchorMs : ℤ) (h : s.Sane) (hstarted : (s.phase scope).started = true)
    (hpending : (s.phase scope).pending = none) (hcompleted : (s.phase scope).completed = false) :
    Follows s (s.closeInactive scope anchorMs) := by
  refine .of_own scope (h.of_fields rfl le_rfl rfl rfl) rfl le_rfl (fun other hne => closeInactive_ne hne) ?_
    fun e he => ?_
  · rw [closeInactive_self]
    have hmarks : marks scope (s.closeInactive scope anchorMs).2 = [.closed] := by
      simp [closeInactive, marks, ScopedEvent.markFor, markOf]
    rw [hmarks]
    exact .one (.close hstarted hpending hcompleted)
  · rw [List.mem_singleton.mp he]
    exact ⟨.inl rfl, by simp [markOf]⟩

theorem closeAllInactive_follows {silent : List (SessionScope × ℤ)} (h : s.Sane)
    (hnodup : (silent.map Prod.fst).Nodup) (hsilent : ∀ p ∈ silent, (s.phase p.1).started = true ∧
      (s.phase p.1).pending = none ∧ (s.phase p.1).completed = false) :
    Follows s (s.closeAllInactive silent) := by
  induction silent generalizing s with
  | nil => exact .of_quiet h rfl le_rfl (fun _ => rfl) (fun _ he => by cases he)
  | cons p silent ih =>
    obtain ⟨scope, anchorMs⟩ := p
    obtain ⟨hstarted, hpending, hcompleted⟩ := hsilent _ List.mem_cons_self
    have hclose := closeInactive_follows anchorMs h hstarted hpending hcompleted
    rw [List.map_cons, List.nodup_cons] at hnodup
    refine hclose.trans (ih hclose.sane hnodup.2 fun p hp => ?_)
    have hne : p.1 ≠ scope := fun heq => hnodup.1 (List.mem_map.mpr ⟨p, hp, heq⟩)
    rw [closeInactive_ne hne]
    exact hsilent p (List.mem_cons_of_mem _ hp)

/-- The scopes that are closed for their silence are different, started, and not over. -/
theorem inactiveScopes_spec (s : Synthesis) (nowMs : ℤ) :
    ((s.inactiveScopes nowMs).map Prod.fst).Nodup ∧ ∀ p ∈ s.inactiveScopes nowMs,
      (s.phase p.1).started = true ∧ (s.phase p.1).pending = none ∧ (s.phase p.1).completed = false := by
  constructor
  · have hkeys : (s.started.toList.map Prod.fst).Nodup := by
      rw [← HashMap.keys_eq_map_toList]
      exact s.started.keys_nodup
    refine ((List.perm_insertionSort _ _).map Prod.fst).nodup_iff.mpr ?_
    rw [List.map_map]
    exact hkeys.sublist (List.filter_sublist.map Prod.fst)
  · intro p hp
    rw [inactiveScopes, List.mem_insertionSort] at hp
    obtain ⟨⟨scope, startedAtMs⟩, hmem, rfl⟩ := List.mem_map.mp hp
    obtain ⟨hget, hinactive⟩ := List.mem_filter.mp hmem
    simp only [isInactive, Bool.and_eq_true, Bool.not_eq_true'] at hinactive
    obtain ⟨⟨⟨-, hpending⟩, hcompleted⟩, -⟩ := hinactive
    refine ⟨HashMap.contains_iff.mpr ⟨_, HashMap.mem_toList.mp hget⟩, ?_, hcompleted⟩
    simp [phase, HashMap.contains_eq_false.mp hpending]

theorem advanceLifecycle_follows (h : s.Sane) : Follows s (s.advanceLifecycle nowMs) := by
  have hs : Sane { s with latestLifecycleMs := max s.latestLifecycleMs nowMs } :=
    h.of_fields rfl (le_max_left _ _) rfl rfl
  have hclock : Follows s ({ s with latestLifecycleMs := max s.latestLifecycleMs nowMs }, []) :=
    .of_quiet hs rfl (le_max_left _ _) (fun _ => rfl) (fun _ he => by cases he)
  have hflush := flushDueCompletes_follows hs (le_max_right _ _ : nowMs ≤ max s.latestLifecycleMs nowMs)
  obtain ⟨hnodup, hsilent⟩ := inactiveScopes_spec
    (flushDueCompletes { s with latestLifecycleMs := max s.latestLifecycleMs nowMs } nowMs).1 nowMs
  exact hclock.trans (hflush.trans (closeAllInactive_follows hflush.sane hnodup hsilent))

end Synthesis

/-! ### Runs -/

/-- What the collector asks of the lane. -/
inductive LaneCommand
  /-- Facts of one artifact, whatever is admitted and known by then. -/
  | batch (artifact : ArtifactPath) (facts : List (ℕ × LogFact)) (admission : Admission)
      (discovered : AdmissionIndex) (origin : ObservationOrigin)
  /-- The clock moves. -/
  | advance (nowMs : ℤ)
  /-- The collector stops and gives up the grace periods. -/
  | flush
  /-- The origin of an emitted event is taken. -/
  | takeOrigin (event : ProviderEvent)

namespace Synthesis

def perform (s : Synthesis) : LaneCommand → Synthesis × List ScopedEvent
  | .batch artifact facts admission discovered origin =>
    ((s.synthesizeBatch artifact facts admission discovered origin).1,
      (s.synthesizeBatch artifact facts admission discovered origin).2.2)
  | .advance nowMs => s.advanceLifecycle nowMs
  | .flush => s.flushPendingCompletes
  | .takeOrigin event => ((s.takeLifecycleOrigin event).1, [])

end Synthesis

/-- A command whose ends of subagents are dated before the end of time. -/
def LaneCommand.Dated : LaneCommand → Prop
  | .batch _ facts _ _ _ => ∀ fact ∈ facts, Synthesis.DatedFact fact.2
  | _ => True

/-- A step of the lane, with what it emits. Between commands its maps may come to be visited in another
order. -/
inductive LaneStep : Synthesis → List ScopedEvent → Synthesis → Prop
  | perform {s : Synthesis} (command : LaneCommand) :
      command.Dated → LaneStep s (s.perform command).2 (s.perform command).1
  | rehash {s : Synthesis} {started : HashMap SessionScope ℤ}
      {pendingCompletes : HashMap SessionScope ControllerEvent} :
      s.started.Rehash started → s.pendingCompletes.Rehash pendingCompletes →
      LaneStep s [] { s with started, pendingCompletes }

namespace Synthesis

variable {s s' : Synthesis} {events : List ScopedEvent}

/-- Every command but a flush emits completions on time. -/
theorem perform_follows {command : LaneCommand} (h : s.Sane) (hconsistent : s.Consistent)
    (hdated : command.Dated) (hflush : command ≠ .flush) : Follows s (s.perform command) := by
  cases command with
  | batch artifact facts admission discovered origin => exact synthesizeBatch_follows h hconsistent hdated
  | advance nowMs => exact advanceLifecycle_follows h
  | flush => exact absurd rfl hflush
  | takeOrigin event =>
    have hfields : (s.takeLifecycleOrigin event).1.completeGraceMs = s.completeGraceMs ∧
        (s.takeLifecycleOrigin event).1.latestLifecycleMs = s.latestLifecycleMs ∧
        (s.takeLifecycleOrigin event).1.lastAppendMs = s.lastAppendMs ∧
        (s.takeLifecycleOrigin event).1.pendingCompletes = s.pendingCompletes ∧
        ∀ scope, (s.takeLifecycleOrigin event).1.phase scope = s.phase scope := by
      unfold takeLifecycleOrigin
      split <;> exact ⟨rfl, rfl, rfl, rfl, fun _ => rfl⟩
    obtain ⟨hgrace, hclock, happend, hpending, hphase⟩ := hfields
    exact .of_quiet (h.of_fields hgrace (le_of_eq hclock.symm) happend hpending) hgrace
      (le_of_eq hclock.symm) hphase (fun _ he => by cases he)

/-- Every step is a step in the life of each scope, and keeps the state sane. -/
theorem laneStep_lives (hstep : LaneStep s events s') (h : s.Sane) (hconsistent : s.Consistent) :
    s'.Sane ∧ ∀ scope, Runs (PhaseStep scope.sort) (s.phase scope) (marks scope events) (s'.phase scope) := by
  cases hstep with
  | perform command hdated =>
    by_cases hflush : command = .flush
    · subst hflush
      exact ⟨h.releaseCompletes _, releaseCompletes_lives h _⟩
    · have hfollows := perform_follows h hconsistent hdated hflush
      exact ⟨hfollows.sane, hfollows.lives⟩
  | @rehash started pendingCompletes hstarted hpending =>
    have hphase : ∀ scope, phase { s with started, pendingCompletes } scope = s.phase scope :=
      fun scope => phase_congr (hstarted.get scope) (hpending.get scope) rfl rfl rfl
    refine ⟨⟨h.grace, fun scope event hget => ?_, fun scope event hget => ?_, h.appended⟩, fun scope => ?_⟩
    · exact h.held scope event ((hpending.get scope).symm.trans hget)
    · exact h.dated scope event ((hpending.get scope).symm.trans hget)
    · rw [hphase]
      exact .refl _

/-- A new lane. -/
theorem sane_new {completeGraceMs headlessInactivityMs nowMs : ℤ} (hgrace : 0 < completeGraceMs) :
    (withLifecycleTimingAt completeGraceMs headlessInactivityMs nowMs).Sane := by
  refine ⟨hgrace, ?_, ?_, ?_⟩ <;>
  · intro _ _ h
    exact absurd h (by simp [withLifecycleTimingAt])

theorem phase_new {completeGraceMs headlessInactivityMs nowMs : ℤ} (scope : SessionScope) :
    (withLifecycleTimingAt completeGraceMs headlessInactivityMs nowMs).phase scope = .fresh := by
  cases scope <;>
    simp [phase, withLifecycleTimingAt, endOf, SessionScope.endKey, ScopePhase.fresh, HashMap.contains]

/-- In every run, each scope lives its life, from its beginning. -/
theorem run_lives {s₀ : Synthesis} (h : Runs LaneStep s₀ events s) (hs₀ : s₀.Sane)
    (hfresh : ∀ scope, s₀.phase scope = .fresh) :
    s.Sane ∧ ∀ scope, Runs (PhaseStep scope.sort) .fresh (marks scope events) (s.phase scope) := by
  induction h with
  | refl => exact ⟨hs₀, fun scope => by rw [hfresh]; exact .refl _⟩
  | tail _ hstep ih =>
    obtain ⟨hsane, hlives⟩ := ih
    have hconsistent : Consistent _ := fun scope =>
      (hlives scope).invariant (fun hstep hv => ScopePhase.Consistent.step hv hstep) .fresh
    obtain ⟨hsane', hlives'⟩ := laneStep_lives hstep hsane hconsistent
    refine ⟨hsane', fun scope => ?_⟩
    rw [marks_append]
    exact (hlives scope).trans (hlives' scope)

/-- A new lane as a run with a short grace sees it. -/
def freshLane : Synthesis := withLifecycleTimingAt 30 600 1

/-- Performs commands, one after the other. -/
def performAll (s : Synthesis) : List LaneCommand → Synthesis × List ScopedEvent
  | [] => (s, [])
  | command :: commands =>
    (((s.perform command).1.performAll commands).1,
      (s.perform command).2 ++ ((s.perform command).1.performAll commands).2)

end Synthesis

end HerdrTop
