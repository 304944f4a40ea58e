import HerdrTop.Provider.Admission

/-!
# Nothing is read without evidence

The log lane starts pane cycles, admits what the panes show, applies identifiers that scopes mention and
files what directory scans find, in any order. `Reached` is the closure that evidence spans over such a
history: the sessions of panes, and every scope whose exact id an already reached scope mentioned while an
artifact of it, changed at or after the anchor, was known.

## What is proved

* `LogLane.safe`: what each part of the admission state holds is justified by the history.
* `LogLane.admitted_path_justified`: an admitted path is not under a `tool-results` directory, and it is
  the transcript of a pane of this cycle, carries the session of such a pane in its name, or was found under
  the exact id that a reached scope mentioned, changed at or after the anchor; and every scope that the lane
  treats as admitted is reached.
* `foreign_rollout_admitted`: a name that ends in the id of a pane is enough, so that a rollout whose scope
  is not reached can be admitted by its name.
-/

namespace HerdrTop

/-! ### Histories -/

/-- What happens to the admission of the log lane. -/
inductive AdmissionCommand
  | beginPaneCycle
  | admitPaneSession (provider : Provider) (sessionId : String)
  | admitPaneArtifact (provider : Provider) (path : ArtifactPath)
  /-- A scope mentioned an identifier. -/
  | evidence (parent : SessionScope) (id : EvidenceId)
  /-- A directory scan found a path. -/
  | found (provider : Provider) (path : ArtifactPath) (modifiedMs : ℤ)
  deriving DecidableEq

/-- The admission of the log lane and what its scans found. -/
structure LogLane where
  admission : Admission
  index : AdmissionIndex
  deriving DecidableEq

namespace LogLane

def new (anchorMs : ℤ) : LogLane := ⟨.new anchorMs, {}⟩

def perform (lane : LogLane) : AdmissionCommand → LogLane
  | .beginPaneCycle => { lane with admission := lane.admission.beginPaneCycle }
  | .admitPaneSession provider sessionId =>
    { lane with admission := lane.admission.admitPaneSession provider sessionId }
  | .admitPaneArtifact provider path =>
    { lane with admission := (lane.admission.admitPaneArtifact provider path).1 }
  | .evidence parent id => { lane with admission := (lane.admission.onEvidence parent id lane.index).1 }
  | .found provider path modifiedMs =>
    { lane with index := lane.index.observeDiscoveredPath provider path modifiedMs }

/-- The lane after a history, whose newest command is its first. -/
def after (anchorMs : ℤ) : List AdmissionCommand → LogLane
  | [] => new anchorMs
  | command :: earlier => (after anchorMs earlier).perform command

end LogLane

/-! ### What justifies an admission -/

/-- The scope that a scan files a path under. -/
def discoveredScope (provider : Provider) (path : ArtifactPath) : Option SessionScope :=
  match provider with
  | .claude =>
    match subagentOfPath path with
    | some (parent, agentId) => some (.claudeSubagent parent agentId)
    | none =>
      if path.extension = some "jsonl" then
        (path.fileStem.filter validNativeId).map .claudeRoot
      else none
  | .codex => (path.fileText.bind fun name => (scanUuids name).getLast?).map .codex

/-- The scopes that evidence reaches; the newest command comes first. -/
inductive Reached (anchorMs : ℤ) : List AdmissionCommand → SessionScope → Prop
  /-- A pane runs the session. -/
  | paneSession {earlier : List AdmissionCommand} {provider : Provider} {sessionId : String} :
      sessionId ≠ "" → Reached anchorMs (.admitPaneSession provider sessionId :: earlier)
        (rootScope provider sessionId)
  /-- A pane runs the session that its transcript is named after. -/
  | paneArtifact {earlier : List AdmissionCommand} {provider : Provider} {path : ArtifactPath}
      {sessionId : String} :
      paneArtifactSessionId provider path = some sessionId →
      Reached anchorMs (.admitPaneArtifact provider path :: earlier) (rootScope provider sessionId)
  /-- A reached scope mentioned the id of a scope with a known and recent artifact. -/
  | evidence {earlier : List AdmissionCommand} {parent scope : SessionScope} {uuid : String}
      {provider : Provider} {path : ArtifactPath} {modifiedMs : ℤ} :
      Reached anchorMs earlier parent → .found provider path modifiedMs ∈ earlier →
      discoveredScope provider path = some scope → scope.targetId = uuid → anchorMs ≤ modifiedMs →
      Reached anchorMs (.evidence parent (.uuid uuid) :: earlier) scope
  /-- What was reached stays so. -/
  | later {earlier : List AdmissionCommand} {command : AdmissionCommand} {scope : SessionScope} :
      Reached anchorMs earlier scope → Reached anchorMs (command :: earlier) scope

/-- The path was found under the exact id that a reached scope mentioned, and was recent. -/
inductive ByEvidence (anchorMs : ℤ) : List AdmissionCommand → ArtifactPath → Prop
  | evidence {earlier : List AdmissionCommand} {parent scope : SessionScope} {uuid : String}
      {provider : Provider} {path : ArtifactPath} {modifiedMs : ℤ} :
      Reached anchorMs earlier parent → .found provider path modifiedMs ∈ earlier →
      discoveredScope provider path = some scope → scope.targetId = uuid → anchorMs ≤ modifiedMs →
      ByEvidence anchorMs (.evidence parent (.uuid uuid) :: earlier) path
  | later {earlier : List AdmissionCommand} {command : AdmissionCommand} {path : ArtifactPath} :
      ByEvidence anchorMs earlier path → ByEvidence anchorMs (command :: earlier) path

/-- What happened since the last pane cycle began. -/
def currentCycle (log : List AdmissionCommand) : List AdmissionCommand :=
  log.takeWhile fun command => command ≠ .beginPaneCycle

/-- A pane of this cycle shows the path as its transcript. -/
def PanePath (log : List AdmissionCommand) (path : ArtifactPath) : Prop :=
  ∃ provider sessionId, .admitPaneArtifact provider path ∈ currentCycle log ∧
    paneArtifactSessionId provider path = some sessionId

/-- A pane of this cycle runs the session. -/
def PaneSession (log : List AdmissionCommand) (provider : Provider) (sessionId : String) : Prop :=
  .admitPaneSession provider sessionId ∈ currentCycle log ∧ sessionId ≠ "" ∨
    ∃ path, .admitPaneArtifact provider path ∈ currentCycle log ∧
      paneArtifactSessionId provider path = some sessionId

/-- The name of the path carries the session of a pane of this cycle: the transcript named after it or
something in its subagents directory, a rollout whose name ends in it. -/
def NamedByPane (log : List AdmissionCommand) (path : ArtifactPath) : Prop :=
  ∃ sessionId, PaneSession log .claude sessionId ∧ claudeSessionPathMatches path sessionId ∨
    PaneSession log .codex sessionId ∧ codexPathMatches path sessionId

section

variable {anchorMs : ℤ} {log : List AdmissionCommand} {command : AdmissionCommand} {scope : SessionScope}
  {path : ArtifactPath} {provider : Provider} {sessionId : String}

theorem currentCycle_cons (h : command ≠ .beginPaneCycle) :
    currentCycle (command :: log) = command :: currentCycle log := by
  simp [currentCycle, h]

theorem PanePath.later (h : PanePath log path) (hc : command ≠ .beginPaneCycle) :
    PanePath (command :: log) path := by
  obtain ⟨provider, sessionId, hmem, hid⟩ := h
  refine ⟨provider, sessionId, ?_, hid⟩
  rw [currentCycle_cons hc]
  exact List.mem_cons_of_mem _ hmem

theorem PaneSession.later (h : PaneSession log provider sessionId) (hc : command ≠ .beginPaneCycle) :
    PaneSession (command :: log) provider sessionId := by
  unfold PaneSession at h ⊢
  rw [currentCycle_cons hc]
  rcases h with ⟨hmem, hne⟩ | ⟨path, hmem, hid⟩
  · exact .inl ⟨List.mem_cons_of_mem _ hmem, hne⟩
  · exact .inr ⟨path, List.mem_cons_of_mem _ hmem, hid⟩

/-- A pane's session is reached. -/
theorem PaneSession.reached (h : PaneSession log provider sessionId) :
    Reached anchorMs log (rootScope provider sessionId) := by
  induction log with
  | nil => rcases h with ⟨hmem, -⟩ | ⟨_, hmem, -⟩ <;> cases hmem
  | cons command log ih =>
    by_cases hc : command = .beginPaneCycle
    · subst hc
      rcases h with ⟨hmem, -⟩ | ⟨_, hmem, -⟩ <;> simp [currentCycle] at hmem
    · unfold PaneSession at h
      rw [currentCycle_cons hc] at h
      rcases h with ⟨hmem, hne⟩ | ⟨path, hmem, hid⟩
      · rcases List.mem_cons.mp hmem with rfl | hmem
        · exact .paneSession hne
        · exact .later (ih (.inl ⟨hmem, hne⟩))
      · rcases List.mem_cons.mp hmem with rfl | hmem
        · exact .paneArtifact hid
        · exact .later (ih (.inr ⟨path, hmem, hid⟩))

end

/-- A path that evidence admitted belongs to a reached scope. -/
theorem ByEvidence.scope_reached {anchorMs : ℤ} {log : List AdmissionCommand} {path : ArtifactPath}
    (h : ByEvidence anchorMs log path) :
    ∃ provider scope, discoveredScope provider path = some scope ∧ Reached anchorMs log scope := by
  induction h with
  | evidence hparent hfound hscope hid hrecent =>
    exact ⟨_, _, hscope, .evidence hparent hfound hscope hid hrecent⟩
  | later _ ih =>
    obtain ⟨provider, scope, hscope, hreached⟩ := ih
    exact ⟨provider, scope, hscope, .later hreached⟩

/-! ### The index files under exact ids -/

/-- The kind of artifact of a scope. -/
def artifactKind : SessionScope → DiscoveredArtifactKind
  | .claudeRoot sessionId => .claudeSession sessionId
  | .claudeSubagent parent agentId => .claudeSubagent parent agentId
  | .codex rolloutId => .codexRollout rolloutId

namespace AdmissionIndex

variable {index : AdmissionIndex} {artifact a : DiscoveredArtifact} {identity uuid : String}

/-- A scan files a path under the id of its scope. -/
theorem observeDiscoveredPath_eq (index : AdmissionIndex) (provider : Provider) (path : ArtifactPath)
    (modifiedMs : ℤ) :
    index.observeDiscoveredPath provider path modifiedMs =
      match discoveredScope provider path with
      | none => index
      | some scope => index.insert scope.targetId ⟨provider, path, modifiedMs, artifactKind scope⟩ := by
  cases provider with
  | claude =>
    simp only [observeDiscoveredPath, discoveredScope]
    cases subagentOfPath path with
    | some names => rfl
    | none =>
      by_cases hext : path.extension = some "jsonl"
      · simp only [if_pos hext]
        cases path.fileStem.filter validNativeId <;> rfl
      · simp only [if_neg hext]
  | codex =>
    simp only [observeDiscoveredPath, discoveredScope]
    cases path.fileText.bind fun name => (scanUuids name).getLast? <;> rfl

/-- A refreshed list holds the artifact itself, the same artifact with the new time, or what it held. -/
theorem mem_refresh {l : List DiscoveredArtifact} (h : a ∈ refresh artifact l) :
    a ∈ l ∨ a = artifact := by
  induction l with
  | nil => exact .inr (by simpa [refresh] using h)
  | cons existing rest ih =>
    unfold refresh at h
    split_ifs at h with hsame
    · rcases List.mem_cons.mp h with rfl | h
      · right
        simp only [sameArtifact, Bool.and_eq_true, decide_eq_true_eq] at hsame
        obtain ⟨⟨hprovider, hpath⟩, hkind⟩ := hsame
        simp only [hprovider, hpath, hkind]
      · exact .inl (List.mem_cons_of_mem _ h)
    · rcases List.mem_cons.mp h with rfl | h
      · exact .inl List.mem_cons_self
      · exact (ih h).imp_left (List.mem_cons_of_mem _)

theorem mem_insert (h : a ∈ (index.insert identity artifact).artifactsForUuid uuid) :
    a ∈ index.artifactsForUuid uuid ∨ a = artifact ∧ uuid = identity := by
  unfold insert at h
  split_ifs at h with hempty
  · exact .inl h
  · unfold artifactsForUuid at h ⊢
    rw [HashMap.get_insert] at h
    split_ifs at h with hid
    · subst hid
      exact (mem_refresh h).imp_right fun ha => ⟨ha, rfl⟩
    · exact .inl h

end AdmissionIndex

/-- Every artifact was found by a scan, and stands under the id of its scope. -/
def AdmissionIndex.FoundBy (index : AdmissionIndex) (log : List AdmissionCommand) : Prop :=
  ∀ uuid, ∀ a ∈ index.artifactsForUuid uuid, a.scope.targetId = uuid ∧
    discoveredScope a.provider a.path = some a.scope ∧ .found a.provider a.path a.modifiedMs ∈ log

theorem AdmissionIndex.FoundBy.later {index : AdmissionIndex} {log : List AdmissionCommand}
    (h : index.FoundBy log) (command : AdmissionCommand) : index.FoundBy (command :: log) := by
  intro uuid a ha
  obtain ⟨hid, hscope, hmem⟩ := h uuid a ha
  exact ⟨hid, hscope, List.mem_cons_of_mem _ hmem⟩

theorem AdmissionIndex.FoundBy.observe {index : AdmissionIndex} {log : List AdmissionCommand}
    (h : index.FoundBy log) (provider : Provider) (path : ArtifactPath) (modifiedMs : ℤ) :
    (index.observeDiscoveredPath provider path modifiedMs).FoundBy
      (.found provider path modifiedMs :: log) := by
  rw [observeDiscoveredPath_eq]
  cases hscope : discoveredScope provider path with
  | none => exact h.later _
  | some scope =>
    intro uuid a ha
    rcases mem_insert ha with ha | ⟨rfl, rfl⟩
    · exact h.later _ uuid a ha
    · have hkind : (DiscoveredArtifact.mk provider path modifiedMs (artifactKind scope)).scope = scope := by
        cases scope <;> rfl
      refine ⟨by rw [hkind], by rw [hkind]; exact hscope, List.mem_cons_self⟩

/-! ### One command at a time -/

/-- What justifies each part of the admission state. -/
structure LogLane.Safe (anchorMs : ℤ) (log : List AdmissionCommand) (lane : LogLane) : Prop where
  anchor : lane.admission.anchorMs = anchorMs
  index : lane.index.FoundBy log
  scopes : ∀ scope ∈ lane.admission.admittedScopes.keys, Reached anchorMs log scope
  claude : ∀ sessionId ∈ lane.admission.claudeSessions.keys, PaneSession log .claude sessionId
  codex : ∀ rolloutId ∈ lane.admission.codexRollouts.keys, PaneSession log .codex rolloutId
  panes : ∀ path ∈ lane.admission.panePaths.keys, PanePath log path
  paths : ∀ path ∈ lane.admission.admittedPaths.keys, ByEvidence anchorMs log path

namespace LogLane.Safe

variable {anchorMs : ℤ} {log : List AdmissionCommand} {lane : LogLane} {command : AdmissionCommand}

/-- A command that leaves the state as it is. -/
theorem later (h : Safe anchorMs log lane) (hc : command ≠ .beginPaneCycle) :
    Safe anchorMs (command :: log) lane where
  anchor := h.anchor
  index := h.index.later _
  scopes := fun scope hs => .later (h.scopes scope hs)
  claude := fun sessionId hs => (h.claude sessionId hs).later hc
  codex := fun rolloutId hs => (h.codex rolloutId hs).later hc
  panes := fun path hp => (h.panes path hp).later hc
  paths := fun path hp => .later (h.paths path hp)

theorem beginPaneCycle (h : Safe anchorMs log lane) :
    Safe anchorMs (.beginPaneCycle :: log) (lane.perform .beginPaneCycle) where
  anchor := h.anchor
  index := h.index.later _
  scopes := fun scope hs => .later (h.scopes scope hs)
  claude := fun _ hs => absurd hs (by simp [perform, Admission.beginPaneCycle, HashMap.mem_keys])
  codex := fun _ hs => absurd hs (by simp [perform, Admission.beginPaneCycle, HashMap.mem_keys])
  panes := fun _ hp => absurd hp (by simp [perform, Admission.beginPaneCycle, HashMap.mem_keys])
  paths := fun path hp => .later (h.paths path hp)

/-- Admitting a session, if the history says that a pane runs it. -/
theorem session (h : Safe anchorMs log lane) {provider : Provider} {sessionId : String}
    (hpane : PaneSession log provider sessionId) :
    Safe anchorMs log { lane with admission := lane.admission.admitPaneSession provider sessionId } := by
  by_cases hempty : sessionId = ""
  · simpa only [Admission.admitPaneSession, if_pos hempty] using h
  · cases provider with
    | claude =>
      simp only [Admission.admitPaneSession, if_neg hempty]
      refine ⟨h.anchor, h.index, fun scope hs => ?_, fun s hs => ?_, h.codex, h.panes, h.paths⟩
      · rcases HashSet.mem_keys_insert.mp hs with rfl | hs
        · exact hpane.reached
        · exact h.scopes scope hs
      · rcases HashSet.mem_keys_insert.mp hs with rfl | hs
        · exact hpane
        · exact h.claude s hs
    | codex =>
      simp only [Admission.admitPaneSession, if_neg hempty]
      refine ⟨h.anchor, h.index, fun scope hs => ?_, h.claude, fun s hs => ?_, h.panes, h.paths⟩
      · rcases HashSet.mem_keys_insert.mp hs with rfl | hs
        · exact hpane.reached
        · exact h.scopes scope hs
      · rcases HashSet.mem_keys_insert.mp hs with rfl | hs
        · exact hpane
        · exact h.codex s hs

theorem admitPaneSession (h : Safe anchorMs log lane) (provider : Provider) (sessionId : String) :
    Safe anchorMs (.admitPaneSession provider sessionId :: log)
      (lane.perform (.admitPaneSession provider sessionId)) := by
  have hlater : Safe anchorMs (.admitPaneSession provider sessionId :: log) lane := h.later (by simp)
  by_cases hempty : sessionId = ""
  · simpa only [perform, Admission.admitPaneSession, if_pos hempty] using hlater
  · refine hlater.session (.inl ⟨?_, hempty⟩)
    rw [currentCycle_cons (by simp)]
    exact List.mem_cons_self

theorem admitPaneArtifact (h : Safe anchorMs log lane) (provider : Provider) (path : ArtifactPath) :
    Safe anchorMs (.admitPaneArtifact provider path :: log)
      (lane.perform (.admitPaneArtifact provider path)) := by
  have hlater : Safe anchorMs (.admitPaneArtifact provider path :: log) lane := h.later (by simp)
  cases hid : paneArtifactSessionId provider path with
  | none => simpa only [perform, Admission.admitPaneArtifact, hid] using hlater
  | some sessionId =>
    have hmem : .admitPaneArtifact provider path ∈
        currentCycle (.admitPaneArtifact provider path :: log) := by
      rw [currentCycle_cons (by simp)]
      exact List.mem_cons_self
    have hpath : Safe anchorMs (.admitPaneArtifact provider path :: log)
        { lane with admission :=
            { lane.admission with panePaths := lane.admission.panePaths.insert path } } := by
      refine { hlater with panes := fun p hp => ?_ }
      rcases HashSet.mem_keys_insert.mp hp with rfl | hp
      · exact ⟨provider, sessionId, hmem, hid⟩
      · exact hlater.panes p hp
    simpa only [perform, Admission.admitPaneArtifact, hid] using
      hpath.session (.inr ⟨path, hmem, hid⟩)

theorem found (h : Safe anchorMs log lane) (provider : Provider) (path : ArtifactPath) (modifiedMs : ℤ) :
    Safe anchorMs (.found provider path modifiedMs :: log)
      (lane.perform (.found provider path modifiedMs)) :=
  { (h.later (by simp) : Safe anchorMs (.found provider path modifiedMs :: log) lane) with
    index := h.index.observe provider path modifiedMs }

/-- Evidence admits what was found under its exact id and is recent enough. -/
theorem evidence (h : Safe anchorMs log lane) (parent : SessionScope) (id : EvidenceId) :
    Safe anchorMs (.evidence parent id :: log) (lane.perform (.evidence parent id)) := by
  have hlater : Safe anchorMs (.evidence parent id :: log) lane := h.later (by simp)
  simp only [perform, Admission.onEvidence]
  by_cases hparent : lane.admission.admittedScopes.contains parent = true
  · simp only [hparent, Bool.not_true, Bool.false_eq_true, if_false]
    have hreached := h.scopes parent (HashSet.contains_iff_mem_keys.mp hparent)
    cases id with
    | configDir configDir =>
      dsimp only
      split_ifs
      · exact hlater
      · exact hlater
      · exact { hlater with }
    | uuid uuid =>
      dsimp only
      cases hfound : lane.index.artifactsForUuid uuid with
      | nil => exact hlater
      | cons first rest =>
        dsimp only
        have hall : ∀ a ∈ first :: rest, a.scope.targetId = uuid ∧
            discoveredScope a.provider a.path = some a.scope ∧
            .found a.provider a.path a.modifiedMs ∈ log :=
          fun a ha => h.index uuid a (hfound ▸ ha)
        split_ifs with hscopes hrecent
        · exact hlater
        · exact hlater
        · refine { hlater with scopes := fun scope hs => ?_, paths := fun path hp => ?_ }
          · rcases HashSet.mem_keys_insert.mp hs with rfl | hs
            · rw [Bool.not_eq_true', Bool.not_eq_false] at hrecent
              obtain ⟨a, ha, hat⟩ := List.any_eq_true.mp hrecent
              have hsame : a.scope = first.scope := by
                by_contra hne
                exact hscopes (List.any_eq_true.mpr ⟨a, ha, by simpa using hne⟩)
              obtain ⟨hid, hscope, hmem⟩ := hall a ha
              rw [← hsame]
              exact .evidence hreached hmem hscope hid (by simpa [h.anchor] using hat)
            · exact hlater.scopes scope hs
          · rcases HashSet.mem_keys_extend.mp hp with hp | hp
            · obtain ⟨a, ha, rfl⟩ := List.mem_map.mp hp
              obtain ⟨ha, hat⟩ := List.mem_filter.mp ha
              obtain ⟨hid, hscope, hmem⟩ := hall a ha
              exact .evidence hreached hmem hscope hid (by simpa [h.anchor] using hat)
            · exact hlater.paths path hp
  · simp only [hparent, Bool.not_false, if_true]
    exact hlater

end LogLane.Safe

/-! ### Every history -/

/-- After every history, the admission state is justified by it. -/
theorem LogLane.safe (anchorMs : ℤ) (log : List AdmissionCommand) :
    (LogLane.after anchorMs log).Safe anchorMs log := by
  induction log with
  | nil =>
    exact ⟨rfl, fun _ _ ha => absurd ha (List.not_mem_nil),
      fun _ hs => absurd hs (List.not_mem_nil), fun _ hs => absurd hs (List.not_mem_nil),
      fun _ hs => absurd hs (List.not_mem_nil), fun _ hs => absurd hs (List.not_mem_nil),
      fun _ hs => absurd hs (List.not_mem_nil)⟩
  | cons command log ih =>
    cases command with
    | beginPaneCycle => exact ih.beginPaneCycle
    | admitPaneSession provider sessionId => exact ih.admitPaneSession provider sessionId
    | admitPaneArtifact provider path => exact ih.admitPaneArtifact provider path
    | evidence parent id => exact ih.evidence parent id
    | found provider path modifiedMs => exact ih.found provider path modifiedMs

/-- After every history, an admitted path is not under a `tool-results` directory and is the transcript of
a pane of this cycle, carries the session of such a pane in its name, or was found under the exact id that
a reached scope mentioned while it was recent, and then its own scope is reached too; a file that is older
than the anchor is a pane's; and the scopes whose mentions count are reached. -/
theorem LogLane.admitted_path_justified (anchorMs : ℤ) (log : List AdmissionCommand) :
    (∀ path, (after anchorMs log).admission.isAdmittedPath path →
      path.hasComponent "tool-results" = false ∧
        (PanePath log path ∨ NamedByPane log path ∨
          ByEvidence anchorMs log path ∧ ∃ provider scope, discoveredScope provider path = some scope ∧
            Reached anchorMs log scope)) ∧
    (∀ path modifiedMs, (after anchorMs log).admission.isAdmittedFile path modifiedMs →
      anchorMs ≤ modifiedMs ∨ PanePath log path ∨ NamedByPane log path) ∧
    ∀ scope, (after anchorMs log).admission.admittedScopes.contains scope → Reached anchorMs log scope := by
  have hsafe := LogLane.safe anchorMs log
  refine ⟨fun path h => ?_, fun path modifiedMs h => ?_, fun scope h => ?_⟩
  · obtain ⟨htool, h⟩ := Bool.and_eq_true_iff.mp h
    refine ⟨by simpa using htool, ?_⟩
    simp only [Bool.or_eq_true, List.any_eq_true] at h
    rcases h with ((h | h) | ⟨rolloutId, hmem, h⟩) | ⟨sessionId, hmem, h⟩
    · have hevidence := hsafe.paths path (HashSet.contains_iff_mem_keys.mp h)
      exact .inr (.inr ⟨hevidence, hevidence.scope_reached⟩)
    · exact .inl (hsafe.panes path (HashSet.contains_iff_mem_keys.mp h))
    · exact .inr (.inl ⟨rolloutId, .inr ⟨hsafe.codex rolloutId hmem, h⟩⟩)
    · exact .inr (.inl ⟨sessionId, .inl ⟨hsafe.claude sessionId hmem, h⟩⟩)
  · obtain ⟨-, h⟩ := Bool.and_eq_true_iff.mp h
    simp only [Admission.isPaneRootPath, Bool.or_eq_true, List.any_eq_true, decide_eq_true_eq] at h
    rcases h with (h | h) | ⟨rolloutId, hmem, h⟩ | ⟨sessionId, hmem, h⟩
    · exact .inl (hsafe.anchor ▸ h)
    · exact .inr (.inl (hsafe.panes path (HashSet.contains_iff_mem_keys.mp h)))
    · exact .inr (.inr ⟨rolloutId, .inr ⟨hsafe.codex rolloutId hmem, h⟩⟩)
    · refine .inr (.inr ⟨sessionId, .inl ⟨hsafe.claude sessionId hmem, ?_⟩⟩)
      simp [claudeSessionPathMatches, h]
  · exact hsafe.scopes scope (HashSet.contains_iff_mem_keys.mp h)

/-- The path of a rollout. -/
def foreignRollout : ArtifactPath :=
  ⟨[.rootDir, .normal (.text "sessions"),
    .normal (.text "rollout-11111111-1111-4111-8111-111111111111.jsonl")]⟩

/-- A scan finds a rollout, and a pane runs a session with a name that the rollout's name ends in. -/
def foreignHistory : List AdmissionCommand :=
  [.admitPaneSession .codex "111111111111", .found .codex foreignRollout 5]

/-- A path of a scope that is not reached can be admitted: it is enough that its name ends in the session
of a pane. -/
theorem foreign_rollout_admitted :
    ¬ ∀ (anchorMs : ℤ) (log : List AdmissionCommand) (provider : Provider) (path : ArtifactPath)
      (modifiedMs : ℤ) (scope : SessionScope), .found provider path modifiedMs ∈ log →
      discoveredScope provider path = some scope → ¬ Reached anchorMs log scope →
      ¬ (LogLane.after anchorMs log).admission.isAdmittedPath path := by
  intro h
  refine h 0 foreignHistory .codex foreignRollout 5 (.codex "11111111-1111-4111-8111-111111111111")
    (by simp [foreignHistory]) (by decide +kernel) (fun hreached => ?_) (by decide +kernel)
  generalize hscope : SessionScope.codex "11111111-1111-4111-8111-111111111111" = scope at hreached
  cases hreached with
  | paneSession => exact absurd hscope (by decide)
  | later hreached =>
    cases hreached with
    | later hreached => cases hreached

end HerdrTop
