import HerdrTop.Library.HashMap
import HerdrTop.Provider.Facts

/-!
# Which logs are read

Provider logs belong to whoever runs an agent on this machine; only those are read that evidence leads
to. `Admission` starts from the sessions and files of the panes and follows the identifiers that admitted
sessions mention, to artifacts that a directory scan found under exactly that identifier. What the scans
found is the `AdmissionIndex`, which is built from names and times and opens no file.

Left out are the creation times that rollout names carry, which only the binding of panes reads, and the
directory walk itself: a scan is the list of what it found.
-/

namespace HerdrTop

/-! ### What was found -/

/-- What kind of artifact a path is. -/
inductive DiscoveredArtifactKind
  | claudeSession (sessionId : String)
  | claudeSubagent (parent agentId : String)
  | codexRollout (rolloutId : String)
  deriving DecidableEq

/-- An artifact that a scan found. -/
structure DiscoveredArtifact where
  provider : Provider
  path : ArtifactPath
  modifiedMs : ℤ
  kind : DiscoveredArtifactKind
  deriving DecidableEq

/-- The scope an artifact belongs to. -/
def DiscoveredArtifact.scope (artifact : DiscoveredArtifact) : SessionScope :=
  match artifact.kind with
  | .claudeSession sessionId => .claudeRoot sessionId
  | .claudeSubagent parent agentId => .claudeSubagent parent agentId
  | .codexRollout rolloutId => .codex rolloutId

/-- The artifacts under the identifiers that name them. -/
structure AdmissionIndex where
  byIdentity : HashMap String (List DiscoveredArtifact) := ∅
  deriving DecidableEq

/-- The id of the subagent whose artifact has this name. -/
def subagentArtifactId (name : OsName) : Option String :=
  name.toStr.bind fun name =>
    ((stripSuffix name ".jsonl").or (stripSuffix name ".meta.json")).bind fun stem =>
      (stripPrefix stem "agent-").filter fun id => id ≠ ""

namespace AdmissionIndex

/-- Whether two artifacts are the same one, perhaps seen at different times. -/
def sameArtifact (existing artifact : DiscoveredArtifact) : Bool :=
  existing.provider = artifact.provider && existing.path = artifact.path && existing.kind = artifact.kind

/-- Gives the first artifact that is the same one the new time. -/
def refresh (artifact : DiscoveredArtifact) : List DiscoveredArtifact → List DiscoveredArtifact
  | [] => [artifact]
  | existing :: rest =>
    if sameArtifact existing artifact then { existing with modifiedMs := artifact.modifiedMs } :: rest
    else existing :: refresh artifact rest

def insert (index : AdmissionIndex) (identity : String) (artifact : DiscoveredArtifact) : AdmissionIndex :=
  if identity = "" then index
  else { index with
    byIdentity := index.byIdentity.insert identity
      (refresh artifact ((index.byIdentity.get identity).getD [])) }

def insertClaudeSession (index : AdmissionIndex) (sessionId : String) (path : ArtifactPath)
    (modifiedMs : ℤ) : AdmissionIndex :=
  index.insert sessionId ⟨.claude, path, modifiedMs, .claudeSession sessionId⟩

def insertClaudeSubagent (index : AdmissionIndex) (parent agentId : String) (path : ArtifactPath)
    (modifiedMs : ℤ) : AdmissionIndex :=
  index.insert agentId ⟨.claude, path, modifiedMs, .claudeSubagent parent agentId⟩

def insertCodexRollout (index : AdmissionIndex) (rolloutId : String) (path : ArtifactPath)
    (modifiedMs : ℤ) : AdmissionIndex :=
  index.insert rolloutId ⟨.codex, path, modifiedMs, .codexRollout rolloutId⟩

def artifactsForUuid (index : AdmissionIndex) (uuid : String) : List DiscoveredArtifact :=
  (index.byIdentity.get uuid).getD []

end AdmissionIndex

/-- The parent session and the subagent that a path below a `subagents` directory names. -/
def subagentOfPath (path : ArtifactPath) : Option (String × String) :=
  let names := path.normalComponents.getD []
  (names.findIdx? fun name => name = .text "subagents").bind fun i =>
    if i = 0 then none
    else names[i - 1]?.bind fun parent => names[i + 1]?.bind fun file =>
      parent.toStr.bind fun parent => (subagentArtifactId file).map fun agentId => (parent, agentId)

/-- Files an artifact that discovery saw. -/
def AdmissionIndex.observeDiscoveredPath (index : AdmissionIndex) (provider : Provider)
    (path : ArtifactPath) (modifiedMs : ℤ) : AdmissionIndex :=
  match provider with
  | .claude =>
    match subagentOfPath path with
    | some (parent, agentId) => index.insertClaudeSubagent parent agentId path modifiedMs
    | none =>
      if path.extension = some "jsonl" then
        match path.fileStem.filter validNativeId with
        | some sessionId => index.insertClaudeSession sessionId path modifiedMs
        | none => index
      else index
  | .codex =>
    match path.fileText.bind fun name => (scanUuids name).getLast? with
    | some rolloutId => index.insertCodexRollout rolloutId path modifiedMs
    | none => index

/-! ### What is admitted -/

/-- A directory to discover because an admitted scope mentioned it. -/
structure DerivedRoot where
  scope : SessionScope
  provider : Provider
  path : ArtifactPath
  deriving DecidableEq

/-- The admission state. -/
structure Admission where
  anchorMs : ℤ
  claudeSessions : HashSet String := ∅
  codexRollouts : HashSet String := ∅
  admittedScopes : HashSet SessionScope := ∅
  admittedPaths : HashSet ArtifactPath := ∅
  panePaths : HashSet ArtifactPath := ∅
  derivedRoots : List DerivedRoot := []
  deriving DecidableEq

/-- Whether the name of a file is that of a Codex rollout: its id, or anything and a dash before it. -/
def codexPathMatches (path : ArtifactPath) (rolloutId : String) : Bool :=
  match path.fileText.bind fun name => stripSuffix name ".jsonl" with
  | none => false
  | some stem =>
    stem = rolloutId || (stripSuffix stem rolloutId).any fun lead => ['-'].isSuffixOf lead.toList

def claudeRootPathMatches (path : ArtifactPath) (sessionId : String) : Bool :=
  path.extension = some "jsonl" && path.fileStem = some sessionId

/-- Whether the names end in the subagents directory of a session or in an artifact there. -/
def endsInSubagents (parent : String) : List OsName → Bool
  | first :: second :: rest =>
    (first = .text parent && second = .text "subagents" &&
      match rest with
      | [] => true
      | [file] => (subagentArtifactId file).isSome
      | _ => false) || endsInSubagents parent (second :: rest)
  | _ => false

def claudeSubagentPathMatches (path : ArtifactPath) (parent : String) : Bool :=
  match path.normalComponents with
  | none => false
  | some names => endsInSubagents parent names

def claudeSessionPathMatches (path : ArtifactPath) (sessionId : String) : Bool :=
  claudeRootPathMatches path sessionId || claudeSubagentPathMatches path sessionId

/-- The session that the transcript of a pane names. -/
def paneArtifactSessionId (provider : Provider) (path : ArtifactPath) : Option String :=
  path.fileText.bind fun name =>
    match provider with
    | .claude =>
      (stripSuffix name ".jsonl").bind fun sessionId =>
        match scanRawIds sessionId with
        | [.uuid uuid] => if uuid = sessionId then some uuid else none
        | _ => none
    | .codex =>
      (stripPrefix name "rollout-").bind fun body =>
        (stripSuffix body ".jsonl").bind fun body => (scanUuids body).getLast?

/-- The root scope of a session. -/
def rootScope : Provider → String → SessionScope
  | .claude, sessionId => .claudeRoot sessionId
  | .codex, sessionId => .codex sessionId

namespace Admission

def new (anchorMs : ℤ) : Admission := { anchorMs }

/-- Admits the session of a pane. -/
def admitPaneSession (a : Admission) (provider : Provider) (sessionId : String) : Admission :=
  if sessionId = "" then a
  else match provider with
  | .claude => { a with
      claudeSessions := a.claudeSessions.insert sessionId
      admittedScopes := a.admittedScopes.insert (.claudeRoot sessionId) }
  | .codex => { a with
      codexRollouts := a.codexRollouts.insert sessionId
      admittedScopes := a.admittedScopes.insert (.codex sessionId) }

/-- Forgets the panes, and keeps what evidence admitted. -/
def beginPaneCycle (a : Admission) : Admission :=
  { a with claudeSessions := ∅, codexRollouts := ∅, panePaths := ∅ }

/-- Admits the transcript of a pane and the session it names, if it names one. -/
def admitPaneArtifact (a : Admission) (provider : Provider) (path : ArtifactPath) : Admission × Bool :=
  match paneArtifactSessionId provider path with
  | none => (a, false)
  | some sessionId =>
    ({ a with panePaths := a.panePaths.insert path }.admitPaneSession provider sessionId, true)

/-- Applies an identifier that a scope mentioned; the scope it leads to. -/
def onEvidence (a : Admission) (parent : SessionScope) (id : EvidenceId) (discovered : AdmissionIndex) :
    Admission × Option SessionScope :=
  if !a.admittedScopes.contains parent then (a, none)
  else match id with
  | .configDir configDir =>
    if !configDir.isAbsolute then (a, none)
    else
      let derived : DerivedRoot := ⟨parent, .claude, configDir.join "projects"⟩
      if derived ∈ a.derivedRoots then (a, some parent)
      else ({ a with derivedRoots := a.derivedRoots ++ [derived] }, some parent)
  | .uuid uuid =>
    match discovered.artifactsForUuid uuid with
    | [] => (a, none)
    | first :: rest =>
      let artifacts := first :: rest
      let scope := first.scope
      if artifacts.any fun artifact => artifact.scope ≠ scope then (a, none)
      else if !artifacts.any fun artifact => a.anchorMs ≤ artifact.modifiedMs then (a, none)
      else
        let fresh := artifacts.filter fun artifact => a.anchorMs ≤ artifact.modifiedMs
        ({ a with
            admittedPaths := HashSet.extend a.admittedPaths (fresh.map (·.path))
            admittedScopes := a.admittedScopes.insert scope }, some scope)

/-- Whether a path may be read. -/
def isAdmittedPath (a : Admission) (path : ArtifactPath) : Bool :=
  !path.hasComponent "tool-results" &&
    (a.admittedPaths.contains path || a.panePaths.contains path ||
      a.codexRollouts.keys.any (codexPathMatches path) ||
      a.claudeSessions.keys.any (claudeSessionPathMatches path))

/-- Whether a path is the transcript of a pane by its name. -/
def isPaneRootPath (a : Admission) (path : ArtifactPath) : Bool :=
  a.codexRollouts.keys.any (codexPathMatches path) ||
    a.claudeSessions.keys.any (claudeRootPathMatches path)

/-- Whether a file may be read: only a pane's own file may be older than the anchor. -/
def isAdmittedFile (a : Admission) (path : ArtifactPath) (modifiedMs : ℤ) : Bool :=
  a.isAdmittedPath path &&
    (a.anchorMs ≤ modifiedMs || a.panePaths.contains path || a.isPaneRootPath path)

end Admission

end HerdrTop
