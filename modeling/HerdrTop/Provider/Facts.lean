import HerdrTop.Model.Events
import HerdrTop.Library.Shortlist

/-!
# Facts of provider logs

What an append-only agent log says, in the words that are the same for every provider: the scope a
record belongs to, and the facts it states. Also the names and paths of log artifacts, and the scan of
a line for identifiers.

A path is the list of its components, which is how paths are compared. A name is text, or bytes that
are not UTF-8; no name of the second kind is ever taken apart.
-/

namespace HerdrTop

/-! ### Text -/

/-- The text after a prefix. -/
def stripPrefix (value lead : String) : Option String :=
  if lead.toList.isPrefixOf value.toList then
    some (String.ofList (value.toList.drop lead.toList.length))
  else none

/-- The text before a suffix. -/
def stripSuffix (value trail : String) : Option String :=
  if trail.toList.isSuffixOf value.toList then
    some (String.ofList (value.toList.take (value.toList.length - trail.toList.length)))
  else none

/-! ### Names and paths -/

/-- The name of a file or directory. -/
inductive OsName
  | text (name : String)
  /-- Bytes that are not UTF-8: runs of text, each followed by bytes that are none. -/
  | notText (chunks : List (String × List UInt8))
  deriving DecidableEq

/-- The name as text, if it is text. -/
def OsName.toStr : OsName → Option String
  | .text name => some name
  | .notText _ => none

/-- The name as text, with a mark in place of what is not. -/
def OsName.toStringLossy : OsName → String
  | .text name => name
  | .notText chunks => String.join (chunks.map fun chunk => if chunk.2 = [] then chunk.1 else chunk.1 ++ "�")

/-- What stands before and after the last dot of a name. -/
def splitAtLastDot (name : List Char) : Option (List Char × List Char) :=
  if '.' ∈ name then
    let after := name.reverse.takeWhile (· ≠ '.')
    some (name.take (name.length - after.length - 1), after.reverse)
  else none

/-- Stem and extension of a name; a name that starts with its only dot has no extension. -/
def stemAndExtension (name : String) : String × Option String :=
  match splitAtLastDot name.toList with
  | none => (name, none)
  | some ([], _) => (name, none)
  | some (stem, extension) => (String.ofList stem, some (String.ofList extension))

/-- A component of a path. -/
inductive Component
  | rootDir
  | curDir
  | parentDir
  | normal (name : OsName)
  deriving DecidableEq

/-- A path. -/
structure ArtifactPath where
  components : List Component
  deriving DecidableEq

namespace ArtifactPath

/-- The last component, if it is a name. -/
def fileName (path : ArtifactPath) : Option OsName :=
  match path.components.getLast? with
  | some (.normal name) => some name
  | _ => none

/-- The last component, if it is a name that is text. -/
def fileText (path : ArtifactPath) : Option String := path.fileName.bind OsName.toStr

def extension (path : ArtifactPath) : Option String :=
  path.fileText.bind fun name => (stemAndExtension name).2

def fileStem (path : ArtifactPath) : Option String :=
  path.fileText.map fun name => (stemAndExtension name).1

def isAbsolute (path : ArtifactPath) : Bool := path.components.head? = some .rootDir

/-- The path of something below a directory. -/
def join (path : ArtifactPath) (name : String) : ArtifactPath :=
  ⟨path.components ++ [.normal (.text name)]⟩

/-- The name under which event ids know an artifact. -/
def basename (path : ArtifactPath) : String :=
  (path.fileName.map OsName.toStringLossy).getD "artifact"

/-- Whether some component is this name. -/
def hasComponent (path : ArtifactPath) (expected : String) : Bool :=
  path.components.any fun component => component = .normal (.text expected)

/-- The names on the way, unless the way goes up. -/
def normalComponents (path : ArtifactPath) : Option (List OsName) :=
  if .parentDir ∈ path.components then none
  else some (path.components.filterMap fun component =>
    match component with
    | .normal name => some name
    | _ => none)

end ArtifactPath

/-- The pieces of a text between slashes. -/
def splitSlashes : List Char → List (List Char)
  | [] => [[]]
  | c :: text =>
    match splitSlashes text with
    | [] => [[c]]
    | piece :: pieces => if c = '/' then [] :: piece :: pieces else (c :: piece) :: pieces

/-- The component a piece of a path stands for; `first` if nothing stands before it. -/
def pieceComponent (first : Bool) (piece : List Char) : Option Component :=
  if piece = [] then none
  else if piece = ['.'] then if first then some .curDir else none
  else if piece = ['.', '.'] then some .parentDir
  else some (.normal (.text (String.ofList piece)))

/-- The path a text names. -/
def ArtifactPath.ofText (text : List Char) : ArtifactPath :=
  match text with
  | '/' :: rest => ⟨.rootDir :: (splitSlashes rest).filterMap (pieceComponent false)⟩
  | _ =>
    match splitSlashes text with
    | [] => ⟨[]⟩
    | piece :: pieces =>
      ⟨(pieceComponent true piece).toList ++ pieces.filterMap (pieceComponent false)⟩

/-! ### Identifiers in a line -/

/-- An identifier found in a log. -/
inductive EvidenceId
  /-- A token of the shape of a UUID, in lower case. -/
  | uuid (value : String)
  /-- A path assigned to `CLAUDE_CONFIG_DIR`. -/
  | configDir (path : ArtifactPath)
  deriving DecidableEq

def uuidLength : ℕ := 36

def uuidHyphens : List ℕ := [8, 13, 18, 23]

def isLowerHex (c : Char) : Bool := c.isDigit || ('a' ≤ c && c ≤ 'f')

def isHexDigit (c : Char) : Bool := c.isDigit || ('a' ≤ c && c ≤ 'f') || ('A' ≤ c && c ≤ 'F')

/-- Whether a line starts with a UUID. -/
def uuidAt (line : List Char) : Bool :=
  (line.take uuidLength).length = uuidLength &&
    (line.take uuidLength).zipIdx.all fun (c, offset) =>
      if offset ∈ uuidHyphens then c = '-' else isLowerHex c

/-- What stands before the first place where a pattern starts. -/
def untilPattern (pattern : List Char) : List Char → Option (List Char)
  | [] => if pattern = [] then some [] else none
  | c :: line =>
    if pattern.isPrefixOf (c :: line) then some [] else (untilPattern pattern line).map (c :: ·)

/-- White space in the sense of Unicode. -/
def isWhiteSpace (c : Char) : Bool :=
  (9 ≤ c.toNat && c.toNat ≤ 13) || (0x2000 ≤ c.toNat && c.toNat ≤ 0x200a) ||
    c.toNat ∈ [0x20, 0x85, 0xa0, 0x1680, 0x2028, 0x2029, 0x202f, 0x205f, 0x3000]

/-- The value assigned to the configuration variable: quoted, quoted inside a string, or bare. -/
def configDirValue (line : List Char) : Option (List Char) :=
  let value :=
    match line with
    | '\\' :: '"' :: rest => untilPattern ['\\', '"'] rest
    | '\'' :: rest => untilPattern ['\''] rest
    | '"' :: rest => untilPattern ['"'] rest
    | _ => some (line.takeWhile fun c => !(isWhiteSpace c || c = '\'' || c = '"'))
  value.filter fun value => value ≠ []

def configPrefix : List Char := "CLAUDE_CONFIG_DIR=".toList

/-- Every identifier of a line, in order; `before` is the character before it. -/
def scanFrom (before : Option Char) : List Char → List EvidenceId
  | [] => []
  | c :: line =>
    let uuid :=
      if uuidAt (c :: line) && !before.any isHexDigit &&
          !((c :: line)[uuidLength]?).any isHexDigit then
        [EvidenceId.uuid (String.ofList ((c :: line).take uuidLength))]
      else []
    let dir :=
      if configPrefix.isPrefixOf (c :: line) && !before.any fun b => b.isAlphanum || b = '_' then
        ((configDirValue ((c :: line).drop configPrefix.length)).map fun value =>
          EvidenceId.configDir (.ofText value)).toList
      else []
    uuid ++ dir ++ scanFrom (some c) line

/-- The identifiers of a line, each once. -/
def scanRawIds (line : String) : List EvidenceId :=
  Shortlist.keepFirst id [] (scanFrom none line.toList)

/-- The UUIDs of a line, each once. -/
def scanUuids (line : String) : List String :=
  (scanRawIds line).filterMap fun evidence =>
    match evidence with
    | .uuid uuid => some uuid
    | .configDir _ => none

/-- Whether a text is the native id of a session. -/
def validNativeId (value : String) : Bool :=
  value ≠ "" && value.toList.all fun c => c.isAlphanum || c = '.' || c = '_' || c = '-'

/-! ### Facts -/

/-- The session that a log record belongs to. -/
inductive SessionScope
  | claudeRoot (sessionId : String)
  | claudeSubagent (parent agentId : String)
  | codex (rolloutId : String)
  deriving DecidableEq

/-- The id that names the session itself. -/
def SessionScope.targetId : SessionScope → String
  | .claudeRoot sessionId => sessionId
  | .claudeSubagent _ agentId => agentId
  | .codex rolloutId => rolloutId

/-- Whether the scope is a root session of Claude. -/
def SessionScope.isClaudeRoot : SessionScope → Bool
  | .claudeRoot _ => true
  | _ => false

/-- Which kind of event supplied an activity. -/
inductive ActivitySource
  | commentary
  | command
  | toolUse
  deriving DecidableEq

/-- Where an internal agent of Codex comes from. -/
inductive CodexInternal
  | named (name : String)
  | threadSpawn (parentThreadId : String) (nickname role : Option String)
  deriving DecidableEq

/-- What a log record states. -/
inductive LogFact
  /-- The log of a scope grew. -/
  | append (scope : SessionScope) (atMs : ℤ)
  | aiTitle (sessionId title : String)
  | claudeCwd (sessionId cwd : String)
  | codexMeta (rolloutId cwd originator : String) (internal : Option CodexInternal) (cliVersion : String)
  | codexTurn (rolloutId turnId model : String) (effort sandbox : Option String)
  | codexTurnStarted (rolloutId : String) (atMs : ℤ)
  | codexTurnComplete (rolloutId : String) (atMs : ℤ)
  | codexTurnAborted (rolloutId : String) (atMs : ℤ)
  | codexPid (rolloutId : String) (pid : ℕ)
  | subagentAppeared (parent agentId agentType description : String) (atMs : ℤ)
  | subagentEnded (parent agentId : String) (failed : Bool) (atMs : ℤ)
  | activity (scope : SessionScope) (atMs : ℤ) (source : ActivitySource) (line : String)
  | usage (scope : SessionScope) (atMs : ℤ) (sampleId : String) (outputTokens : ℕ)
      (tokenBreakdown : TokenBreakdown) (model effort : Option String)
  /-- An identifier that a scope mentions. -/
  | evidenceId (parent : SessionScope) (id : EvidenceId) (atMs : ℤ)
  deriving DecidableEq

/-- When the fact happened. -/
def LogFact.lifecycleTime : LogFact → Option ℤ
  | .append _ atMs | .codexTurnStarted _ atMs | .codexTurnComplete _ atMs | .codexTurnAborted _ atMs
  | .activity _ atMs _ _ | .usage _ atMs _ _ _ _ _ | .subagentAppeared _ _ _ _ atMs
  | .subagentEnded _ _ _ atMs | .evidenceId _ _ atMs => some atMs
  | .aiTitle _ _ | .claudeCwd _ _ | .codexMeta _ _ _ _ _ | .codexTurn _ _ _ _ _ | .codexPid _ _ => none

end HerdrTop
