import HerdrTop.Status
import HerdrTop.Store.PersistOp
import Mathlib.Data.List.Sort

/-!
# The buffer in front of the provider egress

Provider adapters merge their events into `PendingEvents`, and a flush hands them to the bounded
channel of the collector until it is full or closed. Facts that must not be lost wait in a lane, in
order; the state of an agent is coalesced in the slots of its entity; the barrier that closes a
history drain waits for everything else.

What the channel answers to the sends of one flush is a parameter. Left out are the performance
admission of a sent event and the diagnostics that the buffer does not count.
-/

namespace HerdrTop

/-- How many entities the buffer holds in production. -/
def pendingEntityCapacity : ℕ := 4096

/-- How many diagnostics of one generation of one file are kept. -/
def malformedSamplesPerGeneration : ℕ := 4

/-- A position within one discovered file. -/
structure SourcePosition where
  pathId : ℕ
  generation : ℕ
  offset : ℕ
  deriving DecidableEq

/-- The end of one history drain. -/
structure HistoryDrainBarrier where
  /-- The frozen manifest. -/
  manifest : PersistHistoryDrain
  observedAtMs : ℤ
  /-- Which shared acknowledgement it carries. -/
  acknowledgement : ℕ
  deriving DecidableEq

/-- Equality of barriers, which compares the drains by their identity. -/
def HistoryDrainBarrier.eq (b b' : HistoryDrainBarrier) : Bool :=
  b.manifest.drainId = b'.manifest.drainId && b.observedAtMs = b'.observedAtMs &&
    b.acknowledgement = b'.acknowledgement

/-- A Codex pane that matches one rollout. -/
structure CodexPaneBinding where
  runId : RunId
  sid : String
  observedAtMs : ℤ
  deriving DecidableEq

/-- Whether a provider source is available. -/
inductive ProviderSourceState
  | available
  | availableWithBindings (bindings : List CodexPaneBinding)
  | unavailable (detail : String)
  | notApplicable
  /-- The end of a history drain. -/
  | historyDrainBarrier (barrier : HistoryDrainBarrier)
  deriving DecidableEq

/-- An event of a provider adapter. -/
inductive ProviderEvent
  | synthesized (event : ControllerEvent)
  | runLiveness (key : RunKey) (atMs : ℤ)
  | laneClose (key : RunKey) (atMs : ℤ)
  | telemetry (key : RunKey) (atMs : ℤ) (outputTokens : ℕ) (tokenBreakdown : TokenBreakdown)
      (model effort sandbox : Option String)
  | sessionResolved (provider : Provider) (agentThreadId : String)
      (ownerSessionId parentThreadId : Option String) (path : String) (modelId : Option String)
      (depth : Option ℕ) (eventId : String) (observedAtMs : ℤ) (position : SourcePosition)
  | agentUpsert (provider : Provider) (agentThreadId : String)
      (ownerSessionId parentThreadId : Option String) (state : Option ExecState)
      (modelId : Option String) (depth : Option ℕ) (eventId : String) (observedAtMs : ℤ)
      (position : SourcePosition)
  | activity (provider : Provider) (agentThreadId : String) (activity : MinimalProviderMetadata)
      (depth : Option ℕ) (eventId : String) (observedAtMs : ℤ) (position : SourcePosition)
  | sourceState (provider : Provider) (state : ProviderSourceState)
  | malformed (provider : Provider) (pathDisplay : String) (generation byteOffset : ℕ)
      (errorCode : String)
  deriving DecidableEq

/-- The agent of one provider. -/
structure EntityKey where
  provider : Provider
  threadId : String
  deriving DecidableEq

/-- One generation of one file with malformed records. -/
structure MalformedKey where
  provider : Provider
  pathDisplay : String
  generation : ℕ
  deriving DecidableEq

/-- What an event says about where it belongs. -/
structure SlotDetails where
  eventId : String
  observedAtMs : ℤ
  position : SourcePosition
  deriving DecidableEq

def ProviderEvent.slotDetails : ProviderEvent → Option SlotDetails
  | .sessionResolved _ _ _ _ _ _ _ eventId observedAtMs position
  | .agentUpsert _ _ _ _ _ _ _ eventId observedAtMs position
  | .activity _ _ _ _ eventId observedAtMs position => some ⟨eventId, observedAtMs, position⟩
  | _ => none

/-- An event that waits, with where it comes from. -/
structure PendingSlot where
  event : ProviderEvent
  origin : ObservationOrigin
  historyManifest : Option PersistHistoryDrain
  deriving DecidableEq

/-- What waits for one agent. -/
structure PendingEntity where
  depth : Option ℕ := none
  parent : Option String := none
  identity : Option PendingSlot := none
  upsert : Option PendingSlot := none
  activity : Option PendingSlot := none
  laneActivity : Option PendingSlot := none
  deriving DecidableEq

/-- The slot of an entity that an event goes to. -/
inductive EntitySlot
  | identity
  | upsert
  | activity
  | laneActivity
  deriving DecidableEq

def PendingEntity.slot (entity : PendingEntity) : EntitySlot → Option PendingSlot
  | .identity => entity.identity
  | .upsert => entity.upsert
  | .activity => entity.activity
  | .laneActivity => entity.laneActivity

def PendingEntity.setSlot (entity : PendingEntity) (slot : Option PendingSlot) :
    EntitySlot → PendingEntity
  | .identity => { entity with identity := slot }
  | .upsert => { entity with upsert := slot }
  | .activity => { entity with activity := slot }
  | .laneActivity => { entity with laneActivity := slot }

/-- How many events wait for an agent. -/
def PendingEntity.count (entity : PendingEntity) : ℕ :=
  entity.identity.toList.length + entity.upsert.toList.length + entity.activity.toList.length +
    entity.laneActivity.toList.length

/-- What merging an event did. -/
inductive MergeOutcome
  | accepted
  | coalesced
  | duplicate
  /-- The event was not taken and must be merged again. -/
  | atCapacity (event : ProviderEvent)
  deriving DecidableEq

/-- Where the next event to send waits. -/
inductive PendingToken
  | source (provider : Provider)
  | lane
  | entity (slot : EntitySlot) (key : EntityKey)
  | malformed (key : MalformedKey)
  | historyDrainBarrier
  deriving DecidableEq

/-- The counters that the buffer keeps. -/
structure ProviderDiagnostics where
  coalescedUpdates : ℕ := 0
  duplicateEvents : ℕ := 0
  malformedRecords : ℕ := 0
  egressSaturations : ℕ := 0
  egressClosed : ℕ := 0
  deriving DecidableEq

namespace ProviderDiagnostics

def recordCoalesced (d : ProviderDiagnostics) : ProviderDiagnostics :=
  { d with coalescedUpdates := satAddU64 d.coalescedUpdates 1 }

def recordDuplicate (d : ProviderDiagnostics) : ProviderDiagnostics :=
  { d with duplicateEvents := satAddU64 d.duplicateEvents 1 }

def recordMalformed (d : ProviderDiagnostics) : ProviderDiagnostics :=
  { d with malformedRecords := satAddU64 d.malformedRecords 1 }

def recordEgressSaturation (d : ProviderDiagnostics) : ProviderDiagnostics :=
  { d with egressSaturations := satAddU64 d.egressSaturations 1 }

def recordEgressClosed (d : ProviderDiagnostics) : ProviderDiagnostics :=
  { d with egressClosed := satAddU64 d.egressClosed 1 }

end ProviderDiagnostics

/-- The buffer. -/
structure PendingEvents where
  capacity : ℕ
  sources : HashMap Provider PendingSlot := ∅
  lane : List PendingSlot := []
  entities : HashMap EntityKey PendingEntity := ∅
  malformed : HashMap MalformedKey (List PendingSlot) := ∅
  historyBarrier : Option PendingSlot := none
  diagnostics : ProviderDiagnostics := {}
  deriving DecidableEq

/-- A buffer in which nothing waits. -/
def PendingEvents.withCapacity (capacity : ℕ) (diagnostics : ProviderDiagnostics) : PendingEvents :=
  { capacity, diagnostics }

/-- The buffer of production. -/
def PendingEvents.new (diagnostics : ProviderDiagnostics) : PendingEvents :=
  .withCapacity pendingEntityCapacity diagnostics

/-- A live observation stays live. -/
def promoteLiveOrigin (stored : PendingSlot) (incomingOrigin : ObservationOrigin)
    (incomingManifest : Option PersistHistoryDrain) : PendingSlot :=
  if stored.origin = .live ∨ incomingOrigin = .live then
    { stored with origin := .live, historyManifest := none }
  else { stored with historyManifest := stored.historyManifest.or incomingManifest }

/-- Whether an incoming event takes the place of the stored one. -/
def replacesStored (stored incoming : ProviderEvent) (storedDetails incomingDetails : SlotDetails) : Bool :=
  let later :=
    if storedDetails.position.pathId = incomingDetails.position.pathId then
      decide (storedDetails.position.generation < incomingDetails.position.generation) ||
        (storedDetails.position.generation = incomingDetails.position.generation &&
          decide (storedDetails.position.offset ≤ incomingDetails.position.offset))
    else decide (storedDetails.observedAtMs < incomingDetails.observedAtMs)
  match stored, incoming with
  | .agentUpsert _ _ _ _ stored _ _ _ _ _, .agentUpsert _ _ _ _ incoming _ _ _ _ _ =>
    if stored.any (·.isTerminal) ≠ incoming.any (·.isTerminal) then incoming.any (·.isTerminal)
    else later
  | _, _ => later

/-- Puts an event into a slot; the outcome and what it counts. -/
def mergeSlot (slot : Option PendingSlot) (incoming : PendingSlot) (diagnostics : ProviderDiagnostics) :
    Option PendingSlot × MergeOutcome × ProviderDiagnostics :=
  match slot with
  | none => (some incoming, .accepted, diagnostics)
  | some stored =>
    match stored.event.slotDetails, incoming.event.slotDetails with
    | some storedDetails, some incomingDetails =>
      if storedDetails.eventId = incomingDetails.eventId then
        (some (promoteLiveOrigin stored incoming.origin incoming.historyManifest), .duplicate,
          diagnostics.recordDuplicate)
      else if replacesStored stored.event incoming.event storedDetails incomingDetails then
        let replacement :=
          if stored.origin = .live ∨ incoming.origin = .live then
            promoteLiveOrigin incoming .live none
          else incoming
        (some replacement, .coalesced, diagnostics.recordCoalesced)
      else
        (some (promoteLiveOrigin stored incoming.origin incoming.historyManifest), .coalesced,
          diagnostics.recordCoalesced)
    -- the source expects both to have a position
    | _, _ => (slot, .coalesced, diagnostics)

/-- The entity of an event, the slot it goes to, and what it says of the entity. -/
structure EntityEvent where
  key : EntityKey
  slot : EntitySlot
  depth : Option ℕ
  parent : Option String

def ProviderEvent.entityEvent : ProviderEvent → Option EntityEvent
  | .sessionResolved provider agentThreadId _ parentThreadId _ _ depth _ _ _ =>
    some ⟨⟨provider, agentThreadId⟩, .identity, depth, parentThreadId⟩
  | .agentUpsert provider agentThreadId _ parentThreadId _ _ depth _ _ _ =>
    some ⟨⟨provider, agentThreadId⟩, .upsert, depth, parentThreadId⟩
  | .activity provider agentThreadId metadata depth _ _ _ =>
    some ⟨⟨provider, agentThreadId⟩,
      if metadata.eventKind = some liveLineEventKind then .laneActivity else .activity, depth,
      metadata.parentAgentId⟩
  | _ => none

namespace PendingEvents

/-- Merges an event of an entity. -/
def mergeEntity (p : PendingEvents) (about : EntityEvent) (incoming : PendingSlot) :
    PendingEvents × MergeOutcome :=
  if !p.entities.contains about.key && decide (p.capacity ≤ p.entities.keys.length) then
    (p, .atCapacity incoming.event)
  else
    let entities := p.entities.orInsert about.key {}
    let entity := (entities.get about.key).getD {}
    let stored := entity.slot about.slot
    if stored.any fun stored => stored.event.slotDetails.map (·.eventId) =
        incoming.event.slotDetails.map (·.eventId) then
      ({ p with entities, diagnostics := p.diagnostics.recordDuplicate }, .duplicate)
    else
      let entity := { entity with
        depth := about.depth.or entity.depth
        parent := about.parent.or entity.parent }
      let (slot, outcome, diagnostics) := mergeSlot stored incoming p.diagnostics
      ({ p with entities := entities.insert about.key (entity.setSlot slot about.slot), diagnostics },
        outcome)

/-- Stores the barrier of a drain; there is room for one. -/
def mergeBarrier (p : PendingEvents) (provider : Provider) (barrier : HistoryDrainBarrier)
    (incoming : PendingSlot) : PendingEvents × MergeOutcome :=
  match p.historyBarrier with
  | some stored =>
    match stored.event with
    | .sourceState provider' (.historyDrainBarrier barrier') =>
      if provider' = provider ∧ barrier'.eq barrier then
        ({ p with diagnostics := p.diagnostics.recordDuplicate }, .duplicate)
      else (p, .atCapacity incoming.event)
    | _ => (p, .atCapacity incoming.event)
  | none => ({ p with historyBarrier := some incoming }, .accepted)

/-- Replaces the state of a source. -/
def mergeSource (p : PendingEvents) (provider : Provider) (incoming : PendingSlot) :
    PendingEvents × MergeOutcome :=
  if p.sources.contains provider then
    ({ p with
        sources := p.sources.insert provider incoming
        diagnostics := p.diagnostics.recordCoalesced }, .coalesced)
  else ({ p with sources := p.sources.insert provider incoming }, .accepted)

/-- Keeps the first malformed records of a generation of a file and counts them all. -/
def mergeMalformed (p : PendingEvents) (key : MalformedKey) (incoming : PendingSlot) :
    PendingEvents × MergeOutcome :=
  let malformed := p.malformed.orInsert key []
  let samples := (malformed.get key).getD []
  let diagnostics := p.diagnostics.recordMalformed
  if samples.length < malformedSamplesPerGeneration then
    ({ p with malformed := malformed.insert key (samples ++ [incoming]), diagnostics }, .accepted)
  else ({ p with malformed, diagnostics := diagnostics.recordCoalesced }, .coalesced)

/-- Appends a fact to the lane. -/
def mergeLane (p : PendingEvents) (incoming : PendingSlot) : PendingEvents × MergeOutcome :=
  if p.capacity ≤ p.lane.length then (p, .atCapacity incoming.event)
  else ({ p with lane := p.lane ++ [incoming] }, .accepted)

/-- Merges an event. -/
def mergeWithOrigin (p : PendingEvents) (incoming : PendingSlot) : PendingEvents × MergeOutcome :=
  match incoming.event with
  | .sourceState provider (.historyDrainBarrier barrier) => p.mergeBarrier provider barrier incoming
  | .sourceState provider _ => p.mergeSource provider incoming
  | .malformed provider pathDisplay generation _ _ =>
    p.mergeMalformed ⟨provider, pathDisplay, generation⟩ incoming
  | .synthesized _ | .runLiveness _ _ | .laneClose _ _ | .telemetry _ _ _ _ _ _ _ => p.mergeLane incoming
  | event =>
    match event.entityEvent with
    | some about => p.mergeEntity about incoming
    -- the source expects an entity here
    | none => (p, .atCapacity event)

/-- Merges a live event. -/
def merge (p : PendingEvents) (event : ProviderEvent) : PendingEvents × MergeOutcome :=
  p.mergeWithOrigin ⟨event, .live, none⟩

/-! ### Sending -/

def providerRank : Provider → ℕ
  | .claude => 0
  | .codex => 1

/-- The order in which entities are sent: known depths first, in their order. -/
def entityOrder (p : PendingEvents) (left right : EntityKey) : Ordering :=
  let leftDepth := (p.entities.get left).bind (·.depth)
  let rightDepth := (p.entities.get right).bind (·.depth)
  (compare leftDepth.isNone rightDepth.isNone).then <| (compare leftDepth rightDepth).then <|
    (compare left.threadId right.threadId).then
      (compare (providerRank left.provider) (providerRank right.provider))

/-- The order in which files with malformed records are sent. -/
def malformedOrder (left right : MalformedKey) : Ordering :=
  (compare (providerRank left.provider) (providerRank right.provider)).then <|
    (compare left.pathDisplay right.pathDisplay).then (compare left.generation right.generation)

/-- The next event of a source. -/
def nextSource (p : PendingEvents) : Option (PendingToken × PendingSlot) :=
  [Provider.claude, .codex].findSome? fun provider =>
    (p.sources.get provider).map fun slot => (.source provider, slot)

/-- The next event of an entity. -/
def nextSlot (key : EntityKey) (entity : PendingEntity) : Option (PendingToken × PendingSlot) :=
  [EntitySlot.identity, .upsert, .activity, .laneActivity].findSome? fun slot =>
    (entity.slot slot).map fun pending => (.entity slot key, pending)

/-- The next event of the entities. -/
def nextEntity (p : PendingEvents) : Option (PendingToken × PendingSlot) :=
  (p.entities.keys.insertionSort fun left right => (p.entityOrder left right).isLE).findSome? fun key =>
    (p.entities.get key).bind (nextSlot key)

/-- The next malformed record. -/
def nextMalformed (p : PendingEvents) : Option (PendingToken × PendingSlot) :=
  (p.malformed.keys.insertionSort fun left right => (malformedOrder left right).isLE).head?.bind fun key =>
    ((p.malformed.get key).bind (·.head?)).map fun slot => (.malformed key, slot)

/-- The next event to send. -/
def nextEvent (p : PendingEvents) : Option (PendingToken × PendingSlot) :=
  p.nextSource.or <| (p.lane.head?.map fun slot => (.lane, slot)).or <| p.nextEntity.or <|
    p.nextMalformed.or <| p.historyBarrier.map fun slot => (.historyDrainBarrier, slot)

/-- Drops an entity for which nothing waits. -/
def removeEmptyEntity (p : PendingEvents) (key : EntityKey) : PendingEvents :=
  if (p.entities.get key).any fun entity => entity.identity.isNone && entity.upsert.isNone &&
      entity.activity.isNone && entity.laneActivity.isNone then
    { p with entities := p.entities.remove key }
  else p

/-- Drops what was sent. -/
def remove (p : PendingEvents) : PendingToken → PendingEvents
  | .source provider => { p with sources := p.sources.remove provider }
  | .lane => { p with lane := p.lane.tail }
  | .entity slot key =>
    { p with entities := p.entities.modify key (·.setSlot none slot) }.removeEmptyEntity key
  | .malformed key =>
    match p.malformed.get key with
    | some samples =>
      match samples.tail with
      | [] => { p with malformed := p.malformed.remove key }
      | rest => { p with malformed := p.malformed.insert key rest }
    | none => p
  | .historyDrainBarrier => { p with historyBarrier := none }

end PendingEvents

/-- What the channel answers to a send. -/
inductive SendAnswer
  | ok
  | full
  | closed
  deriving DecidableEq

namespace PendingEvents

/-- How many events wait. -/
def totalCount (p : PendingEvents) : ℕ :=
  p.sources.keys.length + p.lane.length +
    (p.entities.values.map PendingEntity.count).sum + (p.malformed.values.map List.length).sum +
    p.historyBarrier.toList.length

/-- Sends until nothing waits or a send fails; `n` sends were answered before. Also what was sent. -/
def flushFrom (answers : ℕ → SendAnswer) : ℕ → ℕ → PendingEvents → PendingEvents × List PendingSlot
  | 0, _, p => (p, [])
  | fuel + 1, n, p =>
    match p.nextEvent with
    | none => (p, [])
    | some (token, pending) =>
      match answers n with
      | .ok => (flushFrom answers fuel (n + 1) (p.remove token)).map id (pending :: ·)
      | .full => ({ p with diagnostics := p.diagnostics.recordEgressSaturation }, [])
      | .closed => ({ p with diagnostics := p.diagnostics.recordEgressClosed }, [])

/-- Sends until nothing waits or a send fails: every send takes one event away, so that their
number is enough fuel. -/
def flushToSender (p : PendingEvents) (answers : ℕ → SendAnswer) : PendingEvents × List PendingSlot :=
  flushFrom answers (p.totalCount + 1) 0 p

end PendingEvents

end HerdrTop
