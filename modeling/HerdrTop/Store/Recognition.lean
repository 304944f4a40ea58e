import HerdrTop.Store.Lineage

/-!
# What the replay check recognises

Before a batch is stored the tables are compared with it. A batch that begins with an ingest sequence is known
by the events of the sequence. Any other one has to merge or promote, and each of its rows is looked up under
the run that the whole batch leaves.

## What is proved

- `scanOperations_iff`: the scan of the operations goes through when each of them is durable.
- `recognized_iff`: a batch is recognised exactly when everything it asks for is there.
-/

namespace HerdrTop

namespace Database

variable {db : Database}

/-! ### What a batch asks for -/

/-- The names of the events with their ingest sequences, in the order of the rows. -/
def eventKeys (db : Database) : List (String × Option ℤ) := db.events.map fun event => (event.eventId, event.ingestSeq)

/-- The runs whose rows a batch brings. -/
def runIds (batch : PersistV6Batch) : List RunId := batch.taskRuns.map (·.taskRun.taskRun.runId)

/-- The row that a run of a batch is asked to have. -/
def requestedRow (run : PersistTaskRunV6) : TaskRunRow := { newRow run.taskRun with state := run.state }

/-- The agent that an operation brings, under its name. -/
def agentEntry : PersistOp → Option (String × AgentNode)
  | .upsertAgentNode node => some (node.agentNodeId, node)
  | _ => none

/-- The last row that operations bring of each agent. -/
def requestedAgents (operations : PersistBatch) : HashMap String AgentNode :=
  HashMap.ofList (operations.filterMap agentEntry)

/-- The name of the event that an operation records. -/
def eventName : PersistOp → Option String
  | .recordEvent event _ => some (eventMetadata event).1.eventId
  | _ => none

/-- Whether an operation merges or promotes. -/
def isIdentity : PersistOp → Bool
  | .mergeTaskRuns _ _ | .promoteTaskRunKey _ _ _ => true
  | _ => false

/-- A run is stored with a key and leads to another one, or to none. -/
def KeyedTo (db : Database) (runId : RunId) (key : RunKey) (survivor : Option RunId) : Prop :=
  ∃ row, db.taskRuns.get runId = some row ∧ row.key = key ∧ row.mergedInto = survivor

/-- The tables have what an operation of a batch asks for, under the runs that the whole batch leaves: both
runs of a merge lead to the last survivor, a promoted run has its key and its alias the old one, an event is
stored with all its columns. The batch brings the rows of the runs. -/
def OperationDurable (db : Database) (batch : PersistV6Batch) : PersistOp → Prop
  | .mergeTaskRuns survivor absorbed =>
    canonicalRunAfterOperations survivor batch.operations ∈ runIds batch ∧
      canonicalRunAfterOperations absorbed batch.operations =
        canonicalRunAfterOperations survivor batch.operations ∧
      ∀ party ∈ [survivor, absorbed], db.target party =
        some (if party = canonicalRunAfterOperations survivor batch.operations then none
          else some (canonicalRunAfterOperations survivor batch.operations))
  | .promoteTaskRunKey promoted oldKey aliasRunId =>
    promoted.taskRun.runId ∈ runIds batch ∧
      db.KeyedTo promoted.taskRun.runId promoted.taskRun.key none ∧
      db.KeyedTo aliasRunId oldKey (some promoted.taskRun.runId)
  | .recordEvent event seenAtMs =>
    ∃ row, relationalEventProjection event seenAtMs batch.historyEventDrain
        ((eventMetadata event).1.taskRunId.map (canonicalRunAfterOperations · batch.operations)) = .ok row ∧
      db.events.find? (·.eventId = row.eventId) = some row
  | .upsertAgentNode _ => True
  | .upsertTaskRun run => canonicalRunAfterOperations run.taskRun.runId batch.operations ∈ runIds batch
  | _ => False

/-- An agent is stored as asked for, under the run that the batch leaves; the batch brings its row. -/
def AgentDurable (db : Database) (batch : PersistV6Batch) (node : AgentNode) : Prop :=
  canonicalRunAfterOperations node.taskRunId batch.operations ∈ runIds batch ∧
    ∃ row ordinal, db.agentNodes.get node.agentNodeId = some row ∧
      db.displayOrdinals.get (.agentNode, node.agentNodeId) = some ordinal ∧
      row.agentNode node.agentNodeId ordinal =
        .ok { node with taskRunId := canonicalRunAfterOperations node.taskRunId batch.operations }

/-- A drain is stored, not finalized, with the manifest asked for. -/
def DrainDurable (db : Database) (drain : PersistHistoryDrain) : Prop :=
  ∃ row artifacts, db.historyDrains.get drain.drainId = some row ∧ row.provider = drain.provider ∧
    row.createdAtMs = drain.createdAtMs ∧ row.finalizedAtMs = none ∧
    drain.artifacts.mapM (fun artifact => do
      let goalpost ← signedCount "history_drain_artifacts.goalpost" artifact.goalpost
      return (artifact.artifactId, (⟨artifact.generation, goalpost⟩ : ArtifactRow))) = .ok artifacts ∧
    (db.storedManifest drain.drainId).Perm artifacts

/-- Everything that a batch without an ingest sequence asks for is there: it merges or promotes, and what each
of its operations left, its runs, agents, drains, associations, before-images and totals are stored as it
brings them. -/
structure IdentityDurable (db : Database) (batch : PersistV6Batch) : Prop where
  unsequenced : ∀ ingestSeq, .advanceIngestSequence ingestSeq ∉ batch.operations
  distinctRuns : (runIds batch).Nodup
  identity : ∃ op ∈ batch.operations, isIdentity op = true
  operations : ∀ op ∈ batch.operations, db.OperationDurable batch op
  distinctEvents : (batch.operations.filterMap eventName).Nodup
  agents : ∀ id node, (requestedAgents batch.operations).get id = some node → db.AgentDurable batch node
  runs : ∀ run ∈ batch.taskRuns, db.taskRuns.get run.taskRun.taskRun.runId = some (requestedRow run)
  drains : ∀ drain ∈ batch.historyDrains, db.DrainDurable drain
  associations : ∀ association ∈ batch.historyAssociations,
    db.associated association.drainId association.runId = true
  publications : ∀ publication ∈ batch.historyPublications,
    db.historyRunPublications.get publication.taskRun.runId =
      some ⟨publication.canonicalRunId, publication.serialized⟩
  rateTotals : ∀ entry ∈ batch.rateTotals, db.runRateTotals.get entry.1 = some entry.2.clamped.1
  eventDrain : ∀ drainId, batch.historyEventDrain = some drainId → db.openDrain drainId = true

/-- A batch that begins with an ingest sequence is known by its events: the sequence was reached, the events are
all of it and each is recorded once, and they are the events stored under it. -/
structure SequenceRecorded (db : Database) (ingestSeq : ℤ) (operations : PersistBatch) : Prop where
  once : operations.any (fun operation => operation matches .advanceIngestSequence _) = false
  reached : ingestSeq ≤ db.ingestSeqHighWater
  sequenced : ∀ key ∈ operations.filterMap recordedEvent, key.2 = some ingestSeq
  nodup : ((operations.filterMap recordedEvent).map Prod.fst).Nodup
  nonempty : operations.filterMap recordedEvent ≠ []
  same : ∀ name, (name, some ingestSeq) ∈ db.eventKeys ↔
    name ∈ (operations.filterMap recordedEvent).map Prod.fst

/-- What a batch asks for is there. -/
def Durable (db : Database) (batch : PersistV6Batch) : Prop :=
  (∃ ingestSeq operations, batch.operations = .advanceIngestSequence ingestSeq :: operations ∧
    db.SequenceRecorded ingestSeq operations) ∨ db.IdentityDurable batch

/-! ### The check -/

theorem mem_durableNames {ingestSeq : ℤ} {name : String} :
    name ∈ (db.events.filter (·.ingestSeq = some ingestSeq)).map (·.eventId) ↔
      (name, some ingestSeq) ∈ db.eventKeys := by
  simp only [eventKeys, List.mem_map, List.mem_filter, decide_eq_true_eq, Prod.mk.injEq]
  constructor
  · rintro ⟨event, ⟨hmem, hseq⟩, rfl⟩
    exact ⟨event, hmem, rfl, hseq⟩
  · rintro ⟨event, hmem, rfl, hseq⟩
    exact ⟨event, ⟨hmem, hseq⟩, rfl⟩

theorem durableRunKeyAndTarget_eq (runId : RunId) :
    db.durableRunKeyAndTarget runId =
      .ok ((db.taskRuns.get runId).map fun row => (row.key, row.mergedInto)) := by
  unfold durableRunKeyAndTarget
  cases db.taskRuns.get runId with
  | none => rfl
  | some row =>
    dsimp only
    rw [decodeRunKey_encode]
    rfl

theorem keyedTo_iff {runId : RunId} {key : RunKey} {survivor : Option RunId} :
    db.KeyedTo runId key survivor ↔
      (db.taskRuns.get runId).map (fun row => (row.key, row.mergedInto)) = some (key, survivor) := by
  rw [Option.map_eq_some_iff, KeyedTo]
  simp only [Prod.mk.injEq]

theorem allDurable_iff {α : Type} {check : α → StoreResult Bool} {items : List α} :
    allDurable check items = .ok true ↔ ∀ item ∈ items, check item = .ok true := by
  induction items with
  | nil => simp [allDurable]
  | cons item items ih =>
    rw [allDurable, bind_eq_ok, List.forall_mem_cons, ← ih]
    constructor
    · rintro ⟨holds, hitem, h⟩
      cases holds with
      | false => cases h
      | true => exact ⟨hitem, h⟩
    · rintro ⟨hitem, hrest⟩
      exact ⟨true, hitem, hrest⟩

/-- What looking at one operation comes to. -/
def Scanned (db : Database) (batch : PersistV6Batch) (scan next : ReplayScan) : PersistOp → Prop
  | .recordEvent event seenAtMs =>
    (eventMetadata event).1.eventId ∉ scan.eventIds ∧
      ∃ row, relationalEventProjection event seenAtMs batch.historyEventDrain
          ((eventMetadata event).1.taskRunId.map (canonicalRunAfterOperations · batch.operations)) = .ok row ∧
        next = { scan with
          eventIds := scan.eventIds ++ [(eventMetadata event).1.eventId]
          events := scan.events ++ [row] }
  | .upsertAgentNode node => next = { scan with agentNodes := scan.agentNodes.insert node.agentNodeId node }
  | op => db.OperationDurable batch op ∧
      next = { scan with hasIdentityOperation := scan.hasIdentityOperation || isIdentity op }

theorem found_iff {α : Type} {c : Prop} [Decidable c] {a b : α} :
    (if c then pure (some a) else pure none : StoreResult (Option α)) = .ok (some b) ↔ c ∧ b = a := by
  split_ifs with hc
  · constructor
    · intro h
      cases h
      exact ⟨hc, rfl⟩
    · rintro ⟨-, rfl⟩
      rfl
  · constructor
    · intro h
      cases h
    · rintro ⟨h, -⟩
      exact absurd h hc

theorem scanOperation_iff {batch : PersistV6Batch} {scan next : ReplayScan} {op : PersistOp} :
    db.scanOperation batch scan op = .ok (some next) ↔ db.Scanned batch scan next op := by
  cases op with
  | mergeTaskRuns survivor absorbed =>
    have htarget : ∀ party final, db.target party = some (if party = final then none else some final) ↔
        ((db.taskRuns.get party).map fun row => (row.key, row.mergedInto)).map (·.2) =
          some (if party ≠ final then some final else none) := by
      intro party final
      rw [Option.map_map, ite_not]
      rfl
    unfold scanOperation Scanned OperationDurable runIds
    simp only [List.forall_mem_cons, List.not_mem_nil, false_imp_iff, imp_true_iff, and_true, htarget,
      isIdentity, Bool.or_true]
    constructor
    · intro h
      split at h
      · cases h
      · rename_i hout
        rw [Bool.or_eq_true, decide_eq_true_eq, decide_eq_true_eq, not_or, not_not, ne_eq, not_not] at hout
        obtain ⟨durableSurvivor, hsurvivor, h⟩ := bind_eq_ok.mp h
        obtain ⟨durableAbsorbed, habsorbed, h⟩ := bind_eq_ok.mp h
        cases (durableRunKeyAndTarget_eq survivor).symm.trans hsurvivor
        cases (durableRunKeyAndTarget_eq absorbed).symm.trans habsorbed
        obtain ⟨hboth, rfl⟩ := found_iff.mp h
        rw [Bool.and_eq_true, decide_eq_true_eq, decide_eq_true_eq] at hboth
        exact ⟨⟨hout.1, hout.2, hboth⟩, rfl⟩
    · rintro ⟨⟨hmem, hsame, hsurvivor, habsorbed⟩, rfl⟩
      rw [if_neg]
      · refine bind_eq_ok.mpr ⟨_, durableRunKeyAndTarget_eq survivor, bind_eq_ok.mpr
          ⟨_, durableRunKeyAndTarget_eq absorbed, found_iff.mpr ⟨?_, rfl⟩⟩⟩
        rw [Bool.and_eq_true, decide_eq_true_eq, decide_eq_true_eq]
        exact ⟨hsurvivor, habsorbed⟩
      · rw [Bool.or_eq_true, decide_eq_true_eq, decide_eq_true_eq, not_or, not_not, ne_eq, not_not]
        exact ⟨hmem, hsame⟩
  | promoteTaskRunKey promoted oldKey aliasRunId =>
    unfold scanOperation Scanned OperationDurable runIds
    simp only [keyedTo_iff, isIdentity, Bool.or_true]
    constructor
    · intro h
      split at h
      · cases h
      · rename_i hout
        obtain ⟨canonical, hcanonical, h⟩ := bind_eq_ok.mp h
        obtain ⟨aliased, haliased, h⟩ := bind_eq_ok.mp h
        cases (durableRunKeyAndTarget_eq promoted.taskRun.runId).symm.trans hcanonical
        cases (durableRunKeyAndTarget_eq aliasRunId).symm.trans haliased
        obtain ⟨hboth, rfl⟩ := found_iff.mp h
        rw [Bool.and_eq_true, decide_eq_true_eq, decide_eq_true_eq] at hboth
        exact ⟨⟨not_not.mp hout, hboth⟩, rfl⟩
    · rintro ⟨⟨hmem, hcanonical, haliased⟩, rfl⟩
      rw [if_neg (not_not.mpr hmem)]
      refine bind_eq_ok.mpr ⟨_, durableRunKeyAndTarget_eq promoted.taskRun.runId, bind_eq_ok.mpr
        ⟨_, durableRunKeyAndTarget_eq aliasRunId, found_iff.mpr ⟨?_, rfl⟩⟩⟩
      rw [Bool.and_eq_true, decide_eq_true_eq, decide_eq_true_eq]
      exact ⟨hcanonical, haliased⟩
  | recordEvent event seenAtMs =>
    unfold scanOperation Scanned
    dsimp only
    constructor
    · intro h
      split at h
      · cases h
      · rename_i hnew
        obtain ⟨row, hrow, h⟩ := bind_eq_ok.mp h
        cases h
        exact ⟨hnew, row, hrow, rfl⟩
    · rintro ⟨hnew, row, hrow, rfl⟩
      rw [if_neg hnew]
      exact bind_eq_ok.mpr ⟨row, hrow, rfl⟩
  | upsertAgentNode node =>
    unfold scanOperation Scanned
    simp [eq_comm]
  | upsertTaskRun run =>
    have hsame : scan = { scan with hasIdentityOperation := scan.hasIdentityOperation || false } := by
      rw [Bool.or_false]
    unfold scanOperation Scanned OperationDurable runIds
    dsimp only
    constructor
    · intro h
      split at h
      · rename_i hmem
        cases h
        exact ⟨hmem, hsame⟩
      · cases h
    · rintro ⟨hmem, rfl⟩
      rw [if_pos hmem]
      exact congrArg (fun s => Except.ok (some s)) hsame
  | _ =>
    unfold scanOperation Scanned OperationDurable
    simp

/-- A scan goes through and finds what it looks for when every operation is durable. -/
theorem scanOperations_iff {batch : PersistV6Batch} {operations : PersistBatch} {scan : ReplayScan}
    {agents : HashMap String AgentNode → Prop} (hnodup : scan.eventIds.Nodup) :
    (∃ final, db.scanOperations batch scan operations = .ok (some final) ∧ final.hasIdentityOperation = true ∧
        agents final.agentNodes ∧
        ∀ row ∈ final.events, db.events.find? (·.eventId = row.eventId) = some row) ↔
      (scan.hasIdentityOperation = true ∨ ∃ op ∈ operations, isIdentity op = true) ∧
        (∀ op ∈ operations, db.OperationDurable batch op) ∧
        (scan.eventIds ++ operations.filterMap eventName).Nodup ∧
        agents (scan.agentNodes.extend (operations.filterMap agentEntry)) ∧
        ∀ row ∈ scan.events, db.events.find? (·.eventId = row.eventId) = some row := by
  induction operations generalizing scan with
  | nil =>
    simp only [scanOperations, List.filterMap_nil, List.append_nil, hnodup, List.not_mem_nil, false_and,
      exists_false, or_false, false_imp_iff, imp_true_iff, true_and, HashMap.extend]
    constructor
    · rintro ⟨final, hfinal, hidentity, hagents, hevents⟩
      cases hfinal
      exact ⟨hidentity, hagents, hevents⟩
    · rintro ⟨hidentity, hagents, hevents⟩
      exact ⟨scan, rfl, hidentity, hagents, hevents⟩
  | cons op operations ih =>
    have hstep : ∀ final, db.scanOperations batch scan (op :: operations) = .ok (some final) ↔
        ∃ next, db.Scanned batch scan next op ∧ db.scanOperations batch next operations = .ok (some final) := by
      intro final
      rw [scanOperations, bind_eq_ok]
      constructor
      · rintro ⟨found, hfound, h⟩
        cases found with
        | none => cases h
        | some next => exact ⟨next, scanOperation_iff.mp hfound, h⟩
      · rintro ⟨next, hnext, h⟩
        exact ⟨some next, scanOperation_iff.mpr hnext, h⟩
    have hsteps : (∃ final, db.scanOperations batch scan (op :: operations) = .ok (some final) ∧
          final.hasIdentityOperation = true ∧ agents final.agentNodes ∧
          ∀ row ∈ final.events, db.events.find? (·.eventId = row.eventId) = some row) ↔
        ∃ next, db.Scanned batch scan next op ∧ ∃ final,
          db.scanOperations batch next operations = .ok (some final) ∧ final.hasIdentityOperation = true ∧
          agents final.agentNodes ∧
          ∀ row ∈ final.events, db.events.find? (·.eventId = row.eventId) = some row := by
      constructor
      · rintro ⟨final, hfinal, hrest⟩
        obtain ⟨next, hnext, hfinal⟩ := (hstep final).mp hfinal
        exact ⟨next, hnext, final, hfinal, hrest⟩
      · rintro ⟨next, hnext, final, hfinal, hrest⟩
        exact ⟨final, (hstep final).mpr ⟨next, hnext, hfinal⟩, hrest⟩
    rw [hsteps, List.forall_mem_cons]
    -- an operation that neither records an event nor brings an agent
    have hplain : eventName op = none → agentEntry op = none →
        (∀ next, db.Scanned batch scan next op ↔ db.OperationDurable batch op ∧
          next = { scan with hasIdentityOperation := scan.hasIdentityOperation || isIdentity op }) →
        ((∃ next, db.Scanned batch scan next op ∧ ∃ final,
            db.scanOperations batch next operations = .ok (some final) ∧ final.hasIdentityOperation = true ∧
            agents final.agentNodes ∧
            ∀ row ∈ final.events, db.events.find? (·.eventId = row.eventId) = some row) ↔
          (scan.hasIdentityOperation = true ∨ ∃ o ∈ op :: operations, isIdentity o = true) ∧
            (db.OperationDurable batch op ∧ ∀ o ∈ operations, db.OperationDurable batch o) ∧
            (scan.eventIds ++ (op :: operations).filterMap eventName).Nodup ∧
            agents (scan.agentNodes.extend ((op :: operations).filterMap agentEntry)) ∧
            ∀ row ∈ scan.events, db.events.find? (·.eventId = row.eventId) = some row) := by
      intro hname hagent hscanned
      simp only [hscanned, List.filterMap_cons, hname, hagent, and_assoc, exists_and_left, exists_eq_left]
      rw [@ih { scan with hasIdentityOperation := scan.hasIdentityOperation || isIdentity op } hnodup]
      simp only [Bool.or_eq_true, List.exists_mem_cons_iff, or_assoc]
      tauto
    cases op with
    | recordEvent event seenAtMs =>
      simp only [Scanned, OperationDurable, List.filterMap_cons, eventName, agentEntry]
      constructor
      · rintro ⟨next, ⟨hnew, row, hrow, rfl⟩, hrest⟩
        have hnext : (scan.eventIds ++ [(eventMetadata event).1.eventId]).Nodup :=
          List.nodup_append.mpr ⟨hnodup, List.nodup_singleton _, fun a ha b hb hab => by
            rw [List.mem_singleton.mp hb] at hab
            exact hnew (hab ▸ ha)⟩
        obtain ⟨hidentity, hops, hnames, hagents, hevents⟩ := (ih hnext).mp hrest
        rw [List.append_assoc] at hnames
        refine ⟨hidentity.imp_right ?_,
          ⟨⟨row, hrow, hevents row (List.mem_append_right _ List.mem_cons_self)⟩, hops⟩, hnames, hagents,
          fun row' hrow' => hevents row' (List.mem_append_left _ hrow')⟩
        rintro ⟨o, ho, h⟩
        exact ⟨o, List.mem_cons_of_mem _ ho, h⟩
      · rintro ⟨hidentity, ⟨⟨row, hrow, hdurable⟩, hops⟩, hnames, hagents, hevents⟩
        rw [← List.singleton_append, ← List.append_assoc] at hnames
        have hnext := (List.nodup_append.mp hnames).1
        have hnew : (eventMetadata event).1.eventId ∉ scan.eventIds := fun hmem =>
          (List.nodup_append.mp hnext).2.2 _ hmem _ List.mem_cons_self rfl
        refine ⟨_, ⟨hnew, row, hrow, rfl⟩, (ih hnext).mpr ⟨hidentity.imp_right ?_, hops, hnames, hagents, ?_⟩⟩
        · rintro ⟨o, ho, h⟩
          rcases List.mem_cons.mp ho with rfl | ho
          · cases h
          · exact ⟨o, ho, h⟩
        · intro row' hrow'
          rcases List.mem_append.mp hrow' with hrow' | hrow'
          · exact hevents row' hrow'
          · rw [List.mem_singleton.mp hrow']
            exact hdurable
    | upsertAgentNode node =>
      simp only [Scanned, OperationDurable, exists_eq_left, List.filterMap_cons, eventName, agentEntry,
        HashMap.extend, true_and]
      rw [@ih { scan with agentNodes := scan.agentNodes.insert node.agentNodeId node } hnodup]
      have hno : isIdentity (.upsertAgentNode node) = false := rfl
      simp only [hno, List.exists_mem_cons_iff, Bool.false_eq_true, false_or]
      exact Iff.rfl
    | _ => exact hplain rfl rfl fun _ => Iff.rfl

theorem scannedAgentNodeMatches_iff {batch : PersistV6Batch} {node : AgentNode} :
    db.scannedAgentNodeMatches batch node = .ok true ↔ db.AgentDurable batch node := by
  unfold scannedAgentNodeMatches AgentDurable durableAgentNodeMatches runIds
  dsimp only
  by_cases hmem : canonicalRunAfterOperations node.taskRunId batch.operations ∈
      batch.taskRuns.map (·.taskRun.taskRun.runId)
  · rw [if_neg (not_not.mpr hmem)]
    cases hrow : db.agentNodes.get node.agentNodeId with
    | none => simp [hmem]
    | some row =>
      cases hordinal : db.displayOrdinals.get (.agentNode, node.agentNodeId) with
      | none => simp [hmem]
      | some ordinal =>
        dsimp only
        rw [bind_eq_ok]
        constructor
        · rintro ⟨stored, hstored, h⟩
          have heq : stored = { node with
              taskRunId := canonicalRunAfterOperations node.taskRunId batch.operations } :=
            of_decide_eq_true (Except.ok.inj h)
          rw [heq] at hstored
          exact ⟨hmem, row, ordinal, rfl, rfl, hstored⟩
        · rintro ⟨-, row', ordinal', hrow', hordinal', hstored⟩
          cases hrow'
          cases hordinal'
          exact ⟨_, hstored, congrArg Except.ok (decide_eq_true rfl)⟩
  · rw [if_pos hmem]
    constructor
    · intro h
      cases h
    · intro h
      exact absurd h.1 hmem

theorem durableTaskRunV6Matches_iff {run : PersistTaskRunV6} :
    db.durableTaskRunV6Matches run = true ↔
      db.taskRuns.get run.taskRun.taskRun.runId = some (requestedRow run) := by
  unfold durableTaskRunV6Matches
  cases db.taskRuns.get run.taskRun.taskRun.runId with
  | none => simp
  | some row =>
    obtain ⟨key, displayOrdinal, taskState, spoken, native, mergedInto, createdAtMs, updatedAtMs, finishedAtMs,
      subject, dismissedAtMs, state⟩ := row
    simp only [Bool.and_eq_true, decide_eq_true_eq, Option.isNone_iff_eq_none, requestedRow, newRow,
      Option.some.injEq, TaskRunRow.mk.injEq]
    tauto

theorem durableHistoryDrainMatches_iff {drain : PersistHistoryDrain} :
    db.durableHistoryDrainMatches drain = .ok true ↔ db.DrainDurable drain := by
  unfold durableHistoryDrainMatches DrainDurable
  cases hrow : db.historyDrains.get drain.drainId with
  | none => simp
  | some row =>
    dsimp only
    constructor
    · intro h
      split at h
      · cases h
      · rename_i hsame
        rw [Bool.or_eq_true, Bool.or_eq_true, decide_eq_true_eq, decide_eq_true_eq, not_or, not_or, ne_eq,
          not_not, ne_eq, not_not, Bool.not_eq_true, Option.isSome_eq_false_iff,
          Option.isNone_iff_eq_none] at hsame
        obtain ⟨artifacts, hartifacts, h⟩ := bind_eq_ok.mp h
        exact ⟨row, artifacts, rfl, hsame.1.1, hsame.1.2, hsame.2, hartifacts,
          List.isPerm_iff.mp (Except.ok.inj h)⟩
    · rintro ⟨row', artifacts, hrow', hprovider, hcreated, hopen, hartifacts, hperm⟩
      cases hrow'
      rw [if_neg (by simp [hprovider, hcreated, hopen])]
      exact bind_eq_ok.mpr ⟨artifacts, hartifacts, congrArg Except.ok (List.isPerm_iff.mpr hperm)⟩

theorem unless_iff {c : Prop} [Decidable c] {m : StoreResult Bool} :
    (if c then pure false else m) = .ok true ↔ ¬ c ∧ m = .ok true := by
  split_ifs with hc
  · constructor
    · intro h
      cases h
    · rintro ⟨h, -⟩
      exact absurd hc h
  · exact ⟨fun h => ⟨hc, h⟩, And.right⟩

theorem andThen_iff {check m : StoreResult Bool} :
    (check >>= fun holds => if (!holds) = true then pure false else m) = .ok true ↔
      check = .ok true ∧ m = .ok true := by
  rw [bind_eq_ok]
  constructor
  · rintro ⟨holds, hcheck, h⟩
    rw [unless_iff, Bool.not_eq_true, Bool.not_eq_false'] at h
    rw [h.1] at hcheck
    exact ⟨hcheck, h.2⟩
  · rintro ⟨hcheck, hm⟩
    exact ⟨true, hcheck, hm⟩

/-- A batch without an ingest sequence is recognised exactly when everything it asks for is there. -/
theorem exactNonIngestIdentityReplayIsAlreadyDurable_iff {batch : PersistV6Batch} :
    db.exactNonIngestIdentityReplayIsAlreadyDurable batch = .ok true ↔ db.IdentityDurable batch := by
  have hscan := @scanOperations_iff db batch batch.operations {}
    (fun agents => ∀ id node, agents.get id = some node → db.AgentDurable batch node) List.nodup_nil
  have hagents : ∀ agents : HashMap String AgentNode,
      allDurable (db.scannedAgentNodeMatches batch) agents.values = .ok true ↔
        ∀ id node, agents.get id = some node → db.AgentDurable batch node := by
    intro agents
    simp only [allDurable_iff, HashMap.mem_values, scannedAgentNodeMatches_iff]
    refine ⟨fun h id node hnode => h node ⟨id, hnode⟩, fun h node hmem => ?_⟩
    obtain ⟨id, hnode⟩ := hmem
    exact h id node hnode
  unfold exactNonIngestIdentityReplayIsAlreadyDurable
  rw [unless_iff, unless_iff, bind_eq_ok, not_not]
  constructor
  · rintro ⟨hunsequenced, hdistinct, found, hfound, h⟩
    cases found with
    | none => cases h
    | some final =>
      dsimp only at h
      rw [unless_iff, andThen_iff, unless_iff, unless_iff, andThen_iff] at h
      obtain ⟨hidentity, hnodes, hevents, hruns, hdrains, h⟩ := h
      rw [Bool.not_eq_true, Bool.not_eq_false'] at hidentity hevents hruns
      have hrest := Except.ok.inj h
      simp only [Bool.and_eq_true, List.all_eq_true] at hrest
      obtain ⟨⟨⟨hassociations, hpublications⟩, htotals⟩, hdrain⟩ := hrest
      obtain ⟨hidentity', hoperations, hnames, hrows, -⟩ := hscan.mp ⟨final, hfound, hidentity, (hagents _).mp hnodes,
        fun row hrow => of_decide_eq_true (List.all_eq_true.mp hevents row hrow)⟩
      refine ⟨fun ingestSeq hmem => hunsequenced (List.any_eq_true.mpr ⟨_, hmem, rfl⟩), hdistinct,
        hidentity'.resolve_left (by simp), hoperations, hnames, hrows, fun run hrun => ?_, fun drain hdrain => ?_,
        hassociations, fun publication hpublication => ?_, fun entry hentry => ?_, fun drainId heq => ?_⟩
      · exact durableTaskRunV6Matches_iff.mp (List.all_eq_true.mp hruns run hrun)
      · exact durableHistoryDrainMatches_iff.mp (allDurable_iff.mp hdrains drain hdrain)
      · exact of_decide_eq_true (hpublications publication hpublication)
      · exact of_decide_eq_true (htotals entry hentry)
      · rwa [heq, Option.all_some] at hdrain
  · intro h
    obtain ⟨final, hfinal, hidentity, hnodes, hevents⟩ := hscan.mpr ⟨.inr h.identity, h.operations, h.distinctEvents,
      h.agents, fun _ hrow => by cases hrow⟩
    refine ⟨fun hany => ?_, h.distinctRuns, some final, hfinal, ?_⟩
    · obtain ⟨op, hop, hsequence⟩ := List.any_eq_true.mp hany
      cases op with
      | advanceIngestSequence ingestSeq => exact h.unsequenced ingestSeq hop
      | _ => cases hsequence
    · dsimp only
      rw [unless_iff, andThen_iff, unless_iff, unless_iff, andThen_iff]
      simp only [Bool.not_eq_true, Bool.not_eq_false', hagents, allDurable_iff, durableHistoryDrainMatches_iff]
      refine ⟨hidentity, hnodes, List.all_eq_true.mpr fun row hrow => decide_eq_true (hevents row hrow),
        List.all_eq_true.mpr fun run hrun => durableTaskRunV6Matches_iff.mpr (h.runs run hrun), h.drains,
        congrArg Except.ok ?_⟩
      simp only [Bool.and_eq_true, List.all_eq_true]
      refine ⟨⟨⟨h.associations, fun publication hpublication => ?_⟩, fun entry hentry => ?_⟩, ?_⟩
      · exact decide_eq_true (h.publications publication hpublication)
      · exact decide_eq_true (h.rateTotals entry hentry)
      · cases hdrain : batch.historyEventDrain with
        | none => rfl
        | some drainId => exact h.eventDrain drainId hdrain

/-- When a batch that begins with an ingest sequence is recognised. -/
theorem sequenceRecorded_iff {batch : PersistV6Batch} {ingestSeq : ℤ} {operations : PersistBatch}
    (heq : batch.operations = .advanceIngestSequence ingestSeq :: operations) :
    db.exactV6ReplayIsAlreadyDurable batch = .ok true ↔ db.SequenceRecorded ingestSeq operations := by
  unfold exactV6ReplayIsAlreadyDurable
  rw [heq]
  simp only [Except.ok.injEq, Bool.and_eq_true, Bool.not_eq_true', decide_eq_true_eq, List.all_eq_true,
    List.isEmpty_eq_false_iff, mem_durableNames, ne_eq, List.map_eq_nil_iff]
  constructor
  · rintro ⟨⟨⟨⟨⟨⟨honce, hle⟩, hseq⟩, hnodup⟩, hsome⟩, hinto⟩, hfrom⟩
    exact ⟨honce, hle, hseq, hnodup, hsome, fun name => ⟨hinto name, hfrom name⟩⟩
  · rintro ⟨honce, hle, hseq, hnodup, hsome, hsame⟩
    exact ⟨⟨⟨⟨⟨⟨honce, hle⟩, hseq⟩, hnodup⟩, hsome⟩, fun name => (hsame name).mp⟩, fun name => (hsame name).mpr⟩

/-- A batch is recognised exactly when what it asks for is there. -/
theorem recognized_iff {batch : PersistV6Batch} :
    db.exactV6ReplayIsAlreadyDurable batch = .ok true ↔ db.Durable batch := by
  by_cases hseq : ∃ ingestSeq operations, batch.operations = .advanceIngestSequence ingestSeq :: operations
  · obtain ⟨ingestSeq, operations, heq⟩ := hseq
    rw [sequenceRecorded_iff heq]
    refine ⟨fun h => .inl ⟨ingestSeq, operations, heq, h⟩, ?_⟩
    rintro (⟨ingestSeq', operations', heq', h⟩ | h)
    · rw [heq] at heq'
      cases heq'
      exact h
    · exact absurd (heq ▸ List.mem_cons_self) (h.unsequenced ingestSeq)
  · have hnon : db.exactV6ReplayIsAlreadyDurable batch = db.exactNonIngestIdentityReplayIsAlreadyDurable batch := by
      unfold exactV6ReplayIsAlreadyDurable
      split
      · rename_i ingestSeq operations heq
        exact absurd ⟨ingestSeq, operations, heq⟩ hseq
      · rfl
    rw [hnon, exactNonIngestIdentityReplayIsAlreadyDurable_iff]
    refine ⟨.inr, ?_⟩
    rintro (⟨ingestSeq, operations, heq, -⟩ | h)
    · exact absurd ⟨ingestSeq, operations, heq⟩ hseq
    · exact h

end Database

end HerdrTop
