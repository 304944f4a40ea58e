import HerdrTop.Store.Replay
import HerdrTop.Store.Restore

/-!
# The writer and its mirror of the ledger

The client of the writer keeps the names of the events that are durable, so that it can tell a
duplicate without asking the store. A name is reserved before the batch that records it is handed to
the writer, and is given up only when the writer says that it deleted the very row of that name.

## What is proved

`Writer.Mirrors` holds of a writer that starts and is kept by everything it does, however the store,
the clock and the acknowledgements behave: a name that is durable is reserved.
-/

namespace HerdrTop

/-- A name and when it was seen. -/
abbrev LedgerEntry := String × ℤ

/-- The mirror of the durable ledger. -/
structure EventLedgerCache where
  entries : HashMap String ℤ := ∅
  deriving DecidableEq

namespace EventLedgerCache

def fromEntries (entries : List LedgerEntry) : EventLedgerCache := ⟨HashMap.ofList entries⟩

def contains (cache : EventLedgerCache) (eventId : String) : Bool := cache.entries.contains eventId

/-- Reserves a name; whether it was free. A name that is taken keeps its entry. -/
def reserve (cache : EventLedgerCache) (entry : LedgerEntry) : EventLedgerCache × Bool :=
  if cache.entries.contains entry.1 then (cache, false)
  else (⟨cache.entries.insert entry.1 entry.2⟩, true)

/-- Gives up the entries whose very row was deleted. -/
def applyCleanup (cache : EventLedgerCache) (deleted : List LedgerEntry) : EventLedgerCache :=
  deleted.foldl (fun cache entry =>
    if cache.entries.get entry.1 = some entry.2 then ⟨cache.entries.remove entry.1⟩ else cache) cache

/-- Reserves the names of a batch. -/
def reserveAll (cache : EventLedgerCache) (entries : List LedgerEntry) : EventLedgerCache :=
  entries.foldl (fun cache entry => (cache.reserve entry).1) cache

theorem contains_fromEntries {entries : List LedgerEntry} {entry : LedgerEntry} (h : entry ∈ entries) :
    (fromEntries entries).contains entry.1 = true := by
  apply Option.isSome_iff_ne_none.mpr
  exact HashMap.get_extend_ne_none (a := entry.2) h

theorem contains_reserve {cache : EventLedgerCache} {entry : LedgerEntry} {name : String} :
    (cache.reserve entry).1.contains name = true ↔ name = entry.1 ∨ cache.contains name = true := by
  unfold reserve
  split_ifs with hknown
  · constructor
    · exact .inr
    · rintro (rfl | h)
      · exact hknown
      · exact h
  · exact HashMap.contains_insert

theorem contains_reserveAll {entries : List LedgerEntry} {cache : EventLedgerCache} {name : String} :
    (cache.reserveAll entries).contains name = true ↔
      name ∈ entries.map Prod.fst ∨ cache.contains name = true := by
  induction entries generalizing cache with
  | nil => simp [reserveAll]
  | cons entry entries ih =>
    show ((cache.reserve entry).1.reserveAll entries).contains name = true ↔ _
    rw [ih, contains_reserve, List.map_cons, List.mem_cons]
    tauto

/-- A cleanup takes away no name but those of deleted rows. -/
theorem contains_applyCleanup {deleted : List LedgerEntry} {cache : EventLedgerCache} {name : String}
    (h : cache.contains name = true) (hkept : name ∉ deleted.map Prod.fst) :
    (cache.applyCleanup deleted).contains name = true := by
  induction deleted generalizing cache with
  | nil => exact h
  | cons entry deleted ih =>
    rw [List.map_cons, List.mem_cons, not_or] at hkept
    refine ih ?_ hkept.2
    dsimp only
    split_ifs
    · exact HashMap.contains_remove.mpr ⟨hkept.1, h⟩
    · exact h

end EventLedgerCache

/-! ### The writer -/

def normalizedEventId (event : NormalizedEvent) : String := (Database.eventMetadata event).1.eventId

/-- The names that a batch records, with the times at which they were seen. -/
def ledgerEntries (batch : PersistBatch) : List LedgerEntry :=
  batch.filterMap fun
    | .recordEvent event seenAtMs => some (normalizedEventId event, seenAtMs)
    | .recordCollectorGap gap => some (gap.eventId, gap.seenAtMs)
    | _ => none

/-- A batch on its way to the writer. -/
inductive WriterCommand
  | apply (batch : PersistBatch)
  | applyV6 (batch : PersistV6Batch)

/-- The operations of the batch. -/
def WriterCommand.operations : WriterCommand → PersistBatch
  | apply batch => batch
  | applyV6 batch => batch.operations

/-- What the store makes of the batch. -/
def WriterCommand.run (command : WriterCommand) (db : Database) : StoreResult Database :=
  match command with
  | apply batch => db.applyBatch batch
  | applyV6 batch => db.applyV6Batch batch

/-- What decides how a command fares besides the store. -/
structure WriterFate where
  /-- The command reaches the writer. -/
  admitted : Bool
  /-- The writer's clock after the commit, unless it fails. -/
  clockMs : Option ℤ
  /-- The client reads the acknowledgement. -/
  acknowledged : Bool

/-- The client's mirror and the store. -/
structure Writer where
  ledger : EventLedgerCache
  db : Database

namespace Writer

/-- A writer over a store. -/
def start (db : Database) : Writer := ⟨.fromEntries db.loadEventLedger, db⟩

/-- Whether the mirror has the name. -/
def isDuplicate (w : Writer) (eventId : String) : Bool := w.ledger.contains eventId

/-- Deletes what is old. Gives the entries that the client learns are deleted. -/
def cleanup (w : Writer) (nowMs : ℤ) (acknowledged : Bool) : Writer × List LedgerEntry :=
  let (db, stats) := w.db.cleanupRetention nowMs
  if acknowledged then
    (⟨w.ledger.applyCleanup stats.deletedLedgerEntries, db⟩, stats.deletedLedgerEntries)
  else (⟨w.ledger, db⟩, [])

/-- Reserves the names of a batch and applies it; a batch that is stored is followed by a cleanup. Gives
the entries that the client learns are deleted. -/
def write (w : Writer) (command : WriterCommand) (fate : WriterFate) : Writer × List LedgerEntry :=
  let w : Writer := ⟨w.ledger.reserveAll (ledgerEntries command.operations), w.db⟩
  if fate.admitted then
    match command.run w.db with
    | .error _ => (w, [])
    | .ok db =>
      match fate.clockMs with
      | none => (⟨w.ledger, db⟩, [])
      | some nowMs => Writer.cleanup ⟨w.ledger, db⟩ nowMs fate.acknowledged
  else (w, [])

/-- Completes a drain. -/
def finalizeHistoryDrain (w : Writer) (manifest : PersistHistoryDrain) (observedAtMs : ℤ) : Writer :=
  match w.db.finalizeHistoryDrain manifest observedAtMs with
  | .ok (db, _) => { w with db }
  | .error _ => w

/-! ### What is durable is reserved -/

/-- A name that is durable is reserved. -/
def Mirrors (w : Writer) : Prop :=
  ∀ name, w.db.eventLedger.contains name = true → w.ledger.contains name = true

theorem mirrors_start (db : Database) : (start db).Mirrors := by
  intro name hname
  obtain ⟨seenAtMs, hseen⟩ := HashMap.contains_iff.mp hname
  have hmem : (name, seenAtMs) ∈ db.loadEventLedger :=
    (List.mem_insertionSort _).mpr (HashMap.mem_toList.mpr hseen)
  exact EventLedgerCache.contains_fromEntries hmem

/-- A row that a cleanup deletes was there, and is not there any more. -/
theorem mem_deletedLedgerEntries {db : Database} {nowMs : ℤ} {entry : LedgerEntry}
    (h : entry ∈ (db.cleanupRetention nowMs).2.deletedLedgerEntries) :
    db.eventLedger.get entry.1 = some entry.2 ∧
      (db.cleanupRetention nowMs).1.eventLedger.contains entry.1 = false := by
  have hold : entry ∈ db.oldLedgerEntries (satSubI64 nowMs eventRetentionMs) := h
  rw [Database.oldLedgerEntries, List.mem_insertionSort, List.mem_filter, decide_eq_true_eq] at hold
  have hget : db.eventLedger.get entry.1 = some entry.2 := HashMap.mem_toList.mp hold.1
  refine ⟨hget, ?_⟩
  show (HashMap.retain _ db.eventLedger).contains entry.1 = false
  rw [HashMap.contains_eq_false, HashMap.get_retain, hget, Option.filter_some, if_neg]
  rw [decide_eq_true_eq, not_le]
  exact hold.2

/-- A cleanup adds no name. -/
theorem contains_of_cleanup {db : Database} {nowMs : ℤ} {name : String}
    (h : (db.cleanupRetention nowMs).1.eventLedger.contains name = true) :
    db.eventLedger.contains name = true :=
  HashMap.contains_of_retain (p := fun _ seenAtMs => satSubI64 nowMs eventRetentionMs ≤ seenAtMs) h

/-- The client learns of no deletion that did not happen. -/
theorem cleanup_forgets {w : Writer} {nowMs : ℤ} {acknowledged : Bool} {entry : LedgerEntry}
    (h : entry ∈ (w.cleanup nowMs acknowledged).2) :
    (w.cleanup nowMs acknowledged).1.db.eventLedger.contains entry.1 = false := by
  cases acknowledged with
  | false => cases h
  | true => exact (mem_deletedLedgerEntries h).2

theorem cleanup_mirrors {w : Writer} (hw : w.Mirrors) (nowMs : ℤ) (acknowledged : Bool) :
    (w.cleanup nowMs acknowledged).1.Mirrors := by
  intro name hname
  have hbefore : w.ledger.contains name = true := by
    apply hw
    have hkept : (w.db.cleanupRetention nowMs).1.eventLedger.contains name = true := by
      cases acknowledged <;> exact hname
    exact contains_of_cleanup hkept
  cases acknowledged with
  | false => exact hbefore
  | true =>
    refine EventLedgerCache.contains_applyCleanup hbefore fun hdeleted => ?_
    obtain ⟨entry, hentry, rfl⟩ := List.mem_map.mp hdeleted
    have hforgotten := (mem_deletedLedgerEntries hentry).2
    exact absurd hname (Bool.eq_false_iff.mp hforgotten)

/-- A name that was reserved stays, unless the client learns that its row is deleted. -/
theorem cleanup_keeps {w : Writer} {name : String} (h : w.ledger.contains name = true) (nowMs : ℤ)
    (acknowledged : Bool) :
    (∃ entry ∈ (w.cleanup nowMs acknowledged).2, entry.1 = name) ∨
      (w.cleanup nowMs acknowledged).1.ledger.contains name = true := by
  cases acknowledged with
  | false => exact .inr h
  | true =>
    by_cases hdeleted : name ∈ (w.db.cleanupRetention nowMs).2.deletedLedgerEntries.map Prod.fst
    · exact .inl (List.mem_map.mp hdeleted)
    · exact .inr (EventLedgerCache.contains_applyCleanup h hdeleted)

/-! ### What a batch adds -/

theorem opKey_ledgerEntries {op : PersistOp} {key : String × Option ℤ} {batch : PersistBatch}
    (hop : op ∈ batch) (hkey : Database.opKey op = some key) :
    key.1 ∈ (ledgerEntries batch).map Prod.fst := by
  have hentry : ∃ entry ∈ ledgerEntries batch, entry.1 = key.1 := by
    cases op with
    | recordEvent event seenAtMs =>
      refine ⟨_, List.mem_filterMap.mpr ⟨_, hop, rfl⟩, ?_⟩
      cases hkey
      rfl
    | recordCollectorGap gap =>
      refine ⟨_, List.mem_filterMap.mpr ⟨_, hop, rfl⟩, ?_⟩
      cases hkey
      rfl
    | _ => cases hkey
  exact List.mem_map.mpr hentry

/-- A batch that is stored adds no names but those of its operations. -/
theorem run_names {command : WriterCommand} {db db' : Database} (h : command.run db = .ok db')
    {name : String} (hname : db'.eventLedger.contains name = true) :
    db.eventLedger.contains name = true ∨ name ∈ (ledgerEntries command.operations).map Prod.fst := by
  have hadded : db.eventLedger.contains name = true ∨
      ∃ op ∈ command.operations, ∃ key, Database.opKey op = some key ∧ key.1 = name := by
    cases command with
    | apply batch => exact ((Database.operations_logged h).2 name).mp hname
    | applyV6 batch =>
      obtain ⟨-, rfl⟩ | ⟨-, hcommit⟩ := Database.applyV6Batch_ok h
      · exact .inl hname
      · exact Database.commitV6Batch_names hcommit hname
  rcases hadded with hold | ⟨op, hop, key, hkey, rfl⟩
  · exact .inl hold
  · exact .inr (opKey_ledgerEntries hop hkey)

theorem write_mirrors {w : Writer} (hw : w.Mirrors) (command : WriterCommand) (fate : WriterFate) :
    (w.write command fate).1.Mirrors := by
  have hreserved : ∀ name, w.db.eventLedger.contains name = true ∨
      name ∈ (ledgerEntries command.operations).map Prod.fst →
      (w.ledger.reserveAll (ledgerEntries command.operations)).contains name = true := by
    intro name hname
    apply EventLedgerCache.contains_reserveAll.mpr
    exact hname.symm.imp_right (hw name)
  have hunchanged : Mirrors ⟨w.ledger.reserveAll (ledgerEntries command.operations), w.db⟩ :=
    fun name hname => hreserved name (.inl hname)
  unfold write
  dsimp only
  split
  · split
    · exact hunchanged
    · rename_i db hrun
      have hstored : Mirrors ⟨w.ledger.reserveAll (ledgerEntries command.operations), db⟩ :=
        fun name hname => hreserved name (run_names hrun hname)
      split
      · exact hstored
      · exact cleanup_mirrors hstored _ _
  · exact hunchanged

/-- A name that was reserved, or that the batch records, is reserved, unless the client learns that its
row is deleted. -/
theorem write_keeps {w : Writer} {command : WriterCommand} {name : String} (fate : WriterFate)
    (h : w.ledger.contains name = true ∨ name ∈ (ledgerEntries command.operations).map Prod.fst) :
    (∃ entry ∈ (w.write command fate).2, entry.1 = name) ∨
      (w.write command fate).1.ledger.contains name = true := by
  have hreserved : (w.ledger.reserveAll (ledgerEntries command.operations)).contains name = true :=
    EventLedgerCache.contains_reserveAll.mpr h.symm
  unfold write
  dsimp only
  split
  · split
    · exact .inr hreserved
    · split
      · exact .inr hreserved
      · exact cleanup_keeps hreserved _ _
  · exact .inr hreserved

/-- The client learns of no deletion that did not happen. -/
theorem write_forgets {w : Writer} {command : WriterCommand} {fate : WriterFate} {entry : LedgerEntry}
    (h : entry ∈ (w.write command fate).2) :
    (w.write command fate).1.db.eventLedger.contains entry.1 = false := by
  revert h
  unfold write
  dsimp only
  split
  · split
    · intro h
      cases h
    · split
      · intro h
        cases h
      · exact cleanup_forgets
  · intro h
    cases h

theorem finalizeHistoryDrain_mirrors {w : Writer} (hw : w.Mirrors) (manifest : PersistHistoryDrain)
    (observedAtMs : ℤ) : (w.finalizeHistoryDrain manifest observedAtMs).Mirrors := by
  unfold finalizeHistoryDrain
  split
  · rename_i db result hresult
    intro name hname
    apply hw
    rwa [← Database.finalizeHistoryDrain_ledger hresult]
  · exact hw

end Writer

end HerdrTop
