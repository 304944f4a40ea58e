import HerdrTop.Library.Runs
import HerdrTop.Store.Writer

/-!
# The mirror of the ledger, whatever the order

A client hands batches over and goes on; the writer takes them from its queue one by one, and the client
reads the answers later, in an order of its own, or never. A name is reserved when its batch is handed over
and is given up when the client reads that its row was deleted, so between the two the client may know
more names than there are.

## What is proved

- `Coherent.step`: a name is durable, or on its way to the store, or on its way back as deleted, and one of
  these at most, as long as no name is handed over that is any of them.
- `ledger_interleavings`: then a name that is durable is reserved; if no name is handed over that is
  reserved, a name whose batch was not stored stays reserved and is not durable; a writer that starts anew has
  reserved exactly the names that are durable.
-/

namespace HerdrTop

/-- A command in the queue of the writer. -/
inductive QueuedCommand
  | write (command : WriterCommand)
  | cleanup (nowMs : ℤ)
  | finalizeHistoryDrain (manifest : PersistHistoryDrain) (observedAtMs : ℤ)

/-- The names that a batch records. -/
def WriterCommand.names (command : WriterCommand) : List String :=
  (ledgerEntries command.operations).map Prod.fst

/-- What a command in the queue reserves. -/
def QueuedCommand.entries : QueuedCommand → List LedgerEntry
  | write command => ledgerEntries command.operations
  | _ => []

/-- The names that a command in the queue records. -/
def QueuedCommand.names (command : QueuedCommand) : List String := command.entries.map Prod.fst

/-- What the writer answers. -/
inductive WriterAnswer
  /-- The batch is not stored. -/
  | notCommitted (command : WriterCommand)
  /-- The store was cleaned; the entries that it deleted. -/
  | cleaned (deleted : List LedgerEntry)
  /-- Nothing that concerns the ledger: the cleanup failed, or a drain was finalized. -/
  | other

/-- The names that the client learns are deleted. -/
def WriterAnswer.deletions : WriterAnswer → List String
  | cleaned deleted => deleted.map Prod.fst
  | _ => []

/-- The client's mirror and the store, with what is between them. -/
structure WriterSystem where
  ledger : EventLedgerCache
  /-- The commands that the writer did not take yet, first in first out. -/
  queue : List QueuedCommand
  db : Database
  /-- The answers that the client did not read yet. -/
  answers : List WriterAnswer

/-- What may happen next. -/
inductive WriterEvent
  /-- The client hands a command over. -/
  | enqueue (command : QueuedCommand)
  /-- The client hands a command over, but the queue is closed. -/
  | refuse (command : QueuedCommand)
  /-- The writer takes a command; whether the store can work, and the clock after a commit, unless it or
  the cleanup fails. -/
  | work (available : Bool) (clockMs : Option ℤ)
  /-- The client reads an answer. -/
  | read (index : ℕ)
  /-- The client drops an answer. -/
  | abandon (index : ℕ)

namespace WriterSystem

/-- A writer over a store. -/
def start (db : Database) : WriterSystem := ⟨.fromEntries db.loadEventLedger, [], db, []⟩

/-- Whether the mirror has the name. -/
def isDuplicate (s : WriterSystem) (eventId : String) : Bool := s.ledger.contains eventId

/-- Cleans the store. -/
def clean (db : Database) (nowMs : ℤ) : Database × WriterAnswer :=
  let (db, stats) := db.cleanupRetention nowMs
  (db, .cleaned stats.deletedLedgerEntries)

/-- What the writer makes of a command. -/
def process (db : Database) (available : Bool) (clockMs : Option ℤ) :
    QueuedCommand → Database × WriterAnswer
  | .write command =>
    if available then
      match command.run db with
      | .error _ => (db, .notCommitted command)
      | .ok db =>
        match clockMs with
        | none => (db, .other)
        | some nowMs => clean db nowMs
    else (db, .notCommitted command)
  | .cleanup nowMs => if available then clean db nowMs else (db, .other)
  | .finalizeHistoryDrain manifest observedAtMs =>
    if available then
      match db.finalizeHistoryDrain manifest observedAtMs with
      | .ok (db, _) => (db, .other)
      | .error _ => (db, .other)
    else (db, .other)

/-- What the client makes of an answer. -/
def learn (ledger : EventLedgerCache) : WriterAnswer → EventLedgerCache
  | .cleaned deleted => ledger.applyCleanup deleted
  | _ => ledger

/-- One event, and the answer that the writer gives. -/
def perform (s : WriterSystem) : WriterEvent → WriterSystem × List WriterAnswer
  | .enqueue command =>
    ({ s with ledger := s.ledger.reserveAll command.entries, queue := s.queue ++ [command] }, [])
  | .refuse command => ({ s with ledger := s.ledger.reserveAll command.entries }, [])
  | .work available clockMs =>
    match s.queue with
    | [] => (s, [])
    | command :: queue =>
      let (db, answer) := process s.db available clockMs command
      ({ s with queue, db, answers := s.answers ++ [answer] }, [answer])
  | .read index =>
    match s.answers[index]? with
    | none => (s, [])
    | some answer =>
      ({ s with ledger := learn s.ledger answer, answers := s.answers.eraseIdx index }, [])
  | .abandon index => ({ s with answers := s.answers.eraseIdx index }, [])

/-! ### Where a name is -/

/-- The name is in the ledger of the store. -/
def Durable (s : WriterSystem) (name : String) : Prop := s.db.eventLedger.contains name = true

/-- The name is on its way to the store. -/
def Queued (s : WriterSystem) (name : String) : Prop := ∃ command ∈ s.queue, name ∈ command.names

/-- The name is on its way back as deleted. -/
def Deleted (s : WriterSystem) (name : String) : Prop := ∃ answer ∈ s.answers, name ∈ answer.deletions

/-- The name is at none of these places. -/
structure Unused (s : WriterSystem) (name : String) : Prop where
  notDurable : ¬ s.Durable name
  notQueued : ¬ s.Queued name
  notDeleted : ¬ s.Deleted name

/-- The client does not know the name. -/
def Unknown (s : WriterSystem) (name : String) : Prop := s.isDuplicate name = false

/-- Whether the names that are handed over are as they should be. -/
def Permitted (P : WriterSystem → String → Prop) (s : WriterSystem) : WriterEvent → Prop
  | .enqueue command => ∀ name ∈ command.names, P s name
  | _ => True

/-- A step of a client that only hands over names as they should be; it carries what the writer answers. -/
def Step (P : WriterSystem → String → Prop) (s : WriterSystem) (answers : List WriterAnswer)
    (s' : WriterSystem) : Prop :=
  ∃ event, Permitted P s event ∧ s.perform event = (s', answers)

/-- Every name is at one place at most, and is reserved if it is at one. -/
structure Coherent (s : WriterSystem) : Prop where
  reserved : ∀ name, s.isDuplicate name = false → s.Unused name
  durableApart : ∀ name, s.Durable name → ¬ s.Queued name ∧ ¬ s.Deleted name
  queuedApart : ∀ name, s.Queued name → ¬ s.Deleted name
  queuedOnce : s.queue.Pairwise fun first second => ∀ name ∈ first.names, name ∉ second.names
  deletedOnce : s.answers.Pairwise fun first second => ∀ name ∈ first.deletions, name ∉ second.deletions

variable {s s' : WriterSystem} {name : String} {db : Database}

/-! ### The store -/

/-- How a command may end. -/
inductive Processed (db : Database) : QueuedCommand → Database → WriterAnswer → Prop
  | notCommitted (command : WriterCommand) : Processed db (.write command) db (.notCommitted command)
  | stored {command : WriterCommand} {stored : Database} (hrun : command.run db = .ok stored) :
      Processed db (.write command) stored .other
  | storedCleaned {command : WriterCommand} {stored : Database} (hrun : command.run db = .ok stored)
      (nowMs : ℤ) : Processed db (.write command) (clean stored nowMs).1 (clean stored nowMs).2
  | cleaned (nowMs : ℤ) : Processed db (.cleanup nowMs) (clean db nowMs).1 (clean db nowMs).2
  | finalized {manifest : PersistHistoryDrain} {observedAtMs : ℤ} {finalized : Database}
      {finalization : HistoryDrainFinalization}
      (h : db.finalizeHistoryDrain manifest observedAtMs = .ok (finalized, finalization)) :
      Processed db (.finalizeHistoryDrain manifest observedAtMs) finalized .other
  | refused (command : QueuedCommand) : Processed db command db .other

theorem process_processed (available : Bool) (clockMs : Option ℤ) (command : QueuedCommand) :
    Processed db command (process db available clockMs command).1
      (process db available clockMs command).2 := by
  cases command with
  | write command =>
    simp only [process]
    cases available with
    | false => exact .notCommitted command
    | true =>
      rw [if_pos rfl]
      cases hrun : command.run db with
      | error e => exact .notCommitted command
      | ok stored =>
        cases clockMs with
        | none => exact .stored hrun
        | some nowMs => exact .storedCleaned hrun nowMs
  | cleanup nowMs =>
    simp only [process]
    cases available with
    | false => exact .refused _
    | true => exact .cleaned nowMs
  | finalizeHistoryDrain manifest observedAtMs =>
    simp only [process]
    cases available with
    | false => exact .refused _
    | true =>
      rw [if_pos rfl]
      cases h : db.finalizeHistoryDrain manifest observedAtMs with
      | error e => exact .refused _
      | ok result => exact .finalized h

variable {after : Database} {command : QueuedCommand} {answer : WriterAnswer}

theorem clean_deletions {nowMs : ℤ} (h : name ∈ (clean db nowMs).2.deletions) :
    db.eventLedger.contains name = true ∧ (clean db nowMs).1.eventLedger.contains name = false := by
  obtain ⟨entry, hentry, rfl⟩ := List.mem_map.mp h
  obtain ⟨hget, hforgotten⟩ := Writer.mem_deletedLedgerEntries hentry
  exact ⟨HashMap.contains_iff.mpr ⟨_, hget⟩, hforgotten⟩

/-- What is durable after a command was durable before or is recorded by it. -/
theorem Processed.durable (h : Processed db command after answer)
    (hname : after.eventLedger.contains name = true) :
    db.eventLedger.contains name = true ∨ name ∈ command.names := by
  cases h with
  | notCommitted command => exact .inl hname
  | stored hrun => exact Writer.run_names hrun hname
  | storedCleaned hrun nowMs => exact Writer.run_names hrun (Writer.contains_of_cleanup hname)
  | cleaned nowMs => exact .inl (Writer.contains_of_cleanup hname)
  | finalized h =>
    rw [Database.finalizeHistoryDrain_ledger h] at hname
    exact .inl hname
  | refused => exact .inl hname

/-- What the writer says is deleted was durable or just recorded, and is not durable any more. -/
theorem Processed.deleted (h : Processed db command after answer) (hname : name ∈ answer.deletions) :
    (db.eventLedger.contains name = true ∨ name ∈ command.names) ∧
      after.eventLedger.contains name = false := by
  cases h with
  | storedCleaned hrun nowMs =>
    obtain ⟨hbefore, hforgotten⟩ := clean_deletions hname
    exact ⟨Writer.run_names hrun hbefore, hforgotten⟩
  | cleaned nowMs =>
    obtain ⟨hbefore, hforgotten⟩ := clean_deletions hname
    exact ⟨.inl hbefore, hforgotten⟩
  | notCommitted | stored | finalized | refused => cases hname

/-- A batch that is not stored leaves the store as it is. -/
theorem Processed.failed {failed : WriterCommand} (h : Processed db command after (.notCommitted failed)) :
    command = .write failed ∧ after = db := by
  generalize hanswer : WriterAnswer.notCommitted failed = answer at h
  cases h with
  | notCommitted command =>
    cases hanswer
    exact ⟨rfl, rfl⟩
  | stored | storedCleaned | cleaned | finalized | refused => cases hanswer

/-! ### The client -/

theorem learn_keeps {ledger : EventLedgerCache} {answer : WriterAnswer}
    (h : ledger.contains name = true) (hkept : name ∉ answer.deletions) :
    (learn ledger answer).contains name = true := by
  cases answer with
  | cleaned deleted => exact EventLedgerCache.contains_applyCleanup h hkept
  | notCommitted _ => exact h
  | other => exact h

/-- What is erased from a list is apart from what stays. -/
theorem apart_of_eraseIdx {answers : List WriterAnswer} {index : ℕ} {answer unread : WriterAnswer}
    (honce : answers.Pairwise fun first second => ∀ name ∈ first.deletions, name ∉ second.deletions)
    (hanswer : answers[index]? = some answer) (hunread : unread ∈ answers.eraseIdx index)
    (hname : name ∈ answer.deletions) : name ∉ unread.deletions := by
  obtain ⟨hlt, rfl⟩ := List.getElem?_eq_some_iff.mp hanswer
  obtain ⟨j, hj, hne, rfl⟩ := List.mem_eraseIdx_iff_getElem.mp hunread
  intro hboth
  have hpairs := List.pairwise_iff_getElem.mp honce
  rcases Nat.lt_or_gt_of_ne hne with hlt' | hgt
  · exact hpairs _ _ _ _ hlt' name hboth hname
  · exact hpairs _ _ _ _ hgt name hname hboth

/-! ### Each event -/

theorem coherent_start (db : Database) : (start db).Coherent := by
  have hqueued : ∀ name, ¬ (start db).Queued name := by
    rintro name ⟨_, hmem, -⟩
    cases hmem
  have hdeleted : ∀ name, ¬ (start db).Deleted name := by
    rintro name ⟨_, hmem, -⟩
    cases hmem
  refine ⟨fun name hname => ⟨fun hdurable => ?_, hqueued name, hdeleted name⟩,
    fun name _ => ⟨hqueued name, hdeleted name⟩, fun name _ => hdeleted name, .nil, .nil⟩
  have hknown : (start db).isDuplicate name = true := Writer.mirrors_start db name hdurable
  rw [hname] at hknown
  cases hknown

theorem isDuplicate_reserve {entries : List LedgerEntry}
    (h : (s.ledger.reserveAll entries).contains name = false) :
    name ∉ entries.map Prod.fst ∧ s.isDuplicate name = false := by
  rw [Bool.eq_false_iff, ne_eq, EventLedgerCache.contains_reserveAll, not_or] at h
  exact ⟨h.1, Bool.eq_false_iff.mpr h.2⟩

theorem Coherent.refuse (h : s.Coherent) (command : QueuedCommand) :
    (s.perform (.refuse command)).1.Coherent where
  reserved name hname := by
    have hunused := h.reserved name (isDuplicate_reserve hname).2
    exact ⟨hunused.notDurable, hunused.notQueued, hunused.notDeleted⟩
  durableApart := h.durableApart
  queuedApart := h.queuedApart
  queuedOnce := h.queuedOnce
  deletedOnce := h.deletedOnce

theorem Coherent.enqueue (h : s.Coherent) {command : QueuedCommand}
    (hunused : ∀ name ∈ command.names, s.Unused name) :
    (s.perform (.enqueue command)).1.Coherent := by
  have hqueued : ∀ name, (s.perform (.enqueue command)).1.Queued name →
      s.Queued name ∨ name ∈ command.names := by
    rintro name ⟨queued, hqueued, hname⟩
    rcases List.mem_append.mp hqueued with hqueued | hnew
    · exact .inl ⟨queued, hqueued, hname⟩
    · rw [List.mem_singleton.mp hnew] at hname
      exact .inr hname
  constructor
  · intro name hname
    obtain ⟨hnew, hfree⟩ := isDuplicate_reserve hname
    have hunused := h.reserved name hfree
    exact ⟨hunused.notDurable, fun hq => (hqueued name hq).elim hunused.notQueued hnew, hunused.notDeleted⟩
  · intro name hdurable
    obtain ⟨hnotQueued, hnotDeleted⟩ := h.durableApart name hdurable
    refine ⟨fun hq => ?_, hnotDeleted⟩
    rcases hqueued name hq with hold | hnew
    · exact hnotQueued hold
    · exact (hunused name hnew).notDurable hdurable
  · intro name hq
    rcases hqueued name hq with hold | hnew
    · exact h.queuedApart name hold
    · exact (hunused name hnew).notDeleted
  · refine List.pairwise_append.mpr ⟨h.queuedOnce, List.pairwise_singleton _ _, ?_⟩
    intro earlier hearlier new hnew name hname
    rw [List.mem_singleton.mp hnew]
    exact fun hrecorded => (hunused name hrecorded).notQueued ⟨earlier, hearlier, hname⟩
  · exact h.deletedOnce

/-- The state after the writer took a command. -/
def processed (s : WriterSystem) (queue : List QueuedCommand) (after : Database) (answer : WriterAnswer) :
    WriterSystem :=
  { s with queue, db := after, answers := s.answers ++ [answer] }

/-- A name that is durable or in the next command is neither in a later command nor unread as deleted. -/
theorem Coherent.leaving (h : s.Coherent) {queue : List QueuedCommand} (hqueue : s.queue = command :: queue)
    (hname : s.Durable name ∨ name ∈ command.names) :
    (∀ later ∈ queue, name ∉ later.names) ∧ ¬ s.Deleted name := by
  have hmem : command ∈ s.queue := by
    rw [hqueue]
    exact List.mem_cons_self
  rcases hname with hdurable | hrecorded
  · obtain ⟨hnotQueued, hnotDeleted⟩ := h.durableApart name hdurable
    refine ⟨fun later hlater hin => hnotQueued ⟨later, ?_, hin⟩, hnotDeleted⟩
    rw [hqueue]
    exact List.mem_cons_of_mem _ hlater
  · have honce := h.queuedOnce
    rw [hqueue, List.pairwise_cons] at honce
    exact ⟨fun later hlater => honce.1 later hlater name hrecorded, h.queuedApart name ⟨command, hmem, hrecorded⟩⟩

theorem Coherent.processed (h : s.Coherent) {queue : List QueuedCommand}
    (hqueue : s.queue = command :: queue) (hstep : Processed s.db command after answer) :
    (s.processed queue after answer).Coherent := by
  have hmem : command ∈ s.queue := by
    rw [hqueue]
    exact List.mem_cons_self
  have hqueued : ∀ name, (s.processed queue after answer).Queued name → s.Queued name := by
    rintro name ⟨later, hlater, hname⟩
    refine ⟨later, ?_, hname⟩
    rw [hqueue]
    exact List.mem_cons_of_mem _ hlater
  have hdeleted : ∀ name, (s.processed queue after answer).Deleted name →
      s.Deleted name ∨ name ∈ answer.deletions := by
    rintro name ⟨unread, hunread, hname⟩
    rcases List.mem_append.mp hunread with hold | hnew
    · exact .inl ⟨unread, hold, hname⟩
    · rw [List.mem_singleton.mp hnew] at hname
      exact .inr hname
  constructor
  · intro name hname
    have hunused := h.reserved name hname
    have hgone : ¬ (s.Durable name ∨ name ∈ command.names) := by
      rintro (hdurable | hrecorded)
      · exact hunused.notDurable hdurable
      · exact hunused.notQueued ⟨command, hmem, hrecorded⟩
    refine ⟨fun hdurable => hgone (hstep.durable hdurable), fun hq => hunused.notQueued (hqueued name hq),
      fun hd => ?_⟩
    rcases hdeleted name hd with hold | hnew
    · exact hunused.notDeleted hold
    · exact hgone (hstep.deleted hnew).1
  · intro name hdurable
    obtain ⟨hlater, hnotDeleted⟩ := h.leaving hqueue (hstep.durable hdurable)
    refine ⟨fun ⟨later, hin, hname⟩ => hlater later hin hname, fun hd => ?_⟩
    rcases hdeleted name hd with hold | hnew
    · exact hnotDeleted hold
    · have hforgotten := (hstep.deleted hnew).2
      exact absurd hdurable (Bool.eq_false_iff.mp hforgotten)
  · intro name hq hd
    rcases hdeleted name hd with hold | hnew
    · exact h.queuedApart name (hqueued name hq) hold
    · obtain ⟨later, hin, hname⟩ := hq
      exact (h.leaving hqueue (hstep.deleted hnew).1).1 later hin hname
  · have honce := h.queuedOnce
    rw [hqueue, List.pairwise_cons] at honce
    exact honce.2
  · refine List.pairwise_append.mpr ⟨h.deletedOnce, List.pairwise_singleton _ _, ?_⟩
    intro unread hunread new hnew name hname
    rw [List.mem_singleton.mp hnew]
    intro hdeleted
    exact (h.leaving hqueue (hstep.deleted hdeleted).1).2 ⟨unread, hunread, hname⟩

/-- The client reads an answer, or drops it: what it gives up is nowhere any more. -/
theorem Coherent.forget (h : s.Coherent) {index : ℕ} {ledger : EventLedgerCache}
    (hledger : ∀ name, s.isDuplicate name = true → ledger.contains name = false →
      ∃ answer, s.answers[index]? = some answer ∧ name ∈ answer.deletions) :
    ({ s with ledger, answers := s.answers.eraseIdx index } : WriterSystem).Coherent := by
  have hdeleted : ∀ name,
      ({ s with ledger, answers := s.answers.eraseIdx index } : WriterSystem).Deleted name → s.Deleted name :=
    fun name ⟨answer, hanswer, hname⟩ => ⟨answer, List.mem_of_mem_eraseIdx hanswer, hname⟩
  constructor
  · intro name hname
    cases hknown : s.isDuplicate name with
    | false =>
      have hunused := h.reserved name hknown
      exact ⟨hunused.notDurable, hunused.notQueued, fun hd => hunused.notDeleted (hdeleted name hd)⟩
    | true =>
      obtain ⟨answer, hanswer, hin⟩ := hledger name hknown hname
      have hd : s.Deleted name := ⟨answer, List.mem_of_getElem? hanswer, hin⟩
      refine ⟨fun hdurable => (h.durableApart name hdurable).2 hd, fun hq => h.queuedApart name hq hd, ?_⟩
      rintro ⟨unread, hunread, hboth⟩
      exact apart_of_eraseIdx h.deletedOnce hanswer hunread hin hboth
  · exact fun name hdurable => ⟨(h.durableApart name hdurable).1,
      fun hd => (h.durableApart name hdurable).2 (hdeleted name hd)⟩
  · exact fun name hq hd => h.queuedApart name hq (hdeleted name hd)
  · exact h.queuedOnce
  · exact h.deletedOnce.sublist (List.eraseIdx_sublist _ _)

/-- A client that only hands over names that are at no place keeps every name at one place at most. -/
theorem Coherent.step (h : s.Coherent) {answers : List WriterAnswer} (hstep : Step Unused s answers s') :
    s'.Coherent := by
  obtain ⟨event, hpermitted, hperform⟩ := hstep
  obtain rfl : (s.perform event).1 = s' := by rw [hperform]
  cases event with
  | enqueue command => exact h.enqueue hpermitted
  | refuse command => exact h.refuse command
  | work available clockMs =>
    unfold perform
    dsimp only
    split
    · exact h
    · rename_i command queue hqueue
      exact h.processed hqueue (process_processed available clockMs command)
  | read index =>
    unfold perform
    dsimp only
    split
    · exact h
    · rename_i answer hanswer
      refine h.forget fun name hknown hforgotten => ⟨answer, hanswer, ?_⟩
      by_contra hkept
      have hstays := learn_keeps hknown hkept
      rw [hforgotten] at hstays
      cases hstays
  | abandon index =>
    refine h.forget fun name hknown hforgotten => ?_
    rw [isDuplicate, hforgotten] at hknown
    cases hknown

/-! ### A name whose batch was not stored -/

/-- A name that the client knows, though it is at no place. -/
structure Lost (s : WriterSystem) (name : String) : Prop where
  known : s.isDuplicate name = true
  unused : s.Unused name

/-- A name that is lost stays lost, as long as no name is handed over that the client knows. -/
theorem Lost.step (h : s.Lost name) {answers : List WriterAnswer} (hstep : Step Unknown s answers s') :
    s'.Lost name := by
  obtain ⟨event, hpermitted, hperform⟩ := hstep
  obtain rfl : (s.perform event).1 = s' := by rw [hperform]
  obtain ⟨hknown, hunused⟩ := h
  have hforget : ∀ {ledger : EventLedgerCache} {index : ℕ}, ledger.contains name = true →
      ({ s with ledger, answers := s.answers.eraseIdx index } : WriterSystem).Lost name := by
    intro ledger index hledger
    refine ⟨hledger, hunused.notDurable, hunused.notQueued, ?_⟩
    rintro ⟨unread, hunread, hname⟩
    exact hunused.notDeleted ⟨unread, List.mem_of_mem_eraseIdx hunread, hname⟩
  cases event with
  | enqueue command =>
    refine ⟨EventLedgerCache.contains_reserveAll.mpr (.inr hknown), hunused.notDurable, ?_, hunused.notDeleted⟩
    rintro ⟨queued, hqueued, hname⟩
    rcases List.mem_append.mp hqueued with hqueued | hnew
    · exact hunused.notQueued ⟨queued, hqueued, hname⟩
    · rw [List.mem_singleton.mp hnew] at hname
      have hfree : s.isDuplicate name = false := hpermitted name hname
      rw [hknown] at hfree
      cases hfree
  | refuse command =>
    exact ⟨EventLedgerCache.contains_reserveAll.mpr (.inr hknown), hunused.notDurable, hunused.notQueued,
      hunused.notDeleted⟩
  | work available clockMs =>
    unfold perform
    dsimp only
    split
    · exact ⟨hknown, hunused⟩
    · rename_i command queue hqueue
      have hprocessed := @process_processed s.db available clockMs command
      have hgone : ¬ (s.Durable name ∨ name ∈ command.names) := by
        rintro (hdurable | hrecorded)
        · exact hunused.notDurable hdurable
        · refine hunused.notQueued ⟨command, ?_, hrecorded⟩
          rw [hqueue]
          exact List.mem_cons_self
      refine ⟨hknown, fun hdurable => hgone (hprocessed.durable hdurable), ?_, ?_⟩
      · rintro ⟨later, hlater, hname⟩
        refine hunused.notQueued ⟨later, ?_, hname⟩
        rw [hqueue]
        exact List.mem_cons_of_mem _ hlater
      · rintro ⟨unread, hunread, hname⟩
        rcases List.mem_append.mp hunread with hold | hnew
        · exact hunused.notDeleted ⟨unread, hold, hname⟩
        · rw [List.mem_singleton.mp hnew] at hname
          exact hgone (hprocessed.deleted hname).1
  | read index =>
    unfold perform
    dsimp only
    split
    · exact ⟨hknown, hunused⟩
    · rename_i answer hanswer
      apply hforget
      apply learn_keeps hknown
      exact fun hname => hunused.notDeleted ⟨answer, List.mem_of_getElem? hanswer, hname⟩
  | abandon index => exact hforget hknown

/-- Only the writer answers. -/
theorem perform_answers {event : WriterEvent} (h : answer ∈ (s.perform event).2) :
    ∃ command queue, s.queue = command :: queue ∧ ∃ after, Processed s.db command after answer ∧
      (s.perform event).1 = s.processed queue after answer := by
  cases event with
  | work available clockMs =>
    unfold perform at h ⊢
    dsimp only at h ⊢
    split at h
    · cases h
    · rename_i command queue hqueue
      obtain rfl := List.mem_singleton.mp h
      rw [hqueue]
      exact ⟨command, queue, rfl, _, process_processed available clockMs command, rfl⟩
  | enqueue | refuse | abandon => cases h
  | read index =>
    unfold perform at h
    dsimp only at h
    split at h <;> cases h

/-- The names of a batch that is not stored are lost. -/
theorem Coherent.lost (h : s.Coherent) {failed : WriterCommand} {answers : List WriterAnswer}
    {P : WriterSystem → String → Prop} (hstep : Step P s answers s')
    (hfailed : .notCommitted failed ∈ answers) (hname : name ∈ failed.names) : s'.Lost name := by
  obtain ⟨event, -, hperform⟩ := hstep
  obtain ⟨rfl, rfl⟩ : (s.perform event).1 = s' ∧ (s.perform event).2 = answers := Prod.ext_iff.mp hperform
  obtain ⟨command, queue, hqueue, after, hprocessed, hafter⟩ := perform_answers hfailed
  obtain ⟨rfl, rfl⟩ := hprocessed.failed
  have hqueued : s.Queued name := by
    refine ⟨.write failed, ?_, hname⟩
    rw [hqueue]
    exact List.mem_cons_self
  obtain ⟨hlater, hnotDeleted⟩ := @Coherent.leaving s name _ h _ hqueue (.inr hname)
  rw [hafter]
  refine ⟨?_, fun hdurable => (h.durableApart name hdurable).1 hqueued,
    fun ⟨later, hin, hrecorded⟩ => hlater later hin hrecorded, ?_⟩
  · by_contra hfree
    exact (h.reserved name (Bool.eq_false_iff.mpr hfree)).notQueued hqueued
  · rintro ⟨unread, hunread, hin⟩
    rcases List.mem_append.mp hunread with hold | hnew
    · exact hnotDeleted ⟨unread, hold, hin⟩
    · rw [List.mem_singleton.mp hnew] at hin
      cases hin

/-! ### Every order -/

theorem coherent_run {answers : List WriterAnswer} (h : Runs (Step Unused) (start db) answers s) :
    s.Coherent :=
  h.invariant (fun hstep hcoherent => hcoherent.step hstep) (coherent_start db)

/-- A name that the client does not know is at no place, so a client that only hands over such names is one
that only hands over names that are at no place. -/
theorem unused_run {answers : List WriterAnswer} (h : Runs (Step Unknown) (start db) answers s) :
    Runs (Step Unused) (start db) answers s := by
  induction h with
  | refl => exact .refl _
  | @tail t u ls l _ hstep ih =>
    obtain ⟨event, hpermitted, hperform⟩ := hstep
    refine ih.tail ⟨event, ?_, hperform⟩
    cases event with
    | enqueue command => exact fun name hname => (coherent_run ih).reserved name (hpermitted name hname)
    | refuse | work | read | abandon => trivial

theorem lost_run {answers : List WriterAnswer} (h : Runs (Step Unknown) (start db) answers s)
    {failed : WriterCommand} (hfailed : .notCommitted failed ∈ answers) (hname : name ∈ failed.names) :
    s.Lost name := by
  induction h with
  | refl => cases hfailed
  | tail hrun hstep ih =>
    rcases List.mem_append.mp hfailed with hold | hnew
    · exact (ih hold).step hstep
    · exact (coherent_run (unused_run hrun)).lost hstep hnew hname

/-- A writer that starts has reserved what is durable, and nothing else. -/
theorem isDuplicate_start (db : Database) (name : String) :
    (start db).isDuplicate name = db.eventLedger.contains name := by
  rw [Bool.eq_iff_iff]
  constructor
  · intro hknown
    obtain ⟨seenAtMs, hget⟩ := HashMap.contains_iff.mp hknown
    rcases HashMap.get_extend_cases hget with hmem | ⟨hempty, -⟩
    · have hrow := HashMap.mem_toList.mp ((List.mem_insertionSort _).mp hmem)
      exact HashMap.contains_iff.mpr ⟨seenAtMs, hrow⟩
    · cases hempty
  · exact Writer.mirrors_start db name

/-- In every order in which commands are handed over, processed, read and dropped: as long as no name is
handed over that is durable, on its way to the store or on its way back as deleted, what is durable is
reserved. Names that are not reserved are none of these. If only such names are handed over, the names of a
batch that was not stored stay reserved while the writer runs, and are not durable; a writer that starts again
knows exactly the names that are durable. -/
theorem ledger_interleavings (db : Database) :
    (∀ answers s, Runs (Step Unused) (start db) answers s →
      (∀ name, s.Durable name → s.isDuplicate name = true) ∧
      ∀ name, s.isDuplicate name = false → s.Unused name) ∧
    (∀ answers s, Runs (Step Unknown) (start db) answers s → Runs (Step Unused) (start db) answers s ∧
      ∀ failed, .notCommitted failed ∈ answers → ∀ name ∈ failed.names,
        s.isDuplicate name = true ∧ ¬ s.Durable name) ∧
    ∀ name, (start db).isDuplicate name = db.eventLedger.contains name := by
  refine ⟨fun answers s hrun => ⟨fun name hdurable => ?_, (coherent_run hrun).reserved⟩,
    fun answers s hrun => ⟨unused_run hrun, fun failed hfailed name hname => ?_⟩, isDuplicate_start db⟩
  case refine_2 =>
    have hlost := lost_run hrun hfailed hname
    exact ⟨hlost.known, hlost.unused.notDurable⟩
  by_contra hfree
  exact ((coherent_run hrun).reserved name (Bool.eq_false_iff.mpr hfree)).notDurable hdurable

/-! ### Names that are handed over twice, and batches that fail -/

/-- The gap of a session, under a name, seen long ago. -/
def oldGap (name : String) : PersistOp := .recordCollectorGap ⟨name, "session", 0, .reconnect⟩

/-- The batch with a name. -/
def recordOld (name : String) : QueuedCommand := .write (.apply [oldGap name])

/-- A batch that the store refuses: the ingest sequence does not advance. -/
def refusedBatch (name : String) : WriterCommand := .apply [oldGap name, .advanceIngestSequence 0]

/-- Performs events one after the other. -/
def performAll (s : WriterSystem) : List WriterEvent → WriterSystem × List WriterAnswer
  | [] => (s, [])
  | event :: events =>
    let later := (s.perform event).1.performAll events
    (later.1, (s.perform event).2 ++ later.2)

/-- Every event hands over names as they should be, in the state that it meets. -/
def AllPermitted (P : WriterSystem → String → Prop) : WriterSystem → List WriterEvent → Prop
  | _, [] => True
  | s, event :: events => Permitted P s event ∧ AllPermitted P (s.perform event).1 events

theorem AllPermitted.runs {P : WriterSystem → String → Prop} {events : List WriterEvent}
    (h : AllPermitted P s events) : Runs (Step P) s (s.performAll events).2 (s.performAll events).1 := by
  induction events generalizing s with
  | nil => exact .refl s
  | cons event events ih => exact (Runs.one ⟨event, h.1, rfl⟩).trans (ih h.2)

/-- A batch is stored, and the store refuses another one: after both answers are read, the client may not hand
over the names of either one again, and a writer that starts again only knows those of the first one. -/
theorem ledger_interleavings_refused :
    let r := (start {}).performAll [.enqueue (recordOld "kept"), .enqueue (.write (refusedBatch "lost")),
      .work true none, .work true none, .read 1, .read 0]
    r.1.Durable "kept" ∧ r.1.isDuplicate "kept" = true ∧ .notCommitted (refusedBatch "lost") ∈ r.2 ∧
      ¬ r.1.Durable "lost" ∧ r.1.isDuplicate "lost" = true ∧ (start r.1.db).isDuplicate "lost" = false := by
  intro r
  have hnew : ∀ (s : WriterSystem) command name, command.names = [name] → s.isDuplicate name = false →
      Permitted Unknown s (.enqueue command) := by
    intro s command name hnames hfree name' hname'
    rw [hnames, List.mem_singleton] at hname'
    exact hname' ▸ hfree
  have hrun : Runs (Step Unknown) (start {}) r.2 r.1 :=
    AllPermitted.runs ⟨hnew _ _ "kept" rfl rfl, hnew _ _ "lost" rfl (by decide +kernel), trivial, trivial, trivial,
      trivial, trivial⟩
  obtain ⟨hreserved, hfails, hstarts⟩ := ledger_interleavings {}
  obtain ⟨hunused, hlost⟩ := hfails _ _ hrun
  have hkept : r.1.Durable "kept" := by
    unfold Durable
    decide +kernel
  have hfailed : .notCommitted (refusedBatch "lost") ∈ r.2 := List.mem_of_getElem? (i := 1) rfl
  obtain ⟨hknown, hgone⟩ := hlost _ hfailed "lost" (by decide)
  refine ⟨hkept, (hreserved _ _ hunused).1 "kept" hkept, hfailed, hgone, hknown, ?_⟩
  exact (isDuplicate_start _ _).trans (Bool.eq_false_iff.mpr hgone)

/-- One name is handed over twice before the first answer is read: the second batch is stored after the
cleanup that follows the first one, and the client gives the name up though it is durable. And the name of a
batch that the store refused is a duplicate after the client read the answer. -/
theorem names_overlap_and_stay :
    (let s := ((start {}).performAll
      [.enqueue (recordOld "gap"), .enqueue (recordOld "gap"), .work true (some (eventRetentionMs + 1)),
        .work true none, .read 0]).1
     s.Durable "gap" ∧ s.isDuplicate "gap" = false) ∧
    (let r := (start {}).performAll [.enqueue (.write (refusedBatch "gap")), .work true none, .read 0]
     r.2 = [.notCommitted (refusedBatch "gap")] ∧ r.1.answers.length = 0 ∧ r.1.isDuplicate "gap" = true) := by
  refine ⟨⟨?_, ?_⟩, rfl, ?_, ?_⟩
  · unfold Durable
    decide +kernel
  · decide +kernel
  · decide +kernel
  · decide +kernel

end WriterSystem

end HerdrTop
