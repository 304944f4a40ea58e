import HerdrTop.Library.Metering
import HerdrTop.Library.Runs
import HerdrTop.Identity.Merge
import HerdrTop.Reducer.Safety

/-!
# The rate ledger of a run

The totals of a run are a meter of its tokens and of the time it works: the cursor is the last
reading, two readings may be compared when both are live, of one epoch and under one key, and a
checkpoint is a reading that repeats the activity of the one before it.

## What is proved

* `Reducer.rate_ledger_telescopes`: the totals are what the meter counts, cut off at the largest that
  can be stored; over live observations in one epoch under one key they grow by the tokens from end to
  end and by the time of work, however many checkpoints lie between; nothing is counted across a
  change of epoch or of key, by a historical observation, or twice after a merge.
* `Reducer.rate_totals_saturate`: without the cut that is not so.
* `Reducer.publish_run`, `Reducer.activate_run`: what the reducer does before a publication and at the
  start of an epoch are such runs.
-/

namespace HerdrTop

open Metering

/-- What readings are compared by: the epoch and the key. -/
abbrev RateBasis := ℕ × RunKey

/-- A cursor is a reading. -/
def RunRateCursor.reading (cursor : RunRateCursor) : Metering.Reading RateBasis where
  count := cursor.baselineOutputTokens
  time := cursor.lastObservedAtMs
  active := cursor.working
  basis := if cursor.liveBaseline then some (cursor.measurementEpoch, cursor.identityBasis) else none

namespace DomainModel

/-- The tokens of a run so far. -/
def tokens (m : DomainModel) (id : RunId) : ℕ := ((m.telemetry.get id).map (·.outputTokens)).getD 0

/-- The last reading of a run. -/
def lastRate (m : DomainModel) (id : RunId) : Option (Metering.Reading RateBasis) :=
  (m.rateCursors.get id).map (·.reading)

/-- The largest totals. -/
def rateLimit : Amount := (persistedRateTotalMax, i64Max)

/-- The totals of a run as they are stored. -/
def storedAmount (m : DomainModel) (id : RunId) : Amount :=
  (((m.rateTotals.get id).getD {}).outputTokens, ((m.rateTotals.get id).getD {}).workingMs)

/-- Totals brought into their domain. -/
def totalAmount (totals : Option RunRateTotals) : Amount :=
  (min (totals.getD {}).outputTokens persistedRateTotalMax, min (max (totals.getD {}).workingMs 0) i64Max)

/-- The totals of a run, within their domain. -/
def rateAmount (m : DomainModel) (id : RunId) : Amount := totalAmount (m.rateTotals.get id)

end DomainModel

/-- What happens to the ledger of a run. -/
inductive RateEvent
  /-- Its rate is observed. -/
  | observed (reading : Metering.Reading RateBasis)
  /-- A checkpoint closes its interval. -/
  | checkpointed (reading : Metering.Reading RateBasis)
  /-- Its cursor is dropped. -/
  | cut
  /-- It absorbs a run with these totals. -/
  | taken (amount : Amount)
  deriving DecidableEq

/-- The event as an entry of the meter. -/
def RateEvent.entry : RateEvent → Entry RateBasis
  | .observed reading => .reading reading
  | .checkpointed reading => .reading reading
  | .cut => .cut
  | .taken amount => .taken amount

/-- Whether the event is an observation of its own. -/
def RateEvent.isObserved : RateEvent → Bool
  | .observed _ => true
  | _ => false

namespace Reducer

/-- What an observation reads. -/
def reading (r : Reducer) (observation : RateObservation) (working : Bool) (run : TaskRun) :
    Metering.Reading RateBasis where
  count := r.model.tokens observation.runId
  time := (r.model.rateCursors.get observation.runId).elim observation.observedAtMs
    fun cursor => max cursor.lastObservedAtMs observation.observedAtMs
  active := working
  basis := match observation.origin with
    | .historical => none
    | .live epoch => some (epoch, run.key)

/-- The reading of an observation, or a cut when the run does not exist. -/
def readingEntry (r : Reducer) (observation : RateObservation) (working : Bool)
    (event : Metering.Reading RateBasis → RateEvent) : RateEvent :=
  match r.model.taskRun observation.runId with
  | none => .cut
  | some run => event (r.reading observation working run)

/-- What a checkpoint does to the ledger of a run: it reads the meter of a run that works. -/
def checkpointEvents (r : Reducer) (id : RunId) (observedAtMs : ℤ) : List RateEvent :=
  if r.rateEpochActive && (r.model.rateCursors.get id).any (·.working) then
    [r.readingEntry ⟨id, .live r.rateEpoch, observedAtMs⟩ true .checkpointed]
  else []

/-- What may happen to the ledger of a run. -/
inductive RateStep (id : RunId) : Reducer → List RateEvent → Reducer → Prop
  /-- Its rate is observed. -/
  | observe (r : Reducer) (observation : RateObservation) (working : Bool)
      (own : observation.runId = id) :
      RateStep id r [r.readingEntry observation working .observed]
        (r.observeRunRatesWithActivity observation working)
  /-- A checkpoint. -/
  | checkpoint (r : Reducer) (observedAtMs : ℤ) :
      RateStep id r (r.checkpointEvents id observedAtMs) (r.checkpointRunRates observedAtMs).1
  /-- A new epoch. -/
  | beginEpoch (r : Reducer) : RateStep id r [.cut] r.beginRateEpoch
  /-- The run absorbs another one. -/
  | merge (r : Reducer) {absorbed : RunId} {sr ar : TaskRun} {graphs : ContractedGraphs} (t : ℤ)
      (permitted : MergePermitted r.model id absorbed sr ar graphs) :
      RateStep id r [.taken (r.model.rateAmount absorbed)]
        (r.setModel (mergedModel r.model id absorbed sr graphs t))
  /-- Anything that leaves the totals and the cursor of the run alone. -/
  | aside {r r' : Reducer} (totals : r'.model.rateTotals.get id = r.model.rateTotals.get id)
      (cursor : r'.model.rateCursors.get id = r.model.rateCursors.get id) : RateStep id r [] r'

/-! ### One observation -/

section

variable {r r' : Reducer} {observation : RateObservation} {working : Bool} {id : RunId}

/-- An observation leaves the ledgers of other runs alone. -/
theorem observe_other (r : Reducer) {observation : RateObservation} (working : Bool)
    (h : observation.runId ≠ id) :
    (r.observeRunRatesWithActivity observation working).model.rateTotals.get id =
        r.model.rateTotals.get id ∧
      (r.observeRunRatesWithActivity observation working).model.rateCursors.get id =
        r.model.rateCursors.get id := by
  unfold observeRunRatesWithActivity
  dsimp only
  split
  · exact ⟨rfl, HashMap.get_remove_ne _ h.symm⟩
  · split
    · exact ⟨rfl, HashMap.get_insert_ne _ _ h.symm⟩
    · split_ifs
      · exact ⟨HashMap.get_insert_ne _ _ h.symm, HashMap.get_insert_ne _ _ h.symm⟩
      · exact ⟨rfl, HashMap.get_insert_ne _ _ h.symm⟩

/-- The cursor after an observation is what it read. -/
theorem observe_lastRate (own : observation.runId = id) :
    (r.observeRunRatesWithActivity observation working).model.lastRate id =
      (r.model.taskRun id).map (r.reading observation working) := by
  subst own
  unfold observeRunRatesWithActivity
  dsimp only
  cases hrun : r.model.taskRun observation.runId with
  | none => simp [DomainModel.lastRate, setModel, DomainModel.removeRunRateCursor]
  | some run =>
    cases hcursor : r.model.rateCursors.get observation.runId with
    | none =>
      cases horigin : observation.origin <;>
        simp [DomainModel.lastRate, setModel, DomainModel.setRunRateCursor, reading,
          RunRateCursor.reading, DomainModel.tokens, measurement, horigin, hcursor]
    | some cursor =>
      cases horigin : observation.origin <;>
        simp [DomainModel.lastRate, setModel, DomainModel.setRunRateCursor, reading,
          RunRateCursor.reading, DomainModel.tokens, measurement, horigin, hcursor]

/-- Two readings may be compared just when the code trusts the interval between them. -/
theorem trusted_iff {cursor : RunRateCursor} {run : TaskRun} :
    ((r.measurement observation.origin).2 && cursor.liveBaseline &&
        decide (cursor.measurementEpoch = (r.measurement observation.origin).1) &&
        decide (cursor.identityBasis = run.key)) = true ↔
      cursor.reading.basis.isSome = true ∧
        cursor.reading.basis = (r.reading observation working run).basis := by
  cases horigin : observation.origin with
  | historical =>
    simp only [measurement, reading, horigin, Bool.false_and, Bool.false_eq_true, false_iff, not_and]
    intro hsome hnone
    rw [hnone] at hsome
    cases hsome
  | live epoch =>
    cases hlive : cursor.liveBaseline with
    | false => simp [RunRateCursor.reading, hlive]
    | true =>
      simp only [measurement, reading, RunRateCursor.reading, horigin, hlive, Bool.true_and, if_true,
        Option.isSome_some, true_and, Bool.and_eq_true, Option.some.injEq, Prod.mk.injEq]
      exact and_congr decide_eq_true_iff decide_eq_true_iff

/-- The totals of a run after something was added. -/
theorem totalAmount_saturatingAdd (totals delta : RunRateTotals) (h : 0 ≤ delta.workingMs) :
    DomainModel.totalAmount (some (totals.saturatingAdd delta).1) =
      cutOff DomainModel.rateLimit (DomainModel.totalAmount (some totals) +
        (delta.outputTokens, delta.workingMs)) := by
  rw [RunRateTotals.saturatingAdd_fst]
  simp only [DomainModel.totalAmount, cutOff, DomainModel.rateLimit, Option.getD_some, Prod.mk_add_mk,
    Prod.mk.injEq, persistedRateTotalMax, i64Max]
  omega

/-- An interval never counts time backwards. -/
theorem intervalDelta_workingMs_nonneg (cursor : RunRateCursor) (outputTokens : ℕ) {t : ℤ}
    (h : cursor.lastObservedAtMs ≤ t) : 0 ≤ (intervalDelta cursor outputTokens t).workingMs := by
  simp only [intervalDelta, satSubI64, i64Min, i64Max]
  split_ifs
  · omega
  · exact le_rfl

/-- An amount within the limit is left alone. -/
theorem cutOff_totalAmount (totals : Option RunRateTotals) :
    cutOff DomainModel.rateLimit (DomainModel.totalAmount totals) = DomainModel.totalAmount totals := by
  simp only [cutOff, DomainModel.rateLimit, DomainModel.totalAmount, Prod.mk.injEq]
  omega

/-- The saturation of an interval is the saturation of the totals. -/
theorem cutOff_intervalDelta (totals : Option RunRateTotals) (cursor : RunRateCursor)
    (outputTokens : ℕ) {t : ℤ} (h : cursor.lastObservedAtMs ≤ t) :
    cutOff DomainModel.rateLimit (DomainModel.totalAmount totals +
        ((intervalDelta cursor outputTokens t).outputTokens,
          (intervalDelta cursor outputTokens t).workingMs)) =
      cutOff DomainModel.rateLimit (DomainModel.totalAmount totals +
        (outputTokens - cursor.baselineOutputTokens,
          if cursor.working then t - cursor.lastObservedAtMs else 0)) := by
  simp only [intervalDelta, satSubI64, i64Min, i64Max, cutOff, DomainModel.rateLimit,
    DomainModel.totalAmount, Prod.mk_add_mk, Prod.mk.injEq, true_and]
  split_ifs
  · omega
  · rfl

/-- What is counted between the cursor and an observation. -/
def increment (r : Reducer) (observation : RateObservation) (working : Bool) : Amount :=
  match r.model.taskRun observation.runId, r.model.lastRate observation.runId with
  | some run, some last => between last (r.reading observation working run)
  | _, _ => 0

/-- The totals grow by what is counted. -/
theorem observe_rateAmount (own : observation.runId = id) :
    (r.observeRunRatesWithActivity observation working).model.rateAmount id =
      cutOff DomainModel.rateLimit
        (r.model.rateAmount id + r.increment observation working) := by
  subst own
  have hsame : ∀ m : DomainModel, m.rateTotals.get observation.runId =
      r.model.rateTotals.get observation.runId →
      m.rateAmount observation.runId =
        cutOff DomainModel.rateLimit (r.model.rateAmount observation.runId + 0) := by
    intro m hm
    rw [add_zero, DomainModel.rateAmount, hm]
    exact (cutOff_totalAmount _).symm
  unfold observeRunRatesWithActivity increment
  dsimp only
  cases hrun : r.model.taskRun observation.runId with
  | none => exact hsame _ rfl
  | some run =>
    cases hcursor : r.model.rateCursors.get observation.runId with
    | none =>
      simp only [DomainModel.lastRate, hcursor, Option.map_none]
      exact hsame _ rfl
    | some cursor =>
      simp only [DomainModel.lastRate, hcursor, Option.map_some]
      have hlater : cursor.lastObservedAtMs ≤ max cursor.lastObservedAtMs observation.observedAtMs :=
        le_max_left _ _
      by_cases htrusted : ((r.measurement observation.origin).2 && cursor.liveBaseline &&
        decide (cursor.measurementEpoch = (r.measurement observation.origin).1) &&
        decide (cursor.identityBasis = run.key)) = true
      · have hbetween : between cursor.reading (r.reading observation working run) =
            (r.model.tokens observation.runId - cursor.baselineOutputTokens,
              if cursor.working then
                max cursor.lastObservedAtMs observation.observedAtMs - cursor.lastObservedAtMs
              else 0) := by
          have htime : (r.reading observation working run).time =
              max cursor.lastObservedAtMs observation.observedAtMs := by
            simp [reading, hcursor]
          unfold between
          rw [if_pos (trusted_iff.mp htrusted), htime]
          rfl
        rw [hbetween, DomainModel.rateAmount, DomainModel.rateAmount, ← cutOff_intervalDelta _ _ _ hlater]
        have hnonneg :=
          intervalDelta_workingMs_nonneg cursor (r.model.tokens observation.runId) hlater
        simp only [htrusted, Bool.true_and, Bool.or_eq_true, decide_eq_true_eq]
        split_ifs with hadds
        · show DomainModel.totalAmount (HashMap.get (HashMap.insert _ _ _) _) = _
          rw [HashMap.get_insert_self]
          exact totalAmount_saturatingAdd _ _ hnonneg
        · have hzero : ((intervalDelta cursor (r.model.tokens observation.runId)
              (max cursor.lastObservedAtMs observation.observedAtMs)).outputTokens,
              (intervalDelta cursor (r.model.tokens observation.runId)
              (max cursor.lastObservedAtMs observation.observedAtMs)).workingMs) = (0 : Amount) := by
            obtain ⟨hcount, htime⟩ := not_or.mp hadds
            exact Prod.ext (Nat.eq_zero_of_not_pos hcount) (le_antisymm (not_lt.mp htime) hnonneg)
          rw [hzero]
          exact hsame _ rfl
      · have hbetween : between cursor.reading (r.reading observation working run) = 0 :=
          if_neg fun h => htrusted (trusted_iff.mpr h)
        rw [hbetween]
        refine hsame _ ?_
        rw [if_neg (by simp [htrusted])]
        rfl

/-- An entry that reads counts what the observation counts. -/
theorem counted_readingEntry {event : Metering.Reading RateBasis → RateEvent}
    (hevent : ∀ reading, (event reading).entry = .reading reading) :
    counted (r.model.lastRate observation.runId) [(r.readingEntry observation working event).entry] =
      r.increment observation working := by
  unfold readingEntry increment
  cases r.model.taskRun observation.runId with
  | none => rfl
  | some run =>
    simp only [hevent, counted, add_zero]
    cases r.model.lastRate observation.runId <;> rfl

theorem lastReading_readingEntry {event : Metering.Reading RateBasis → RateEvent}
    (hevent : ∀ reading, (event reading).entry = .reading reading) (a : Option (Metering.Reading RateBasis)) :
    lastReading a [(r.readingEntry observation working event).entry] =
      (r.model.taskRun observation.runId).map (r.reading observation working) := by
  unfold readingEntry
  cases r.model.taskRun observation.runId with
  | none => rfl
  | some run => simp only [hevent, lastReading, Option.map_some]

/-- The clock does not go back. -/
theorem increment_nonneg : 0 ≤ (r.increment observation working).2 := by
  unfold increment
  split
  · rename_i run last hrun hlast
    obtain ⟨cursor, hcursor, rfl⟩ := Option.map_eq_some_iff.mp hlast
    unfold between
    split_ifs with hsame hactive
    · simp only [reading, hcursor, Option.elim_some, RunRateCursor.reading]
      omega
    · exact le_rfl
    · exact le_rfl
  · exact le_rfl

/-! ### What one step counts -/

/-- What the meter counts in a step, the totals grow by; and no step counts time backwards. -/
structure Metered (id : RunId) (r : Reducer) (events : List RateEvent) (r' : Reducer) : Prop where
  cursor : r'.model.lastRate id = lastReading (r.model.lastRate id) (events.map RateEvent.entry)
  amount : r'.model.rateAmount id = cutOff DomainModel.rateLimit (r.model.rateAmount id +
    counted (r.model.lastRate id) (events.map RateEvent.entry))
  forward : 0 ≤ (counted (r.model.lastRate id) (events.map RateEvent.entry)).2

/-- Nothing happens to the totals and the cursor. -/
theorem Metered.aside (totals : r'.model.rateTotals.get id = r.model.rateTotals.get id)
    (cursor : r'.model.rateCursors.get id = r.model.rateCursors.get id) : Metered id r [] r' := by
  refine ⟨congrArg (Option.map _) cursor, ?_, le_rfl⟩
  rw [DomainModel.rateAmount, totals, List.map_nil, counted, add_zero, DomainModel.rateAmount,
    cutOff_totalAmount]

/-- The meter is read. -/
theorem Metered.reading {event : Metering.Reading RateBasis → RateEvent}
    (hevent : ∀ reading, (event reading).entry = .reading reading)
    (hlast : r'.model.lastRate observation.runId =
      (r.model.taskRun observation.runId).map (r.reading observation working))
    (hamount : r'.model.rateAmount observation.runId = cutOff DomainModel.rateLimit
      (r.model.rateAmount observation.runId + r.increment observation working)) :
    Metered observation.runId r [r.readingEntry observation working event] r' := by
  refine ⟨?_, ?_, ?_⟩
  · rw [hlast]
    exact (lastReading_readingEntry hevent _).symm
  · rw [hamount]
    exact congrArg (fun x => cutOff _ (_ + x)) (counted_readingEntry hevent).symm
  · show 0 ≤ (counted _ [_]).2
    rw [counted_readingEntry hevent]
    exact increment_nonneg

/-! ### A checkpoint -/

/-- What the ledger of a run depends on. -/
structure SameLedger (id : RunId) (r r' : Reducer) : Prop where
  taskRun : r'.model.taskRun id = r.model.taskRun id
  tokens : r'.model.tokens id = r.model.tokens id
  totals : r'.model.rateTotals.get id = r.model.rateTotals.get id
  cursor : r'.model.rateCursors.get id = r.model.rateCursors.get id
  epoch : r'.rateEpoch = r.rateEpoch

theorem SameLedger.refl (id : RunId) (r : Reducer) : SameLedger id r r := ⟨rfl, rfl, rfl, rfl, rfl⟩

theorem SameLedger.trans {r'' : Reducer} (h : SameLedger id r r') (h' : SameLedger id r' r'') :
    SameLedger id r r'' :=
  ⟨h'.taskRun.trans h.taskRun, h'.tokens.trans h.tokens, h'.totals.trans h.totals,
    h'.cursor.trans h.cursor, h'.epoch.trans h.epoch⟩

theorem SameLedger.lastRate (h : SameLedger id r r') : r'.model.lastRate id = r.model.lastRate id := by
  rw [DomainModel.lastRate, DomainModel.lastRate, h.cursor]

theorem SameLedger.rateAmount (h : SameLedger id r r') :
    r'.model.rateAmount id = r.model.rateAmount id := by
  rw [DomainModel.rateAmount, DomainModel.rateAmount, h.totals]

theorem SameLedger.reading (h : SameLedger id r r') (own : observation.runId = id) (working : Bool)
    (run : TaskRun) :
    r'.reading observation working run = r.reading observation working run := by
  subst own
  simp only [Reducer.reading, h.tokens, h.cursor]

theorem SameLedger.increment (h : SameLedger id r r') (own : observation.runId = id) :
    r'.increment observation working = r.increment observation working := by
  have hreading := h.reading own working
  subst own
  simp only [Reducer.increment, h.taskRun, h.lastRate, hreading]

/-- An observation changes no run, no usage and no epoch. -/
theorem observe_frame (r : Reducer) (observation : RateObservation) (working : Bool) :
    (r.observeRunRatesWithActivity observation working).model.taskRuns = r.model.taskRuns ∧
      (r.observeRunRatesWithActivity observation working).model.telemetry = r.model.telemetry ∧
      (r.observeRunRatesWithActivity observation working).rateEpoch = r.rateEpoch ∧
      (r.observeRunRatesWithActivity observation working).rateEpochActive = r.rateEpochActive := by
  unfold observeRunRatesWithActivity
  dsimp only
  split
  · exact ⟨rfl, rfl, rfl, rfl⟩
  · split
    · exact ⟨rfl, rfl, rfl, rfl⟩
    · split_ifs
      · exact ⟨rfl, rfl, rfl, rfl⟩
      · exact ⟨rfl, rfl, rfl, rfl⟩

theorem SameLedger.observe (h : observation.runId ≠ id) :
    SameLedger id r (r.observeRunRatesWithActivity observation working) := by
  obtain ⟨hruns, htelemetry, hepoch, -⟩ := observe_frame r observation working
  obtain ⟨htotals, hcursor⟩ := observe_other r working h
  refine ⟨?_, ?_, htotals, hcursor, hepoch⟩
  · rw [DomainModel.taskRun, hruns]
    rfl
  · rw [DomainModel.tokens, htelemetry]
    rfl

/-- The observations of a checkpoint. -/
def checkpointAll (r : Reducer) (runIds : List RunId) (observedAtMs : ℤ) : Reducer :=
  runIds.foldl (fun r runId =>
    r.observeRunRatesWithActivity ⟨runId, .live r.rateEpoch, observedAtMs⟩ true) r

theorem SameLedger.checkpointAll {runIds : List RunId} (observedAtMs : ℤ) (h : id ∉ runIds) :
    SameLedger id r (r.checkpointAll runIds observedAtMs) := by
  induction runIds generalizing r with
  | nil => exact SameLedger.refl id r
  | cons a runIds ih =>
    have hne : a ≠ id := fun e => h (e ▸ List.mem_cons_self)
    exact (SameLedger.observe hne).trans (ih fun hmem => h (List.mem_cons_of_mem a hmem))

/-- A run that is observed once is observed in the state before. -/
theorem checkpointAll_own {runIds : List RunId} (observedAtMs : ℤ) (hnodup : runIds.Nodup)
    (h : id ∈ runIds) :
    (r.checkpointAll runIds observedAtMs).model.lastRate id =
        (r.model.taskRun id).map (r.reading ⟨id, .live r.rateEpoch, observedAtMs⟩ true) ∧
      (r.checkpointAll runIds observedAtMs).model.rateAmount id =
        cutOff DomainModel.rateLimit (r.model.rateAmount id +
          r.increment ⟨id, .live r.rateEpoch, observedAtMs⟩ true) := by
  induction runIds generalizing r with
  | nil => cases h
  | cons a runIds ih =>
    obtain ⟨hfirst, hrest⟩ := List.nodup_cons.mp hnodup
    by_cases hid : a = id
    · subst hid
      have hsame := SameLedger.checkpointAll (r := r.observeRunRatesWithActivity
        ⟨a, .live r.rateEpoch, observedAtMs⟩ true) observedAtMs hfirst
      exact ⟨hsame.lastRate.trans (observe_lastRate rfl), hsame.rateAmount.trans (observe_rateAmount rfl)⟩
    · have hsame : SameLedger id r (r.observeRunRatesWithActivity
          ⟨a, .live r.rateEpoch, observedAtMs⟩ true) := SameLedger.observe hid
      obtain ⟨hlast, hamount⟩ := ih (r := r.observeRunRatesWithActivity
        ⟨a, .live r.rateEpoch, observedAtMs⟩ true) hrest
        ((List.mem_cons.mp h).resolve_left fun e => hid e.symm)
      refine ⟨hlast.trans ?_, hamount.trans ?_⟩
      · rw [hsame.epoch, hsame.taskRun]
        exact congrArg (Option.map · _) (funext fun run => hsame.reading rfl true run)
      · rw [hsame.epoch, hsame.rateAmount, hsame.increment rfl]

/-- The runs that a checkpoint observes. -/
def checkpointIds (r : Reducer) : List RunId :=
  ((r.model.rateCursors.toList.filter (·.2.working)).map Prod.fst).insertionSort (· ≤ ·)

theorem checkpointIds_nodup (r : Reducer) : r.checkpointIds.Nodup := by
  refine ((List.perm_insertionSort _ _).nodup_iff).mpr ?_
  have hkeys := r.model.rateCursors.keys_nodup
  rw [HashMap.keys_eq_map_toList] at hkeys
  exact hkeys.sublist (List.filter_sublist.map _)

theorem mem_checkpointIds : id ∈ r.checkpointIds ↔ (r.model.rateCursors.get id).any (·.working) = true := by
  rw [checkpointIds, List.mem_insertionSort]
  simp only [List.mem_map, List.mem_filter, Prod.exists, HashMap.mem_toList, exists_and_right,
    exists_eq_right, Option.any_eq_true]

/-- The model after a checkpoint. -/
theorem checkpoint_model (r : Reducer) (observedAtMs : ℤ) : (r.checkpointRunRates observedAtMs).1.model =
    (if r.rateEpochActive then r.checkpointAll r.checkpointIds observedAtMs else r).model := by
  unfold checkpointRunRates
  dsimp only
  split_ifs
  · exact congrArg Core.model (publishSnapshot_toCore _)
  · rfl
  · exact congrArg Core.model (publishSnapshot_toCore r)
  · rfl

/-- A checkpoint reads the meter of a run that works and leaves the others alone. -/
theorem Metered.checkpoint (r : Reducer) (id : RunId) (observedAtMs : ℤ) :
    Metered id r (r.checkpointEvents id observedAtMs) (r.checkpointRunRates observedAtMs).1 := by
  have hmodel := checkpoint_model r observedAtMs
  unfold checkpointEvents
  by_cases hactive : r.rateEpochActive = true
  · by_cases hworks : (r.model.rateCursors.get id).any (·.working) = true
    · obtain ⟨hlast, hamount⟩ := checkpointAll_own observedAtMs r.checkpointIds_nodup
        (mem_checkpointIds.mpr hworks)
      rw [if_pos hactive] at hmodel
      rw [if_pos (by rw [hactive, hworks]; rfl)]
      exact @Metered.reading r _ ⟨id, .live r.rateEpoch, observedAtMs⟩ true .checkpointed (fun _ => rfl)
        (by rw [hmodel, hlast]) (by rw [hmodel, hamount])
    · have hsame := SameLedger.checkpointAll (r := r) observedAtMs (mt mem_checkpointIds.mp hworks)
      rw [if_pos hactive] at hmodel
      rw [if_neg (by simp [hworks])]
      exact Metered.aside (by rw [hmodel, hsame.totals]) (by rw [hmodel, hsame.cursor])
  · rw [if_neg hactive] at hmodel
    rw [if_neg (by simp [hactive])]
    exact Metered.aside (by rw [hmodel]) (by rw [hmodel])

/-! ### Epochs and merges -/

/-- A new epoch forgets every cursor. -/
theorem Metered.beginEpoch (r : Reducer) (id : RunId) : Metered id r [.cut] r.beginRateEpoch := by
  refine ⟨rfl, ?_, le_rfl⟩
  show r.model.rateAmount id = _
  rw [List.map_cons, List.map_nil, RateEvent.entry, counted, counted, add_zero, DomainModel.rateAmount,
    cutOff_totalAmount]

/-- The totals of two runs after one absorbed the other. -/
theorem totalAmount_absorb (survivor absorbed : Option RunRateTotals) :
    DomainModel.totalAmount (match absorbed with
        | some absorbed => some ((survivor.getD {}).saturatingAdd absorbed).1
        | none => survivor) =
      cutOff DomainModel.rateLimit
        (DomainModel.totalAmount survivor + (DomainModel.totalAmount absorbed + 0)) := by
  cases absorbed with
  | none =>
    have hzero : DomainModel.totalAmount none = 0 := rfl
    rw [hzero, add_zero, add_zero, cutOff_totalAmount]
  | some absorbed =>
    show DomainModel.totalAmount (some ((survivor.getD {}).saturatingAdd absorbed).1) = _
    rw [RunRateTotals.saturatingAdd_fst]
    simp only [DomainModel.totalAmount, cutOff, DomainModel.rateLimit, Option.getD_some, add_zero,
      Prod.mk_add_mk, Prod.mk.injEq, persistedRateTotalMax, i64Max]
    omega

/-- A survivor takes over the totals of the absorbed run, once, and both cursors are dropped. -/
theorem Metered.merge (r : Reducer) {absorbed : RunId} {sr : TaskRun} {graphs : ContractedGraphs}
    (hne : id ≠ absorbed) (t : ℤ) :
    Metered id r [.taken (r.model.rateAmount absorbed)]
      (r.setModel (mergedModel r.model id absorbed sr graphs t)) := by
  obtain ⟨-, -, -, -, -, hcursors, -⟩ := rows_mergedModel r.model id absorbed sr graphs t
  refine ⟨?_, ?_, ?_⟩
  · show (HashMap.get (mergedModel r.model id absorbed sr graphs t).rateCursors id).map _ = none
    rw [hcursors, HashMap.get_remove, if_neg hne, HashMap.get_remove_self]
    rfl
  · show DomainModel.totalAmount
      (HashMap.get (mergedModel r.model id absorbed sr graphs t).rateTotals id) = _
    rw [get_rateTotals_mergedModel _ _ _ _ _ _ hne, get_rateTotals_foldRunRateTotals _ _ _ hne,
      if_neg hne, if_pos rfl]
    exact totalAmount_absorb _ _
  · show (0 : ℤ) ≤ min (max _ 0) i64Max + 0
    simp only [i64Max]
    omega

/-- What one step does to the ledger. -/
theorem RateStep.metered {events : List RateEvent} (h : RateStep id r events r') :
    Metered id r events r' := by
  cases h with
  | observe observation working own =>
    subst own
    exact Metered.reading (fun _ => rfl) (observe_lastRate rfl) (observe_rateAmount rfl)
  | checkpoint observedAtMs => exact Metered.checkpoint r id observedAtMs
  | beginEpoch => exact Metered.beginEpoch r id
  | merge t permitted => exact Metered.merge r permitted.ne t
  | aside totals cursor => exact Metered.aside totals cursor

/-! ### Stored totals -/

theorem storedAmount_saturatingAdd {m : DomainModel} {totals delta : RunRateTotals}
    (h : m.rateTotals.get id = some (totals.saturatingAdd delta).1) :
    m.storedAmount id = m.rateAmount id := by
  rw [DomainModel.storedAmount, DomainModel.rateAmount, h, RunRateTotals.saturatingAdd_fst]
  simp only [DomainModel.totalAmount, Option.getD_some, Prod.mk.injEq, persistedRateTotalMax, i64Max]
  omega

theorem storedAmount_same {m m' : DomainModel} (h : m'.rateTotals.get id = m.rateTotals.get id)
    (hstored : m.storedAmount id = m.rateAmount id) : m'.storedAmount id = m'.rateAmount id := by
  rw [DomainModel.storedAmount, DomainModel.rateAmount, h]
  exact hstored

theorem observe_stored (observation : RateObservation) (working : Bool)
    (h : r.model.storedAmount id = r.model.rateAmount id) :
    (r.observeRunRatesWithActivity observation working).model.storedAmount id =
      (r.observeRunRatesWithActivity observation working).model.rateAmount id := by
  by_cases own : observation.runId = id
  · subst own
    unfold observeRunRatesWithActivity
    dsimp only
    split
    · exact storedAmount_same rfl h
    · split
      · exact storedAmount_same rfl h
      · split_ifs
        · exact storedAmount_saturatingAdd (HashMap.get_insert_self _ _ _)
        · exact storedAmount_same rfl h
  · exact storedAmount_same (observe_other r working own).1 h

theorem checkpointAll_stored {runIds : List RunId} (observedAtMs : ℤ)
    (h : r.model.storedAmount id = r.model.rateAmount id) :
    (r.checkpointAll runIds observedAtMs).model.storedAmount id =
      (r.checkpointAll runIds observedAtMs).model.rateAmount id := by
  induction runIds generalizing r with
  | nil => exact h
  | cons a runIds ih => exact ih (observe_stored _ _ h)

/-- Totals that are stored within their domain stay so. -/
theorem RateStep.stored {events : List RateEvent} (h : RateStep id r events r')
    (hstored : r.model.storedAmount id = r.model.rateAmount id) :
    r'.model.storedAmount id = r'.model.rateAmount id := by
  cases h with
  | observe observation working own => exact observe_stored observation working hstored
  | checkpoint observedAtMs =>
    have hmodel := checkpoint_model r observedAtMs
    rw [hmodel]
    split_ifs
    · exact checkpointAll_stored observedAtMs hstored
    · exact hstored
  | beginEpoch => exact storedAmount_same rfl hstored
  | @merge absorbed sr ar graphs t permitted =>
    have htotals := get_rateTotals_mergedModel r.model id absorbed sr graphs t permitted.ne id
    rw [get_rateTotals_foldRunRateTotals _ _ _ permitted.ne, if_neg permitted.ne, if_pos rfl] at htotals
    cases habsorbed : r.model.rateTotals.get absorbed with
    | none =>
      rw [habsorbed] at htotals
      exact storedAmount_same htotals hstored
    | some totals =>
      rw [habsorbed] at htotals
      exact storedAmount_saturatingAdd htotals
  | aside totals cursor => exact storedAmount_same totals hstored

/-! ### Runs -/

theorem Metered.refl (id : RunId) (r : Reducer) : Metered id r [] r := Metered.aside rfl rfl

theorem Metered.trans {r'' : Reducer} {events events' : List RateEvent} (h : Metered id r events r')
    (h' : Metered id r' events' r'') : Metered id r (events ++ events') r'' := by
  have hcounted : counted (r.model.lastRate id) ((events ++ events').map RateEvent.entry) =
      counted (r.model.lastRate id) (events.map RateEvent.entry) +
        counted (r'.model.lastRate id) (events'.map RateEvent.entry) := by
    rw [List.map_append, counted_append, ← h.cursor]
  refine ⟨?_, ?_, ?_⟩
  · rw [h'.cursor, h.cursor, List.map_append, lastReading_append]
  · rw [h'.amount, h.amount, cutOff_add _ _ _ h'.forward, hcounted, add_assoc]
  · rw [hcounted]
    exact add_nonneg h.forward h'.forward

/-- Whatever happens to a run, its totals are what the meter counts. -/
theorem metered {events : List RateEvent} (h : Runs (RateStep id) r events r') :
    Metered id r events r' := by
  induction h with
  | refl => exact Metered.refl id _
  | tail _ hstep ih => exact ih.trans hstep.metered

theorem stored {events : List RateEvent} (h : Runs (RateStep id) r events r')
    (hstored : r.model.storedAmount id = r.model.rateAmount id) :
    r'.model.storedAmount id = r'.model.rateAmount id :=
  h.invariant (I := fun r => r.model.storedAmount id = r.model.rateAmount id) RateStep.stored hstored

/-! ### Checkpoints repeat the activity before them -/

/-- Every checkpoint reads a run that worked at the last reading. -/
def Repeating : Option (Metering.Reading RateBasis) → List RateEvent → Prop
  | _, [] => True
  | _, .observed b :: events => Repeating (some b) events
  | a, .checkpointed b :: events =>
    (a.any (·.active) = true ∧ b.active = true) ∧ Repeating (some b) events
  | _, .cut :: events => Repeating none events
  | _, .taken _ :: events => Repeating none events

theorem repeating_append (a : Option (Metering.Reading RateBasis)) (events events' : List RateEvent) :
    Repeating a (events ++ events') ↔
      Repeating a events ∧ Repeating (lastReading a (events.map RateEvent.entry)) events' := by
  induction events generalizing a with
  | nil => simp [Repeating, lastReading]
  | cons e events ih => cases e <;> simp [Repeating, lastReading, RateEvent.entry, ih, and_assoc]

theorem RateStep.repeating {events : List RateEvent} (h : RateStep id r events r') :
    Repeating (r.model.lastRate id) events := by
  cases h with
  | observe observation working own =>
    unfold readingEntry
    split
    · trivial
    · trivial
  | checkpoint observedAtMs =>
    unfold checkpointEvents
    split_ifs with hworks
    · obtain ⟨-, hworks⟩ := Bool.and_eq_true_iff.mp hworks
      unfold readingEntry
      split
      · trivial
      · refine ⟨⟨?_, rfl⟩, trivial⟩
        unfold DomainModel.lastRate
        rw [Option.any_map]
        exact hworks
    · trivial
  | beginEpoch => trivial
  | merge t permitted => trivial
  | aside totals cursor => trivial

theorem repeating {events : List RateEvent} (h : Runs (RateStep id) r events r') :
    Repeating (r.model.lastRate id) events := by
  induction h with
  | refl => trivial
  | tail hrun hstep ih =>
    refine (repeating_append _ _ _).mpr ⟨ih, ?_⟩
    rw [← (metered hrun).cursor]
    exact hstep.repeating

/-- Without its checkpoints a sequence of readings has the readings that the checkpoints were inserted
into. -/
theorem inserted_of_repeating {a : Metering.Reading RateBasis} {events : List RateEvent} {last : Metering.Reading RateBasis}
    {readings : List (Metering.Reading RateBasis)} (hrepeat : Repeating (some a) events)
    (h : events.map RateEvent.entry = readings.map .reading) :
    ∃ readings₀, (events.filter RateEvent.isObserved).map RateEvent.entry = readings₀.map .reading ∧
      Inserted a (readings ++ [last]) (readings₀ ++ [last]) := by
  induction events generalizing a readings with
  | nil =>
    cases readings with
    | nil => exact ⟨[], rfl, .old (.nil last)⟩
    | cons b readings => cases h
  | cons event events ih =>
    cases readings with
    | nil => cases h
    | cons b readings =>
      obtain ⟨hhead, htail⟩ := List.cons.inj h
      cases event with
      | observed c =>
        cases hhead
        obtain ⟨readings₀, h₀, hinserted⟩ := ih hrepeat htail
        refine ⟨b :: readings₀, ?_, .old hinserted⟩
        rw [List.filter_cons_of_pos rfl, List.map_cons, h₀]
        rfl
      | checkpointed c =>
        cases hhead
        obtain ⟨⟨hactive, hworks⟩, hrest⟩ := hrepeat
        obtain ⟨readings₀, h₀, hinserted⟩ := ih hrest htail
        refine ⟨readings₀, ?_, .new (hworks.trans hactive.symm) (by simp) hinserted⟩
        rw [List.filter_cons_of_neg (by simp [RateEvent.isObserved]), h₀]
      | cut => cases hhead
      | taken amount => cases hhead

/-! ### The ledger -/

/-- The interval since the cursor may be counted. -/
def Comparable (r : Reducer) (observation : RateObservation) : Prop :=
  ∃ cursor run, r.model.rateCursors.get observation.runId = some cursor ∧
    r.model.taskRun observation.runId = some run ∧ cursor.liveBaseline = true ∧
    observation.origin = .live cursor.measurementEpoch ∧ cursor.identityBasis = run.key

/-- Otherwise nothing is counted. -/
theorem observe_incomparable (h : ¬ r.Comparable observation) :
    (r.observeRunRatesWithActivity observation working).model.rateTotals = r.model.rateTotals ∧
      (r.observeRunRatesWithActivity observation working).dirtyRateTotals = r.dirtyRateTotals := by
  unfold observeRunRatesWithActivity
  dsimp only
  cases hrun : r.model.taskRun observation.runId with
  | none => exact ⟨rfl, rfl⟩
  | some run =>
    cases hcursor : r.model.rateCursors.get observation.runId with
    | none => exact ⟨rfl, rfl⟩
    | some cursor =>
      dsimp only
      rw [if_neg]
      · exact ⟨rfl, rfl⟩
      · intro htrusted
        refine h ⟨cursor, run, hcursor, hrun, ?_⟩
        obtain ⟨htrusted, -⟩ := Bool.and_eq_true_iff.mp htrusted
        obtain ⟨htrusted, hkey⟩ := Bool.and_eq_true_iff.mp htrusted
        obtain ⟨htrusted, hepoch⟩ := Bool.and_eq_true_iff.mp htrusted
        obtain ⟨horigin, hlive⟩ := Bool.and_eq_true_iff.mp htrusted
        refine ⟨hlive, ?_, of_decide_eq_true hkey⟩
        cases hobserved : observation.origin with
        | historical =>
          rw [hobserved] at horigin
          cases horigin
        | live epoch =>
          rw [hobserved] at hepoch
          rw [of_decide_eq_true hepoch]
          rfl

/-- While readings may be compared, a run counts its tokens from end to end and the time it works. -/
theorem span_counts {events : List RateEvent} {basis : RateBasis} {a : Metering.Reading RateBasis}
    {readings : List (Metering.Reading RateBasis)} (hrun : Runs (RateStep id) r events r')
    (hlast : r.model.lastRate id = some a) (hreads : events.map RateEvent.entry = readings.map .reading)
    (hspan : Span basis a readings) :
    r'.model.lastRate id = some (latest a readings) ∧
      r'.model.rateAmount id = cutOff DomainModel.rateLimit
        (r.model.rateAmount id + ((latest a readings).count - a.count, activeTime a readings)) := by
  have h := metered hrun
  refine ⟨?_, ?_⟩
  · rw [h.cursor, hreads, hlast, lastReading_span]
  · rw [h.amount, hreads, hlast, counted_span hspan]

/-- Checkpoints between observations change neither the totals nor the cursor. -/
theorem checkpoints_invisible {q q' : Reducer} {events : List RateEvent} {last : Metering.Reading RateBasis}
    {basis : RateBasis} {a : Metering.Reading RateBasis} {readings : List (Metering.Reading RateBasis)}
    (hrun : Runs (RateStep id) r (events ++ [RateEvent.observed last]) r')
    (hrun₀ : Runs (RateStep id) q ((events ++ [RateEvent.observed last]).filter RateEvent.isObserved) q')
    (hlast : r.model.lastRate id = some a) (hreads : events.map RateEvent.entry = readings.map .reading)
    (hspan : Span basis a (readings ++ [last])) (hcursor : q.model.lastRate id = r.model.lastRate id)
    (hamount : q.model.rateAmount id = r.model.rateAmount id) :
    q'.model.lastRate id = r'.model.lastRate id ∧ q'.model.rateAmount id = r'.model.rateAmount id := by
  have hrepeat := repeating hrun
  rw [hlast, repeating_append] at hrepeat
  obtain ⟨readings₀, hreads₀, hinserted⟩ := @inserted_of_repeating _ _ last _ hrepeat.1 hreads
  have hall : (events ++ [RateEvent.observed last]).map RateEvent.entry =
      (readings ++ [last]).map .reading := by
    rw [List.map_append, hreads, List.map_append]
    rfl
  have hall₀ : ((events ++ [RateEvent.observed last]).filter RateEvent.isObserved).map RateEvent.entry =
      (readings₀ ++ [last]).map .reading := by
    rw [List.filter_append, List.map_append, hreads₀, List.map_append]
    rfl
  obtain ⟨h1, h2⟩ := span_counts hrun hlast hall hspan
  obtain ⟨h3, h4⟩ := span_counts hrun₀ (hcursor.trans hlast) hall₀ (hinserted.span hspan)
  refine ⟨?_, ?_⟩
  · rw [h1, h3, hinserted.latest]
  · rw [h2, h4, hamount, hinserted.latest, hinserted.activeTime]

/-- After a merge the survivor has the totals of both runs and neither run has a cursor. -/
theorem merge_once {absorbed : RunId} {sr ar : TaskRun} {graphs : ContractedGraphs} (t : ℤ)
    (h : MergePermitted r.model id absorbed sr ar graphs) :
    (mergedModel r.model id absorbed sr graphs t).rateAmount id =
        cutOff DomainModel.rateLimit (r.model.rateAmount id + r.model.rateAmount absorbed) ∧
      (mergedModel r.model id absorbed sr graphs t).rateTotals.get absorbed = none ∧
      (mergedModel r.model id absorbed sr graphs t).rateCursors.get id = none ∧
      (mergedModel r.model id absorbed sr graphs t).rateCursors.get absorbed = none := by
  obtain ⟨-, -, -, -, -, hcursors, -⟩ := rows_mergedModel r.model id absorbed sr graphs t
  refine ⟨?_, ?_, ?_, ?_⟩
  · have hmetered := (@Metered.merge id r absorbed sr graphs h.ne t).amount
    rw [List.map_cons, List.map_nil, RateEvent.entry, counted, counted, add_zero] at hmetered
    exact hmetered
  · rw [get_rateTotals_mergedModel _ _ _ _ _ _ h.ne, get_rateTotals_foldRunRateTotals _ _ _ h.ne,
      if_pos rfl]
  · rw [hcursors, HashMap.get_remove, if_neg h.ne, HashMap.get_remove_self]
  · rw [hcursors, HashMap.get_remove_self]

/-! ### The reducer's own runs -/

/-- An observation of any run is a step. -/
theorem observe_run (id : RunId) (r : Reducer) (observation : RateObservation) (working : Bool) :
    ∃ events, Runs (RateStep id) r events (r.observeRunRatesWithActivity observation working) := by
  by_cases own : observation.runId = id
  · exact ⟨_, .one (.observe r observation working own)⟩
  · obtain ⟨htotals, hcursor⟩ := observe_other r working own
    exact ⟨_, .one (.aside htotals hcursor)⟩

theorem foldl_run {α : Type} {f : Reducer → α → Reducer}
    (step : ∀ r a, ∃ events, Runs (RateStep id) r events (f r a)) (l : List α) {events : List RateEvent}
    (before : Runs (RateStep id) r events r') :
    ∃ events, Runs (RateStep id) r events (l.foldl f r') := by
  induction l generalizing r' events with
  | nil => exact ⟨events, before⟩
  | cons a l ih =>
    obtain ⟨more, hmore⟩ := step r' a
    exact ih (before.trans hmore)

/-- A usage sample is no step of the ledger; it is seen at the next observation. -/
theorem accumulateTelemetry_run (id : RunId) (r : Reducer) (key : RunKey) (sample : PendingTelemetry) :
    ∃ events, Runs (RateStep id) r events (r.accumulateTelemetry key sample) := by
  refine ⟨[], .one (.aside ?_ ?_)⟩
  · unfold accumulateTelemetry
    split <;> rfl
  · unfold accumulateTelemetry
    split <;> rfl

theorem applyPendingKey_run (id : RunId) (r : Reducer) (key : RunKey) :
    ∃ events, Runs (RateStep id) r events (r.applyPendingKey key) := by
  unfold applyPendingKey
  split
  · exact ⟨[], .refl r⟩
  · exact foldl_run (fun r sample => accumulateTelemetry_run id r key sample) _
      (.one (.aside rfl rfl))

theorem observeNoted_run (id : RunId) (origin : RateObservationOrigin) (observedAtMs : ℤ) (r : Reducer)
    (runId : RunId) : ∃ events, Runs (RateStep id) r events (observeNoted origin observedAtMs r runId) := by
  unfold observeNoted
  split
  · rename_i hrun
    have hobserve : r.observeRunRatesWithActivity ⟨runId, origin, observedAtMs⟩ false =
        r.setModel (r.model.removeRunRateCursor runId) := by
      unfold observeRunRatesWithActivity
      simp only [hrun]
    rw [← hobserve]
    exact observe_run id r _ _
  · exact observe_run id r _ _

/-- Before every publication the noted runs are observed. -/
theorem publish_run (id : RunId) (r : Reducer) (nowMs : ℤ) :
    ∃ events, Runs (RateStep id) r events (r.publish nowMs) := by
  have hsettle : ∃ events, Runs (RateStep id) r events (r.settle nowMs) := by
    obtain ⟨samples, hsamples⟩ : ∃ events, Runs (RateStep id) r events
        r.applyPendingTelemetryForKnownRuns :=
      foldl_run (applyPendingKey_run id) _ (.one (.aside rfl rfl))
    unfold settle observeNotedRuns
    dsimp only
    split_ifs
    · exact foldl_run (observeNoted_run id _ _) _ (hsamples.trans (.one (.aside rfl rfl)))
    · exact ⟨_, hsamples.trans (.one (.aside rfl rfl))⟩
  obtain ⟨events, h⟩ := hsettle
  have hmodel : (r.publish nowMs).model = (r.settle nowMs).model :=
    congrArg Core.model (publishSnapshot_toCore _)
  exact ⟨events ++ [], h.trans (Runs.one (.aside (by rw [hmodel]) (by rw [hmodel])))⟩

/-- An epoch starts with observations. -/
theorem activate_run (id : RunId) (r : Reducer) (observedAtMs : ℤ) :
    ∃ events, Runs (RateStep id) r events (r.activateRateEpoch observedAtMs) := by
  exact foldl_run (fun r candidate => observe_run id r _ _) _ (.one (.aside rfl rfl))

end

/-- The rate ledger of a run telescopes, up to the largest totals that can be stored. -/
theorem rate_ledger_telescopes (id : RunId) :
    -- over live observations in one epoch under one key the totals grow from end to end
    (∀ (r r' : Reducer) (events : List RateEvent) (basis : RateBasis) (a : Metering.Reading RateBasis)
      (readings : List (Metering.Reading RateBasis)), Runs (RateStep id) r events r' →
      r.model.lastRate id = some a → events.map RateEvent.entry = readings.map .reading →
      Span basis a readings →
      r'.model.lastRate id = some (latest a readings) ∧
        r'.model.rateAmount id = cutOff DomainModel.rateLimit (r.model.rateAmount id +
          ((latest a readings).count - a.count, activeTime a readings))) ∧
    -- and checkpoints between them change nothing
    (∀ (r r' q q' : Reducer) (events : List RateEvent) (last : Metering.Reading RateBasis) (basis : RateBasis)
      (a : Metering.Reading RateBasis) (readings : List (Metering.Reading RateBasis)),
      Runs (RateStep id) r (events ++ [RateEvent.observed last]) r' →
      Runs (RateStep id) q ((events ++ [RateEvent.observed last]).filter RateEvent.isObserved) q' →
      r.model.lastRate id = some a → events.map RateEvent.entry = readings.map .reading →
      Span basis a (readings ++ [last]) → q.model.lastRate id = r.model.lastRate id →
      q.model.rateAmount id = r.model.rateAmount id →
      q'.model.lastRate id = r'.model.lastRate id ∧
        q'.model.rateAmount id = r'.model.rateAmount id) ∧
    -- the totals within their domain are the totals that are stored
    (∀ (r r' : Reducer) (events : List RateEvent), Runs (RateStep id) r events r' →
      r.model.storedAmount id = r.model.rateAmount id →
      r'.model.storedAmount id = r'.model.rateAmount id) ∧
    -- whatever else happens, the totals are what the meter counts
    (∀ (r r' : Reducer) (events : List RateEvent), Runs (RateStep id) r events r' →
      r'.model.lastRate id = lastReading (r.model.lastRate id) (events.map RateEvent.entry) ∧
        r'.model.rateAmount id = cutOff DomainModel.rateLimit (r.model.rateAmount id +
          counted (r.model.lastRate id) (events.map RateEvent.entry))) ∧
    -- and it counts nothing across a change of epoch or key or by a historical observation
    (∀ (r : Reducer) (observation : RateObservation) (working : Bool), ¬ r.Comparable observation →
      (r.observeRunRatesWithActivity observation working).model.rateTotals = r.model.rateTotals) ∧
    (∀ r : Reducer, r.beginRateEpoch.model.rateTotals = r.model.rateTotals ∧
      r.beginRateEpoch.model.rateCursors.get id = none) ∧
    -- nor twice after a merge
    (∀ (r : Reducer) (absorbed : RunId) (sr ar : TaskRun) (graphs : ContractedGraphs) (t : ℤ),
      MergePermitted r.model id absorbed sr ar graphs →
      (mergedModel r.model id absorbed sr graphs t).rateAmount id =
          cutOff DomainModel.rateLimit (r.model.rateAmount id + r.model.rateAmount absorbed) ∧
        (mergedModel r.model id absorbed sr graphs t).rateTotals.get absorbed = none ∧
        (mergedModel r.model id absorbed sr graphs t).rateCursors.get id = none ∧
        (mergedModel r.model id absorbed sr graphs t).rateCursors.get absorbed = none) := by
  refine ⟨?_, ?_, ?_, ?_, ?_, ?_, ?_⟩
  · intro r r' events basis a readings hrun hlast hreads hspan
    exact span_counts hrun hlast hreads hspan
  · intro r r' q q' events last basis a readings hrun hrun₀ hlast hreads hspan hcursor hamount
    exact checkpoints_invisible hrun hrun₀ hlast hreads hspan hcursor hamount
  · intro r r' events hrun hstored
    exact stored hrun hstored
  · intro r r' events hrun
    exact ⟨(metered hrun).cursor, (metered hrun).amount⟩
  · intro r observation working h
    exact (observe_incomparable h).1
  · exact fun r => ⟨rfl, rfl⟩
  · exact fun r absorbed sr ar graphs t h => merge_once t h

/-- A job is at work. -/
def jobAtWork : Reducer :=
  (((fresh 0).next (jobEvent "a" .progress)).1.activateRateEpoch 0).observeRunRatesWithActivity
    ⟨⟨1⟩, .live 0, 0⟩ true

/-- The job uses some tokens. -/
def jobUses (outputTokens : ℕ) : Reducer :=
  jobAtWork.accumulateTelemetry (.controller "job")
    { atMs := 3, outputTokens := outputTokens, tokenBreakdown := {}, attribution := {} }

/-- What is read of the job. -/
def jobReading (count : ℕ) (time : ℤ) (active : Bool) : Metering.Reading RateBasis :=
  ⟨count, time, active, some (0, .controller "job")⟩

/-- The job rests at 9. -/
def jobRests (r : Reducer) : Reducer := r.observeRunRatesWithActivity ⟨⟨1⟩, .live 0, 9⟩ false

theorem jobRests_step (r : Reducer) :
    RateStep ⟨1⟩ r [r.readingEntry ⟨⟨1⟩, .live 0, 9⟩ false .observed] (jobRests r) :=
  .observe r ⟨⟨1⟩, .live 0, 9⟩ false rfl

/-- The job used seven tokens and nine milliseconds, with a checkpoint and without. -/
theorem rate_ledger_telescopes_job :
    (jobRests ((jobUses 7).checkpointRunRates 5).1).model.rateAmount ⟨1⟩ = (7, 9) ∧
      (jobRests (jobUses 7)).model.rateAmount ⟨1⟩ = (7, 9) := by
  have hrun₀ : Runs (RateStep ⟨1⟩) (jobUses 7) [.observed (jobReading 7 9 false)] (jobRests (jobUses 7)) := by
    have h := jobRests_step (jobUses 7)
    rw [show (jobUses 7).readingEntry ⟨⟨1⟩, .live 0, 9⟩ false .observed =
      .observed (jobReading 7 9 false) by decide] at h
    exact .one h
  have hrun : Runs (RateStep ⟨1⟩) (jobUses 7)
      [.checkpointed (jobReading 7 5 true), .observed (jobReading 7 9 false)]
      (jobRests ((jobUses 7).checkpointRunRates 5).1) := by
    have h := jobRests_step ((jobUses 7).checkpointRunRates 5).1
    rw [show ((jobUses 7).checkpointRunRates 5).1.readingEntry ⟨⟨1⟩, .live 0, 9⟩ false .observed =
      .observed (jobReading 7 9 false) by decide] at h
    have hcheckpoint : RateStep ⟨1⟩ (jobUses 7) _ _ := .checkpoint (jobUses 7) 5
    rw [show (jobUses 7).checkpointEvents ⟨1⟩ 5 = [.checkpointed (jobReading 7 5 true)] by decide]
      at hcheckpoint
    exact (Runs.one hcheckpoint).tail h
  have hlast : (jobUses 7).model.lastRate ⟨1⟩ = some (jobReading 0 0 true) := by decide
  have hspan : Span (0, .controller "job") (jobReading 0 0 true)
      [jobReading 7 5 true, jobReading 7 9 false] :=
    ⟨⟨rfl, rfl, by decide, by decide⟩, ⟨rfl, rfl, by decide, by decide⟩, trivial⟩
  obtain ⟨counts, invisible, -⟩ := rate_ledger_telescopes ⟨1⟩
  have hamount := (counts _ _ _ _ _ _ hrun hlast rfl hspan).2
  have hsame := (invisible _ _ _ _ [.checkpointed (jobReading 7 5 true)] _ _ _
    [jobReading 7 5 true] hrun hrun₀ hlast rfl hspan rfl rfl).2
  have hcounted : cutOff DomainModel.rateLimit ((jobUses 7).model.rateAmount ⟨1⟩ + (7, 9)) = (7, 9) := by
    decide
  exact ⟨hamount.trans hcounted, hsame.trans (hamount.trans hcounted)⟩

/-- Totals stop at the largest number that can be stored. -/
theorem rate_totals_saturate :
    ¬ ∀ (id : RunId) (r r' : Reducer) (events : List RateEvent) (basis : RateBasis)
      (a : Metering.Reading RateBasis) (readings : List (Metering.Reading RateBasis)), Runs (RateStep id) r events r' →
      r.model.lastRate id = some a → events.map RateEvent.entry = readings.map .reading →
      Span basis a readings →
      r'.model.storedAmount id =
        r.model.storedAmount id + ((latest a readings).count - a.count, activeTime a readings) := by
  intro h
  have hrun : Runs (RateStep ⟨1⟩) (jobUses (2 ^ 63)) [.observed (jobReading (2 ^ 63) 9 false)]
      (jobRests (jobUses (2 ^ 63))) := by
    have hstep := jobRests_step (jobUses (2 ^ 63))
    rw [show (jobUses (2 ^ 63)).readingEntry ⟨⟨1⟩, .live 0, 9⟩ false .observed =
      .observed (jobReading (2 ^ 63) 9 false) by decide +kernel] at hstep
    exact .one hstep
  have hlast : (jobUses (2 ^ 63)).model.lastRate ⟨1⟩ = some (jobReading 0 0 true) := by decide +kernel
  have hspan : Span (0, .controller "job") (jobReading 0 0 true) [jobReading (2 ^ 63) 9 false] :=
    ⟨⟨rfl, rfl, by decide, by decide⟩, trivial⟩
  have hstored := h ⟨1⟩ _ _ _ _ _ [jobReading (2 ^ 63) 9 false] hrun hlast rfl hspan
  exact absurd hstored (by decide +kernel)

end Reducer

end HerdrTop
