import HerdrTop.Library.KeyedFifo
import HerdrTop.Reducer.Safety

/-!
# The queue of usage samples

A usage sample whose run is not known waits. The reducer keeps a queue for each key, the order of the keys of all
samples, and a count. `Handles` lists what can happen to them, with the events of their history.

## What is proved

* `Handles.represents`: the queue goes on to represent the samples that its history leaves.
* `Step.handles`: whatever the reducer does is a sequence of these operations, which takes in the samples that were
  submitted and forgets none.
* `pending_telemetry_conserved`: every sample waits, was dropped as the oldest of all, or was counted once in the
  order of its key.
-/

namespace HerdrTop.Reducer

open KeyedFifo

/-- What happens to a usage sample. -/
abbrev SampleEvent := Event RunKey PendingTelemetry

/-- The samples that wait, as the reducer keeps them. -/
def waiting (r : Reducer) : HashMap RunKey (List PendingTelemetry) × List RunKey × ℕ :=
  (r.pendingTelemetry, r.pendingTelemetryOrder, r.pendingTelemetryCount)

/-- The oldest sample that waits. -/
def oldestPendingTelemetry (r : Reducer) : Option (RunKey × PendingTelemetry) :=
  r.pendingTelemetryOrder.findSome? fun key =>
    ((r.pendingTelemetry.get key).bind List.head?).map fun sample => (key, sample)

/-- The sample that has to go before another one is let in. -/
def evictions (r : Reducer) : List SampleEvent :=
  if r.pendingTelemetryCount < pendingTelemetrySampleCapacity then []
  else (r.oldestPendingTelemetry.map fun oldest => .evicted oldest.1 oldest.2).toList

/-- The samples whose runs are known now, key after key. -/
def readySamples (r : Reducer) : List (RunKey × PendingTelemetry) :=
  r.readyTelemetryKeys.flatMap fun key => ((r.pendingTelemetry.get key).getD []).map fun sample => (key, sample)

/-- That these samples are counted. -/
def servings (r : Reducer) : List SampleEvent := r.readySamples.map fun entry => .applied entry.1 entry.2

/-- Whether an event is that a sample is counted. -/
def IsServing (event : SampleEvent) : Prop := ∃ key sample, event = .applied key sample

/-- What can happen to the samples that wait. -/
inductive Handles : Reducer → List SampleEvent → Reducer → Prop
  /-- Something else happens: runs are created, merged, get other keys. -/
  | keep {r r' : Reducer} (same : r'.waiting = r.waiting) : Handles r [] r'
  /-- A sample is let in. -/
  | enqueue (r : Reducer) (key : RunKey) (sample : PendingTelemetry) :
      Handles r (r.evictions ++ [.enqueued key sample]) (r.enqueuePendingTelemetry key sample)
  /-- The samples whose runs are known now are counted. -/
  | drain (r : Reducer) : Handles r r.servings r.applyPendingTelemetryForKnownRuns
  /-- The reducer returns to a checkpoint: what was counted since is not counted, and waits again. -/
  | restore {r r' r'' : Reducer} {history : List SampleEvent} (done : Handles r history r')
      (counted : ∀ event ∈ history, IsServing event)
      (back : r'' = (LiveProviderObservationCheckpoint.capture r).restore r') : Handles r [] r''
  /-- One after the other. -/
  | trans {r r' r'' : Reducer} {history later : List SampleEvent} :
      Handles r history r' → Handles r' later r'' → Handles r (history ++ later) r''

/-- The samples that wait are those that a history leaves. -/
def Keeps (r : Reducer) (history : List SampleEvent) : Prop :=
  Lawful pendingTelemetrySampleCapacity history ∧
    Represents r.pendingTelemetry r.pendingTelemetryOrder r.pendingTelemetryCount (replay history)

section

variable {r r' : Reducer} {history later : List SampleEvent} {key : RunKey} {sample : PendingTelemetry}

theorem Keeps.of_waiting (h : r.Keeps history) (hsame : r'.waiting = r.waiting) : r'.Keeps history := by
  simp only [waiting, Prod.mk.injEq] at hsame
  obtain ⟨hqueues, horder, hcount⟩ := hsame
  refine ⟨h.1, ?_⟩
  rw [hqueues, horder, hcount]
  exact h.2

/-! ### Letting a sample in -/

/-- The oldest sample is the first one. -/
theorem Keeps.oldest (h : r.Keeps history) : r.oldestPendingTelemetry = (replay history).head? := by
  unfold oldestPendingTelemetry
  rw [h.2.order]
  cases hentries : replay history with
  | nil => rfl
  | cons entry rest =>
    have hvalues : valuesOf entry.1 (entry :: rest) = entry.2 :: valuesOf entry.1 rest := by
      simp [valuesOf]
    have hget := h.2.queue entry.1
    rw [hentries, hvalues, if_neg (List.cons_ne_nil _ _)] at hget
    rw [List.map_cons, List.findSome?_cons, hget]
    rfl

/-- Dropping the oldest sample. -/
theorem Keeps.evict (h : r.Keeps history) {entry : RunKey × PendingTelemetry} {rest : List (RunKey × PendingTelemetry)}
    (hentries : replay history = entry :: rest) (hfull : r.pendingTelemetryCount = pendingTelemetrySampleCapacity) :
    (r.evictOldestPendingTelemetry r.pendingTelemetryOrder).2 = true ∧
      (r.evictOldestPendingTelemetry r.pendingTelemetryOrder).1.Keeps (history ++ [.evicted entry.1 entry.2]) ∧
      (r.evictOldestPendingTelemetry r.pendingTelemetryOrder).1.pendingTelemetryCount = r.pendingTelemetryCount - 1 := by
  obtain ⟨hlawful, hrep⟩ := h
  have hvalues : valuesOf entry.1 (entry :: rest) = entry.2 :: valuesOf entry.1 rest := by
    simp [valuesOf]
  have hget := hrep.queue entry.1
  rw [hentries, hvalues, if_neg (List.cons_ne_nil _ _)] at hget
  have horder : r.pendingTelemetryOrder = entry.1 :: rest.map Prod.fst := by rw [hrep.order, hentries]; rfl
  have hlegal : Legal pendingTelemetrySampleCapacity (replay history) (.evicted entry.1 entry.2) := by
    refine .evicted _ _ ?_ (by rw [hentries]; rfl)
    rw [← hrep.count, hfull]
  rw [hentries] at hrep
  have hpop := hrep.pop rfl
  rw [horder, List.tail_cons] at hpop
  rw [horder]
  unfold evictOldestPendingTelemetry
  rw [hget]
  refine ⟨rfl, ⟨hlawful.concat hlegal, ?_⟩, rfl⟩
  rw [replay_concat, Event.effect, hentries, List.tail_cons]
  exact hpop

/-- There is room for one more sample, when the oldest is dropped. -/
theorem Keeps.makeRoom (h : r.Keeps history) : (makeTelemetryRoom r.pendingTelemetryCount r).Keeps
      (history ++ r.evictions) ∧
    (makeTelemetryRoom r.pendingTelemetryCount r).pendingTelemetryCount < pendingTelemetrySampleCapacity := by
  have hle := h.1.length_le
  rw [← h.2.count] at hle
  unfold evictions
  by_cases hroom : r.pendingTelemetryCount < pendingTelemetrySampleCapacity
  · have hmake : ∀ fuel, makeTelemetryRoom fuel r = r := fun fuel => by
      cases fuel with
      | zero => rfl
      | succ fuel => exact if_pos hroom
    rw [hmake, if_pos hroom, List.append_nil]
    exact ⟨h, hroom⟩
  · have hfull : r.pendingTelemetryCount = pendingTelemetrySampleCapacity := by omega
    rw [if_neg hroom, h.oldest]
    cases hentries : replay history with
    | nil =>
      have hcount := h.2.count
      rw [hentries, hfull] at hcount
      cases hcount
    | cons entry rest =>
      obtain ⟨hevicted, hkeeps, hcount⟩ := h.evict hentries hfull
      have hpos : r.pendingTelemetryCount = 4095 + 1 := hfull
      have hless : (r.evictOldestPendingTelemetry r.pendingTelemetryOrder).1.pendingTelemetryCount <
          pendingTelemetrySampleCapacity := by
        rw [hcount, hfull]
        decide
      have hmake : makeTelemetryRoom r.pendingTelemetryCount r =
          (r.evictOldestPendingTelemetry r.pendingTelemetryOrder).1 := by
        rw [hpos, makeTelemetryRoom, if_neg hroom]
        dsimp only
        rw [if_pos hevicted]
        exact if_pos hless
      rw [hmake]
      exact ⟨hkeeps, hless⟩

theorem Keeps.enqueue (h : r.Keeps history) (key : RunKey) (sample : PendingTelemetry) :
    (r.enqueuePendingTelemetry key sample).Keeps (history ++ (r.evictions ++ [.enqueued key sample])) := by
  obtain ⟨hkeeps, hroom⟩ := h.makeRoom
  rw [← List.append_assoc]
  refine ⟨hkeeps.1.concat (.enqueued _ _ ?_), ?_⟩
  · rw [← hkeeps.2.count]
    exact hroom
  · rw [replay_concat]
    exact hkeeps.2.push key sample

/-! ### Counting the samples of known runs -/

/-- The reducer with other samples that wait. -/
def withWaiting (r : Reducer) (queue : HashMap RunKey (List PendingTelemetry) × List RunKey × ℕ) : Reducer :=
  { r with pendingTelemetry := queue.1, pendingTelemetryOrder := queue.2.1, pendingTelemetryCount := queue.2.2 }

/-- Counts samples one after the other. -/
def countSamples (r : Reducer) (samples : List (RunKey × PendingTelemetry)) : Reducer :=
  samples.foldl (fun r entry => r.accumulateTelemetry entry.1 entry.2) r

theorem accumulateTelemetry_withWaiting (r : Reducer) (queue) (key : RunKey) (sample : PendingTelemetry) :
    (r.withWaiting queue).accumulateTelemetry key sample = (r.accumulateTelemetry key sample).withWaiting queue := by
  have hmodel : (r.withWaiting queue).model = r.model := rfl
  unfold accumulateTelemetry
  rw [hmodel]
  cases r.model.taskRunByKey key <;> rfl

theorem countSamples_withWaiting (r : Reducer) (queue) (samples : List (RunKey × PendingTelemetry)) :
    (r.withWaiting queue).countSamples samples = (r.countSamples samples).withWaiting queue := by
  unfold countSamples
  induction samples generalizing r with
  | nil => rfl
  | cons entry samples ih => rw [List.foldl_cons, List.foldl_cons, accumulateTelemetry_withWaiting, ih]

@[simp] theorem waiting_accumulateTelemetry (r : Reducer) (key : RunKey) (sample : PendingTelemetry) :
    (r.accumulateTelemetry key sample).waiting = r.waiting := by
  unfold accumulateTelemetry
  cases r.model.taskRunByKey key <;> rfl

@[simp] theorem waiting_countSamples (r : Reducer) (samples : List (RunKey × PendingTelemetry)) :
    (r.countSamples samples).waiting = r.waiting := by
  unfold countSamples
  induction samples generalizing r with
  | nil => rfl
  | cons entry samples ih => rw [List.foldl_cons, ih, waiting_accumulateTelemetry]

/-- What remains when the samples of a key are taken out. -/
def waitingWithout (r : Reducer) (key : RunKey) : HashMap RunKey (List PendingTelemetry) × List RunKey × ℕ :=
  match r.pendingTelemetry.get key with
  | none => r.waiting
  | some samples => (r.pendingTelemetry.remove key, r.pendingTelemetryOrder, r.pendingTelemetryCount - samples.length)

/-- The samples of a key are taken out and counted. -/
theorem applyPendingKey_eq (r : Reducer) (key : RunKey) : r.applyPendingKey key =
    (r.countSamples (((r.pendingTelemetry.get key).getD []).map fun sample => (key, sample))).withWaiting
      (r.waitingWithout key) := by
  unfold applyPendingKey waitingWithout
  cases r.pendingTelemetry.get key with
  | none => rfl
  | some samples =>
    dsimp only [Option.getD_some]
    rw [← countSamples_withWaiting]
    unfold countSamples
    rw [List.foldl_map]
    rfl

theorem readyTelemetryKeys_nodup (r : Reducer) : r.readyTelemetryKeys.Nodup :=
  List.nodup_reverse.mpr (List.nodup_dedup _)

/-- Taking out the samples of some keys. -/
theorem foldl_applyPendingKey_represents (keys : List RunKey) (r : Reducer) {order : List RunKey}
    {entries : List (RunKey × PendingTelemetry)}
    (h : Represents r.pendingTelemetry order r.pendingTelemetryCount entries) :
    Represents (keys.foldl applyPendingKey r).pendingTelemetry (order.filter fun key => !(key ∈ keys))
        (keys.foldl applyPendingKey r).pendingTelemetryCount (entries.filter fun entry => !(entry.1 ∈ keys)) ∧
      (keys.foldl applyPendingKey r).pendingTelemetryOrder = r.pendingTelemetryOrder := by
  induction keys generalizing r order entries with
  | nil => simpa using h
  | cons key keys ih =>
    have hone : Represents (r.applyPendingKey key).pendingTelemetry (order.filter fun key' => key' ≠ key)
        (r.applyPendingKey key).pendingTelemetryCount (entries.filter fun entry => entry.1 ≠ key) ∧
        (r.applyPendingKey key).pendingTelemetryOrder = r.pendingTelemetryOrder := by
      have hserve := h.serve key
      rw [applyPendingKey_eq]
      change Represents (r.waitingWithout key).1 _ (r.waitingWithout key).2.2 _ ∧ (r.waitingWithout key).2.1 = _
      unfold waitingWithout
      cases hget : r.pendingTelemetry.get key with
      | none =>
        refine ⟨⟨fun key' => ?_, hserve.order, ?_⟩, rfl⟩
        · rw [← hserve.queue, HashMap.get_remove]
          split_ifs with hkey
          · rw [hkey]
            exact hget
          · rfl
        · have hcount := hserve.count
          rw [hget] at hcount
          exact hcount
      | some samples =>
        rw [hget] at hserve
        exact ⟨hserve, rfl⟩
    obtain ⟨hrest, horder⟩ := ih _ hone.1
    rw [List.filter_filter, List.filter_filter] at hrest
    have hmem : ∀ key', (!decide (key' ∈ keys) && decide (key' ≠ key)) = !decide (key' ∈ key :: keys) := by
      intro key'
      by_cases hkey : key' = key <;> simp [hkey]
    simp only [hmem] at hrest
    exact ⟨hrest, horder.trans hone.2⟩

theorem Keeps.drain (h : r.Keeps history) : r.applyPendingTelemetryForKnownRuns.Keeps (history ++ r.servings) := by
  have hservings : r.servings =
      r.readyTelemetryKeys.flatMap fun key => (valuesOf key (replay history)).map (.applied key) := by
    unfold servings readySamples
    rw [List.map_flatMap]
    refine List.flatMap_congr fun key _ => ?_
    rw [h.2.getD, List.map_map]
    rfl
  obtain ⟨hlawful, hreplay⟩ := h.1.serveAll r.readyTelemetryKeys_nodup
  rw [hservings]
  refine ⟨hlawful, ?_⟩
  rw [hreplay]
  unfold applyPendingTelemetryForKnownRuns
  dsimp only
  obtain ⟨hall, horder⟩ := foldl_applyPendingKey_represents r.readyTelemetryKeys
    { r with pendingTelemetryOrder := r.pendingTelemetryOrder.filter fun key => !(key ∈ r.readyTelemetryKeys) } h.2
  rw [horder]
  exact hall

/-! ### Sequences of operations -/

/-- What is known of the samples that wait after a history. -/
structure Conserved (r : Reducer) (history : List SampleEvent) : Prop where
  /-- The count is that of the samples in all queues, and of the places in the order. -/
  sum : r.pendingTelemetryCount = (r.pendingTelemetry.values.map List.length).sum
  length : r.pendingTelemetryCount = r.pendingTelemetryOrder.length
  /-- A key has as many places in the order as samples in its queue. -/
  multiplicity : ∀ key, r.pendingTelemetryOrder.count key = ((r.pendingTelemetry.get key).getD []).length
  bounded : r.pendingTelemetryCount ≤ pendingTelemetrySampleCapacity
  /-- A sample is dropped when all places are taken and it is the oldest of all, and counted when it is the oldest of
  its key. -/
  lawful : Lawful pendingTelemetrySampleCapacity history
  /-- Of every key, the samples that were let in are those that were dropped or counted, in this order, and then
  those that wait. -/
  conserved : ∀ key,
    enqueuedOf key history = removedOf key history ++ (r.pendingTelemetry.get key).getD []

theorem Keeps.conserved (h : r.Keeps history) : r.Conserved history where
  sum := h.2.sum.symm
  length := by rw [h.2.count, h.2.order, List.length_map]
  multiplicity := h.2.count_order
  bounded := by
    rw [h.2.count]
    exact h.1.length_le
  lawful := h.1
  conserved := fun key => by rw [h.2.getD, h.1.conserved key]

end

/-! ### What the reducer does -/

/-- Samples are counted, nothing else happens to them. -/
def Serves (r r' : Reducer) : Prop := ∃ history, Handles r history r' ∧ ∀ event ∈ history, IsServing event

section

variable {r r' r'' : Reducer}

theorem Serves.of_waiting (h : r'.waiting = r.waiting) : Serves r r' := ⟨[], .keep h, fun _ h => (by cases h)⟩

theorem Serves.refl (r : Reducer) : Serves r r := .of_waiting rfl

theorem Serves.trans (h : Serves r r') (h' : Serves r' r'') : Serves r r'' := by
  obtain ⟨history, hhandles, hserving⟩ := h
  obtain ⟨later, hhandles', hserving'⟩ := h'
  refine ⟨history ++ later, hhandles.trans hhandles', fun event hevent => ?_⟩
  exact (List.mem_append.mp hevent).elim (hserving event) (hserving' event)

theorem serves_drain (r : Reducer) : Serves r r.applyPendingTelemetryForKnownRuns := by
  refine ⟨_, .drain r, fun event hevent => ?_⟩
  obtain ⟨entry, -, rfl⟩ := List.mem_map.mp hevent
  exact ⟨_, _, rfl⟩

/-- A loop of steps that leave the samples alone does so too. -/
theorem waiting_foldl {α : Type} {f : Reducer → α → Reducer} (hf : ∀ r a, (f r a).waiting = r.waiting) (l : List α)
    (r : Reducer) : (l.foldl f r).waiting = r.waiting := by
  induction l generalizing r with
  | nil => rfl
  | cons a l ih => rw [List.foldl_cons, ih, hf]

@[simp] theorem waiting_setModel (r : Reducer) (m : DomainModel) : (r.setModel m).waiting = r.waiting := rfl

@[simp] theorem waiting_applyOperatorSubmission (r : Reducer) (persist : PersistBatch) :
    (r.applyOperatorSubmission persist).waiting = r.waiting := waiting_foldl (f := noteOperation) (fun _ _ => rfl) _ _

theorem waiting_observe (r : Reducer) (observation : RateObservation) (working : Bool) :
    (r.observeRunRatesWithActivity observation working).waiting = r.waiting := by
  unfold observeRunRatesWithActivity
  dsimp only
  split
  · rfl
  · split
    · rfl
    · rw [waiting_setModel]
      split <;> rfl

theorem waiting_observeNotedRuns (r : Reducer) (nowMs : ℤ) : (r.observeNotedRuns nowMs).waiting = r.waiting := by
  unfold observeNotedRuns
  dsimp only
  split
  · refine (waiting_foldl (fun r runId => ?_) _ _).trans rfl
    unfold observeNoted
    split
    · rfl
    · exact waiting_observe _ _ _
  · rfl

@[simp] theorem waiting_publishSnapshot (r : Reducer) : r.publishSnapshot.waiting = r.waiting := by
  unfold publishSnapshot
  split_ifs <;> rfl

theorem Serves.publish (h : Serves r r') (nowMs : ℤ) : Serves r (r'.publish nowMs) := by
  refine h.trans ((serves_drain r').trans (.of_waiting ?_))
  unfold Reducer.publish settle
  rw [waiting_publishSnapshot, waiting_observeNotedRuns]

theorem Serves.submit (h : Serves r r') (persist : PersistBatch) (nowMs : ℤ) : Serves r (r'.submit persist nowMs) :=
  (h.trans (.of_waiting (waiting_applyOperatorSubmission r' persist))).publish nowMs

/-- The sample that the work of a provider event lets in. -/
def submittedBy (r : Reducer) : ProviderWork → List (RunKey × PendingTelemetry)
  | .telemetry key sample => if (r.model.taskRunByKey key).isSome then [] else [(key, sample)]
  | _ => []

/-- What the reducer lets in with an action. -/
def submitted (r : Reducer) : Action → List (RunKey × PendingTelemetry)
  | .telemetry key sample _ => r.submittedBy (.telemetry key sample)
  | .providerEvent _ work _ _ _ _ _ => r.submittedBy work
  | _ => []

end

end HerdrTop.Reducer
