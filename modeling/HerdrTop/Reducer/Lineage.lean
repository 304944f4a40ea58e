import HerdrTop.Identity.Apply
import HerdrTop.Reducer.Transitions

/-!
# The lineage of recorded events

A batch may merge runs and record events, and an event must not name a run that is absorbed before the event is
stored. The merges so far are kept in a map, which is followed for each event; elsewhere the batch itself is gone
through in order. Both come to the same run as long as a run that was absorbed is not named again.

## What is proved

* `followMerges_table`: following the map of the merges is going through them.
* `normalizePersistBatchLineage_canonical`: what normalizing makes of a batch.
-/

namespace HerdrTop

/-- The run in the place of another one after a merge of a survivor and an absorbed run. -/
def redirect (runId : RunId) (merge : RunId × RunId) : RunId := if merge.2 = runId then merge.1 else runId

/-- The map of merges, each absorbed run with its survivor. -/
def mergeTable (merges : List (RunId × RunId)) : HashMap RunId RunId :=
  merges.foldl (fun table merge => table.insert merge.2 merge.1) ∅

/-- No merge names a run that an earlier one absorbed. -/
def NamesNoAbsorbed (merges : List (RunId × RunId)) : Prop :=
  merges.Pairwise fun earlier later => later.1 ≠ earlier.2 ∧ later.2 ≠ earlier.2

variable {merges : List (RunId × RunId)} {runId absorbed survivor : RunId}

/-! ### Going through merges -/

theorem redirects_of_notMem (h : ∀ merge ∈ merges, merge.2 ≠ runId) : merges.foldl redirect runId = runId := by
  induction merges with
  | nil => rfl
  | cons merge merges ih =>
    rw [List.foldl_cons, redirect, if_neg (h merge List.mem_cons_self)]
    exact ih fun m hm => h m (List.mem_cons_of_mem _ hm)

/-- Nothing becomes a run that does not survive. -/
theorem redirects_ne (hne : runId ≠ absorbed) (h : ∀ merge ∈ merges, merge.1 ≠ absorbed) :
    merges.foldl redirect runId ≠ absorbed := by
  induction merges generalizing runId with
  | nil => exact hne
  | cons merge merges ih =>
    rw [List.foldl_cons]
    refine ih ?_ fun m hm => h m (List.mem_cons_of_mem _ hm)
    rw [redirect]
    split_ifs
    · exact h merge List.mem_cons_self
    · exact hne

/-- What the merges lead to, they leave. -/
theorem redirects_redirects (h : NamesNoAbsorbed merges) (runId : RunId) :
    merges.foldl redirect (merges.foldl redirect runId) = merges.foldl redirect runId := by
  induction merges generalizing runId with
  | nil => rfl
  | cons merge merges ih =>
    obtain ⟨hlater, hrest⟩ := List.pairwise_cons.mp h
    obtain ⟨survivor, absorbed⟩ := merge
    rw [List.foldl_cons, List.foldl_cons]
    by_cases hself : redirect runId (survivor, absorbed) = absorbed
    · -- only a run that is merged into itself is still named by its own merge
      have hloop : merges.foldl redirect absorbed = absorbed := redirects_of_notMem fun m hm => (hlater m hm).2
      have hsurvivor : survivor = absorbed := by
        rw [redirect] at hself
        split_ifs at hself with hrun
        · exact hself
        · exact absurd hself.symm hrun
      rw [hself, hloop, redirect, if_pos rfl, hsurvivor, hloop]
    · have hne : merges.foldl redirect (redirect runId (survivor, absorbed)) ≠ absorbed :=
        redirects_ne hself fun m hm => (hlater m hm).1
      conv_lhs => rw [redirect, if_neg hne.symm]
      exact ih hrest _

/-! ### Following the map -/

theorem mergeTable_append (merge : RunId × RunId) :
    mergeTable (merges ++ [merge]) = (mergeTable merges).insert merge.2 merge.1 := by
  rw [mergeTable, List.foldl_append, List.foldl_cons, List.foldl_nil, mergeTable]

/-- The map has just the merges. -/
theorem get_mergeTable (h : NamesNoAbsorbed merges) :
    (mergeTable merges).get absorbed = some survivor ↔ (survivor, absorbed) ∈ merges := by
  induction merges using List.reverseRecOn with
  | nil => simp [mergeTable]
  | append_singleton merges merge ih =>
    obtain ⟨hmerges, -, hlater⟩ := List.pairwise_append.mp h
    rw [mergeTable_append, HashMap.get_insert, List.mem_append, List.mem_singleton]
    by_cases hmerge : absorbed = merge.2
    · rw [if_pos hmerge, Option.some.injEq]
      constructor
      · rintro rfl
        exact .inr (Prod.ext rfl hmerge)
      · rintro (hmem | rfl)
        · exact absurd hmerge.symm (hlater _ hmem merge List.mem_cons_self).2
        · rfl
    · rw [if_neg hmerge, ih hmerges]
      refine ⟨.inl, fun hmem => hmem.resolve_right fun heq => hmerge ?_⟩
      rw [← heq]

theorem length_keys_mergeTable (h : NamesNoAbsorbed merges) : (mergeTable merges).keys.length = merges.length := by
  induction merges using List.reverseRecOn with
  | nil => rfl
  | append_singleton merges merge ih =>
    obtain ⟨hmerges, -, hlater⟩ := List.pairwise_append.mp h
    have hnew : (mergeTable merges).get merge.2 = none := by
      refine Option.eq_none_iff_forall_ne_some.mpr fun survivor hsurvivor => ?_
      exact (hlater _ ((get_mergeTable hmerges).mp hsurvivor) merge List.mem_cons_self).2 rfl
    rw [mergeTable_append, HashMap.length_keys_insert, List.length_append, ih hmerges, HashMap.contains, hnew]
    rfl

/-- A map with one more entry is followed as before from where that entry is not met. -/
theorem followMerges_congr {table table' : HashMap RunId RunId} (hrun : runId ≠ absorbed)
    (hsame : ∀ run, run ≠ absorbed → table.get run = table'.get run)
    (hsurvivors : ∀ run survivor, table'.get run = some survivor → survivor ≠ absorbed) (n : ℕ) :
    followMerges table n runId = followMerges table' n runId := by
  induction n generalizing runId with
  | zero => rfl
  | succ n ih =>
    rw [followMerges, followMerges, hsame runId hrun]
    cases hnext : table'.get runId with
    | none => rfl
    | some survivor => exact ih (hsurvivors runId survivor hnext)

/-- Following the map of the merges, with a step for each, is going through them in their order. -/
theorem followMerges_table (h : NamesNoAbsorbed merges) {n : ℕ} (hn : merges.length ≤ n) (runId : RunId) :
    followMerges (mergeTable merges) n runId = merges.foldl redirect runId := by
  induction merges generalizing n runId with
  | nil => cases n <;> rfl
  | cons merge merges ih =>
    obtain ⟨hlater, hrest⟩ := List.pairwise_cons.mp h
    obtain ⟨survivor, absorbed⟩ := merge
    obtain ⟨n, rfl⟩ : ∃ m, n = m + 1 := ⟨n - 1, by rw [List.length_cons] at hn; omega⟩
    rw [List.length_cons] at hn
    have hfirst : (mergeTable ((survivor, absorbed) :: merges)).get absorbed = some survivor :=
      (get_mergeTable h).mpr List.mem_cons_self
    have hsame : ∀ run, run ≠ absorbed →
        (mergeTable ((survivor, absorbed) :: merges)).get run = (mergeTable merges).get run := by
      intro run hrun
      refine Option.ext fun next => ?_
      rw [get_mergeTable h, get_mergeTable hrest, List.mem_cons, or_iff_right]
      exact fun heq => hrun (congrArg Prod.snd heq)
    have hrestTable : ∀ m run, run ≠ absorbed → merges.length ≤ m →
        followMerges (mergeTable ((survivor, absorbed) :: merges)) m run = merges.foldl redirect run := by
      intro m run hrun hm
      rw [followMerges_congr hrun hsame (fun next survivor hnext => ?_), ih hrest hm]
      exact (hlater _ ((get_mergeTable hrest).mp hnext)).1
    rw [List.foldl_cons]
    by_cases hrun : runId = absorbed
    · subst hrun
      rw [redirect, if_pos rfl, followMerges, hfirst]
      by_cases hself : survivor = runId
      · subst hself
        have hloop : ∀ m, followMerges (mergeTable ((survivor, survivor) :: merges)) m survivor = survivor := by
          intro m
          induction m with
          | zero => rfl
          | succ m ihm =>
            rw [followMerges, hfirst]
            exact ihm
        exact (hloop n).trans (redirects_of_notMem fun m hm => (hlater m hm).2).symm
      · exact hrestTable n survivor hself (by omega)
    · rw [redirect, if_neg (Ne.symm hrun)]
      exact hrestTable (n + 1) runId hrun (by omega)

/-! ### Batches -/

theorem canonicalRunAfterBatch_eq (runId : RunId) (batch : PersistBatch) :
    canonicalRunAfterBatch runId batch = (mergesOf batch).foldl redirect runId := by
  induction batch generalizing runId with
  | nil => rfl
  | cons op batch ih => cases op <;> exact ih _

theorem canonicalRunAfterBatch_append (runId : RunId) (batch batch' : PersistBatch) :
    canonicalRunAfterBatch runId (batch ++ batch') =
      canonicalRunAfterBatch (canonicalRunAfterBatch runId batch) batch' := by
  simp only [canonicalRunAfterBatch_eq, mergesOf_append, List.foldl_append]

/-- The operation after others, with an event named after the run that the merges before it left. -/
def canonicalOp (before : PersistBatch) : PersistOp → PersistOp
  | .recordEvent event seenAtMs =>
    .recordEvent (event.mapMetadata fun metadata =>
      { metadata with taskRunId := metadata.taskRunId.map (canonicalRunAfterBatch · before) }) seenAtMs
  | op => op

/-- Every operation of a batch after the ones before it. -/
def canonicalOps : PersistBatch → PersistBatch → PersistBatch
  | _, [] => []
  | before, op :: rest => canonicalOp before op :: canonicalOps (before ++ [op]) rest

theorem mergesOf_canonicalOp (before : PersistBatch) (op : PersistOp) :
    mergesOf [canonicalOp before op] = mergesOf [op] := by
  cases op <;> rfl

theorem mergesOf_canonicalOps (before batch : PersistBatch) :
    mergesOf (canonicalOps before batch) = mergesOf batch := by
  induction batch generalizing before with
  | nil => rfl
  | cons op batch ih =>
    have hsplit := mergesOf_append [canonicalOp before op] (canonicalOps (before ++ [op]) batch)
    rw [ih, mergesOf_canonicalOp, ← mergesOf_append] at hsplit
    exact hsplit

theorem canonicalOps_append (before batch batch' : PersistBatch) :
    canonicalOps before (batch ++ batch') = canonicalOps before batch ++ canonicalOps (before ++ batch) batch' := by
  induction batch generalizing before with
  | nil => rw [List.nil_append, List.append_nil, canonicalOps, List.nil_append]
  | cons op batch ih =>
    rw [List.cons_append, canonicalOps, canonicalOps, ih, List.append_assoc, List.singleton_append, List.cons_append]

theorem length_canonicalOps (before batch : PersistBatch) : (canonicalOps before batch).length = batch.length := by
  induction batch generalizing before with
  | nil => rfl
  | cons op batch ih => rw [canonicalOps, List.length_cons, List.length_cons, ih]

/-- The operation at a place. -/
theorem getElem?_canonicalOps (before batch : PersistBatch) (op : PersistOp) (rest : PersistBatch) :
    (canonicalOps before (batch ++ op :: rest))[batch.length]? = some (canonicalOp (before ++ batch) op) := by
  rw [canonicalOps_append, List.getElem?_append_right (Nat.le_of_eq (length_canonicalOps before batch)),
    length_canonicalOps, Nat.sub_self, canonicalOps, List.getElem?_cons_zero]

/-- Normalizing names every event after the run that the merges before it left. -/
theorem normalizeLineage_eq {before batch : PersistBatch} (h : NamesNoAbsorbed (mergesOf (before ++ batch))) :
    normalizeLineage batch (mergeTable (mergesOf before)) = canonicalOps before batch := by
  induction batch generalizing before with
  | nil => rfl
  | cons op batch ih =>
    have hbefore : NamesNoAbsorbed (mergesOf before) := by
      rw [mergesOf_append] at h
      exact (List.pairwise_append.mp h).1
    have hrest : normalizeLineage batch (mergeTable (mergesOf (before ++ [op]))) =
        canonicalOps (before ++ [op]) batch :=
      ih (by rwa [List.append_assoc])
    rw [mergesOf_append] at hrest
    rw [canonicalOps, ← hrest]
    cases op with
    | mergeTaskRuns survivor absorbed =>
      rw [normalizeLineage, ← mergeTable_append (survivor, absorbed)]
      rfl
    | recordEvent event seenAtMs =>
      have hfollow : followMerges (mergeTable (mergesOf before)) (mergeTable (mergesOf before)).keys.length =
          (canonicalRunAfterBatch · before) := by
        funext runId
        rw [length_keys_mergeTable hbefore, followMerges_table hbefore (Nat.le_refl _), canonicalRunAfterBatch_eq]
      rw [normalizeLineage, canonicalOp, hfollow]
      simp [mergesOf]
    | _ => simp [normalizeLineage, canonicalOp, mergesOf]

/-- Naming events a second time changes nothing. -/
theorem canonicalOps_canonicalOps {before before' batch : PersistBatch} (hmerges : mergesOf before' = mergesOf before)
    (h : NamesNoAbsorbed (mergesOf (before ++ batch))) :
    canonicalOps before' (canonicalOps before batch) = canonicalOps before batch := by
  induction batch generalizing before before' with
  | nil => rfl
  | cons op batch ih =>
    have hbefore : NamesNoAbsorbed (mergesOf before) := by
      rw [mergesOf_append] at h
      exact (List.pairwise_append.mp h).1
    have hop : canonicalOp before' (canonicalOp before op) = canonicalOp before op := by
      cases op with
      | recordEvent event seenAtMs =>
        have htwice : ∀ runId, canonicalRunAfterBatch (canonicalRunAfterBatch runId before) before' =
            canonicalRunAfterBatch runId before := by
          intro runId
          rw [canonicalRunAfterBatch_eq _ before', hmerges, canonicalRunAfterBatch_eq, redirects_redirects hbefore]
        cases event <;> simp [canonicalOp, NormalizedEvent.mapMetadata, Option.map_map, Function.comp_def, htwice]
      | _ => rfl
    rw [canonicalOps, canonicalOps, hop]
    refine congrArg (canonicalOp before op :: ·) (ih ?_ (by rwa [List.append_assoc]))
    rw [mergesOf_append, mergesOf_append, hmerges, mergesOf_canonicalOp]

/-- When no merge of a batch names a run that an earlier one absorbed, normalizing names each recorded event after the
run that the merges before it left, and leaves everything else; going through the merges after the event then leads to
the run that the whole batch leaves for the event's own one; and normalizing again changes nothing. -/
theorem normalizePersistBatchLineage_canonical (batch : PersistBatch) (h : NamesNoAbsorbed (mergesOf batch)) :
    (normalizePersistBatchLineage batch).length = batch.length ∧
      (∀ before op rest, batch = before ++ op :: rest →
        (normalizePersistBatchLineage batch)[before.length]? = some (canonicalOp before op)) ∧
      (∀ before event seenAtMs rest, batch = before ++ .recordEvent event seenAtMs :: rest → ∀ runId,
        canonicalRunAfterBatch (canonicalRunAfterBatch runId before) rest = canonicalRunAfterBatch runId batch) ∧
      normalizePersistBatchLineage (normalizePersistBatchLineage batch) = normalizePersistBatchLineage batch := by
  have hnormalize : ∀ {batch}, NamesNoAbsorbed (mergesOf batch) →
      normalizePersistBatchLineage batch = canonicalOps [] batch :=
    fun h => @normalizeLineage_eq [] _ h
  rw [hnormalize h]
  refine ⟨length_canonicalOps [] batch, ?_, ?_, ?_⟩
  · rintro before op rest rfl
    exact getElem?_canonicalOps [] before op rest
  · rintro before event seenAtMs rest rfl runId
    rw [canonicalRunAfterBatch_append]
    rfl
  · rw [hnormalize (by rwa [mergesOf_canonicalOps])]
    exact canonicalOps_canonicalOps rfl h

/-- An event of a run that is absorbed before it, and whose survivor is absorbed after it. -/
def chainedMerges (runId : RunId) : PersistBatch :=
  [.mergeTaskRuns ⟨2⟩ ⟨1⟩,
    .recordEvent (.executionEnd
      { eventId := "ended", timestampMs := 0, receiptTimeMs := 0, taskRunId := some runId } "execution") 0,
    .mergeTaskRuns ⟨3⟩ ⟨2⟩]

theorem normalizePersistBatchLineage_canonical_chain :
    normalizePersistBatchLineage (normalizePersistBatchLineage (chainedMerges ⟨1⟩)) =
        normalizePersistBatchLineage (chainedMerges ⟨1⟩) ∧
      normalizePersistBatchLineage (chainedMerges ⟨1⟩) = chainedMerges ⟨2⟩ := by
  have hmerges : NamesNoAbsorbed (mergesOf (chainedMerges ⟨1⟩)) :=
    .cons (List.forall_mem_singleton.mpr (by decide)) (List.pairwise_singleton _ _)
  exact ⟨(normalizePersistBatchLineage_canonical (chainedMerges ⟨1⟩) hmerges).2.2.2, by decide⟩

end HerdrTop
