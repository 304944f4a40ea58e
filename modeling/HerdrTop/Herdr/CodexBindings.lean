import HerdrTop.Model.State
import HerdrTop.Model.Ids
import Mathlib.Data.List.Sigma
import Mathlib.Data.List.Sort
import Mathlib.Data.Prod.Lex
import Mathlib.Data.String.Basic

/-!
# Panes and rollouts

A Codex pane that was detected before its session is known is bound to a rollout when nothing else is
possible: the rollout is the only one created since the second of the detection, and no other pane could
claim it. The binding counts the claims on every rollout.

## What is proved

* `mem_unambiguousCodexBindings`: what is bound, by the numbers of candidates and of claims.
* `codex_bindings_mutually_unique`: for all lists; there is one binding at most, and the order of the lists
  does not matter.
* `early_pane_not_bound`: a detection before the epoch counts as one at the epoch.
-/

namespace HerdrTop

/-- A live Codex pane without a session. -/
structure CodexPaneTarget where
  runId : RunId
  detectedAtMs : ℤ
  deriving DecidableEq

/-- A rollout that no run owns. -/
structure CodexRolloutCandidate where
  sid : String
  path : String
  creationMs : ℤ
  deriving DecidableEq

/-- `i64::saturating_mul`. -/
def satMulI64 (a b : ℤ) : ℤ := max i64Min (min (a * b) i64Max)

/-- The second of a detection. -/
def codexDetectionSecondMs (detectedAtMs : ℤ) : ℤ := satMulI64 (max detectedAtMs 0 / 1000) 1000

/-- The positions of the rollouts that a pane may have. -/
def paneCandidates (rollouts : List CodexRolloutCandidate) (pane : CodexPaneTarget) : List ℕ :=
  let detectionSecondMs := codexDetectionSecondMs pane.detectedAtMs
  rollouts.zipIdx.filterMap fun entry =>
    if detectionSecondMs ≤ entry.1.creationMs then some entry.2 else none

/-- Counts a claim. -/
def claim (counts : List ℕ) (candidate : ℕ) : List ℕ := counts.modify candidate fun count => satAddU64 count 1

/-- How many panes may have each rollout. -/
def claimantCounts (rollouts : ℕ) (paneCandidates : List (List ℕ)) : List ℕ :=
  paneCandidates.foldl (fun counts candidates => candidates.foldl claim counts) (List.replicate rollouts 0)

/-- The order of the bindings. -/
def bindingKey (binding : RunId × String × ℤ) : RunId ×ₗ String ×ₗ ℤ :=
  toLex (binding.1, toLex (binding.2.1, binding.2.2))

/-- The binding of a pane with one candidate that nobody else claims. -/
def paneBinding (rollouts : List CodexRolloutCandidate) (claimantCounts : List ℕ) :
    CodexPaneTarget × List ℕ → Option (RunId × String × ℤ)
  | (pane, [candidate]) =>
    if claimantCounts[candidate]? = some 1 then
      rollouts[candidate]?.map fun rollout => (pane.runId, rollout.sid, pane.detectedAtMs)
    else none
  | _ => none

/-- The pairs of a pane and a rollout that have only each other. -/
def unambiguousCodexBindings (panes : List CodexPaneTarget) (rollouts : List CodexRolloutCandidate) :
    List (RunId × String × ℤ) :=
  let candidates := panes.map (paneCandidates rollouts)
  let bindings := (panes.zip candidates).filterMap
    (paneBinding rollouts (claimantCounts rollouts.length candidates))
  bindings.insertionSort fun left right => bindingKey left ≤ bindingKey right

/-! ### Counting -/

theorem getElem?_claims {candidates counts : List ℕ} {j n : ℕ} (h : counts[j]? = some n) (hn : n ≤ u64Max) :
    (candidates.foldl claim counts)[j]? = some (min (n + candidates.count j) u64Max) := by
  induction candidates generalizing counts n with
  | nil => rw [List.foldl_nil, List.count_nil, h, Nat.add_zero, min_eq_left hn]
  | cons candidate candidates ih =>
    have hclaim : (claim counts candidate)[j]? = some (if candidate = j then satAddU64 n 1 else n) := by
      rw [claim, List.getElem?_modify, h]
      rfl
    rw [List.foldl_cons, ih hclaim (by split_ifs <;> simp [satAddU64, hn]), List.count_cons]
    simp only [beq_iff_eq, satAddU64]
    congr 1
    split_ifs <;> omega

/-- The count of a rollout is the number of its claims, as far as it can be counted. -/
theorem getElem?_claimantCounts {rollouts : ℕ} {candidates : List (List ℕ)} {j : ℕ} (hj : j < rollouts) :
    (claimantCounts rollouts candidates)[j]? = some (min (candidates.map (List.count j)).sum u64Max) := by
  have hcounts : ∀ {counts : List ℕ} {n : ℕ}, counts[j]? = some n → n ≤ u64Max →
      (candidates.foldl (fun counts candidates => candidates.foldl claim counts) counts)[j]? =
        some (min (n + (candidates.map (List.count j)).sum) u64Max) := by
    induction candidates with
    | nil =>
      intro counts n h hn
      simp [h, hn]
    | cons claims candidates ih =>
      intro counts n h hn
      rw [List.foldl_cons, ih (getElem?_claims h hn) (min_le_right _ _), List.map_cons, List.sum_cons]
      congr 1
      omega
  have hstart : (List.replicate rollouts 0)[j]? = some 0 := by simp [hj]
  rw [claimantCounts, hcounts hstart (Nat.zero_le _), Nat.zero_add]

/-! ### Candidates -/

/-- A rollout that was created in the second of the detection of a pane, or later. -/
def IsCandidate (pane : CodexPaneTarget) (rollout : CodexRolloutCandidate) : Prop :=
  max pane.detectedAtMs 0 / 1000 * 1000 ≤ rollout.creationMs

instance (pane : CodexPaneTarget) (rollout : CodexRolloutCandidate) : Decidable (IsCandidate pane rollout) :=
  inferInstanceAs (Decidable (_ ≤ _))

/-- The second of a detection that is a time of the source. -/
theorem codexDetectionSecondMs_eq {detectedAtMs : ℤ} (h : detectedAtMs ≤ i64Max) :
    codexDetectionSecondMs detectedAtMs = max detectedAtMs 0 / 1000 * 1000 := by
  unfold codexDetectionSecondMs satMulI64
  unfold i64Max at h ⊢
  unfold i64Min
  omega

section

variable {panes : List CodexPaneTarget} {rollouts : List CodexRolloutCandidate} {pane : CodexPaneTarget}

theorem paneCandidates_eq (h : pane.detectedAtMs ≤ i64Max) :
    paneCandidates rollouts pane =
      (rollouts.zipIdx.filter fun entry => IsCandidate pane entry.1).map Prod.snd := by
  unfold paneCandidates
  rw [codexDetectionSecondMs_eq h, ← List.filterMap_eq_map, List.filterMap_filter]
  refine List.filterMap_congr fun entry _ => ?_
  exact if_congr decide_eq_true_iff.symm rfl rfl

theorem mem_paneCandidates (h : pane.detectedAtMs ≤ i64Max) {j : ℕ} :
    j ∈ paneCandidates rollouts pane ↔ ∃ rollout, rollouts[j]? = some rollout ∧ IsCandidate pane rollout := by
  rw [paneCandidates_eq h]
  simp only [List.mem_map, List.mem_filter, Prod.exists, decide_eq_true_eq, exists_eq_right,
    List.mem_zipIdx_iff_getElem?]

theorem paneCandidates_length (h : pane.detectedAtMs ≤ i64Max) :
    (paneCandidates rollouts pane).length = rollouts.countP fun rollout => IsCandidate pane rollout := by
  rw [paneCandidates_eq h, List.length_map, ← List.countP_eq_length_filter]
  conv_rhs => rw [← List.zipIdx_map_fst 0 rollouts]
  rw [List.countP_map]
  rfl

theorem paneCandidates_nodup (h : pane.detectedAtMs ≤ i64Max) : (paneCandidates rollouts pane).Nodup := by
  rw [paneCandidates_eq h]
  exact (List.filter_sublist.map Prod.snd).nodup (List.nodup_zipIdx_map_snd rollouts)

/-- The claims on a rollout are those of the panes that may have it. -/
theorem sum_claims (hpanes : ∀ pane ∈ panes, pane.detectedAtMs ≤ i64Max) {j : ℕ} {rollout : CodexRolloutCandidate}
    (hj : rollouts[j]? = some rollout) :
    ((panes.map (paneCandidates rollouts)).map (List.count j)).sum =
      panes.countP fun pane => IsCandidate pane rollout := by
  induction panes with
  | nil => rfl
  | cons pane panes ih =>
    have hpane := hpanes pane List.mem_cons_self
    have hclaim : (paneCandidates rollouts pane).count j = if IsCandidate pane rollout then 1 else 0 := by
      rw [(paneCandidates_nodup hpane).count]
      refine if_congr ?_ rfl rfl
      rw [mem_paneCandidates hpane, hj]
      simp
    rw [List.map_cons, List.map_cons, List.sum_cons, ih fun p hp => hpanes p (List.mem_cons_of_mem _ hp), hclaim,
      List.countP_cons]
    simp only [decide_eq_true_eq]
    omega

/-- A pane and a rollout that have only each other. -/
structure Matched (panes : List CodexPaneTarget) (rollouts : List CodexRolloutCandidate) (pane : CodexPaneTarget)
    (rollout : CodexRolloutCandidate) : Prop where
  mem : rollout ∈ rollouts
  candidate : IsCandidate pane rollout
  /-- The pane has no other candidate. -/
  onlyRollout : (rollouts.countP fun other => IsCandidate pane other) = 1
  /-- No other pane has this candidate. -/
  onlyPane : (panes.countP fun other => IsCandidate other rollout) = 1

/-- What a pane is bound to. -/
theorem paneBinding_eq_some (hpanes : ∀ pane ∈ panes, pane.detectedAtMs ≤ i64Max) (hpane : pane ∈ panes)
    {binding : RunId × String × ℤ} :
    paneBinding rollouts (claimantCounts rollouts.length (panes.map (paneCandidates rollouts)))
        (pane, paneCandidates rollouts pane) = some binding ↔
      ∃ rollout, Matched panes rollouts pane rollout ∧ binding = (pane.runId, rollout.sid, pane.detectedAtMs) := by
  have hle := hpanes pane hpane
  constructor
  · intro hbinding
    unfold paneBinding at hbinding
    split at hbinding
    next pane' candidate hentry =>
      obtain ⟨rfl, hcandidate⟩ := Prod.mk.inj hentry
      split_ifs at hbinding with hcount
      obtain ⟨rollout, hrollout, rfl⟩ := Option.map_eq_some_iff.mp hbinding
      have hbound := List.getElem?_eq_some_iff.mp hrollout
      obtain ⟨rollout', hrollout', hcan⟩ :=
        (mem_paneCandidates hle).mp (hcandidate ▸ List.mem_singleton_self candidate)
      cases hrollout.symm.trans hrollout'
      refine ⟨rollout, ⟨List.mem_of_getElem? hrollout, hcan, ?_, ?_⟩, rfl⟩
      · rw [← paneCandidates_length hle, hcandidate]
        rfl
      · rw [getElem?_claimantCounts hbound.1, sum_claims hpanes hrollout] at hcount
        have hone := Option.some.inj hcount
        unfold u64Max at hone
        omega
    · cases hbinding
  · rintro ⟨rollout, hmatched, rfl⟩
    obtain ⟨candidate, hcandidate⟩ : ∃ candidate, paneCandidates rollouts pane = [candidate] :=
      List.length_eq_one_iff.mp ((paneCandidates_length hle).trans hmatched.onlyRollout)
    obtain ⟨j, hj⟩ := List.mem_iff_getElem?.mp hmatched.mem
    have hmem := (mem_paneCandidates hle).mpr ⟨rollout, hj, hmatched.candidate⟩
    rw [hcandidate] at hmem
    obtain rfl := List.mem_singleton.mp hmem
    have hbound := List.getElem?_eq_some_iff.mp hj
    have hcount : (claimantCounts rollouts.length (panes.map (paneCandidates rollouts)))[j]? = some 1 := by
      rw [getElem?_claimantCounts hbound.1, sum_claims hpanes hj, hmatched.onlyPane]
      rfl
    rw [hcandidate, paneBinding, if_pos hcount, hj]
    rfl

/-- A pane is bound to a rollout when it has no other candidate and no other pane has this one. -/
theorem mem_unambiguousCodexBindings (hpanes : ∀ pane ∈ panes, pane.detectedAtMs ≤ i64Max)
    {binding : RunId × String × ℤ} :
    binding ∈ unambiguousCodexBindings panes rollouts ↔ ∃ pane ∈ panes, ∃ rollout,
      Matched panes rollouts pane rollout ∧ binding = (pane.runId, rollout.sid, pane.detectedAtMs) := by
  unfold unambiguousCodexBindings
  rw [List.mem_insertionSort, ← List.map_prod_left_eq_zip, List.mem_filterMap]
  constructor
  · rintro ⟨entry, hentry, hbinding⟩
    obtain ⟨pane, hpane, rfl⟩ := List.mem_map.mp hentry
    exact ⟨pane, hpane, (paneBinding_eq_some hpanes hpane).mp hbinding⟩
  · rintro ⟨pane, hpane, hbinding⟩
    exact ⟨_, List.mem_map.mpr ⟨pane, hpane, rfl⟩, (paneBinding_eq_some hpanes hpane).mpr hbinding⟩

/-- Two matched panes have the same rollout: what the later one may have, the earlier one may have too. -/
theorem Matched.rollout_eq {pane' : CodexPaneTarget} {rollout rollout' : CodexRolloutCandidate}
    (h : Matched panes rollouts pane rollout) (h' : Matched panes rollouts pane' rollout') : rollout = rollout' := by
  have hone : ∀ {pane : CodexPaneTarget} {rollout rollout' : CodexRolloutCandidate},
      Matched panes rollouts pane rollout → rollout' ∈ rollouts → IsCandidate pane rollout' → rollout = rollout' := by
    intro pane rollout rollout' h hmem hcan
    obtain ⟨only, honly⟩ := List.length_eq_one_iff.mp ((List.countP_eq_length_filter).symm.trans h.onlyRollout)
    have hleft : rollout ∈ [only] := honly ▸ List.mem_filter.mpr ⟨h.mem, decide_eq_true h.candidate⟩
    have hright : rollout' ∈ [only] := honly ▸ List.mem_filter.mpr ⟨hmem, decide_eq_true hcan⟩
    exact (List.mem_singleton.mp hleft).trans (List.mem_singleton.mp hright).symm
  rcases le_total (max pane.detectedAtMs 0 / 1000 * 1000) (max pane'.detectedAtMs 0 / 1000 * 1000) with hle | hle
  · exact hone h h'.mem (hle.trans h'.candidate)
  · exact (hone h' h.mem (hle.trans h.candidate)).symm

/-- There is one binding at most: all matched panes have one rollout, and only one pane has it. -/
theorem unambiguousCodexBindings_length (hpanes : ∀ pane ∈ panes, pane.detectedAtMs ≤ i64Max) :
    (unambiguousCodexBindings panes rollouts).length ≤ 1 := by
  unfold unambiguousCodexBindings
  rw [List.length_insertionSort, ← List.map_prod_left_eq_zip, List.length_filterMap_eq_countP, List.countP_map]
  by_contra hmany
  obtain ⟨pane, hpane, hbound⟩ := List.countP_pos_iff.mp (Nat.lt_of_lt_of_le Nat.zero_lt_one (Nat.le_of_not_le hmany))
  obtain ⟨binding, hbinding⟩ := Option.isSome_iff_exists.mp hbound
  obtain ⟨rollout, hmatched, -⟩ := (paneBinding_eq_some hpanes hpane).mp hbinding
  refine hmany ((List.countP_mono_left fun other hother hbound => ?_).trans hmatched.onlyPane.le)
  obtain ⟨binding', hbinding'⟩ := Option.isSome_iff_exists.mp hbound
  obtain ⟨rollout', hmatched', -⟩ := (paneBinding_eq_some hpanes hother).mp hbinding'
  rw [hmatched.rollout_eq hmatched']
  exact decide_eq_true hmatched'.candidate

theorem Matched.perm {panes' : List CodexPaneTarget} {rollouts' : List CodexRolloutCandidate}
    (hpanes : panes.Perm panes') (hrollouts : rollouts.Perm rollouts') {rollout : CodexRolloutCandidate} :
    Matched panes' rollouts' pane rollout ↔ Matched panes rollouts pane rollout := by
  constructor
  · rintro ⟨hmem, hcan, hone, hone'⟩
    exact ⟨hrollouts.mem_iff.mpr hmem, hcan, (hrollouts.countP_eq _).trans hone, (hpanes.countP_eq _).trans hone'⟩
  · rintro ⟨hmem, hcan, hone, hone'⟩
    exact ⟨hrollouts.mem_iff.mp hmem, hcan, (hrollouts.countP_eq _).symm.trans hone,
      (hpanes.countP_eq _).symm.trans hone'⟩

end

/-- For all panes and all rollouts: a pane and the session of a rollout are bound exactly when the rollout is the
only candidate of the pane and no other pane may have it; a run is bound to one session and a session to one run,
where there is one binding at most; and the order of the lists does not matter. -/
theorem codex_bindings_mutually_unique (panes : List CodexPaneTarget) (rollouts : List CodexRolloutCandidate)
    (hpanes : ∀ pane ∈ panes, pane.detectedAtMs ≤ i64Max) :
    (∀ runId sid, (∃ detectedAtMs, (runId, sid, detectedAtMs) ∈ unambiguousCodexBindings panes rollouts) ↔
      ∃ pane ∈ panes, ∃ rollout ∈ rollouts, pane.runId = runId ∧ rollout.sid = sid ∧ IsCandidate pane rollout ∧
        (rollouts.countP fun other => IsCandidate pane other) = 1 ∧
        (panes.countP fun other => IsCandidate other rollout) = 1) ∧
    (∀ b ∈ unambiguousCodexBindings panes rollouts, ∀ b' ∈ unambiguousCodexBindings panes rollouts,
      b.1 = b'.1 ∨ b.2.1 = b'.2.1 → b = b') ∧
    (unambiguousCodexBindings panes rollouts).length ≤ 1 ∧
    ∀ panes' rollouts', panes.Perm panes' → rollouts.Perm rollouts' →
      ∀ b, b ∈ unambiguousCodexBindings panes' rollouts' ↔ b ∈ unambiguousCodexBindings panes rollouts := by
  have hlength := @unambiguousCodexBindings_length panes rollouts hpanes
  have hone : unambiguousCodexBindings panes rollouts = [] ∨
      ∃ b, unambiguousCodexBindings panes rollouts = [b] := by
    cases h : unambiguousCodexBindings panes rollouts with
    | nil => exact .inl rfl
    | cons b rest =>
      rw [h, List.length_cons] at hlength
      exact .inr ⟨b, by rw [List.length_eq_zero_iff.mp (Nat.le_zero.mp (Nat.le_of_succ_le_succ hlength))]⟩
  refine ⟨fun runId sid => ?_, fun b hb b' hb' _ => ?_, hlength, fun panes' rollouts' hp hr b => ?_⟩
  · constructor
    · rintro ⟨detectedAtMs, hmem⟩
      obtain ⟨pane, hpane, rollout, hmatched, hbinding⟩ := (mem_unambiguousCodexBindings hpanes).mp hmem
      cases hbinding
      exact ⟨pane, hpane, rollout, hmatched.mem, rfl, rfl, hmatched.candidate, hmatched.onlyRollout,
        hmatched.onlyPane⟩
    · rintro ⟨pane, hpane, rollout, hrollout, rfl, rfl, hcan, hrollouts, hpanes'⟩
      exact ⟨pane.detectedAtMs, (mem_unambiguousCodexBindings hpanes).mpr
        ⟨pane, hpane, rollout, ⟨hrollout, hcan, hrollouts, hpanes'⟩, rfl⟩⟩
  · rcases hone with h | ⟨only, h⟩
    · rw [h] at hb
      cases hb
    · rw [h] at hb hb'
      exact (List.mem_singleton.mp hb).trans (List.mem_singleton.mp hb').symm
  · have hpanes' : ∀ pane ∈ panes', pane.detectedAtMs ≤ i64Max := fun pane hpane =>
      hpanes pane (hp.mem_iff.mpr hpane)
    rw [mem_unambiguousCodexBindings hpanes, mem_unambiguousCodexBindings hpanes']
    simp only [hp.mem_iff, Matched.perm hp hr]

/-- Three panes: the first was detected in the second of the newest rollout, the others later. -/
def detectedPanes : List CodexPaneTarget := [⟨⟨2⟩, 9000⟩, ⟨⟨1⟩, 4200⟩, ⟨⟨3⟩, 9500⟩]

/-- Three rollouts, of which two are too old for every pane. -/
def createdRollouts : List CodexRolloutCandidate :=
  [⟨"old", "a.jsonl", 1000⟩, ⟨"new", "b.jsonl", 4000⟩, ⟨"older", "c.jsonl", 3999⟩]

/-- The newest rollout belongs to the pane of its second, and nothing else is bound, whatever the order. -/
theorem codex_bindings_mutually_unique_three :
    (∃ detectedAtMs, (⟨1⟩, "new", detectedAtMs) ∈ unambiguousCodexBindings detectedPanes createdRollouts) ∧
      (¬∃ detectedAtMs, (⟨2⟩, "new", detectedAtMs) ∈ unambiguousCodexBindings detectedPanes createdRollouts) ∧
      (unambiguousCodexBindings detectedPanes createdRollouts).length ≤ 1 ∧
      ∀ b, b ∈ unambiguousCodexBindings detectedPanes.reverse createdRollouts.reverse ↔
        b ∈ unambiguousCodexBindings detectedPanes createdRollouts := by
  obtain ⟨hbound, -, hlength, horder⟩ := codex_bindings_mutually_unique detectedPanes createdRollouts (by decide)
  refine ⟨(hbound ⟨1⟩ "new").mpr ?_, fun hsecond => ?_, hlength,
    horder _ _ (List.reverse_perm _).symm (List.reverse_perm _).symm⟩
  · exact ⟨⟨⟨1⟩, 4200⟩, by decide, ⟨"new", "b.jsonl", 4000⟩, by decide, rfl, rfl, by decide, by decide, by decide⟩
  · -- the second pane was detected five seconds later
    obtain ⟨pane, hpane, rollout, hrollout, hrun, -, hcandidate, -⟩ := (hbound ⟨2⟩ "new").mp hsecond
    revert pane rollout
    decide

/-- A pane that was detected before the epoch is not bound to the rollout of that second. -/
theorem early_pane_not_bound :
    ¬∀ (panes : List CodexPaneTarget) (rollouts : List CodexRolloutCandidate) (runId : RunId) (sid : String),
      (∃ pane ∈ panes, ∃ rollout ∈ rollouts, pane.runId = runId ∧ rollout.sid = sid ∧
        pane.detectedAtMs / 1000 * 1000 ≤ rollout.creationMs ∧
        (rollouts.countP fun other => decide (pane.detectedAtMs / 1000 * 1000 ≤ other.creationMs)) = 1 ∧
        (panes.countP fun other => decide (other.detectedAtMs / 1000 * 1000 ≤ rollout.creationMs)) = 1) →
      ∃ detectedAtMs, (runId, sid, detectedAtMs) ∈ unambiguousCodexBindings panes rollouts := by
  intro h
  obtain ⟨detectedAtMs, hmem⟩ := h [⟨⟨1⟩, -500⟩] [⟨"s", "r.jsonl", -700⟩] ⟨1⟩ "s"
    ⟨_, List.mem_singleton_self _, _, List.mem_singleton_self _, rfl, rfl, by decide, by decide, by decide⟩
  have hnone : unambiguousCodexBindings [⟨⟨1⟩, -500⟩] [⟨"s", "r.jsonl", -700⟩] = [] := by decide
  rw [hnone] at hmem
  cases hmem

end HerdrTop
