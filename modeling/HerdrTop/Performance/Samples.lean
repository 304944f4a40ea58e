import HerdrTop.Library.Alarm
import HerdrTop.Library.Runs
import HerdrTop.Performance.Tracker
import Mathlib.Data.List.TakeWhile

/-!
# What samples say

A tracker runs through admissions, completions, drops and samples in any order; the log of a run keeps what
happened. Everything a sample says about events is a fact about the log before it, whatever was forgotten on
the way: what waits, for how long, and how many came in lately. A lag generation is an alarm that the
samples look at.

## What is proved

`samples_tell_the_log`: every sample of every run agrees with the log.
-/

namespace HerdrTop.Performance

/-! ### Runs -/

/-- What is kept of a run. -/
inductive Entry
  | admitted (stamp : AdmissionStamp) (rated : Bool)
  /-- The holder of an admission completed it or was dropped. -/
  | completed (sequence : ℕ)
  | sampled (now : ℕ) (snapshot : PerformanceSnapshot)

/-- The state behind the lock, the holders, and what the clock last said. -/
structure Tracker where
  state : PerformanceState := {}
  admissions : List Admission := []
  clock : ℕ := 0

/-- One thing that happens to a tracker. The clock never goes back. -/
inductive Step (ghostVisibilityMs : ℤ) : Tracker → List Entry → Tracker → Prop
  | admitEvent {s : Tracker} {now : ℕ} {rated : Bool} {state : PerformanceState} {stamp : AdmissionStamp}
      (clock : s.clock ≤ now) (admits : s.state.admitEvent now rated = some (state, stamp)) :
      Step ghostVisibilityMs s [.admitted stamp rated] ⟨state, s.admissions ++ [⟨stamp, false⟩], now⟩
  | complete {s : Tracker} {a : Admission} (holds : a ∈ s.admissions) :
      Step ghostVisibilityMs s [.completed a.stamp.sequence]
        ⟨a.complete s.state, s.admissions.erase a, s.clock⟩
  | drop {s : Tracker} {a : Admission} (holds : a ∈ s.admissions) :
      Step ghostVisibilityMs s [.completed a.stamp.sequence] ⟨a.drop s.state, s.admissions.erase a, s.clock⟩
  | sample {s : Tracker} {now : ℕ} (clock : s.clock ≤ now) (m : DomainModel) (nowMs : ℤ) :
      Step ghostVisibilityMs s [.sampled now (s.state.sample ghostVisibilityMs m nowMs now).2]
        ⟨(s.state.sample ghostVisibilityMs m nowMs now).1, s.admissions, now⟩

/-! ### What a log says -/

/-- The admissions of a log, in order. -/
def admitted (log : List Entry) : List AdmissionStamp :=
  log.filterMap fun
    | .admitted stamp _ => some stamp
    | _ => none

/-- The sequences that a log completes. -/
def completed (log : List Entry) : List ℕ :=
  log.filterMap fun
    | .completed sequence => some sequence
    | _ => none

/-- When rated events were admitted. -/
def rated (log : List Entry) : List ℕ :=
  log.filterMap fun
    | .admitted stamp true => some stamp.admittedAt
    | _ => none

/-- The admissions that are not completed. -/
def pending (log : List Entry) : List AdmissionStamp :=
  (admitted log).filter fun stamp => stamp.sequence ∉ completed log

/-- How many rated events were admitted in a window that is open in the past and closed now. -/
def inWindow (log : List Entry) (now width : ℕ) : ℕ :=
  ((rated log).filter fun admittedAt : ℕ => (now : ℤ) - width < (admittedAt : ℤ) ∧ admittedAt ≤ now).length

/-- What a sample looks at. -/
structure Look where
  now : ℕ
  /-- What was admitted up to the sample. -/
  admitted : List AdmissionStamp
  pending : List AdmissionStamp

/-- The age of the oldest pending admission. -/
def Look.lag (look : Look) : ℕ := (look.pending.map fun stamp => look.now - stamp.admittedAt).foldr max 0

/-- What a sample at a time looks at. -/
def lookAt (log : List Entry) (now : ℕ) : Look := ⟨now, admitted log, pending log⟩

/-- The looks of the samples of a log that follows another one; the latest comes first. -/
def looksAfter (before : List Entry) : List Entry → List Look
  | [] => []
  | .sampled now snapshot :: log =>
    looksAfter (before ++ [.sampled now snapshot]) log ++ [lookAt before now]
  | entry :: log => looksAfter (before ++ [entry]) log

/-- The looks of the samples of a log. -/
def looks (log : List Entry) : List Look := looksAfter [] log

/-- A lag generation: it begins when the oldest pending event is older than a second, and is over when a
sample finds nothing pending of what had been admitted when it began. -/
def lagGeneration : Alarm Look (List AdmissionStamp) where
  breach look := seconds 1 < look.lag
  mark look := look.admitted
  lasts mark look := mark.any (· ∈ look.pending)

/-! ### Longer logs -/

section Logs

variable (log : List Entry)

@[simp] theorem admitted_append (log' : List Entry) : admitted (log ++ log') = admitted log ++ admitted log' :=
  List.filterMap_append

@[simp] theorem completed_append (log' : List Entry) :
    completed (log ++ log') = completed log ++ completed log' := List.filterMap_append

@[simp] theorem rated_append (log' : List Entry) : rated (log ++ log') = rated log ++ rated log' :=
  List.filterMap_append

theorem looksAfter_append (before log log' : List Entry) :
    looksAfter before (log ++ log') = looksAfter (before ++ log) log' ++ looksAfter before log := by
  induction log generalizing before with
  | nil => simp [looksAfter]
  | cons entry log ih =>
    cases entry <;> simp [looksAfter, ih]

theorem looks_admitted (stamp : AdmissionStamp) (rated : Bool) :
    looks (log ++ [.admitted stamp rated]) = looks log := by
  unfold looks
  rw [looksAfter_append]
  rfl

theorem looks_completed (sequence : ℕ) : looks (log ++ [.completed sequence]) = looks log := by
  unfold looks
  rw [looksAfter_append]
  rfl

theorem looks_sampled (now : ℕ) (snapshot : PerformanceSnapshot) :
    looks (log ++ [.sampled now snapshot]) = lookAt log now :: looks log := by
  unfold looks
  rw [looksAfter_append]
  rfl

theorem pending_sampled (now : ℕ) (snapshot : PerformanceSnapshot) :
    pending (log ++ [.sampled now snapshot]) = pending log := by
  unfold pending
  rw [admitted_append, completed_append, show admitted [.sampled now snapshot] = [] from rfl,
    show completed [.sampled now snapshot] = [] from rfl, List.append_nil, List.append_nil]

theorem pending_completed (sequence : ℕ) :
    pending (log ++ [.completed sequence]) = (pending log).filter (·.sequence ≠ sequence) := by
  unfold pending
  rw [admitted_append, completed_append, show admitted [.completed sequence] = [] from rfl,
    show completed [.completed sequence] = [sequence] from rfl, List.append_nil, List.filter_filter]
  refine List.filter_congr fun stamp _ => ?_
  simp only [List.mem_append, List.mem_singleton, not_or, Bool.decide_and]
  exact Bool.and_comm _ _

theorem pending_admitted (stamp : AdmissionStamp) (rated : Bool) (hfresh : stamp.sequence ∉ completed log) :
    pending (log ++ [.admitted stamp rated]) = pending log ++ [stamp] := by
  unfold pending
  rw [admitted_append, completed_append, show admitted [.admitted stamp rated] = [stamp] from rfl,
    show completed [.admitted stamp rated] = [] from rfl, List.append_nil, List.filter_append,
    List.filter_cons_of_pos (by simpa using hfresh), List.filter_nil]

theorem mem_admitted_of_pending {stamp : AdmissionStamp} (h : stamp ∈ pending log) : stamp ∈ admitted log :=
  List.mem_of_mem_filter h

end Logs

/-! ### What the tracker keeps of its log -/

/-- How an admission is kept while it waits. -/
def AdmissionStamp.entry (stamp : AdmissionStamp) : ℕ × ℕ := (stamp.sequence, stamp.admittedAt)

/-- What holds between a tracker and its log. -/
structure Tracks (log : List Entry) (s : Tracker) : Prop where
  /-- Sequences count admissions. -/
  sequences : (admitted log).map (·.sequence) = List.range' 1 s.state.admissionHighWater
  /-- Only what was admitted is completed. -/
  completed : ∀ sequence ∈ completed log, sequence ≤ s.state.admissionHighWater
  /-- The clock did not go back. -/
  ordered : (admitted log).Pairwise fun stamp later => stamp.admittedAt ≤ later.admittedAt
  past : ∀ stamp ∈ admitted log, stamp.admittedAt ≤ s.clock
  pending : s.state.pending = (pending log).map AdmissionStamp.entry
  /-- Every completion ends one admission. -/
  counted : (Performance.pending log).length + (Performance.completed log).length = (admitted log).length
  /-- Holders hold admissions that are not completed, each another one. -/
  holders : ∀ a ∈ s.admissions, a.completed = false ∧ a.stamp ∈ Performance.pending log
  distinct : (s.admissions.map (·.stamp.sequence)).Nodup
  /-- What was discarded was in no window any more. -/
  discarded : ∃ expired, rated log = expired ++ s.state.admissionTimes ∧
    ∀ admittedAt ∈ expired, admittedAt + seconds 60 ≤ s.clock
  /-- The high-water mark is where the lag generation began. -/
  generation : s.state.lagBreachHighWater = (lagGeneration.after (looks log)).map List.length
  begun : ∀ mark, lagGeneration.after (looks log) = some mark → mark <+: admitted log

/-! ### One step -/

/-- What is admitted comes last, with the next sequence. -/
theorem admit_eq_some {s s' : PerformanceState} {now : ℕ} {rated : Bool} {stamp : AdmissionStamp}
    (h : s.admitEvent now rated = some (s', stamp)) :
    stamp = ⟨s.admissionHighWater + 1, now⟩ ∧
      s' = { s with
        admissionHighWater := s.admissionHighWater + 1
        pending := s.pending.orderedInsert (·.1 ≤ ·.1) stamp.entry
        admissionTimes := if rated then s.admissionTimes ++ [now] else s.admissionTimes } := by
  unfold PerformanceState.admitEvent at h
  dsimp only at h
  split_ifs at h <;> cases h <;> exact ⟨rfl, by simp [AdmissionStamp.entry, *]⟩

/-- A greater key goes to the end. -/
theorem orderedInsert_last {l : List (ℕ × ℕ)} {entry : ℕ × ℕ} (h : ∀ e ∈ l, e.1 < entry.1) :
    l.orderedInsert (·.1 ≤ ·.1) entry = l ++ [entry] := by
  induction l with
  | nil => rfl
  | cons e l ih =>
    obtain ⟨he, hl⟩ := List.forall_mem_cons.mp h
    rw [List.orderedInsert, if_neg (by omega), ih hl]
    rfl

/-- Taking out what has one of the keys of a list without duplicate keys takes out one element. -/
theorem length_filter_ne {α : Type} {key : α → ℕ} {l : List α} {a : α} (hnodup : (l.map key).Nodup)
    (ha : a ∈ l) : (l.filter (key · ≠ key a)).length + 1 = l.length := by
  have hone : (l.map key).count (key a) = 1 :=
    List.count_eq_one_of_mem hnodup (List.mem_map_of_mem ha)
  rw [List.count, List.countP_map] at hone
  have hsum : l.length = _ + _ := List.length_eq_countP_add_countP fun b => decide (key b = key a)
  have hsame : l.countP (fun b => decide (key b = key a)) = 1 := hone ▸ List.countP_congr (by simp)
  have hrest : l.countP (fun b => decide (¬ decide (key b = key a) = true)) =
      l.countP (fun b => decide (key b ≠ key a)) := List.countP_congr (by simp)
  rw [← List.countP_eq_length_filter]
  omega

/-- Discarding leaves everything but the times. -/
theorem discard_rest (s : PerformanceState) (now : ℕ) :
    (s.discardExpiredAdmissionTimes now).pending = s.pending ∧
      (s.discardExpiredAdmissionTimes now).admissionHighWater = s.admissionHighWater ∧
      (s.discardExpiredAdmissionTimes now).lagBreachHighWater = s.lagBreachHighWater := by
  unfold PerformanceState.discardExpiredAdmissionTimes
  split_ifs <;> exact ⟨rfl, rfl, rfl⟩

/-- Discarding does not matter to the lag generation. -/
theorem sample_generation (s : PerformanceState) (ghostVisibilityMs : ℤ) (m : DomainModel) (nowMs : ℤ)
    (now : ℕ) :
    (s.sample ghostVisibilityMs m nowMs now).1.lagBreachHighWater =
      (s.updateLagGeneration (s.eventLag now)).lagBreachHighWater := by
  obtain ⟨hpending, hhigh, hbreach⟩ := discard_rest s now
  have hlag : (s.discardExpiredAdmissionTimes now).eventLag now = s.eventLag now := by
    unfold PerformanceState.eventLag
    rw [hpending]
  show ((s.discardExpiredAdmissionTimes now).updateLagGeneration _).lagBreachHighWater = _
  rw [hlag]
  unfold PerformanceState.updateLagGeneration
  dsimp only
  rw [hpending, hhigh, hbreach]

namespace Tracks

variable {log : List Entry} {s : Tracker}

theorem start : Tracks [] {} where
  sequences := rfl
  completed _ h := nomatch h
  ordered := .nil
  past _ h := nomatch h
  pending := rfl
  counted := rfl
  holders _ h := nomatch h
  distinct := .nil
  discarded := ⟨[], rfl, fun _ h => nomatch h⟩
  generation := rfl
  begun _ h := nomatch h

theorem sequence_mem (h : Tracks log s) {stamp : AdmissionStamp} (hstamp : stamp ∈ admitted log) :
    1 ≤ stamp.sequence ∧ stamp.sequence ≤ s.state.admissionHighWater := by
  have hmem := List.mem_map_of_mem (f := (·.sequence)) hstamp
  rw [h.sequences, List.mem_range'_1] at hmem
  omega

theorem pending_nodup (h : Tracks log s) : ((Performance.pending log).map (·.sequence)).Nodup := by
  have hall : ((admitted log).map (·.sequence)).Nodup := h.sequences ▸ List.nodup_range'
  exact hall.sublist (List.filter_sublist.map _)

theorem admitEvent (h : Tracks log s) {now : ℕ} {rated : Bool} {state : PerformanceState}
    {stamp : AdmissionStamp} (clock : s.clock ≤ now)
    (admits : s.state.admitEvent now rated = some (state, stamp)) :
    Tracks (log ++ [.admitted stamp rated]) ⟨state, s.admissions ++ [⟨stamp, false⟩], now⟩ := by
  obtain ⟨rfl, rfl⟩ := admit_eq_some admits
  have hfresh : s.state.admissionHighWater + 1 ∉ Performance.completed log := by
    intro hmem
    have := h.completed _ hmem
    omega
  have hpending := pending_admitted log ⟨s.state.admissionHighWater + 1, now⟩ rated hfresh
  have hadmitted : admitted (log ++ [.admitted ⟨s.state.admissionHighWater + 1, now⟩ rated]) =
      admitted log ++ [⟨s.state.admissionHighWater + 1, now⟩] := admitted_append _ _
  have hcompleted : Performance.completed (log ++ [.admitted ⟨s.state.admissionHighWater + 1, now⟩ rated]) =
      Performance.completed log := (completed_append _ _).trans (List.append_nil _)
  refine ⟨?_, ?_, ?_, ?_, ?_, ?_, ?_, ?_, ?_, ?_, ?_⟩
  · show (admitted _).map _ = List.range' 1 (s.state.admissionHighWater + 1)
    rw [hadmitted, List.map_append, h.sequences, List.range'_1_concat, Nat.add_comm 1]
    rfl
  · intro sequence hsequence
    rw [hcompleted] at hsequence
    exact (h.completed sequence hsequence).trans (Nat.le_succ _)
  · rw [hadmitted, List.pairwise_append]
    refine ⟨h.ordered, List.pairwise_singleton _ _, fun earlier hearlier later hlater => ?_⟩
    rw [List.mem_singleton.mp hlater]
    exact (h.past earlier hearlier).trans clock
  · intro stamp hstamp
    rw [hadmitted, List.mem_append, List.mem_singleton] at hstamp
    obtain hstamp | rfl := hstamp
    · exact (h.past stamp hstamp).trans clock
    · exact le_rfl
  · rw [hpending, List.map_append, ← h.pending]
    refine orderedInsert_last fun entry hentry => ?_
    rw [h.pending] at hentry
    obtain ⟨earlier, hearlier, rfl⟩ := List.mem_map.mp hentry
    exact Nat.lt_succ_of_le (h.sequence_mem (mem_admitted_of_pending log hearlier)).2
  · rw [hpending, hcompleted, hadmitted, List.length_append, List.length_append, ← h.counted]
    simp only [List.length_singleton]
    omega
  · intro a ha
    rw [hpending, List.mem_append, List.mem_singleton]
    obtain ha | ha := List.mem_append.mp ha
    · exact ⟨(h.holders a ha).1, .inl (h.holders a ha).2⟩
    · rw [List.mem_singleton.mp ha]
      exact ⟨rfl, .inr rfl⟩
  · show ((s.admissions ++ [_]).map _).Nodup
    rw [List.map_append, List.nodup_append]
    refine ⟨h.distinct, List.nodup_singleton _, fun sequence hsequence last hlast heq => ?_⟩
    obtain ⟨a, ha, rfl⟩ := List.mem_map.mp hsequence
    have hle := (h.sequence_mem (mem_admitted_of_pending log (h.holders a ha).2)).2
    rw [heq, List.mem_singleton.mp hlast] at hle
    exact absurd hle (Nat.not_succ_le_self _)
  · obtain ⟨expired, hrated, hexpired⟩ := h.discarded
    refine ⟨expired, ?_, fun admittedAt hat => (hexpired admittedAt hat).trans clock⟩
    rw [rated_append, hrated]
    cases rated
    · exact List.append_nil _
    · exact List.append_assoc _ _ _
  · rw [looks_admitted]
    exact h.generation
  · intro mark hmark
    rw [looks_admitted] at hmark
    rw [hadmitted]
    exact (h.begun mark hmark).trans (List.prefix_append _ _)

/-- A holder that completes its event or is dropped. -/
theorem finish (h : Tracks log s) {a : Admission} (ha : a ∈ s.admissions) :
    Tracks (log ++ [.completed a.stamp.sequence])
      ⟨s.state.complete a.stamp.sequence, s.admissions.erase a, s.clock⟩ := by
  obtain ⟨-, hwaits⟩ := h.holders a ha
  have hpending := pending_completed log a.stamp.sequence
  have hadmitted : admitted (log ++ [.completed a.stamp.sequence]) = admitted log :=
    (admitted_append _ _).trans (List.append_nil _)
  have hcompleted : Performance.completed (log ++ [.completed a.stamp.sequence]) =
      Performance.completed log ++ [a.stamp.sequence] := completed_append _ _
  have hany : s.state.pending.any (·.1 = a.stamp.sequence) = true := by
    rw [h.pending, List.any_eq_true]
    exact ⟨a.stamp.entry, List.mem_map_of_mem hwaits, decide_eq_true rfl⟩
  have hstate : s.state.complete a.stamp.sequence = { s.state with
      pending := s.state.pending.filter (·.1 ≠ a.stamp.sequence)
      completionHighWater := max s.state.completionHighWater a.stamp.sequence } := if_pos hany
  rw [hstate]
  refine ⟨?_, ?_, ?_, ?_, ?_, ?_, ?_, ?_, ?_, ?_, ?_⟩
  · rw [hadmitted]
    exact h.sequences
  · intro sequence hsequence
    rw [hcompleted, List.mem_append, List.mem_singleton] at hsequence
    obtain hsequence | rfl := hsequence
    · exact h.completed sequence hsequence
    · exact (h.sequence_mem (mem_admitted_of_pending log hwaits)).2
  · rw [hadmitted]
    exact h.ordered
  · rw [hadmitted]
    exact h.past
  · rw [hpending, h.pending, List.filter_map]
    rfl
  · rw [hpending, hcompleted, hadmitted, ← h.counted, List.length_append, List.length_singleton]
    have hone := length_filter_ne h.pending_nodup hwaits
    omega
  · intro b hb
    have hmem := List.mem_of_mem_erase hb
    rw [hpending, List.mem_filter]
    refine ⟨(h.holders b hmem).1, (h.holders b hmem).2, decide_eq_true fun heq => ?_⟩
    -- another holder with this sequence would be a second one
    have hsame : b = a := List.inj_on_of_nodup_map h.distinct hmem ha heq
    rw [hsame] at hb
    exact (List.Nodup.of_map _ h.distinct).not_mem_erase hb
  · exact h.distinct.sublist (List.erase_sublist.map _)
  · obtain ⟨expired, hrated, hexpired⟩ := h.discarded
    refine ⟨expired, ?_, hexpired⟩
    rw [rated_append, hrated]
    exact List.append_nil _
  · rw [looks_completed]
    exact h.generation
  · intro mark hmark
    rw [looks_completed] at hmark
    rw [hadmitted]
    exact h.begun mark hmark

/-! ### Samples -/

/-- What a sample discards is in no window. -/
theorem discard (h : Tracks log s) {now : ℕ} (clock : s.clock ≤ now) :
    ∃ expired, rated log = expired ++ (s.state.discardExpiredAdmissionTimes now).admissionTimes ∧
      ∀ admittedAt ∈ expired, admittedAt + seconds 60 ≤ now := by
  obtain ⟨expired, hrated, hexpired⟩ := h.discarded
  unfold PerformanceState.discardExpiredAdmissionTimes
  split_ifs with hearly
  · exact ⟨expired, hrated, fun admittedAt hat => (hexpired admittedAt hat).trans clock⟩
  · refine ⟨expired ++ s.state.admissionTimes.takeWhile (· ≤ now - seconds 60), ?_, fun admittedAt hat => ?_⟩
    · rw [List.append_assoc, List.takeWhile_append_dropWhile, hrated]
    · obtain hat | hat := List.mem_append.mp hat
      · exact (hexpired admittedAt hat).trans clock
      · have hle : admittedAt ≤ now - seconds 60 := by simpa using List.mem_takeWhile_imp hat
        omega

/-- What is kept counts the same in a window as everything does. -/
theorem countWindow_eq {state : PerformanceState} {expired : List ℕ} {now width : ℕ}
    (hrated : rated log = expired ++ state.admissionTimes)
    (hexpired : ∀ admittedAt ∈ expired, admittedAt + seconds 60 ≤ now) (hwidth : width ≤ seconds 60) :
    state.countWindow now width = inWindow log now width := by
  have hnone : expired.filter (fun admittedAt : ℕ => (now : ℤ) - width < (admittedAt : ℤ) ∧ admittedAt ≤ now) = [] := by
    rw [List.filter_eq_nil_iff]
    intro admittedAt hat hin
    have hold := hexpired admittedAt hat
    have hyoung := (of_decide_eq_true hin).1
    omega
  unfold inWindow PerformanceState.countWindow
  rw [hrated, List.filter_append, hnone, List.nil_append]
  split_ifs with hearly
  · refine congrArg List.length (List.filter_congr fun admittedAt _ => ?_)
    rw [decide_eq_decide]
    omega
  · refine congrArg List.length (List.filter_congr fun admittedAt _ => ?_)
    rw [← Bool.decide_and, decide_eq_decide]
    omega

/-- The event with the least sequence is the oldest. -/
theorem eventLag_eq (h : Tracks log s) (now : ℕ) : s.state.eventLag now = (lookAt log now).lag := by
  unfold PerformanceState.eventLag Look.lag
  rw [h.pending]
  have hordered : (Performance.pending log).Pairwise _ := h.ordered.sublist List.filter_sublist
  show _ = ((Performance.pending log).map fun stamp => now - stamp.admittedAt).foldr max 0
  cases hpending : Performance.pending log with
  | nil => rfl
  | cons oldest rest =>
    rw [hpending, List.pairwise_cons] at hordered
    show now - oldest.admittedAt = max _ _
    refine (max_eq_left ?_).symm
    have hyounger : ∀ stamp ∈ rest, oldest.admittedAt ≤ stamp.admittedAt := hordered.1
    clear hordered hpending
    induction rest with
    | nil => exact Nat.zero_le _
    | cons stamp rest ih =>
      obtain ⟨hstamp, hrest⟩ := List.forall_mem_cons.mp hyounger
      have hage : now - stamp.admittedAt ≤ now - oldest.admittedAt := by omega
      exact max_le hage (ih hrest)

/-- Whether anything up to a high-water mark is pending shows at the least sequence. -/
theorem over_iff (h : Tracks log s) {mark : List AdmissionStamp} (hmark : mark <+: admitted log) :
    (s.state.pending.head?.all fun entry => mark.length < entry.1) =
      !(mark.any (· ∈ Performance.pending log)) := by
  obtain ⟨rest, hrest⟩ := hmark
  have hsequences : mark.map (·.sequence) ++ rest.map (·.sequence) =
      List.range' 1 s.state.admissionHighWater := by
    rw [← List.map_append, hrest, h.sequences]
  have hlength : mark.length + rest.length = s.state.admissionHighWater := by
    have hlengths := congrArg List.length hsequences
    rwa [List.length_append, List.length_map, List.length_map, List.length_range'] at hlengths
  have hsplit : List.range' 1 mark.length ++ List.range' (1 + mark.length) rest.length =
      mark.map (·.sequence) ++ rest.map (·.sequence) := by
    rw [List.range'_append_1, hlength, hsequences]
  obtain ⟨hfirst, hlast⟩ := List.append_inj hsplit (by simp)
  have hlow : ∀ stamp ∈ mark, stamp.sequence ≤ mark.length := by
    intro stamp hstamp
    have hmem : stamp.sequence ∈ List.range' 1 mark.length := by
      rw [hfirst]
      exact List.mem_map_of_mem hstamp
    rw [List.mem_range'_1] at hmem
    omega
  have hhigh : ∀ stamp ∈ rest, mark.length < stamp.sequence := by
    intro stamp hstamp
    have hmem : stamp.sequence ∈ List.range' (1 + mark.length) rest.length := by
      rw [hlast]
      exact List.mem_map_of_mem hstamp
    rw [List.mem_range'_1] at hmem
    omega
  have hsorted : ((admitted log).map (·.sequence)).Pairwise (· < ·) := h.sequences ▸ List.pairwise_lt_range'
  rw [h.pending, List.head?_map]
  have hpairwise : ((Performance.pending log).map (·.sequence)).Pairwise (· < ·) :=
    hsorted.sublist (List.filter_sublist.map _)
  cases hpending : Performance.pending log with
  | nil => simp
  | cons first others =>
    rw [hpending, List.map_cons, List.pairwise_cons] at hpairwise
    have hfirstmem : first ∈ mark ++ rest := by
      rw [hrest]
      exact mem_admitted_of_pending log (hpending ▸ List.mem_cons_self)
    show decide (mark.length < first.sequence) = _
    rw [← Bool.not_eq_eq_eq_not, ← decide_not, eq_comm, Bool.eq_iff_iff, List.any_eq_true, decide_eq_true_eq]
    constructor
    · rintro ⟨stamp, hstamp, hwaits⟩
      have hle := hlow stamp hstamp
      obtain rfl | hother := List.mem_cons.mp (of_decide_eq_true hwaits)
      · omega
      · have hlt := hpairwise.1 stamp.sequence (List.mem_map_of_mem hother)
        omega
    · intro hle
      refine ⟨first, ?_, decide_eq_true List.mem_cons_self⟩
      exact (List.mem_append.mp hfirstmem).resolve_right fun hin => hle (hhigh first hin)

/-- A sample looks at the lag generation once more. -/
theorem updateLagGeneration_eq (h : Tracks log s) (now : ℕ) :
    (s.state.updateLagGeneration (s.state.eventLag now)).lagBreachHighWater =
      (lagGeneration.after (lookAt log now :: looks log)).map List.length := by
  show _ = (lagGeneration.next (lagGeneration.after (looks log)) (lookAt log now)).map List.length
  have hbegins : (!s.state.pending.isEmpty && decide (seconds 1 < s.state.eventLag now)) =
      lagGeneration.breach (lookAt log now) := by
    show _ = decide (seconds 1 < (lookAt log now).lag)
    rw [← h.eventLag_eq now]
    unfold PerformanceState.eventLag
    cases s.state.pending with
    | nil => rfl
    | cons => rfl
  have hhigh : s.state.admissionHighWater = (admitted log).length := by
    have hlengths := congrArg List.length h.sequences
    rw [List.length_map, List.length_range'] at hlengths
    exact hlengths.symm
  have hfirst : lagGeneration.next none (lookAt log now) =
      if lagGeneration.breach (lookAt log now) then some (admitted log) else none := Alarm.next_none _ _
  unfold PerformanceState.updateLagGeneration
  dsimp only
  rw [Bool.and_assoc, hbegins, h.generation]
  cases hafter : lagGeneration.after (looks log) with
  | none =>
    rw [hfirst, hhigh]
    cases lagGeneration.breach (lookAt log now) <;> rfl
  | some mark =>
    have hlasts : lagGeneration.lasts mark (lookAt log now) = mark.any (· ∈ Performance.pending log) := rfl
    rw [Option.map_some, Option.any_some, h.over_iff (h.begun mark hafter), Alarm.next_some, hlasts, hfirst, hhigh]
    cases mark.any (· ∈ Performance.pending log)
    · cases lagGeneration.breach (lookAt log now) <;> rfl
    · rfl

theorem sample (h : Tracks log s) {now : ℕ} (clock : s.clock ≤ now) (ghostVisibilityMs : ℤ) (m : DomainModel)
    (nowMs : ℤ) :
    Tracks (log ++ [.sampled now (s.state.sample ghostVisibilityMs m nowMs now).2])
      ⟨(s.state.sample ghostVisibilityMs m nowMs now).1, s.admissions, now⟩ := by
  obtain ⟨hpending, hhigh, hbreach⟩ := discard_rest s.state now
  have hadmitted := (admitted_append log [.sampled now (s.state.sample ghostVisibilityMs m nowMs now).2]).trans
    (List.append_nil _)
  have hcompleted := (completed_append log [.sampled now (s.state.sample ghostVisibilityMs m nowMs now).2]).trans
    (List.append_nil _)
  have hwaiting := pending_sampled log now (s.state.sample ghostVisibilityMs m nowMs now).2
  refine ⟨?_, ?_, ?_, ?_, ?_, ?_, ?_, h.distinct, ?_, ?_, ?_⟩
  · rw [hadmitted, h.sequences, ← hhigh]
    rfl
  · rw [hcompleted]
    exact fun sequence hsequence => (h.completed sequence hsequence).trans hhigh.ge
  · rw [hadmitted]
    exact h.ordered
  · rw [hadmitted]
    exact fun stamp hstamp => (h.past stamp hstamp).trans clock
  · rw [hwaiting, ← h.pending, ← hpending]
    rfl
  · rw [hwaiting, hcompleted, hadmitted]
    exact h.counted
  · rw [hwaiting]
    exact h.holders
  · obtain ⟨expired, hrated, hexpired⟩ := h.discard clock
    exact ⟨expired, ((rated_append log _).trans (List.append_nil _)).trans hrated, hexpired⟩
  · rw [looks_sampled, ← h.updateLagGeneration_eq now]
    exact sample_generation s.state ghostVisibilityMs m nowMs now
  · intro mark hmark
    rw [looks_sampled] at hmark
    rw [hadmitted]
    rcases Alarm.next_cases hmark with hkept | rfl
    · exact h.begun mark hkept
    · exact List.prefix_refl _

theorem step {ghostVisibilityMs : ℤ} {l : List Entry} {t : Tracker} (hstep : Step ghostVisibilityMs s l t)
    (h : Tracks log s) : Tracks (log ++ l) t := by
  cases hstep with
  | admitEvent clock admits => exact h.admitEvent clock admits
  | @complete a holds =>
    obtain ⟨hopen, -⟩ := h.holders a holds
    have honce : a.complete s.state = s.state.complete a.stamp.sequence := by
      simp [Admission.complete, Admission.drop, Admission.completeOnce, hopen]
    rw [honce]
    exact h.finish holds
  | @drop a holds =>
    obtain ⟨hopen, -⟩ := h.holders a holds
    have honce : a.drop s.state = s.state.complete a.stamp.sequence := by
      simp [Admission.drop, Admission.completeOnce, hopen]
    rw [honce]
    exact h.finish holds
  | sample clock m nowMs => exact h.sample clock ghostVisibilityMs m nowMs

theorem run {ghostVisibilityMs : ℤ} {ls : List Entry} {t : Tracker}
    (hrun : Runs (Step ghostVisibilityMs) {} ls t) : Tracks ls t := by
  generalize hs : ({} : Tracker) = s at hrun
  induction hrun with
  | refl =>
    subst hs
    exact start
  | tail _ hstep ih => exact step hstep ih

end Tracks

/-! ### Every sample of every run -/

/-- A sample of a run is taken in a state that keeps the log before it. -/
theorem sampled_in {ghostVisibilityMs : ℤ} {ls past later : List Entry} {now : ℕ}
    {snapshot : PerformanceSnapshot} {t : Tracker} (hrun : Runs (Step ghostVisibilityMs) {} ls t)
    (hls : ls = past ++ .sampled now snapshot :: later) :
    ∃ s : Tracker, Tracks past s ∧ s.clock ≤ now ∧
      ∃ m nowMs, snapshot = (s.state.sample ghostVisibilityMs m nowMs now).2 := by
  obtain ⟨s, v, earlier, l₁, l₂, hbefore, hstep, rfl⟩ := hrun.step_at hls
  have htracks := Tracks.run hbefore
  have hsingle : ∀ {entry : Entry}, l₁ ++ .sampled now snapshot :: l₂ = [entry] →
      l₁ = [] ∧ entry = .sampled now snapshot := by
    intro entry h
    cases l₁ with
    | nil => exact ⟨rfl, (List.cons.inj h).1.symm⟩
    | cons first rest => simp at h
  generalize hl : l₁ ++ .sampled now snapshot :: l₂ = l at hstep
  cases hstep with
  | admitEvent => cases (hsingle hl).2
  | complete => cases (hsingle hl).2
  | drop => cases (hsingle hl).2
  | @sample at' clock m nowMs =>
    obtain ⟨rfl, heq⟩ := hsingle hl
    cases heq
    exact ⟨s, by rwa [List.append_nil], clock, m, nowMs, rfl⟩

theorem mem_reasonIf {degraded : Bool} {reason reason' : PerformanceDegradationReason} :
    reason' ∈ reasonIf degraded reason ↔ degraded = true ∧ reason' = reason := by
  unfold reasonIf
  split_ifs with h <;> simp [h]

/-- A sample gives the lag as a reason when it leaves a lag generation. -/
theorem eventLag_mem_reasons (s : PerformanceState) (ghostVisibilityMs : ℤ) (m : DomainModel) (nowMs : ℤ)
    (now : ℕ) :
    PerformanceDegradationReason.eventLag ∈ (s.sample ghostVisibilityMs m nowMs now).2.reasons ↔
      (s.sample ghostVisibilityMs m nowMs now).1.lagBreachHighWater.isSome = true := by
  unfold PerformanceState.sample
  simp only [List.mem_append, mem_reasonIf, reduceCtorEq, and_false, false_or, and_true]

/-- Every sample agrees with the log before it: it counts what waits, tells the age of the oldest and how many
rated events came in during its windows, and complains about the lag exactly when the oldest is older than a
second, or when an earlier sample began a lag generation and at every sample since then something that had
been admitted by that time was pending. -/
theorem samples_tell_the_log {ghostVisibilityMs : ℤ} {ls past later : List Entry} {now : ℕ}
    {snapshot : PerformanceSnapshot} {t : Tracker} (hrun : Runs (Step ghostVisibilityMs) {} ls t)
    (hls : ls = past ++ .sampled now snapshot :: later) :
    snapshot.pendingEvents = (pending past).length ∧
      snapshot.pendingEvents + (completed past).length = (admitted past).length ∧
      snapshot.eventLag = (lookAt past now).lag ∧
      snapshot.eventsOneSecond = inWindow past now (seconds 1) ∧
      snapshot.eventsTenSeconds = inWindow past now (seconds 10) ∧
      snapshot.eventsSixtySeconds = inWindow past now (seconds 60) ∧
      (.eventLag ∈ snapshot.reasons ↔ seconds 1 < (lookAt past now).lag ∨ ∃ since opener before,
        looks past = since ++ opener :: before ∧ lagGeneration.Raises (opener :: before) ∧
          ∀ look ∈ lookAt past now :: since, ∃ stamp ∈ opener.admitted, stamp ∈ look.pending) := by
  obtain ⟨s, htracks, clock, m, nowMs, rfl⟩ := sampled_in hrun hls
  obtain ⟨hpending, -, -⟩ := discard_rest s.state now
  have hcount : (s.state.sample ghostVisibilityMs m nowMs now).2.pendingEvents = (pending past).length := by
    show (s.state.discardExpiredAdmissionTimes now).pending.length = _
    rw [hpending, htracks.pending, List.length_map]
  obtain ⟨expired, hrated, hexpired⟩ := htracks.discard clock
  refine ⟨hcount, hcount ▸ htracks.counted, ?_, ?_, ?_, ?_, ?_⟩
  · rw [← htracks.eventLag_eq now]
    show (s.state.discardExpiredAdmissionTimes now).eventLag now = _
    unfold PerformanceState.eventLag
    rw [hpending]
  · exact Tracks.countWindow_eq hrated hexpired (by decide)
  · exact Tracks.countWindow_eq hrated hexpired (by decide)
  · exact Tracks.countWindow_eq hrated hexpired le_rfl
  · rw [eventLag_mem_reasons, sample_generation, htracks.updateLagGeneration_eq now, Option.isSome_map,
      Alarm.isSome_after_cons]
    simp only [lagGeneration, decide_eq_true_eq, List.any_eq_true]

/-- The log of two events, the second of which is completed first. -/
def outOfOrder : List Entry :=
  [.admitted ⟨1, seconds 1⟩ true, .admitted ⟨2, seconds 2⟩ true, .completed 2]

/-- The state after these events. -/
def oneWaits : PerformanceState where
  admissionHighWater := 2
  completionHighWater := 2
  pending := [(1, seconds 1)]
  admissionTimes := [seconds 1, seconds 2]

theorem outOfOrder_runs :
    Runs (Step 0) {} outOfOrder ⟨oneWaits, [⟨⟨1, seconds 1⟩, false⟩], seconds 2⟩ := by
  have hfirst : Step 0 {} [.admitted ⟨1, seconds 1⟩ true]
      ⟨⟨1, 0, [(1, seconds 1)], [seconds 1], none⟩, [⟨⟨1, seconds 1⟩, false⟩], seconds 1⟩ :=
    .admitEvent (Nat.zero_le _) rfl
  have hsecond : Step 0 ⟨⟨1, 0, [(1, seconds 1)], [seconds 1], none⟩, [⟨⟨1, seconds 1⟩, false⟩], seconds 1⟩
      [.admitted ⟨2, seconds 2⟩ true]
      ⟨⟨2, 0, [(1, seconds 1), (2, seconds 2)], [seconds 1, seconds 2], none⟩,
        [⟨⟨1, seconds 1⟩, false⟩, ⟨⟨2, seconds 2⟩, false⟩], seconds 2⟩ := .admitEvent (by decide) rfl
  have hthird : Step 0
      ⟨⟨2, 0, [(1, seconds 1), (2, seconds 2)], [seconds 1, seconds 2], none⟩,
        [⟨⟨1, seconds 1⟩, false⟩, ⟨⟨2, seconds 2⟩, false⟩], seconds 2⟩
      [.completed 2] ⟨oneWaits, [⟨⟨1, seconds 1⟩, false⟩], seconds 2⟩ :=
    @Step.complete 0 _ ⟨⟨2, seconds 2⟩, false⟩ (List.mem_cons_of_mem _ List.mem_cons_self)
  exact (Runs.one hfirst).trans ((Runs.one hsecond).trans (Runs.one hthird))

/-- A sample a second later. -/
theorem samples_tell_the_log_outOfOrder :
    (oneWaits.sample 0 {} 0 (seconds 3)).2.pendingEvents + 1 = 2 ∧
      (oneWaits.sample 0 {} 0 (seconds 3)).2.eventsTenSeconds = 2 ∧
      .eventLag ∈ (oneWaits.sample 0 {} 0 (seconds 3)).2.reasons := by
  have hsample : Step 0 ⟨oneWaits, [⟨⟨1, seconds 1⟩, false⟩], seconds 2⟩
      [.sampled (seconds 3) (oneWaits.sample 0 {} 0 (seconds 3)).2]
      ⟨(oneWaits.sample 0 {} 0 (seconds 3)).1, [⟨⟨1, seconds 1⟩, false⟩], seconds 3⟩ :=
    .sample (by decide) {} 0
  obtain ⟨-, hcount, -, -, hten, -, hlag⟩ := samples_tell_the_log (outOfOrder_runs.tail hsample) rfl
  exact ⟨hcount, hten.trans (by decide), hlag.mpr (.inl (by decide))⟩

end HerdrTop.Performance
