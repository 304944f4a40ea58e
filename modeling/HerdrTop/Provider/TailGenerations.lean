import HerdrTop.Library.Runs
import HerdrTop.Provider.TailLines

/-!
# Generations of a tail

The file under a path may be replaced or cut short between any two looks at it. A look that shows another
file, or one shorter than what was consumed, must lead to a new generation, which begins at the start of the
file with nothing kept, before another record is given.

What the file system answers is any sequence of looks and reads (`ReadBoundary`); each call gives labels for
what it saw, took and gave.

## What is proved

`observeSnapshot` makes that check; a chunk that is read is only checked for the file, not for its size
(`regrown_between_looks`), and a second chunk from a third file is dropped without a new generation. As long
as no call meets one of these, generations are kept apart (`generations_kept_apart`).
-/

namespace HerdrTop

open Lines

/-- What a call saw, took or gave. -/
inductive TailLabel
  /-- A look at the file, with the tail as it was. -/
  | looked (met : TailFile) (snapshot : FileSnapshot)
  /-- Bytes from an offset on. -/
  | accepted (generation start : ℕ) (bytes : List UInt8)
  | gave (record : TailRecord)

/-- The generation to which a label belongs. -/
def TailLabel.generation : TailLabel → ℕ
  | .looked met _ => met.generation
  | .accepted generation _ _ => generation
  | .gave record => record.generation

/-- A look shows another file, or one shorter than what was consumed. -/
def TailFile.Broken (t : TailFile) (snapshot : FileSnapshot) : Prop :=
  snapshot.identity ≠ t.identity ∨ snapshot.size < t.offset

/-! ### What a call sees -/

namespace TailFile

/-- How much a poll asks for. -/
def requestedBytes (t : TailFile) (goalpost : ℕ) : ℕ := min (goalpost - t.offset) maxTailChunkBytes

/-- The looks of a poll up to a goalpost, and the bytes that it takes. -/
def pollLooks (t : TailFile) (boundary : ReadBoundary) (snapshot : FileSnapshot) (goalpost : ℕ) :
    List TailLabel :=
  let looked := t.observeSnapshot snapshot
  .looked t snapshot ::
    if snapshot.size ≤ looked.offset ∨ goalpost ≤ looked.offset then []
    else
      match boundary.readFromBounded looked.offset (looked.requestedBytes goalpost) with
      | none => []
      | some chunk =>
        .looked looked chunk.snapshot ::
          if chunk.snapshot.identity ≠ looked.identity then
            let restarted := looked.restart chunk.snapshot.identity
            match boundary.rereadFromBounded 0 (min goalpost maxTailChunkBytes) with
            | none => []
            | some replacement =>
              .looked restarted replacement.snapshot ::
                if replacement.snapshot.identity ≠ restarted.identity then []
                else [.accepted restarted.generation 0 replacement.bytes]
          else [.accepted looked.generation looked.offset chunk.bytes]

/-- Everything that a poll shows. -/
def pollLabels (t : TailFile) (boundary : ReadBoundary) (snapshot : FileSnapshot) (goalpost : ℕ) :
    List TailLabel :=
  t.pollLooks boundary snapshot goalpost ++
    ((t.pollSnapshotToGoalpost boundary snapshot goalpost).2.getD []).map .gave

/-- The reads of a poll show no file shorter than what was consumed, and no third file. -/
def Steady (t : TailFile) (boundary : ReadBoundary) (snapshot : FileSnapshot) (goalpost : ℕ) : Prop :=
  let looked := t.observeSnapshot snapshot
  looked.offset < snapshot.size → looked.offset < goalpost → ∀ chunk,
    boundary.readFromBounded looked.offset (looked.requestedBytes goalpost) = some chunk →
      if chunk.snapshot.identity = looked.identity then looked.offset ≤ chunk.snapshot.size
      else ∀ replacement, boundary.rereadFromBounded 0 (min goalpost maxTailChunkBytes) = some replacement →
        replacement.snapshot.identity = chunk.snapshot.identity

/-- A look that begins a generation. -/
def Renewed (t : TailFile) (snapshot : FileSnapshot) : Prop :=
  snapshot.identity ≠ t.identity ∨ snapshot.size < t.lastSize ∨ snapshot.size < t.offset

/-- A generation that a poll begins can be counted: by a look, or by a chunk of another file. -/
def Countable (t : TailFile) (boundary : ReadBoundary) (snapshot : FileSnapshot) (goalpost : ℕ) : Prop :=
  let looked := t.observeSnapshot snapshot
  (t.Renewed snapshot → t.generation < u64Max) ∧
    (looked.offset < snapshot.size → looked.offset < goalpost → ∀ chunk,
      boundary.readFromBounded looked.offset (looked.requestedBytes goalpost) = some chunk →
        chunk.snapshot.identity ≠ looked.identity → looked.generation < u64Max)

end TailFile

/-- The bytes of a file end where an offset can be. -/
def ReadBoundary.Addressable (boundary : ReadBoundary) : Prop :=
  ∀ offset maxBytes chunk, offset ≤ u64Max → boundary.readFromBounded offset maxBytes = some chunk ∨
    boundary.rereadFromBounded offset maxBytes = some chunk → offset + chunk.bytes.length ≤ u64Max

/-- One call on a tail. -/
inductive TailStep : TailFile → List TailLabel → TailFile → Prop
  | poll {t : TailFile} {boundary : ReadBoundary} {snapshot : FileSnapshot}
      (looks : boundary.snapshot = some snapshot) (addressable : boundary.Addressable) :
      TailStep t (t.pollLabels boundary snapshot snapshot.size) (t.poll boundary).1
  | pollToGoalpost {t : TailFile} {boundary : ReadBoundary} {snapshot : FileSnapshot} (goalpost : ℕ)
      (looks : boundary.snapshot = some snapshot) (addressable : boundary.Addressable) :
      TailStep t (t.pollLabels boundary snapshot goalpost) (t.pollToGoalpost boundary goalpost).1
  | cycleGoalpost {t : TailFile} {boundary : ReadBoundary} {snapshot : FileSnapshot}
      (looks : boundary.snapshot = some snapshot) :
      TailStep t [.looked t snapshot] (t.cycleGoalpost boundary).1
  /-- The file cannot be looked at. -/
  | failed (t : TailFile) : TailStep t [] t

/-- One call whose reads are steady, where generations that begin can be counted. -/
inductive SteadyStep : TailFile → List TailLabel → TailFile → Prop
  | poll {t : TailFile} {boundary : ReadBoundary} {snapshot : FileSnapshot}
      (looks : boundary.snapshot = some snapshot) (addressable : boundary.Addressable)
      (steady : t.Steady boundary snapshot snapshot.size)
      (countable : t.Countable boundary snapshot snapshot.size) :
      SteadyStep t (t.pollLabels boundary snapshot snapshot.size) (t.poll boundary).1
  | pollToGoalpost {t : TailFile} {boundary : ReadBoundary} {snapshot : FileSnapshot} (goalpost : ℕ)
      (looks : boundary.snapshot = some snapshot) (addressable : boundary.Addressable)
      (steady : t.Steady boundary snapshot goalpost) (countable : t.Countable boundary snapshot goalpost) :
      SteadyStep t (t.pollLabels boundary snapshot goalpost) (t.pollToGoalpost boundary goalpost).1
  | cycleGoalpost {t : TailFile} {boundary : ReadBoundary} {snapshot : FileSnapshot}
      (looks : boundary.snapshot = some snapshot) (countable : t.Renewed snapshot → t.generation < u64Max) :
      SteadyStep t [.looked t snapshot] (t.cycleGoalpost boundary).1
  | failed (t : TailFile) : SteadyStep t [] t

/-! ### What a log says -/

/-- The bytes that a generation took, in order. -/
def bytesOf (generation : ℕ) (ls : List TailLabel) : List UInt8 :=
  ls.flatMap fun
    | .accepted generation' _ bytes => if generation' = generation then bytes else []
    | _ => []

/-- The records that a generation gave, in order. -/
def recordsOf (generation : ℕ) (ls : List TailLabel) : List TailRecord :=
  ls.filterMap fun
    | .gave record => if record.generation = generation then some record else none
    | _ => none

/-- Where a generation begins: the first where the tail was opened, the others at the start of the file. -/
def generationStart (first opened generation : ℕ) : ℕ := if generation = first then opened else 0

/-- Generations are kept apart in a log: they do not go back, a broken look leads to a new one before a record
is given, each takes the bytes from its beginning on, one after the other, and gives just their lines. -/
structure KeptApart (first opened : ℕ) (ls : List TailLabel) : Prop where
  forward : ls.Pairwise fun label later => label.generation ≤ later.generation
  reset : ls.Pairwise fun label later => ∀ met snapshot record, label = .looked met snapshot →
    later = .gave record → met.Broken snapshot → met.generation < record.generation
  contiguous : ∀ generation start bytes before after, ls = before ++ .accepted generation start bytes :: after →
    start = generationStart first opened generation + (bytesOf generation before).length
  lines : ∀ generation, recordsOf generation ls =
    recordsFrom generation (generationStart first opened generation, []) (bytesOf generation ls)

/-! ### A look, and bytes that are taken -/

theorem bytesOf_append (generation : ℕ) (ls ls' : List TailLabel) :
    bytesOf generation (ls ++ ls') = bytesOf generation ls ++ bytesOf generation ls' := List.flatMap_append

theorem recordsOf_append (generation : ℕ) (ls ls' : List TailLabel) :
    recordsOf generation (ls ++ ls') = recordsOf generation ls ++ recordsOf generation ls' :=
  List.filterMap_append

/-- The records of one generation belong to it, and to no other. -/
theorem recordsOf_gave {generation : ℕ} {records : List TailRecord}
    (h : ∀ record ∈ records, record.generation = generation) (generation' : ℕ) :
    recordsOf generation' (records.map .gave) = if generation' = generation then records else [] := by
  induction records with
  | nil => simp [recordsOf]
  | cons record records ih =>
    obtain ⟨hrecord, hrecords⟩ := List.forall_mem_cons.mp h
    have hrest := ih hrecords
    unfold recordsOf at hrest ⊢
    rw [List.map_cons, List.filterMap_cons, hrest]
    dsimp only
    rw [hrecord]
    by_cases hsame : generation = generation'
    · simp [hsame]
    · simp [hsame, Ne.symm hsame]

theorem bytesOf_gave (generation : ℕ) (records : List TailRecord) :
    bytesOf generation (records.map .gave) = [] := by
  unfold bytesOf
  rw [List.flatMap_map]
  simp

theorem generation_recordsFrom {generation : ℕ} {line : ℕ × List UInt8} {bytes : List UInt8} :
    ∀ record ∈ recordsFrom generation line bytes, record.generation = generation := by
  intro record hrecord
  rcases List.mem_append.mp hrecord with hrecord | hrecord
  · obtain ⟨finished, -, rfl⟩ := List.mem_map.mp hrecord
    unfold lineRecord
    split_ifs <;> rfl
  · unfold openRecord at hrecord
    split_ifs at hrecord
    · rw [List.mem_singleton.mp hrecord]
      rfl
    · exact absurd hrecord List.not_mem_nil

/-- What holds between a tail and its log. -/
structure Tailing (first opened : ℕ) (ls : List TailLabel) (t : TailFile) : Prop where
  apart : KeptApart first opened ls
  /-- No label is of a later generation. -/
  past : ∀ label ∈ ls, label.generation ≤ t.generation
  since : first ≤ t.generation
  addressed : t.offset ≤ u64Max
  /-- Every broken look led to a new generation. -/
  renewed : ∀ met snapshot, TailLabel.looked met snapshot ∈ ls → met.Broken snapshot →
    met.generation < t.generation
  /-- What is kept is the unfinished line of the generation. -/
  between : Between t
    (lineAfter (generationStart first opened t.generation, []) (bytesOf t.generation ls))

section

variable {first opened : ℕ} {ls : List TailLabel} {t t' met : TailFile} {snapshot : FileSnapshot}

theorem Between.congr {line : ℕ × List UInt8} (h : Between t line) (hkept : t'.partialRecord = t.partialRecord)
    (hdiscarding : t'.discarding = t.discarding) (hstart : t'.partialOffset = t.partialOffset)
    (hoffset : t'.offset = t.offset) : Between t' line where
  kept := hkept.trans h.kept
  discarding := hdiscarding.trans h.discarding
  partialOffset hd hk := hstart.trans (h.partialOffset (hdiscarding ▸ hd) (hkept ▸ hk))
  offset := h.offset.trans hoffset.symm

theorem Between.nothing (hkept : t.partialRecord = []) (hdiscarding : t.discarding = false)
    (hoffset : t.offset = 0) : Between t (0, []) where
  kept := by simp [hkept]
  discarding := by simp [hdiscarding]
  partialOffset _ hk := absurd hkept hk
  offset := by simp [hoffset]

/-- What a look leads to: the generation goes on, unless the look is broken, or a new one begins. -/
inductive Looked (t met : TailFile) (snapshot : FileSnapshot) (t' : TailFile) : Prop
  | goesOn (sound : ¬ met.Broken snapshot) (generation : t'.generation = t.generation)
      (kept : t'.partialRecord = t.partialRecord) (discarding : t'.discarding = t.discarding)
      (start : t'.partialOffset = t.partialOffset) (offset : t'.offset = t.offset)
  | restarts (generation : t'.generation = t.generation + 1) (kept : t'.partialRecord = [])
      (discarding : t'.discarding = false) (offset : t'.offset = 0)

theorem Looked.generation_le (h : Looked t met snapshot t') :
    t.generation ≤ t'.generation ∧ t'.generation ≤ t.generation + 1 := by
  cases h with
  | goesOn _ hgeneration => omega
  | restarts hgeneration => omega

theorem Tailing.look (h : Tailing first opened ls t) (hlooked : Looked t met snapshot t')
    (hmet : met.generation = t.generation) : Tailing first opened (ls ++ [.looked met snapshot]) t' := by
  have hle := hlooked.generation_le
  have hbytes : ∀ generation, bytesOf generation (ls ++ [.looked met snapshot]) = bytesOf generation ls :=
    fun generation => (bytesOf_append _ _ _).trans (List.append_nil _)
  have hrecords : ∀ generation, recordsOf generation (ls ++ [.looked met snapshot]) = recordsOf generation ls :=
    fun generation => (recordsOf_append _ _ _).trans (List.append_nil _)
  refine ⟨⟨?_, ?_, ?_, ?_⟩, ?_, h.since.trans hle.1, ?_, ?_, ?_⟩
  · rw [List.pairwise_append]
    refine ⟨h.apart.forward, List.pairwise_singleton _ _, fun label hlabel later hlater => ?_⟩
    rw [List.mem_singleton.mp hlater]
    exact (h.past label hlabel).trans hmet.ge
  · rw [List.pairwise_append]
    refine ⟨h.apart.reset, List.pairwise_singleton _ _, fun label hlabel later hlater => ?_⟩
    intro met' snapshot' record hlooked' hgave
    rw [List.mem_singleton.mp hlater] at hgave
    cases hgave
  · intro generation start bytes before after hls
    rcases List.eq_nil_or_concat after with rfl | ⟨rest, last, rfl⟩
    · cases (List.append_inj' hls rfl).2
    · rw [List.concat_eq_append, ← List.cons_append, ← List.append_assoc] at hls
      exact h.apart.contiguous generation start bytes before rest (List.append_inj' hls rfl).1
  · intro generation
    rw [hbytes, hrecords]
    exact h.apart.lines generation
  · intro label hlabel
    rcases List.mem_append.mp hlabel with hlabel | hlabel
    · exact (h.past label hlabel).trans hle.1
    · rw [List.mem_singleton.mp hlabel]
      exact hmet.le.trans hle.1
  · cases hlooked with
    | goesOn _ _ _ _ _ hoffset => exact hoffset ▸ h.addressed
    | restarts _ _ _ hoffset => exact hoffset ▸ Nat.zero_le _
  · intro met' snapshot' hmem hbroken
    rcases List.mem_append.mp hmem with hmem | hmem
    · exact (h.renewed met' snapshot' hmem hbroken).trans_le hle.1
    · cases List.mem_singleton.mp hmem
      cases hlooked with
      | goesOn sound => exact absurd hbroken sound
      | restarts hgeneration => omega
  · rw [hbytes]
    cases hlooked with
    | goesOn _ hgeneration hkept hdiscarding hstart hoffset =>
      rw [hgeneration]
      exact h.between.congr hkept hdiscarding hstart hoffset
    | restarts hgeneration hkept hdiscarding hoffset =>
      have hsince := h.since
      have hstart : generationStart first opened t'.generation = 0 := if_neg (by omega)
      have hnone : bytesOf t'.generation ls = [] := by
        refine List.flatMap_eq_nil_iff.mpr fun label hlabel => ?_
        have hpast := h.past label hlabel
        cases label with
        | accepted generation start bytes =>
          have hne : generation ≠ t'.generation := by
            intro heq
            have : generation ≤ t.generation := hpast
            omega
          exact if_neg hne
        | _ => rfl
      rw [hstart, hnone]
      exact Between.nothing hkept hdiscarding hoffset

/-- Bytes that are taken where the tail stands. -/
theorem Tailing.accept (h : Tailing first opened ls t) {bytes : List UInt8}
    (hsize : t.offset + bytes.length ≤ u64Max) :
    Tailing first opened
      (ls ++ .accepted t.generation t.offset bytes :: (t.acceptBytes t.offset bytes).2.map .gave)
      (t.acceptBytes t.offset bytes).1 := by
  obtain ⟨hbetween, hfile, hrecords⟩ := h.between.acceptBytes bytes hsize
  have hgeneration : (t.acceptBytes t.offset bytes).1.generation = t.generation :=
    congrArg (fun file => file.2.2.2) hfile
  generalize t.acceptBytes t.offset bytes = result at hbetween hfile hrecords hgeneration ⊢
  obtain ⟨t', records⟩ := result
  dsimp only at hbetween hfile hrecords hgeneration ⊢
  have hall : ∀ record ∈ records, record.generation = t.generation := by
    intro record hrecord
    have hmem : record ∈ recordsFrom t.generation _ bytes := hrecords ▸ List.mem_append_right _ hrecord
    exact generation_recordsFrom record hmem
  have hbytes : ∀ generation, bytesOf generation
      (ls ++ .accepted t.generation t.offset bytes :: records.map .gave) =
      bytesOf generation ls ++ if t.generation = generation then bytes else [] := by
    intro generation
    have hgave := bytesOf_gave generation records
    unfold bytesOf at hgave
    rw [bytesOf_append]
    unfold bytesOf
    rw [List.flatMap_cons, hgave, List.append_nil]
  have hrecordsOf : ∀ generation, recordsOf generation
      (ls ++ .accepted t.generation t.offset bytes :: records.map .gave) =
      recordsOf generation ls ++ if generation = t.generation then records else [] := by
    intro generation
    rw [recordsOf_append, ← recordsOf_gave hall generation]
    rfl
  have hlater : ∀ label ∈ TailLabel.accepted t.generation t.offset bytes :: records.map .gave,
      label.generation = t.generation := by
    refine List.forall_mem_cons.mpr ⟨rfl, fun label hlabel => ?_⟩
    obtain ⟨record, hrecord, rfl⟩ := List.mem_map.mp hlabel
    exact hall record hrecord
  refine ⟨⟨?_, ?_, ?_, ?_⟩, ?_, h.since.trans hgeneration.ge, (congrArg Prod.fst hfile).trans_le hsize, ?_, ?_⟩
  · rw [List.pairwise_append]
    refine ⟨h.apart.forward, List.pairwise_of_forall_mem_list fun label hlabel later hlast => ?_,
      fun label hlabel later hlast => ?_⟩
    · rw [hlater label hlabel, hlater later hlast]
    · rw [hlater later hlast]
      exact h.past label hlabel
  · rw [List.pairwise_append]
    refine ⟨h.apart.reset, List.pairwise_of_forall_mem_list fun label hlabel later hlast => ?_,
      fun label hlabel later hlast => ?_⟩
    · intro met snapshot record hlooked
      rw [hlooked] at hlabel
      rcases List.mem_cons.mp hlabel with hlabel | hlabel
      · cases hlabel
      · obtain ⟨_, -, hgave⟩ := List.mem_map.mp hlabel
        cases hgave
    · intro met snapshot record hlooked hgave hbroken
      rw [hlooked] at hlabel
      have hgen := hlater later hlast
      rw [hgave] at hgen
      exact (h.renewed met snapshot hlabel hbroken).trans_eq hgen.symm
  · intro generation start bytes' before after hls
    have hoffset : t.offset = generationStart first opened t.generation + (bytesOf t.generation ls).length := by
      have hend := h.between.offset
      unfold lineAfter at hend
      rw [openFrom_end] at hend
      exact hend.symm
    rcases List.append_eq_append_iff.mp hls with ⟨rest, hbefore, hrest⟩ | ⟨rest, hls', hrest⟩
    · cases rest with
      | nil =>
        cases hrest
        rw [hbefore, List.append_nil]
        exact hoffset
      | cons label rest =>
        obtain ⟨-, hgaves⟩ := List.cons.inj hrest
        have hmem : TailLabel.accepted generation start bytes' ∈ records.map TailLabel.gave := by
          rw [hgaves]
          exact List.mem_append_right _ List.mem_cons_self
        obtain ⟨_, -, hgave⟩ := List.mem_map.mp hmem
        cases hgave
    · cases rest with
      | nil =>
        cases hrest
        rw [List.append_nil] at hls'
        rw [← hls']
        exact hoffset
      | cons label rest =>
        obtain ⟨rfl, -⟩ := List.cons.inj hrest
        exact h.apart.contiguous generation start bytes' before rest hls'
  · intro generation
    rw [hbytes, hrecordsOf, h.apart.lines generation]
    by_cases hsame : t.generation = generation
    · subst hsame
      rw [if_pos rfl, if_pos rfl]
      exact (recordsFrom_append _ _ hrecords).symm
    · rw [if_neg hsame, if_neg (Ne.symm hsame), List.append_nil, List.append_nil]
  · intro label hlabel
    rw [hgeneration]
    rcases List.mem_append.mp hlabel with hlabel | hlabel
    · exact h.past label hlabel
    · exact (hlater label hlabel).le
  · intro met snapshot hmem hbroken
    rw [hgeneration]
    rcases List.mem_append.mp hmem with hmem | hmem
    · exact h.renewed met snapshot hmem hbroken
    · rcases List.mem_cons.mp hmem with hmem | hmem
      · cases hmem
      · obtain ⟨_, -, hgave⟩ := List.mem_map.mp hmem
        cases hgave
  · rw [hbytes, hgeneration, if_pos rfl]
    have hafter : lineAfter (lineAfter (generationStart first opened t.generation, []) (bytesOf t.generation ls))
        bytes = lineAfter (generationStart first opened t.generation, []) (bytesOf t.generation ls ++ bytes) :=
      openFrom_append.symm
    rw [← hafter]
    exact hbetween

/-! ### Calls -/

/-- Starting over when the file is another one or became shorter. -/
theorem looked_observeSnapshot (hcount : t.Renewed snapshot → t.generation < u64Max) :
    Looked t t snapshot (t.observeSnapshot snapshot) := by
  unfold TailFile.observeSnapshot
  dsimp only
  split_ifs with hchanged
  · have hroom := hcount hchanged
    exact .restarts (min_eq_left (show t.generation + 1 ≤ u64Max by omega)) rfl rfl rfl
  · push Not at hchanged
    refine .goesOn ?_ rfl rfl rfl rfl rfl
    rintro (hother | hshort)
    · exact hother hchanged.1
    · omega

/-- A poll whose reads are steady. -/
theorem Tailing.poll (h : Tailing first opened ls t) {boundary : ReadBoundary} {goalpost : ℕ}
    (haddressable : boundary.Addressable) (hsteady : t.Steady boundary snapshot goalpost)
    (hcount : t.Countable boundary snapshot goalpost) :
    Tailing first opened (ls ++ t.pollLabels boundary snapshot goalpost)
      (t.pollSnapshotToGoalpost boundary snapshot goalpost).1 := by
  obtain ⟨hrenewed, hother⟩ := hcount
  have hlook := h.look (looked_observeSnapshot hrenewed) rfl
  unfold TailFile.Steady at hsteady
  unfold TailFile.pollLabels TailFile.pollLooks TailFile.pollSnapshotToGoalpost
  dsimp only at hsteady ⊢
  generalize t.observeSnapshot snapshot = looked at hsteady hother hlook ⊢
  by_cases hread : snapshot.size ≤ looked.offset ∨ goalpost ≤ looked.offset
  · rw [if_pos hread, if_pos hread]
    simpa using hlook
  · rw [if_neg hread, if_neg hread]
    push Not at hread
    have hchunk := hsteady hread.1 hread.2
    have hroom := hother hread.1 hread.2
    unfold TailFile.requestedBytes at hchunk hroom ⊢
    cases hgot : boundary.readFromBounded looked.offset (min (goalpost - looked.offset) maxTailChunkBytes) with
    | none => simpa using hlook
    | some chunk =>
      have hsteady := hchunk chunk hgot
      have hnoted : (looked.noteRead chunk.bytes).identity = looked.identity := rfl
      dsimp only
      rw [hnoted]
      by_cases hsame : chunk.snapshot.identity = looked.identity
      · rw [if_pos hsame] at hsteady
        have hsound : ¬ looked.Broken chunk.snapshot := by
          rintro (hother | hshort)
          · exact hother hsame
          · omega
        have hgoes : Looked looked looked chunk.snapshot
            { looked.noteRead chunk.bytes with lastSize := chunk.snapshot.size } :=
          .goesOn hsound rfl rfl rfl rfl rfl
        have hnext := hlook.look hgoes rfl
        have htaken := hnext.accept (haddressable _ _ _ hlook.addressed (.inl hgot))
        rw [if_neg (not_not.mpr hsame), if_neg (not_not.mpr hsame)]
        simp only [List.append_assoc, List.cons_append, List.nil_append] at htaken ⊢
        exact htaken
      · rw [if_neg hsame] at hsteady
        have hcounted : satAddU64 looked.generation 1 = looked.generation + 1 := min_eq_left (hroom chunk hgot hsame)
        have hrestarts : Looked looked looked chunk.snapshot
            { (looked.noteRead chunk.bytes).restart chunk.snapshot.identity with lastSize := chunk.snapshot.size } :=
          .restarts hcounted rfl rfl rfl
        have hnext := hlook.look hrestarts rfl
        rw [if_pos hsame, if_pos hsame]
        simp only [List.append_assoc, List.cons_append, List.nil_append] at hnext ⊢
        cases hgot' : boundary.rereadFromBounded 0 (min goalpost maxTailChunkBytes) with
        | none => exact hnext
        | some replacement =>
          have hfile := hsteady replacement hgot'
          have hsound : ¬ (looked.restart chunk.snapshot.identity).Broken replacement.snapshot := by
            rintro (hother | hshort)
            · exact hother hfile
            · exact absurd hshort (Nat.not_lt_zero _)
          have hgoes : Looked
              { (looked.noteRead chunk.bytes).restart chunk.snapshot.identity with lastSize := chunk.snapshot.size }
              (looked.restart chunk.snapshot.identity) replacement.snapshot
              ({ (looked.noteRead chunk.bytes).restart chunk.snapshot.identity with
                lastSize := chunk.snapshot.size }.noteRead replacement.bytes) :=
            .goesOn hsound rfl rfl rfl rfl rfl
          have hagain := hnext.look hgoes rfl
          have htaken := hagain.accept (haddressable 0 _ _ (Nat.zero_le _) (.inr hgot'))
          have hsameFile : ¬ replacement.snapshot.identity ≠ (looked.restart chunk.snapshot.identity).identity :=
            not_not.mpr hfile
          dsimp only
          rw [if_neg hsameFile, if_neg]
          · simp only [List.append_assoc, List.cons_append, List.nil_append] at htaken ⊢
            exact htaken
          · exact hsameFile

theorem Tailing.step {l : List TailLabel} (h : Tailing first opened ls t) (hstep : SteadyStep t l t') :
    Tailing first opened (ls ++ l) t' := by
  cases hstep with
  | poll looks addressable steady countable =>
    unfold TailFile.poll
    rw [looks]
    exact h.poll addressable steady countable
  | pollToGoalpost goalpost looks addressable steady countable =>
    unfold TailFile.pollToGoalpost
    rw [looks]
    exact h.poll addressable steady countable
  | cycleGoalpost looks countable =>
    unfold TailFile.cycleGoalpost
    rw [looks]
    exact h.look (looked_observeSnapshot countable) rfl
  | failed => simpa using h

end

/-- A tail that was just opened. -/
theorem tailing_open {snapshot : FileSnapshot} (hsize : snapshot.size ≤ u64Max) (contained : Bool) (first : ℕ) :
    Tailing first (TailFile.open snapshot contained first).offset []
      (TailFile.open snapshot contained first) := by
  refine ⟨⟨.nil, .nil, ?_, fun generation => ?_⟩, ?_, le_rfl, ?_, ?_, ?_⟩
  · intro _ _ _ before after hls
    cases before <;> cases hls
  · show [] = recordsFrom generation (_, []) []
    rw [recordsFrom_nil]
    exact (if_neg (Nat.not_lt_zero _)).symm
  · exact fun _ h => absurd h List.not_mem_nil
  · cases contained
    · exact Nat.zero_le _
    · exact hsize
  · exact fun _ _ h => absurd h List.not_mem_nil
  · have hstart : generationStart first (TailFile.open snapshot contained first).offset
        (TailFile.open snapshot contained first).generation = (TailFile.open snapshot contained first).offset :=
      if_pos rfl
    rw [hstart]
    exact ⟨rfl, rfl, fun _ hkept => absurd rfl hkept, rfl⟩

/-- Generations are kept apart in every run whose reads show neither a file shorter than what was consumed
nor a third file, as long as the generations that begin can be counted. -/
theorem generations_kept_apart {snapshot : FileSnapshot} {contained : Bool} {first : ℕ} {ls : List TailLabel}
    {t : TailFile} (hsize : snapshot.size ≤ u64Max)
    (h : Runs SteadyStep (TailFile.open snapshot contained first) ls t) :
    KeptApart first (TailFile.open snapshot contained first).offset ls := by
  have htailing : Tailing first (TailFile.open snapshot contained first).offset ls t := by
    generalize hstart : TailFile.open snapshot contained first = start at h
    induction h with
    | refl =>
      subst hstart
      exact tailing_open hsize contained first
    | tail _ hstep ih => exact ih.step hstep
  exact htailing.apart

/-! ### A file that is cut short and grows again -/

/-- A file of which a size is seen and, when it is read at an offset, another size and some bytes. -/
def fileSeen (size offset readSize : ℕ) (bytes : List UInt8) : ReadBoundary where
  snapshot := some ⟨1, 1, size⟩
  readFromBounded offset' _ := if offset' = offset then some ⟨⟨1, 1, readSize⟩, bytes⟩ else none
  rereadFromBounded _ _ := none

theorem fileSeen_addressable {size offset readSize : ℕ} {bytes : List UInt8}
    (h : offset + bytes.length ≤ u64Max) : (fileSeen size offset readSize bytes).Addressable := by
  rintro offset' maxBytes chunk - (hread | hread)
  · simp only [fileSeen] at hread
    split_ifs at hread with hoffset
    cases hread
    rw [hoffset]
    exact h
  · cases hread

/-- A new file, before anything was read. -/
def newTail : TailFile := .open ⟨1, 1, 0⟩ false 0

/-- The file when three bytes of a line are in it. -/
def threeBytes : ReadBoundary := fileSeen 3 0 3 [97, 98, 99]

/-- The tail that has them. -/
def keepsThree : TailFile := (newTail.poll threeBytes).1

/-- The file with one line and the beginning of another. -/
def lineBegun : ReadBoundary := fileSeen 4 0 4 [97, 98, 10, 99]

/-- The tail that gave the line and keeps the beginning. -/
def keepsBegun : TailFile := (newTail.poll lineBegun).1

/-- The file after it was cut short and got another line. -/
def cutShort : ReadBoundary := fileSeen 2 0 2 [120, 10]

/-- A line is given, the file is cut short, and the other line is given in a new generation, without what was kept of
the first. -/
theorem generations_kept_apart_cutShort : ∃ ls : List TailLabel, KeptApart 0 0 ls ∧
    (recordsOf 0 ls, recordsOf 1 ls) = ([.data 0 0 [97, 98]], [.data 0 1 [120]]) := by
  have hsteady : newTail.Steady lineBegun ⟨1, 1, 4⟩ 4 := by
    intro _ _ chunk hread
    cases hread
    exact Nat.zero_le _
  have hsteady' : keepsBegun.Steady cutShort ⟨1, 1, 2⟩ 2 := by
    intro _ _ chunk hread
    cases hread
    exact Nat.zero_le _
  have hbegun := @SteadyStep.poll newTail lineBegun _ rfl (fileSeen_addressable (by decide)) hsteady
    ⟨fun _ => by decide, fun _ _ _ _ _ => by decide⟩
  have hcut := @SteadyStep.poll keepsBegun cutShort _ rfl (fileSeen_addressable (by decide)) hsteady'
    ⟨fun _ => by decide, fun _ _ _ _ _ => by decide⟩
  exact ⟨_, generations_kept_apart (by decide) ((Runs.one hbegun).tail hcut), by decide⟩

/-- The file is cut short when it is read, and has grown again when it is looked at the next time: the line
that is given has bytes of both. -/
theorem regrown_between_looks :
    ¬ ∀ (snapshot : FileSnapshot) (contained : Bool) (first : ℕ) (ls : List TailLabel) (t : TailFile),
      snapshot.size ≤ u64Max → Runs TailStep (TailFile.open snapshot contained first) ls t →
        KeptApart first (TailFile.open snapshot contained first).offset ls := by
  intro h
  have hgrows := @TailStep.poll newTail threeBytes _ rfl (fileSeen_addressable (by decide))
  have hcut := @TailStep.poll keepsThree (fileSeen 5 3 0 []) _ rfl (fileSeen_addressable (by decide))
  have hregrown := @TailStep.poll (keepsThree.poll (fileSeen 5 3 0 [])).1 (fileSeen 6 3 6 [120, 121, 10]) _ rfl
    (fileSeen_addressable (by decide))
  have hkept := h ⟨1, 1, 0⟩ false 0 _ _ (by decide)
    (((Runs.one hgrows).trans (Runs.one hcut)).trans (Runs.one hregrown))
  have hlooked : TailLabel.looked (keepsThree.observeSnapshot ⟨1, 1, 5⟩) ⟨1, 1, 0⟩ ∈
      keepsThree.pollLabels (fileSeen 5 3 0 []) ⟨1, 1, 5⟩ 5 := List.mem_cons_of_mem _ List.mem_cons_self
  have hgave : TailLabel.gave (.data 0 0 [97, 98, 99, 120, 121]) ∈
      (keepsThree.poll (fileSeen 5 3 0 [])).1.pollLabels (fileSeen 6 3 6 [120, 121, 10]) ⟨1, 1, 6⟩ 6 :=
    List.mem_append_right _ List.mem_cons_self
  have hreset := (List.pairwise_append.mp hkept.reset).2.2 _ (List.mem_append_right _ hlooked) _ hgave _ _ _ rfl rfl
    (.inr (by decide))
  exact absurd hreset (by decide)

end HerdrTop
