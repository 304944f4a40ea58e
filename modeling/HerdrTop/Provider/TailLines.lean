import HerdrTop.Provider.Tail

/-!
# A tail gives the lines of its file

The file is one that only grows. However the polls come, however much they are given and wherever
the goalposts stand, the records are those of the lines of what was read, each line once.

## The reference

`Lines.linesFrom` splits the bytes between the offset at which the tail was opened and the one it
has reached. `lineRecord` is the record that stands for a finished line, `openRecord` the one that
stands already for an unfinished line that is too long.

## What is proved

`runTail_lines`: the records of any sequence of calls are those of the reference, what is kept is
the unfinished line, and no call reads beyond its goalpost.
-/

namespace HerdrTop

open Lines

/-! ### One file that only grows -/

/-- One call on a tail, with what the file system does meanwhile. -/
inductive TailOp
  /-- A poll: the size at the first look, the size when the bytes are read, and how many bytes are
  given at most; no bytes for an error. -/
  | poll (size readSize : ℕ) (given : Option ℕ)
  /-- A poll up to a goalpost. -/
  | pollToGoalpost (goalpost size readSize : ℕ) (given : Option ℕ)
  /-- A look at the size. -/
  | cycleGoalpost (size : ℕ)
  /-- A poll when the file cannot be looked at. -/
  | failed
  deriving DecidableEq

/-- What the file system answers for a file of which so many bytes of the content are written. -/
def growingFile (content : List UInt8) (identity : ℕ × ℕ) (size readSize : ℕ) (given : Option ℕ) :
    ReadBoundary :=
  let read := fun offset maxBytes => given.map fun given =>
    { snapshot := ⟨identity.1, identity.2, readSize⟩
      bytes := ((content.take readSize).drop offset).take (min maxBytes given) : ReadChunk }
  { snapshot := some ⟨identity.1, identity.2, size⟩
    readFromBounded := read
    rereadFromBounded := read }

/-- What the file system answers for a file that is there as a whole. -/
def wholeFile (content : List UInt8) (identity : ℕ × ℕ) : ReadBoundary :=
  growingFile content identity content.length content.length (some maxTailChunkBytes)

/-- One call: the tail after it and the records it gave. -/
def TailOp.run (content : List UInt8) (identity : ℕ × ℕ) (t : TailFile) :
    TailOp → TailFile × List TailRecord
  | .poll size readSize given =>
    (t.poll (growingFile content identity size readSize given)).map id fun r => r.getD []
  | .pollToGoalpost goalpost size readSize given =>
    (t.pollToGoalpost (growingFile content identity size readSize given) goalpost).map id
      fun r => r.getD []
  | .cycleGoalpost size =>
    ((t.cycleGoalpost (growingFile content identity size size none)).1, [])
  | .failed => (t, [])

/-- Calls one after the other, with all their records. -/
def runTail (content : List UInt8) (identity : ℕ × ℕ) : List TailOp → TailFile →
    TailFile × List TailRecord
  | [], t => (t, [])
  | op :: rest, t =>
    let (t, records) := op.run content identity t
    let (t, more) := runTail content identity rest t
    (t, records ++ more)

/-- How far a call may read. -/
def TailOp.goalpost : TailOp → Option ℕ
  | .poll size _ _ => some size
  | .pollToGoalpost goalpost _ _ _ => some goalpost
  | _ => none

/-- The size of the file after a call that found at least so many bytes; `none` when the file would
have become shorter or longer than its content. -/
def TailOp.grow (length size : ℕ) : TailOp → Option ℕ
  | .poll size' readSize _ | .pollToGoalpost _ size' readSize _ =>
    if size ≤ size' ∧ size' ≤ readSize ∧ readSize ≤ length then some readSize else none
  | .cycleGoalpost size' => if size ≤ size' ∧ size' ≤ length then some size' else none
  | .failed => some size

/-- The calls see a file that only grows, from a size up to its whole content. -/
def Growing (length : ℕ) : ℕ → List TailOp → Prop
  | _, [] => True
  | size, op :: rest => ∃ size', op.grow length size = some size' ∧ Growing length size' rest

/-! ### The reference -/

/-- The record that stands for a finished line. -/
def lineRecord (generation : ℕ) (line : ℕ × List UInt8) : TailRecord :=
  if maxTailRecordBytes < line.2.length then .malformed line.1 generation recordTooLongError
  else .data line.1 generation (withoutReturn line.2)

/-- The record that stands already for an unfinished line. -/
def openRecord (generation : ℕ) (line : ℕ × List UInt8) : List TailRecord :=
  if maxTailRecordBytes < line.2.length then [.malformed line.1 generation recordTooLongError] else []

/-- The unfinished line after more bytes. -/
def lineAfter (line : ℕ × List UInt8) (bytes : List UInt8) : ℕ × List UInt8 :=
  openFrom newlineByte line.1 line.2 bytes

/-- The records that stand for a text after an unfinished line. -/
def recordsFrom (generation : ℕ) (line : ℕ × List UInt8) (bytes : List UInt8) : List TailRecord :=
  (linesFrom newlineByte line.1 line.2 bytes).map (lineRecord generation) ++
    openRecord generation (lineAfter line bytes)

section

variable {generation : ℕ} {line : ℕ × List UInt8} {pre post bytes : List UInt8}

/-- Where the line after a line begins. -/
def nextLine (line : ℕ × List UInt8) (pre : List UInt8) : ℕ × List UInt8 :=
  (line.1 + (line.2 ++ pre).length + 1, [])

theorem openRecord_nextLine : openRecord generation (nextLine line pre) = [] := by
  simp [openRecord, nextLine]

theorem recordsFrom_nil : recordsFrom generation line [] = openRecord generation line := rfl

theorem recordsFrom_line (h : newlineByte ∉ pre) :
    recordsFrom generation line (pre ++ newlineByte :: post) =
      lineRecord generation (line.1, line.2 ++ pre) :: recordsFrom generation (nextLine line pre) post := by
  simp only [recordsFrom, lineAfter, nextLine, linesFrom_line h, openFrom_line h, List.map_cons,
    List.cons_append]

theorem lineAfter_line (h : newlineByte ∉ pre) :
    lineAfter line (pre ++ newlineByte :: post) = lineAfter (nextLine line pre) post :=
  openFrom_line h

theorem lineAfter_open (h : newlineByte ∉ bytes) : lineAfter line bytes = (line.1, line.2 ++ bytes) :=
  openFrom_of_not_mem h

theorem recordsFrom_open (h : newlineByte ∉ bytes) :
    recordsFrom generation line bytes = openRecord generation (line.1, line.2 ++ bytes) := by
  rw [recordsFrom, linesFrom_of_not_mem h, lineAfter_open h]
  rfl

theorem recordsFrom_append (more : List UInt8) :
    ∀ new, openRecord generation (lineAfter line bytes) ++ new =
        recordsFrom generation (lineAfter line bytes) more →
      recordsFrom generation line (bytes ++ more) = recordsFrom generation line bytes ++ new := by
  intro new hnew
  simp only [recordsFrom, lineAfter, linesFrom_append, openFrom_append, List.map_append,
    List.append_assoc] at hnew ⊢
  rw [← hnew]

theorem openRecord_long (h : maxTailRecordBytes < line.2.length) (pre : List UInt8) :
    openRecord generation line = [lineRecord generation (line.1, line.2 ++ pre)] := by
  have hlong : maxTailRecordBytes < (line.2 ++ pre).length := by
    rw [List.length_append]
    omega
  simp only [openRecord, lineRecord, if_pos h, if_pos hlong]

end

/-! ### Finding the end of a line -/

theorem split_of_findIdx? {bytes : List UInt8} {newline : ℕ}
    (h : bytes.findIdx? (· = newlineByte) = some newline) :
    newlineByte ∉ bytes.take newline ∧ newline < bytes.length ∧
      bytes = bytes.take newline ++ newlineByte :: bytes.drop (newline + 1) := by
  rw [List.findIdx?_eq_some_iff_getElem] at h
  obtain ⟨hlt, hat, hbefore⟩ := h
  have hat' : bytes[newline] = newlineByte := by simpa using hat
  refine ⟨fun hmem => ?_, hlt, ?_⟩
  · obtain ⟨i, hi, he⟩ := List.mem_take_iff_getElem.mp hmem
    have := hbefore i (by omega)
    simp [he] at this
  · rw [← hat', List.getElem_cons_drop, List.take_append_drop]

theorem not_mem_of_findIdx? {bytes : List UInt8} (h : bytes.findIdx? (· = newlineByte) = none) :
    newlineByte ∉ bytes := by
  rw [List.findIdx?_eq_none_iff] at h
  intro hmem
  simpa using h _ hmem

/-! ### Taking bytes -/

/-- The tail keeps an unfinished line, or has given it up. -/
structure InLine (t : TailFile) (line : ℕ × List UInt8) : Prop where
  /-- What is kept of it. -/
  kept : t.partialRecord = if maxTailRecordBytes < line.2.length then [] else line.2
  /-- It was given up when it is too long. -/
  discarding : t.discarding = decide (maxTailRecordBytes < line.2.length)
  /-- Where it begins. -/
  partialOffset : t.discarding = false → t.partialOffset = line.1

/-- The parts of a tail that taking bytes leaves alone. -/
def TailFile.file (t : TailFile) : ℕ × (ℕ × ℕ) × ℕ × ℕ :=
  (t.offset, t.identity, t.lastSize, t.generation)

theorem InLine.begin {t : TailFile} {line : ℕ × List UInt8} (hline : line.2 = [])
    (hkept : t.partialRecord = []) (hdiscarding : t.discarding = false)
    (hoffset : t.partialOffset = line.1) : InLine t line where
  kept := by simp [hkept, hline]
  discarding := by simp [hdiscarding, hline]
  partialOffset _ := hoffset

theorem InLine.long {t : TailFile} {line : ℕ × List UInt8} (h : InLine t line)
    (hd : t.discarding = true) : maxTailRecordBytes < line.2.length ∧ t.partialRecord = [] := by
  have hlong : maxTailRecordBytes < line.2.length := by simpa [h.discarding] using hd
  exact ⟨hlong, by rw [h.kept, if_pos hlong]⟩

theorem InLine.short {t : TailFile} {line : ℕ × List UInt8} (h : InLine t line)
    (hd : t.discarding = false) : ¬ maxTailRecordBytes < line.2.length ∧ t.partialRecord = line.2 := by
  have hshort : ¬ maxTailRecordBytes < line.2.length := by simpa [h.discarding] using hd
  exact ⟨hshort, by rw [h.kept, if_neg hshort]⟩

/-- What taking the bytes from the cursor on gives: the records of what they finish. -/
structure Accepted (t : TailFile) (line : ℕ × List UInt8) (bytes : List UInt8)
    (records : List TailRecord) (result : TailFile × List TailRecord) : Prop where
  /-- The records. -/
  records : ∃ new, result.2 = records ++ new ∧
    openRecord t.generation line ++ new = recordsFrom t.generation line bytes
  /-- The unfinished line. -/
  inLine : InLine result.1 (lineAfter line bytes)
  /-- The rest of the tail. -/
  file : result.1.file = t.file

/-- A line that began long ago and was given up ends. -/
theorem Accepted.skip {t t' : TailFile} {line : ℕ × List UInt8} {pre post : List UInt8}
    {records : List TailRecord} {result : TailFile × List TailRecord} (hpre : newlineByte ∉ pre)
    (hlong : maxTailRecordBytes < line.2.length)
    (h : Accepted t' (nextLine line pre) post records result) (hfile : t'.file = t.file) :
    Accepted t line (pre ++ newlineByte :: post) records result := by
  obtain ⟨new, hnew, hrec⟩ := h.records
  have hgen : t'.generation = t.generation := congrArg (fun f => f.2.2.2) hfile
  refine ⟨⟨new, hnew, ?_⟩, lineAfter_line hpre ▸ h.inLine, h.file.trans hfile⟩
  rw [openRecord_nextLine, List.nil_append, hgen] at hrec
  rw [recordsFrom_line hpre, openRecord_long hlong pre, hrec]
  rfl

/-- A line ends. -/
theorem Accepted.line {t t' : TailFile} {line : ℕ × List UInt8} {pre post : List UInt8}
    {records : List TailRecord} {result : TailFile × List TailRecord} (hpre : newlineByte ∉ pre)
    (hshort : ¬ maxTailRecordBytes < line.2.length)
    (h : Accepted t' (nextLine line pre) post
      (records ++ [lineRecord t.generation (line.1, line.2 ++ pre)]) result)
    (hfile : t'.file = t.file) :
    Accepted t line (pre ++ newlineByte :: post) records result := by
  obtain ⟨new, hnew, hrec⟩ := h.records
  have hgen : t'.generation = t.generation := congrArg (fun f => f.2.2.2) hfile
  refine ⟨⟨lineRecord t.generation (line.1, line.2 ++ pre) :: new, ?_, ?_⟩,
    lineAfter_line hpre ▸ h.inLine, h.file.trans hfile⟩
  · rw [hnew, List.append_assoc, List.singleton_append]
  · rw [openRecord_nextLine, List.nil_append, hgen] at hrec
    rw [recordsFrom_line hpre, hrec, openRecord, if_neg hshort, List.nil_append]

/-- The round that finds the end of a line records just that line. -/
theorem InLine.record {t : TailFile} {line : ℕ × List UInt8} (h : InLine t line)
    (hd : t.discarding = false) {rest : List UInt8} {newline : ℕ} (hlt : newline < rest.length) :
    (if maxTailRecordBytes < t.partialRecord.length + newline then
        TailRecord.malformed t.partialOffset t.generation recordTooLongError
      else TailRecord.data t.partialOffset t.generation
        (withoutReturn (t.partialRecord ++ rest.take newline))) =
      lineRecord t.generation (line.1, line.2 ++ rest.take newline) := by
  have hlen : (line.2 ++ rest.take newline).length = line.2.length + newline := by
    rw [List.length_append, List.length_take]
    omega
  simp only [lineRecord, (h.short hd).2, h.partialOffset hd, hlen]

/-- The round that finds no end keeps what it has, or gives up. -/
theorem InLine.rest {t : TailFile} {line : ℕ × List UInt8} (h : InLine t line) {rest : List UInt8}
    (hnot : newlineByte ∉ rest) (records : List TailRecord) :
    Accepted t line rest records
      (if t.discarding then (t, records)
      else if maxTailRecordBytes < t.partialRecord.length + rest.length then
        ({ t with partialRecord := [], discarding := true },
          records ++ [TailRecord.malformed t.partialOffset t.generation recordTooLongError])
      else ({ t with partialRecord := t.partialRecord ++ rest }, records)) := by
  have hlen : (line.2 ++ rest).length = line.2.length + rest.length := List.length_append
  cases hd : t.discarding with
  | true =>
    obtain ⟨hlong, hkept⟩ := h.long hd
    have hlong' : maxTailRecordBytes < (line.2 ++ rest).length := by omega
    refine ⟨⟨[], by simp, ?_⟩, ?_, rfl⟩
    · rw [recordsFrom_open hnot, openRecord, openRecord, if_pos hlong, if_pos hlong',
        List.append_nil]
    · rw [lineAfter_open hnot]
      exact ⟨by rw [if_pos hlong']; exact hkept, (decide_eq_true hlong').symm ▸ hd,
        fun h => by simp [hd] at h⟩
  | false =>
    obtain ⟨hshort, hkept⟩ := h.short hd
    have hstart := h.partialOffset hd
    simp only [hkept, ← hlen, Bool.false_eq_true, if_false]
    by_cases hlong : maxTailRecordBytes < (line.2 ++ rest).length
    · rw [if_pos hlong]
      refine ⟨⟨_, rfl, ?_⟩, ?_, rfl⟩
      · rw [recordsFrom_open hnot, openRecord, openRecord, if_neg hshort, if_pos hlong, hstart]
        rfl
      · rw [lineAfter_open hnot]
        exact ⟨by rw [if_pos hlong], by rw [decide_eq_true hlong], fun h => by simp at h⟩
    · rw [if_neg hlong]
      refine ⟨⟨[], by simp, ?_⟩, ?_, rfl⟩
      · rw [recordsFrom_open hnot, openRecord, openRecord, if_neg hshort, if_neg hlong]
        rfl
      · rw [lineAfter_open hnot]
        exact ⟨by rw [if_neg hlong], (decide_eq_false hlong).symm, fun _ => hstart⟩

/-- Taking the bytes from the cursor on, one line after the other. -/
theorem acceptFrom_accepted {start : ℕ} {bytes : List UInt8} (hsize : start + bytes.length ≤ u64Max)
    {fuel cursor : ℕ} {t : TailFile} {line : ℕ × List UInt8} (records : List TailRecord)
    (hfuel : bytes.length ≤ cursor + fuel) (hline : InLine t line)
    (hat : line.1 + line.2.length = start + cursor) :
    Accepted t line (bytes.drop cursor) records
      (TailFile.acceptFrom start bytes fuel cursor t records) := by
  have hdone : bytes.length ≤ cursor → Accepted t line (bytes.drop cursor) records (t, records) := by
    intro hle
    rw [List.drop_eq_nil_of_le hle]
    exact ⟨⟨[], by simp, by simp [recordsFrom_nil]⟩, hline, rfl⟩
  induction fuel generalizing cursor t records line with
  | zero => exact hdone hfuel
  | succ fuel ih =>
    unfold TailFile.acceptFrom
    split_ifs with hcursor
    swap
    · exact hdone (by omega)
    clear hdone
    dsimp only
    have hlen : (bytes.drop cursor).length = bytes.length - cursor := List.length_drop
    cases hfind : (bytes.drop cursor).findIdx? (· = newlineByte) with
    | none =>
      have hrest := hline.rest (not_mem_of_findIdx? hfind) records
      cases hd : t.discarding with
      | true => simpa [hd] using hrest
      | false => simpa [hd] using hrest
    | some newline =>
      obtain ⟨hpre, hlt, hsplit⟩ := split_of_findIdx? hfind
      rw [List.drop_drop] at hsplit
      have hsat : satAddU64 start (cursor + (newline + 1)) =
          (nextLine line ((bytes.drop cursor).take newline)).1 := by
        have : satAddU64 start (cursor + (newline + 1)) = start + (cursor + (newline + 1)) :=
          min_eq_left (by omega)
        rw [this, nextLine, List.length_append, List.length_take]
        omega
      have hat' : (nextLine line ((bytes.drop cursor).take newline)).1 +
          (nextLine line ((bytes.drop cursor).take newline)).2.length =
            start + (cursor + (newline + 1)) := by
        rw [nextLine, List.length_append, List.length_take, List.length_nil]
        omega
      have hnext : ∀ (t' : TailFile) (records' : List TailRecord), t'.partialRecord = [] →
          t'.discarding = false → t'.partialOffset = satAddU64 start (cursor + (newline + 1)) →
          Accepted t' (nextLine line ((bytes.drop cursor).take newline))
            (bytes.drop (cursor + (newline + 1))) records'
            (TailFile.acceptFrom start bytes fuel (cursor + (newline + 1)) t' records') := by
        intro t' records' h1 h2 h3
        refine ih records' (by omega) (InLine.begin rfl h1 h2 (h3.trans hsat)) hat' fun hle => ?_
        rw [List.drop_eq_nil_of_le hle]
        exact ⟨⟨[], by simp, by simp [recordsFrom_nil]⟩, InLine.begin rfl h1 h2 (h3.trans hsat), rfl⟩
      rw [congrArg (fun rest => Accepted t line rest records) hsplit]
      cases hd : t.discarding with
      | true =>
        exact Accepted.skip hpre (hline.long hd).1 (hnext
          { t with partialOffset := satAddU64 start (cursor + (newline + 1)), discarding := false }
          records (hline.long hd).2 rfl rfl) rfl
      | false =>
        simp only [hline.record hd hlt]
        exact Accepted.line hpre (hline.short hd).1 (hnext
          { t with
            partialRecord := []
            partialOffset := satAddU64 start (cursor + (newline + 1))
            discarding := false } _ rfl rfl rfl) rfl

/-! ### One poll -/

/-- The tail between two polls: it keeps an unfinished line that ends where it goes on reading. -/
structure Between (t : TailFile) (line : ℕ × List UInt8) : Prop where
  /-- What is kept of it. -/
  kept : t.partialRecord = if maxTailRecordBytes < line.2.length then [] else line.2
  /-- It was given up when it is too long. -/
  discarding : t.discarding = decide (maxTailRecordBytes < line.2.length)
  /-- Where it begins, if something is kept. -/
  partialOffset : t.discarding = false → t.partialRecord ≠ [] → t.partialOffset = line.1
  /-- Where it ends. -/
  offset : line.1 + line.2.length = t.offset

/-- Before the first byte the line is known to begin here. -/
theorem Between.inLine {t : TailFile} {line : ℕ × List UInt8} (h : Between t line) (bytes : List UInt8) :
    InLine { (if t.partialRecord.isEmpty && !t.discarding then { t with partialOffset := t.offset }
      else t) with offset := satAddU64 t.offset bytes.length } line := by
  by_cases hnew : (t.partialRecord.isEmpty && !t.discarding) = true
  · rw [if_pos hnew]
    rw [Bool.and_eq_true, Bool.not_eq_true', List.isEmpty_iff] at hnew
    have hshort : ¬ maxTailRecordBytes < line.2.length := by simpa [h.discarding] using hnew.2
    have hempty : line.2 = [] := by
      have := h.kept
      rw [hnew.1, if_neg hshort] at this
      exact this.symm
    exact InLine.begin hempty hnew.1 hnew.2 (by simpa [hempty] using h.offset.symm)
  · rw [if_neg hnew]
    refine ⟨h.kept, h.discarding, fun hd => h.partialOffset hd fun hnil => hnew ?_⟩
    have hd' : t.discarding = false := hd
    simp [hnil, hd']

/-- Taking the next bytes of the file. -/
theorem Between.acceptBytes {t : TailFile} {line : ℕ × List UInt8} (h : Between t line)
    (bytes : List UInt8) (hsize : t.offset + bytes.length ≤ u64Max) :
    Between (t.acceptBytes t.offset bytes).1 (lineAfter line bytes) ∧
      (t.acceptBytes t.offset bytes).1.file =
        (t.offset + bytes.length, t.identity, t.lastSize, t.generation) ∧
      openRecord t.generation line ++ (t.acceptBytes t.offset bytes).2 =
        recordsFrom t.generation line bytes := by
  have hacc := acceptFrom_accepted hsize [] (Nat.le_add_left bytes.length 0) (h.inLine bytes)
    (by rw [h.offset, Nat.add_zero])
  rw [List.drop_zero] at hacc
  have hfile : (t.acceptBytes t.offset bytes).1.file =
      (t.offset + bytes.length, t.identity, t.lastSize, t.generation) := by
    refine hacc.file.trans ?_
    simp only [TailFile.file, satAddU64, min_eq_left hsize]
    split_ifs <;> rfl
  have hgen : (if t.partialRecord.isEmpty && !t.discarding then { t with partialOffset := t.offset }
      else t).generation = t.generation := by split_ifs <;> rfl
  obtain ⟨new, hnew, hrec⟩ := hacc.records
  refine ⟨⟨hacc.inLine.kept, hacc.inLine.discarding, fun hd _ => hacc.inLine.partialOffset hd, ?_⟩,
    hfile, ?_⟩
  · have hoffset : (t.acceptBytes t.offset bytes).1.offset = t.offset + bytes.length :=
      congrArg Prod.fst hfile
    rw [hoffset, ← h.offset]
    exact openFrom_end
  · rw [List.nil_append] at hnew
    simp only [hgen] at hrec
    rw [← hrec]
    exact congrArg _ hnew

/-- A look at a file that did not become shorter. -/
theorem observeSnapshot_grown {t : TailFile} {size : ℕ} (hsize : t.lastSize ≤ size)
    (hoffset : t.offset ≤ size) :
    t.observeSnapshot ⟨t.identity.1, t.identity.2, size⟩ = { t with lastSize := size } := by
  unfold TailFile.observeSnapshot
  have hsame : ¬ ((⟨t.identity.1, t.identity.2, size⟩ : FileSnapshot).identity ≠ t.identity ∨
      (size < t.lastSize ∨ size < t.offset)) := by
    simp only [FileSnapshot.identity, ne_eq, not_true_eq_false, false_or]
    omega
  simp only [if_neg hsame]

/-! ### A run -/

/-- What was read, as the lines of a file: the finished ones and the unfinished one. -/
structure LineSplit (content : List UInt8) (start stop : ℕ) (lines : List (ℕ × List UInt8))
    (rest : ℕ × List UInt8) : Prop where
  /-- Together they are what was read. -/
  join : lines.flatMap (fun line => line.2 ++ [newlineByte]) ++ rest.2 = (content.take stop).drop start
  /-- A line has no line end in it. -/
  lineEnd : ∀ line ∈ lines, newlineByte ∉ line.2
  /-- Nor has the unfinished one. -/
  restOpen : newlineByte ∉ rest.2
  /-- A line stands at its offset. -/
  lineAt : ∀ line ∈ lines, line.2 ++ [newlineByte] <+: content.drop line.1
  /-- The unfinished line ends where the reading stopped. -/
  restAt : rest.1 + rest.2.length = stop

theorem lineSplit_linesFrom {content : List UInt8} {start stop : ℕ} (hstart : start ≤ stop)
    (hstop : stop ≤ content.length) :
    LineSplit content start stop (linesFrom newlineByte start [] ((content.take stop).drop start))
      (lineAfter (start, []) ((content.take stop).drop start)) where
  join := linesFrom_join
  lineEnd := not_mem_linesFrom List.not_mem_nil
  restOpen := not_mem_openFrom List.not_mem_nil
  lineAt line hline := by
    obtain ⟨hle, hpre⟩ := linesFrom_at line hline
    rw [List.nil_append, List.drop_drop, Nat.add_sub_cancel' hle, List.drop_take] at hpre
    exact hpre.trans (List.take_prefix _ _)
  restAt := by
    refine openFrom_end.trans ?_
    rw [List.length_nil, List.length_drop, List.length_take]
    omega

/-- The tail has read the file from where it was opened, and its records are those of the lines. -/
structure Reading (content : List UInt8) (identity : ℕ × ℕ) (generation start size : ℕ)
    (t : TailFile) (records : List TailRecord) : Prop where
  /-- It is the same file. -/
  sameFile : t.identity = identity
  /-- In the same generation. -/
  sameGeneration : t.generation = generation
  /-- It did not become shorter. -/
  seen : t.lastSize ≤ size
  /-- What was read is there. -/
  there : t.offset ≤ size
  /-- The reading went forward. -/
  forward : start ≤ t.offset
  /-- The file is a part of its later content. -/
  written : size ≤ content.length
  /-- What is kept. -/
  between : Between t (lineAfter (start, []) ((content.take t.offset).drop start))
  /-- The records so far. -/
  given : records = recordsFrom generation (start, []) ((content.take t.offset).drop start)

section

variable {content : List UInt8} {identity : ℕ × ℕ} {generation start size size' readSize : ℕ}
  {t : TailFile} {records : List TailRecord}

theorem Reading.look (h : Reading content identity generation start size t records)
    (hgrow : size ≤ size') (hsize : size' ≤ content.length) :
    Reading content identity generation start size' { t with lastSize := size' } records where
  sameFile := h.sameFile
  sameGeneration := h.sameGeneration
  seen := le_rfl
  there := h.there.trans hgrow
  forward := h.forward
  written := hsize
  between := ⟨h.between.kept, h.between.discarding, h.between.partialOffset, h.between.offset⟩
  given := h.given

theorem Reading.later (h : Reading content identity generation start size t records)
    (hgrow : size ≤ size') (hsize : size' ≤ content.length) :
    Reading content identity generation start size' t records where
  sameFile := h.sameFile
  sameGeneration := h.sameGeneration
  seen := h.seen.trans hgrow
  there := h.there.trans hgrow
  forward := h.forward
  written := hsize
  between := h.between
  given := h.given

/-- The bytes that a read gives are the next ones of the file. -/
theorem read_bytes (content : List UInt8) (readSize offset maxBytes : ℕ) :
    ∃ n, ((content.take readSize).drop offset).take maxBytes = (content.drop offset).take n ∧
      n ≤ maxBytes ∧ offset + n ≤ max offset readSize := by
  refine ⟨min maxBytes (readSize - offset), ?_, min_le_left _ _, ?_⟩
  · rw [List.drop_take, List.take_take]
  · omega

theorem Reading.accept (h : Reading content identity generation start size t records)
    (hlen : content.length ≤ u64Max) {n : ℕ} (hn : t.offset + n ≤ size) :
    Reading content identity generation start size
      (t.acceptBytes t.offset ((content.drop t.offset).take n)).1
      (records ++ (t.acceptBytes t.offset ((content.drop t.offset).take n)).2) ∧
    (t.acceptBytes t.offset ((content.drop t.offset).take n)).1.offset = t.offset + n := by
  have hsize := h.written
  have hstart := h.forward
  have hbytes : ((content.drop t.offset).take n).length = n := by
    rw [List.length_take, List.length_drop]
    omega
  obtain ⟨hbetween, hfile, hrec⟩ := h.between.acceptBytes
    ((content.drop t.offset).take n) (by omega)
  revert hbetween hfile hrec
  generalize t.acceptBytes t.offset ((content.drop t.offset).take n) = result
  intro hbetween hfile hrec
  simp only [TailFile.file, Prod.mk.injEq, hbytes] at hfile
  obtain ⟨h1, h2, h3, h4⟩ := hfile
  have hread : (content.take result.1.offset).drop start =
      (content.take t.offset).drop start ++ (content.drop t.offset).take n := by
    rw [h1, List.take_add, List.drop_append_of_le_length]
    rw [List.length_take]
    omega
  have hafter : lineAfter (lineAfter (start, []) ((content.take t.offset).drop start))
      ((content.drop t.offset).take n) =
      lineAfter (start, []) ((content.take result.1.offset).drop start) := by
    rw [hread]
    exact openFrom_append.symm
  refine ⟨⟨h2.trans h.sameFile, h4.trans h.sameGeneration, h3 ▸ h.seen, by omega, by omega, h.written,
    hafter ▸ hbetween, ?_⟩, h1⟩
  rw [h.sameGeneration] at hrec
  rw [hread, h.given]
  exact (recordsFrom_append _ _ hrec).symm

/-- A poll up to a goalpost. -/
theorem Reading.poll (h : Reading content identity generation start size t records)
    (hlen : content.length ≤ u64Max) (given : Option ℕ) (goalpost : ℕ) (hgrow : size ≤ size')
    (hread : size' ≤ readSize) (hsize : readSize ≤ content.length) :
    Reading content identity generation start readSize
      (t.pollSnapshotToGoalpost (growingFile content identity size' readSize given)
        ⟨identity.1, identity.2, size'⟩ goalpost).1
      (records ++ (t.pollSnapshotToGoalpost (growingFile content identity size' readSize given)
        ⟨identity.1, identity.2, size'⟩ goalpost).2.getD []) ∧
    (t.pollSnapshotToGoalpost (growingFile content identity size' readSize given)
      ⟨identity.1, identity.2, size'⟩ goalpost).1.offset ≤ max t.offset goalpost := by
  have hlook : t.observeSnapshot ⟨identity.1, identity.2, size'⟩ = { t with lastSize := size' } := by
    rw [← h.sameFile]
    exact observeSnapshot_grown (h.seen.trans hgrow) (h.there.trans hgrow)
  have hlater := (h.look hgrow (hread.trans hsize)).later hread hsize
  unfold TailFile.pollSnapshotToGoalpost
  rw [hlook]
  dsimp only
  split_ifs with hdone
  · exact ⟨by simpa using hlater, le_max_left _ _⟩
  · cases given with
    | none =>
      have hcounted : Reading content identity generation start readSize
          { t with lastSize := size' } (records ++ Option.getD (none : Option (List TailRecord)) []) := by
        simpa using hlater
      exact ⟨hcounted, le_max_left _ _⟩
    | some given =>
      simp only [growingFile, Option.map_some]
      obtain ⟨n, hn, hmax, hle⟩ := read_bytes content readSize t.offset
        (min (min (goalpost - t.offset) maxTailChunkBytes) given)
      have hoffset := h.there
      rw [hn]
      have hsame : ¬ ((⟨identity.1, identity.2, readSize⟩ : FileSnapshot).identity ≠ t.identity) := by
        simp [FileSnapshot.identity, h.sameFile]
      have hcounted : Reading content identity generation start readSize
          { ({ t with lastSize := size' } : TailFile).noteRead ((content.drop t.offset).take n) with
            lastSize := readSize } records :=
        { hlater with
          seen := le_rfl
          between := ⟨h.between.kept, h.between.discarding, h.between.partialOffset, h.between.offset⟩ }
      obtain ⟨hacc, hend⟩ := hcounted.accept hlen (n := n) (show t.offset + n ≤ readSize by omega)
      rw [if_neg (by simpa [TailFile.noteRead] using hsame)]
      refine ⟨hacc, ?_⟩
      have hgoal : t.offset + n ≤ max t.offset goalpost := by omega
      exact hend.le.trans hgoal

/-- A poll of a file that is there as a whole reads a chunk of it. -/
theorem Reading.poll_whole (h : Reading content identity generation start content.length t records)
    (hlen : content.length ≤ u64Max) :
    (t.pollToGoalpost (wholeFile content identity) content.length).2.isSome = true ∧
      (t.pollToGoalpost (wholeFile content identity) content.length).1.offset =
        min (t.offset + maxTailChunkBytes) content.length := by
  have hlook : t.observeSnapshot ⟨identity.1, identity.2, content.length⟩ =
      { t with lastSize := content.length } := by
    rw [← h.sameFile]
    exact observeSnapshot_grown h.seen h.there
  have hlater := h.look le_rfl le_rfl
  have hthere := h.there
  show (t.pollSnapshotToGoalpost (wholeFile content identity) ⟨identity.1, identity.2, content.length⟩
    content.length).2.isSome = true ∧ (t.pollSnapshotToGoalpost (wholeFile content identity)
    ⟨identity.1, identity.2, content.length⟩ content.length).1.offset = _
  unfold TailFile.pollSnapshotToGoalpost
  rw [hlook]
  dsimp only
  split_ifs with hdone
  · refine ⟨rfl, ?_⟩
    show t.offset = _
    omega
  · simp only [wholeFile, growingFile, Option.map_some, List.take_length]
    have hbytes : (content.drop t.offset).take (min (min (content.length - t.offset) maxTailChunkBytes)
        maxTailChunkBytes) = (content.drop t.offset).take (min (content.length - t.offset) maxTailChunkBytes) := by
      rw [min_assoc, min_self]
    rw [hbytes]
    have hsame : ¬ ((⟨identity.1, identity.2, content.length⟩ : FileSnapshot).identity ≠ t.identity) := by
      simp [FileSnapshot.identity, h.sameFile]
    have hcounted : Reading content identity generation start content.length
        { ({ t with lastSize := content.length } : TailFile).noteRead
          ((content.drop t.offset).take (min (content.length - t.offset) maxTailChunkBytes)) with
          lastSize := content.length } records :=
      { hlater with
        seen := le_rfl
        between := ⟨h.between.kept, h.between.discarding, h.between.partialOffset, h.between.offset⟩ }
    obtain ⟨-, hend⟩ := @Reading.accept _ _ _ _ _ _ _ hcounted hlen (min (content.length - t.offset) maxTailChunkBytes)
      (show t.offset + _ ≤ content.length by omega)
    rw [if_neg (by simpa [TailFile.noteRead] using hsame)]
    refine ⟨rfl, hend.trans ?_⟩
    show t.offset + min (content.length - t.offset) maxTailChunkBytes = _
    omega

/-- One call. -/
theorem Reading.step (h : Reading content identity generation start size t records)
    (hlen : content.length ≤ u64Max) {op : TailOp} (hgrow : op.grow content.length size = some size') :
    Reading content identity generation start size' (op.run content identity t).1
      (records ++ (op.run content identity t).2) ∧
    ∀ goalpost, op.goalpost = some goalpost →
      (op.run content identity t).1.offset ≤ max t.offset goalpost := by
  cases op with
  | poll size₁ readSize given =>
    simp only [TailOp.grow, Option.ite_none_right_eq_some, Option.some.injEq] at hgrow
    obtain ⟨⟨hseen, hread, hsize⟩, rfl⟩ := hgrow
    have hpoll := h.poll hlen given size₁ hseen hread hsize
    refine ⟨hpoll.1, fun goalpost hgoal => ?_⟩
    obtain rfl : size₁ = goalpost := Option.some.inj hgoal
    exact hpoll.2
  | pollToGoalpost goalpost size₁ readSize given =>
    simp only [TailOp.grow, Option.ite_none_right_eq_some, Option.some.injEq] at hgrow
    obtain ⟨⟨hseen, hread, hsize⟩, rfl⟩ := hgrow
    have hpoll := h.poll hlen given goalpost hseen hread hsize
    refine ⟨hpoll.1, fun goalpost' hgoal => ?_⟩
    obtain rfl : goalpost = goalpost' := Option.some.inj hgoal
    exact hpoll.2
  | cycleGoalpost size₁ =>
    simp only [TailOp.grow, Option.ite_none_right_eq_some, Option.some.injEq] at hgrow
    obtain ⟨⟨hseen, hsize⟩, rfl⟩ := hgrow
    have hlook : t.observeSnapshot ⟨identity.1, identity.2, size₁⟩ = { t with lastSize := size₁ } := by
      rw [← h.sameFile]
      exact observeSnapshot_grown (h.seen.trans hseen) (h.there.trans hseen)
    refine ⟨?_, fun goalpost hgoal => by simp [TailOp.goalpost] at hgoal⟩
    simp only [TailOp.run, TailFile.cycleGoalpost, growingFile, hlook, List.append_nil]
    exact h.look hseen hsize
  | failed =>
    obtain rfl : size = size' := Option.some.inj hgrow
    refine ⟨?_, fun goalpost hgoal => by simp [TailOp.goalpost] at hgoal⟩
    simpa [TailOp.run] using h

theorem runTail_append (before after : List TailOp) (t : TailFile) :
    (runTail content identity (before ++ after) t).1 =
      (runTail content identity after (runTail content identity before t).1).1 := by
  induction before generalizing t with
  | nil => rfl
  | cons op before ih => exact ih (op.run content identity t).1

/-- Any number of calls, and what the file still does after them. -/
theorem Reading.run (hlen : content.length ≤ u64Max) {ops : List TailOp} (after : List TailOp)
    (h : Reading content identity generation start size t records)
    (hgrow : Growing content.length size (ops ++ after)) :
    ∃ size', Reading content identity generation start size' (runTail content identity ops t).1
      (records ++ (runTail content identity ops t).2) ∧ Growing content.length size' after := by
  induction ops generalizing size t records with
  | nil => exact ⟨size, by simpa [runTail] using h, hgrow⟩
  | cons op ops ih =>
    obtain ⟨size₁, hop, hrest⟩ := hgrow
    obtain ⟨size', hlast, hafter⟩ := ih (h.step hlen hop).1 hrest
    refine ⟨size', ?_, hafter⟩
    rw [List.append_assoc] at hlast
    exact hlast

/-- A tail that was just opened has read nothing. -/
theorem reading_open (identity : ℕ × ℕ) (generation : ℕ) {opened : ℕ} (contained : Bool) (hopened : opened ≤ content.length) :
    Reading content identity generation
      (TailFile.open ⟨identity.1, identity.2, opened⟩ contained generation).offset opened
      (TailFile.open ⟨identity.1, identity.2, opened⟩ contained generation) [] := by
  generalize ht : TailFile.open ⟨identity.1, identity.2, opened⟩ contained generation = t
  have hkept : t.partialRecord = [] := ht ▸ rfl
  have hshort : t.discarding = false := ht ▸ rfl
  have hempty : (content.take t.offset).drop t.offset = [] := by
    rw [List.drop_eq_nil_iff, List.length_take]
    exact min_le_left _ _
  refine ⟨ht ▸ rfl, ht ▸ rfl, ht ▸ le_rfl, ?_, le_rfl, hopened, ?_, ?_⟩
  · subst ht
    cases contained
    · exact Nat.zero_le _
    · exact le_rfl
  · rw [hempty]
    exact ⟨by simp [hkept, lineAfter, openFrom], by simp [hshort, lineAfter, openFrom],
      fun _ hne => absurd hkept hne, by simp [lineAfter, openFrom]⟩
  · rw [hempty]
    simp [recordsFrom, openRecord, lineAfter, linesFrom, openFrom]

end

/-- A tail of a file that only grows gives one record for each line it has read, and one already for
an unfinished line that is too long; it keeps the rest, and no call reads beyond its goalpost. -/
theorem runTail_lines {content : List UInt8} {identity : ℕ × ℕ} {generation opened : ℕ}
    {contained : Bool} {ops : List TailOp} (hlen : content.length ≤ u64Max)
    (hopened : opened ≤ content.length) (hgrow : Growing content.length opened ops) :
    let t₀ := TailFile.open ⟨identity.1, identity.2, opened⟩ contained generation
    let t := (runTail content identity ops t₀).1
    (∃ lines rest, LineSplit content t₀.offset t.offset lines rest ∧
      (runTail content identity ops t₀).2 =
        lines.map (lineRecord generation) ++ openRecord generation rest ∧
      t.partialRecord = if maxTailRecordBytes < rest.2.length then [] else rest.2) ∧
    ∀ before op after goalpost, ops = before ++ op :: after → op.goalpost = some goalpost →
      (runTail content identity (before ++ [op]) t₀).1.offset ≤
        max (runTail content identity before t₀).1.offset goalpost := by
  intro t₀ t
  have hstart := reading_open identity generation contained hopened
  constructor
  · obtain ⟨size, hend, -⟩ := hstart.run hlen [] (by rwa [List.append_nil])
    exact ⟨_, _, lineSplit_linesFrom hend.forward (hend.there.trans hend.written), hend.given,
      hend.between.kept⟩
  · rintro before op after goalpost rfl hgoal
    obtain ⟨size, hread, size₁, hop, -⟩ := hstart.run hlen _ hgrow
    rw [runTail_append]
    exact (hread.step hlen hop).2 goalpost hgoal

/-- Two lines, read in pieces that end within a line. -/
theorem runTail_lines_pieces :
    ∃ lines rest, LineSplit [97, 98, 13, 10, 99, 10, 100] 0
      (runTail [97, 98, 13, 10, 99, 10, 100] (1, 2) [.poll 3 3 (some 3), .poll 7 7 (some 4), .failed]
        (TailFile.open ⟨1, 2, 0⟩ false 0)).1.offset lines rest :=
  have hgrow : Growing 7 0 [.poll 3 3 (some 3), .poll 7 7 (some 4), .failed] :=
    ⟨3, by decide, 7, by decide, 7, by decide, trivial⟩
  have ⟨⟨lines, rest, hsplit, _⟩, _⟩ := @runTail_lines [97, 98, 13, 10, 99, 10, 100] (1, 2) 0 0 false _
    (by decide) (by decide) hgrow
  ⟨lines, rest, hsplit⟩

example : (runTail [97, 98, 13, 10, 99, 10, 100] (1, 2) [.poll 3 3 (some 3), .poll 7 7 (some 4)]
    (TailFile.open ⟨1, 2, 0⟩ false 0)).2 = [.data 0 0 [97, 98], .data 4 0 [99]] := by
  decide

end HerdrTop
