import Mathlib
import HerdrTop.Library.Utf8
import HerdrTop.Provider.Facts

/-!
# The scan of a line by bytes

The scan for identifiers as it runs, over the bytes of a line: at every byte it looks for a UUID and for
an assignment to the configuration variable, and it cuts what it found out of the line. A cut that is not
between characters, and a place outside the line, is the outcome `none`.

## What is proved

* `scanLoop_eq`: the scan comes to its end, no cut goes through a character, and what it finds is what
  `scanFrom` finds character by character.
* `mem_idsAt`: what stands at a place of the line, in terms of the text before and after it.
* `scanRawIds_exact`: the identifiers found are those that stand somewhere in the line, each once, in the
  order of the places where they stand first.
-/

namespace HerdrTop

open Utf8

/-! ### The scan -/

/-- What was found, in order, and what was seen. -/
structure FoundIds where
  found : List EvidenceId
  seen : List EvidenceId

def pushUnique (ids : FoundIds) (id : EvidenceId) : FoundIds :=
  if id ∈ ids.seen then ids else ⟨ids.found ++ [id], id :: ids.seen⟩

def isDigitByte (b : UInt8) : Bool := 48 ≤ b && b ≤ 57

def isLowerHexByte (b : UInt8) : Bool := isDigitByte b || (97 ≤ b && b ≤ 102)

def isHexDigitByte (b : UInt8) : Bool := isDigitByte b || (97 ≤ b && b ≤ 102) || (65 ≤ b && b ≤ 70)

def isAlphanumericByte (b : UInt8) : Bool := isDigitByte b || (97 ≤ b && b ≤ 122) || (65 ≤ b && b ≤ 90)

/-- The bytes of `CLAUDE_CONFIG_DIR=`. -/
def configPrefixBytes : List UInt8 := encode configPrefix

/-- A backslash and a quotation mark. -/
def escapedQuote : List UInt8 := [92, 34]

/-- Whether the bytes at a place are those of a UUID. -/
def uuidAtByte (bytes : List UInt8) (start : ℕ) : Bool :=
  ((bytes.drop start).take uuidLength).zipIdx.all fun (b, offset) =>
    if offset ∈ uuidHyphens then b = 45 else isLowerHexByte b

/-- The byte before a place, if there is one. -/
def byteBefore (bytes : List UInt8) (index : ℕ) : Option UInt8 := if index = 0 then none else bytes[index - 1]?

/-- The characters of a text with the bytes where they start. -/
def charIndices (start : ℕ) : List Char → List (ℕ × Char)
  | [] => []
  | c :: text => (start, c) :: charIndices (start + c.utf8Size) text

/-- A range that is not empty. -/
def nonemptyRange (start stop : ℕ) : Option (ℕ × ℕ) := if start < stop then some (start, stop) else none

/-- Where the value of an assignment starts and ends. -/
def configDirValueBounds (line : List Char) (valueStart : ℕ) : Option (Option (ℕ × ℕ)) :=
  let bytes := encode line
  if escapedQuote.isPrefixOf (bytes.drop valueStart) then
    let quotedStart := valueStart + 2
    some ((findPattern escapedQuote (bytes.drop quotedStart)).bind fun offset =>
      nonemptyRange quotedStart (offset + quotedStart))
  else
    match (bytes[valueStart]?).filter fun b => b = 39 ∨ b = 34 with
    | some quote =>
      let quotedStart := valueStart + 1
      some ((findPattern [quote] (bytes.drop quotedStart)).bind fun offset =>
        nonemptyRange quotedStart (offset + quotedStart))
    | none =>
      (splitAtByte valueStart line).map fun (_, rest) =>
        let valueEnd :=
          match (charIndices 0 rest).find? fun e => isWhiteSpace e.2 || e.2 = '\'' || e.2 = '"' with
          | some (offset, _) => valueStart + offset
          | none => bytes.length
        nonemptyRange valueStart valueEnd

/-- The UUID at a place. -/
def scanUuid (line : List Char) (index : ℕ) (ids : FoundIds) : Option FoundIds :=
  let bytes := encode line
  if index + uuidLength ≤ bytes.length && uuidAtByte bytes index then
    let beforeIsHex := (byteBefore bytes index).any isHexDigitByte
    let afterIsHex := (bytes[index + uuidLength]?).any isHexDigitByte
    if !beforeIsHex && !afterIsHex then
      (slice line index (index + uuidLength)).map fun id => pushUnique ids (.uuid (String.ofList id))
    else some ids
  else some ids

/-- The assignment at a place. -/
def scanConfigDir (line : List Char) (index : ℕ) (ids : FoundIds) : Option FoundIds :=
  let bytes := encode line
  if configPrefixBytes.isPrefixOf (bytes.drop index) &&
      !(byteBefore bytes index).any fun b => isAlphanumericByte b || b = 95 then
    (configDirValueBounds line (index + configPrefixBytes.length)).bind fun bounds =>
      match bounds with
      | some (start, stop) => (slice line start stop).map fun path => pushUnique ids (.configDir (.ofText path))
      | none => some ids
  else some ids

/-- The scan from a byte on. -/
def scanLoop (line : List Char) (index : ℕ) (ids : FoundIds) : Option FoundIds :=
  if index < (encode line).length then
    (scanUuid line index ids).bind fun ids => (scanConfigDir line index ids).bind fun ids =>
      scanLoop line (index + 1) ids
  else some ids
termination_by (encode line).length - index

/-- The scan of a line. -/
def scanRawIdBytes (line : String) : Option (List EvidenceId) :=
  (scanLoop line.toList 0 ⟨[], []⟩).map FoundIds.found

/-! ### Classes of characters -/

theorem agree_isDigit : Agree isDigitByte Char.isDigit := @Agree.between 48 57 '0' '9' rfl rfl (by decide)

theorem agree_isLowerHex : Agree isLowerHexByte isLowerHex := agree_isDigit.either (.between rfl rfl (by decide))

theorem agree_isHexDigit : Agree isHexDigitByte isHexDigit := agree_isLowerHex.either (.between rfl rfl (by decide))

theorem agree_isAlphanumeric : Agree isAlphanumericByte Char.isAlphanum := by
  have hclass : Char.isAlphanum = fun c => c.isDigit || ('a' ≤ c && c ≤ 'z') || ('A' ≤ c && c ≤ 'Z') := by
    funext c
    rw [Char.isAlphanum, Char.isAlpha, Bool.or_comm, Bool.or_comm c.isUpper, ← Bool.or_assoc, Char.isLower, Char.isUpper]
    simp only [Char.le_def, ge_iff_le, Bool.decide_and]
  rw [hclass]
  exact (agree_isDigit.either (.between rfl rfl (by decide))).either (.between rfl rfl (by decide))

/-- The characters of a name. -/
theorem agree_isAlphanum : Agree (fun b => isAlphanumericByte b || b = 95) (fun c => c.isAlphanum || c = '_') :=
  agree_isAlphanumeric.either (.one rfl (by decide))

theorem agree_quote : Agree (fun b => b = 39 ∨ b = 34) (fun c => c = '\'' ∨ c = '"') := by
  have h := (@Agree.one 39 '\'' rfl (by decide)).either (@Agree.one 34 '"' rfl (by decide))
  simpa only [Bool.decide_or] using h

/-- The characters of a UUID, by their places. -/
theorem agree_uuid (offset : ℕ) :
    Agree (fun b => if offset ∈ uuidHyphens then b = 45 else isLowerHexByte b)
      (fun c => if offset ∈ uuidHyphens then c = '-' else isLowerHex c) := by
  by_cases hoffset : offset ∈ uuidHyphens
  · simp only [if_pos hoffset]
    exact .one rfl (by decide)
  · simp only [if_neg hoffset]
    exact agree_isLowerHex

/-! ### One place of a line -/

/-- The UUID that stands between two parts of a line. -/
def uuidsAt (before : Option Char) (rest : List Char) : List EvidenceId :=
  if uuidAt rest && !before.any isHexDigit && !(rest[uuidLength]?).any isHexDigit then
    [EvidenceId.uuid (String.ofList (rest.take uuidLength))]
  else []

/-- The assignment that stands between two parts of a line. -/
def configDirsAt (before : Option Char) (rest : List Char) : List EvidenceId :=
  if configPrefix.isPrefixOf rest && !before.any fun b => b.isAlphanum || b = '_' then
    ((configDirValue (rest.drop configPrefix.length)).map fun value => EvidenceId.configDir (.ofText value)).toList
  else []

/-- Everything that stands between two parts of a line. -/
def idsAt (before : Option Char) (rest : List Char) : List EvidenceId := uuidsAt before rest ++ configDirsAt before rest

theorem scanFrom_cons (before : Option Char) (c : Char) (rest : List Char) :
    scanFrom before (c :: rest) = idsAt before (c :: rest) ++ scanFrom (some c) rest := rfl

variable {before rest : List Char} {ids : FoundIds}

theorem drop_encode : (encode (before ++ rest)).drop (encode before).length = encode rest := by
  rw [encode_append, List.drop_left]

theorem drop_encode_lead (before lead tail : List Char) :
    (encode (before ++ (lead ++ tail))).drop (encode (before ++ lead)).length = encode tail := by
  rw [← List.append_assoc, drop_encode]

theorem getElem?_encode (offset : ℕ) :
    (encode (before ++ rest))[(encode before).length + offset]? = (encode rest)[offset]? := by
  rw [encode_append, List.getElem?_append_right (Nat.le_add_right ..), Nat.add_sub_cancel_left]

theorem byteBefore_encode :
    byteBefore (encode (before ++ rest)) (encode before).length = (encode before).getLast? := by
  rw [byteBefore, encode_append]
  split
  · rename_i hnone
    rw [List.length_eq_zero_iff.mp hnone]
    rfl
  · rename_i hsome
    rw [List.getElem?_append_left (by omega), List.getLast?_eq_getElem?]

/-- What is tested at a place for a UUID is a run of classes. -/
theorem uuidAtByte_eq (bytes : List UInt8) (index : ℕ) :
    (decide (index + uuidLength ≤ bytes.length) && uuidAtByte bytes index) =
      fits (fun i b => if i ∈ uuidHyphens then b = 45 else isLowerHexByte b) uuidLength (bytes.drop index) := by
  rw [fits, uuidAtByte]
  congr 1
  rw [decide_eq_decide, List.length_take, List.length_drop]
  have hpos : 0 < uuidLength := by decide
  omega

theorem uuidAt_eq (line : List Char) :
    uuidAt line = fits (fun i c => if i ∈ uuidHyphens then c = '-' else isLowerHex c) uuidLength line := rfl

/-- At the start of a character the bytes are a UUID exactly if the characters are. -/
theorem scanUuid_eq : scanUuid (before ++ rest) (encode before).length ids =
    some ((uuidsAt before.getLast? rest).foldl pushUnique ids) := by
  obtain ⟨hfits, hbytes⟩ := fits_encode agree_uuid uuidLength rest
  rw [scanUuid, uuidAtByte_eq, drop_encode, byteBefore_encode, getElem?_encode, hfits, agree_isHexDigit.getLast?_any,
    uuidsAt, uuidAt_eq]
  by_cases huuid : fits (fun i c => if i ∈ uuidHyphens then c = '-' else isLowerHex c) uuidLength rest = true
  · obtain ⟨hlength, hsplit⟩ := hbytes huuid
    have hafter : ((encode rest)[uuidLength]?).any isHexDigitByte = (rest[uuidLength]?).any isHexDigit := by
      have hdrop := @Agree.head?_any (rest.drop uuidLength) _ _ agree_isHexDigit
      rw [List.head?_drop] at hdrop
      rw [hsplit, List.getElem?_append_right (Nat.le_of_eq hlength), hlength, Nat.sub_self, ← List.head?_eq_getElem?,
        hdrop]
    have hslice := @slice_append before (rest.take uuidLength) (rest.drop uuidLength)
    rw [List.take_append_drop, hlength] at hslice
    rw [if_pos huuid, hafter, huuid, Bool.true_and, hslice]
    split
    · rename_i hclear
      exact if_pos hclear
    · rename_i hclear
      exact if_neg hclear
  · rw [if_neg huuid, Bool.eq_false_iff.mpr huuid]
    rfl

/-- Inside a character nothing is found. -/
theorem scanUuid_inside {line : List Char} {index : ℕ} {b : UInt8} {bytes : List UInt8}
    (h : (encode line).drop index = b :: bytes) (hb : 128 ≤ b.toNat) : scanUuid line index ids = some ids := by
  rw [scanUuid, uuidAtByte_eq, h, show uuidLength = 35 + 1 from rfl, fits_cons, (agree_uuid 0).wideByte b hb]
  rfl

theorem configPrefix_eq : configPrefix =
    ['C', 'L', 'A', 'U', 'D', 'E', '_', 'C', 'O', 'N', 'F', 'I', 'G', '_', 'D', 'I', 'R', '='] :=
  String.toList_ofList

theorem configPrefix_ascii : ∀ c ∈ configPrefix, IsAscii c := by
  rw [configPrefix_eq]
  exact isAscii_of_all (by decide)

theorem scanConfigDir_inside {line : List Char} {index : ℕ} {b : UInt8} {bytes : List UInt8}
    (h : (encode line).drop index = b :: bytes) (hb : 128 ≤ b.toNat) : scanConfigDir line index ids = some ids := by
  have hfirst : configPrefixBytes = 67 :: encode configPrefix.tail := by
    rw [configPrefixBytes, configPrefix_eq, encode_cons, encodeChar_ascii (by decide), List.singleton_append]
    rfl
  have hne : (67 == b) = false := by
    refine beq_eq_false_iff_ne.mpr ?_
    rintro rfl
    exact absurd hb (by decide)
  rw [scanConfigDir, h, hfirst, List.isPrefixOf_cons_cons, hne]
  rfl

/-! ### Values -/

theorem length_encode_eq_zero {text : List Char} : (encode text).length = 0 ↔ text = [] := by
  cases text with
  | nil => exact iff_of_true rfl rfl
  | cons c text =>
    have hsize := c.utf8Size_pos
    rw [encode_cons, List.length_append, String.length_utf8EncodeChar]
    exact iff_of_false (by omega) (List.cons_ne_nil c text)

/-- What stands before the first place of a pattern. -/
theorem untilPattern_eq_some {pattern line value : List Char} :
    untilPattern pattern line = some value ↔ (∃ more, line = value ++ (pattern ++ more)) ∧
      ∀ shorter more, line = shorter ++ (pattern ++ more) → value.length ≤ shorter.length := by
  induction line generalizing value with
  | nil =>
    rw [untilPattern, Option.ite_none_right_eq_some, Option.some.injEq]
    constructor
    · rintro ⟨rfl, rfl⟩
      exact ⟨⟨[], rfl⟩, fun _ _ _ => Nat.zero_le _⟩
    · rintro ⟨⟨more, h⟩, -⟩
      obtain ⟨hvalue, hrest⟩ := List.append_eq_nil_iff.mp h.symm
      exact ⟨(List.append_eq_nil_iff.mp hrest).1, hvalue.symm⟩
  | cons c line ih =>
    rw [untilPattern]
    split
    · rename_i hstarts
      obtain ⟨more, hmore⟩ := List.isPrefixOf_iff_prefix.mp hstarts
      rw [Option.some.injEq]
      constructor
      · rintro rfl
        exact ⟨⟨more, hmore.symm⟩, fun _ _ _ => Nat.zero_le _⟩
      · rintro ⟨-, hleast⟩
        exact (List.length_eq_zero_iff.mp (Nat.le_zero.mp (hleast [] more hmore.symm))).symm
    · rename_i hstarts
      have hfirst : ∀ shorter more, c :: line = shorter ++ (pattern ++ more) →
          ∃ tail, shorter = c :: tail ∧ line = tail ++ (pattern ++ more) := by
        intro shorter more h
        cases shorter with
        | nil => exact absurd (List.isPrefixOf_iff_prefix.mpr ⟨more, h.symm⟩) hstarts
        | cons d tail =>
          rw [List.cons_append, List.cons.injEq] at h
          exact ⟨tail, h.1 ▸ rfl, h.2⟩
      rw [Option.map_eq_some_iff]
      constructor
      · rintro ⟨tail, htail, rfl⟩
        obtain ⟨⟨more, hline⟩, hleast⟩ := ih.mp htail
        refine ⟨⟨more, congrArg (c :: ·) hline⟩, fun shorter more' h => ?_⟩
        obtain ⟨shorter, rfl, hline'⟩ := hfirst shorter more' h
        exact Nat.succ_le_succ (hleast shorter more' hline')
      · rintro ⟨⟨more, hline⟩, hleast⟩
        obtain ⟨tail, rfl, htail⟩ := hfirst value more hline
        refine ⟨tail, ih.mpr ⟨⟨more, htail⟩, fun shorter more' h => ?_⟩, rfl⟩
        exact Nat.le_of_succ_le_succ (hleast (c :: shorter) more' (congrArg (c :: ·) h))

/-- The bytes before a pattern are those of the text before it. -/
theorem findPattern_encode {first : Char} {pattern : List Char} (hascii : ∀ c ∈ first :: pattern, IsAscii c)
    (line : List Char) : findPattern (encode (first :: pattern)) (encode line) =
      (untilPattern (first :: pattern) line).map fun value => (encode value).length := by
  induction line with
  | nil =>
    rw [encode_cons, encodeChar_ascii (hascii first List.mem_cons_self)]
    rfl
  | cons c line ih =>
    rw [untilPattern, ← isPrefixOf_encode hascii]
    by_cases hc : IsAscii c
    · have hcons : encode (c :: line) = UInt8.ofNat c.toNat :: encode line := by
        rw [encode_cons, encodeChar_ascii hc, List.singleton_append]
      have hlength : ∀ value, (encode (c :: value)).length = (encode value).length + 1 := by
        intro value
        rw [encode_cons, encodeChar_ascii hc, List.singleton_append, List.length_cons]
      rw [hcons, findPattern, ih, ← hcons]
      split
      · rfl
      · rw [Option.map_map, Option.map_map]
        exact congrArg (Option.map · _) (funext fun value => (hlength value).symm)
    · have hfirst : (UInt8.ofNat first.toNat).toNat < 128 := by
        rw [(ofNat_toNat_eq (hascii first List.mem_cons_self)).mp rfl |>.symm]
        exact hascii first List.mem_cons_self
      have hpattern : encode (first :: pattern) = UInt8.ofNat first.toNat :: encode pattern := by
        rw [encode_cons, encodeChar_ascii (hascii first List.mem_cons_self), List.singleton_append]
      have hno : ¬ (encode (first :: pattern)).isPrefixOf (encode (c :: line)) = true := by
        rw [isPrefixOf_encode hascii, List.isPrefixOf_cons_cons, Bool.and_eq_true, beq_iff_eq]
        rintro ⟨rfl, -⟩
        exact hc (hascii first List.mem_cons_self)
      rw [if_neg hno, hpattern, encode_cons, findPattern_wide hfirst (encodeChar_wide hc), ← hpattern, ih,
        Option.map_map, Option.map_map]
      refine congrArg (Option.map · _) (funext fun value => ?_)
      show (encode value).length + _ = (encode (c :: value)).length
      rw [encode_cons, List.length_append, Nat.add_comm]

/-- The bounds of a quoted value. -/
theorem quotedBounds {first : Char} {pattern : List Char} (hascii : ∀ c ∈ first :: pattern, IsAscii c) (start : ℕ)
    (line : List Char) :
    ((findPattern (encode (first :: pattern)) (encode line)).bind fun offset => nonemptyRange start (offset + start)) =
      ((untilPattern (first :: pattern) line).filter fun value => value ≠ []).map fun value =>
        (start, start + (encode value).length) := by
  rw [findPattern_encode hascii]
  cases untilPattern (first :: pattern) line with
  | none => rfl
  | some value =>
    rw [Option.map_some, Option.bind_some, nonemptyRange, Option.filter_some]
    by_cases hvalue : value = []
    · rw [if_neg (by rw [length_encode_eq_zero.mpr hvalue]; omega), if_neg (by simpa using hvalue)]
      rfl
    · have hpos := Nat.pos_of_ne_zero (mt length_encode_eq_zero.mp hvalue)
      rw [if_pos (by omega), if_pos (by simpa using hvalue), Nat.add_comm]
      rfl

/-- The first character of a kind starts after the bytes of those before it. -/
theorem charIndices_find (stop : Char → Bool) (start : ℕ) (text : List Char) :
    (match (charIndices start text).find? fun e => stop e.2 with
      | some (offset, _) => offset
      | none => start + (encode text).length) = start + (encode (text.takeWhile fun c => !stop c)).length := by
  induction text generalizing start with
  | nil => rfl
  | cons c text ih =>
    rw [charIndices, List.find?_cons, List.takeWhile_cons]
    cases hstop : stop c with
    | true => rfl
    | false =>
      have hlength : ∀ rest, start + (encode (c :: rest)).length = start + c.utf8Size + (encode rest).length := by
        intro rest
        rw [encode_cons, List.length_append, String.length_utf8EncodeChar, Nat.add_assoc]
      rw [hlength]
      exact (ih (start + c.utf8Size)).trans (hlength _).symm

/-- The bounds are those of a value in the text that follows a start, or there is no value. -/
def Locates (before rest : List Char) (bounds : Option (ℕ × ℕ)) : Option (List Char) → Prop
  | none => bounds = none
  | some value => ∃ lead more, rest = lead ++ (value ++ more) ∧
      bounds = some ((encode (before ++ lead)).length, (encode (before ++ lead)).length + (encode value).length)

/-- The text up to a closing pattern. -/
theorem locates_quoted {first : Char} {pattern : List Char} (hascii : ∀ c ∈ first :: pattern, IsAscii c)
    (before lead tail : List Char) :
    Locates before (lead ++ tail)
      ((findPattern (encode (first :: pattern)) (encode tail)).bind fun offset =>
        nonemptyRange (encode (before ++ lead)).length (offset + (encode (before ++ lead)).length))
      ((untilPattern (first :: pattern) tail).filter fun value => value ≠ []) := by
  rw [quotedBounds hascii]
  cases hvalue : (untilPattern (first :: pattern) tail).filter fun value => value ≠ [] with
  | none => rfl
  | some value =>
    obtain ⟨⟨more, rfl⟩, -⟩ := untilPattern_eq_some.mp (Option.filter_eq_some_iff.mp hvalue).1
    exact ⟨lead, first :: pattern ++ more, rfl, rfl⟩

/-- The text up to white space or a quotation mark. -/
theorem locates_bare (stop : Char → Bool) (before rest : List Char) :
    Locates before rest
      (nonemptyRange (encode before).length
        ((encode before).length + (encode (rest.takeWhile fun c => !stop c)).length))
      ((some (rest.takeWhile fun c => !stop c)).filter fun value => value ≠ []) := by
  rw [nonemptyRange, Option.filter_some]
  by_cases hvalue : (rest.takeWhile fun c => !stop c) = []
  · rw [if_neg (by rw [length_encode_eq_zero.mpr hvalue]; omega), if_neg (by simpa using hvalue)]
    rfl
  · have hpos := Nat.pos_of_ne_zero (mt length_encode_eq_zero.mp hvalue)
    rw [if_pos (by omega), if_pos (by simpa using hvalue)]
    refine ⟨[], rest.dropWhile fun c => !stop c, ?_, ?_⟩
    · rw [List.nil_append, List.takeWhile_append_dropWhile]
    · rw [List.append_nil]

theorem length_encode_ascii {text : List Char} (h : ∀ c ∈ text, IsAscii c) : (encode text).length = text.length := by
  induction text with
  | nil => rfl
  | cons c text ih =>
    rw [encode_cons, encodeChar_ascii (h c List.mem_cons_self), List.singleton_append, List.length_cons,
      ih fun c hc => h c (List.mem_cons_of_mem _ hc), List.length_cons]

theorem length_encode_append {before lead : List Char} (h : ∀ c ∈ lead, IsAscii c) :
    (encode before).length + lead.length = (encode (before ++ lead)).length := by
  rw [encode_append, List.length_append, length_encode_ascii h]

theorem escapedQuote_eq : escapedQuote = encode ['\\', '"'] := by
  rw [encode_cons, encode_cons, encodeChar_ascii (by decide), encodeChar_ascii (by decide)]
  rfl

theorem isPrefixOf_escapedQuote (rest : List Char) :
    escapedQuote.isPrefixOf (encode rest) = ['\\', '"'].isPrefixOf rest := by
  rw [escapedQuote_eq, isPrefixOf_encode (isAscii_of_all (by decide))]

/-- A value in quotation marks that are escaped. -/
theorem configDirValueBounds_escaped (before tail : List Char) :
    ∃ bounds, configDirValueBounds (before ++ ('\\' :: '"' :: tail)) (encode before).length = some bounds ∧
      Locates before ('\\' :: '"' :: tail) bounds (configDirValue ('\\' :: '"' :: tail)) := by
  have hstart : (encode before).length + 2 = (encode (before ++ ['\\', '"'])).length :=
    @length_encode_append before ['\\', '"'] (isAscii_of_all (by decide))
  have htail : (encode (before ++ ('\\' :: '"' :: tail))).drop (encode (before ++ ['\\', '"'])).length = encode tail :=
    drop_encode_lead before ['\\', '"'] tail
  have hyes : ['\\', '"'].isPrefixOf ('\\' :: '"' :: tail) = true := rfl
  rw [configDirValueBounds, drop_encode, isPrefixOf_escapedQuote, if_pos hyes]
  refine ⟨_, rfl, ?_⟩
  rw [hstart, htail, escapedQuote_eq]
  exact locates_quoted (isAscii_of_all (by decide)) before ['\\', '"'] tail

/-- A value in quotation marks. -/
theorem configDirValueBounds_quoted {quote : Char} (hquote : quote = '\'' ∨ quote = '"') (before tail : List Char) :
    ∃ bounds, configDirValueBounds (before ++ (quote :: tail)) (encode before).length = some bounds ∧
      Locates before (quote :: tail) bounds (configDirValue (quote :: tail)) := by
  have hascii : ∀ c ∈ [quote], IsAscii c := by
    rcases hquote with rfl | rfl
    all_goals exact isAscii_of_all (by decide)
  have hstart : (encode before).length + 1 = (encode (before ++ [quote])).length :=
    length_encode_append hascii
  have htail : (encode (before ++ (quote :: tail))).drop (encode (before ++ [quote])).length = encode tail :=
    drop_encode_lead before [quote] tail
  have hbyte := @getElem?_encode before (quote :: tail) 0
  rw [Nat.add_zero, encode_cons, encodeChar_ascii (hascii quote (List.mem_singleton_self quote)), List.singleton_append,
    List.getElem?_cons_zero] at hbyte
  have hno : ¬ ['\\', '"'].isPrefixOf (quote :: tail) = true := by
    rcases hquote with rfl | rfl
    all_goals exact Bool.false_ne_true
  have hvalue : configDirValue (quote :: tail) = (untilPattern [quote] tail).filter fun value => value ≠ [] := by
    rcases hquote with rfl | rfl
    all_goals rfl
  rw [configDirValueBounds, drop_encode, isPrefixOf_escapedQuote, if_neg hno, hbyte, hvalue]
  have hfilter : (some (UInt8.ofNat quote.toNat)).filter (fun b => b = 39 ∨ b = 34) = some (UInt8.ofNat quote.toNat) := by
    rcases hquote with rfl | rfl
    all_goals rfl
  rw [hfilter]
  refine ⟨_, rfl, ?_⟩
  rw [hstart, htail, show [UInt8.ofNat quote.toNat] = encode [quote] by
    rw [encode_cons, encodeChar_ascii (hascii quote (List.mem_singleton_self quote))]; rfl]
  exact locates_quoted hascii before [quote] tail

/-- A value without quotation marks. -/
theorem configDirValueBounds_bare {rest : List Char} (hescaped : ∀ tail, rest ≠ '\\' :: '"' :: tail)
    (hquote : ∀ tail, rest ≠ '\'' :: tail) (hdouble : ∀ tail, rest ≠ '"' :: tail) (before : List Char) :
    ∃ bounds, configDirValueBounds (before ++ rest) (encode before).length = some bounds ∧
      Locates before rest bounds (configDirValue rest) := by
  have hno : ¬ ['\\', '"'].isPrefixOf rest = true := by
    intro hstarts
    obtain ⟨tail, htail⟩ := List.isPrefixOf_iff_prefix.mp hstarts
    exact hescaped tail htail.symm
  have hvalue : configDirValue rest =
      (some (rest.takeWhile fun c => !(isWhiteSpace c || c = '\'' || c = '"'))).filter fun value => value ≠ [] := by
    rw [configDirValue]
    · exact hescaped
    · exact hquote
    · exact hdouble
  have hbyte := @getElem?_encode before rest 0
  have hnoQuote : ((encode (before ++ rest))[(encode before).length]?).filter (fun b => b = 39 ∨ b = 34) = none := by
    have hhead := @Agree.head?_any rest _ _ agree_quote
    rw [List.head?_eq_getElem?, ← hbyte, Nat.add_zero] at hhead
    have hrest : rest.head?.any (fun c => c = '\'' ∨ c = '"') = false := by
      cases rest with
      | nil => rfl
      | cons c tail =>
        refine decide_eq_false ?_
        rintro (rfl | rfl)
        · exact hquote tail rfl
        · exact hdouble tail rfl
    rw [hrest] at hhead
    cases hat : (encode (before ++ rest))[(encode before).length]? with
    | none => rfl
    | some b =>
      rw [hat, Option.any_some] at hhead
      rw [Option.filter_some, hhead]
      rfl
  rw [configDirValueBounds, drop_encode, isPrefixOf_escapedQuote, if_neg hno, hnoQuote, splitAtByte_append, hvalue]
  refine ⟨_, rfl, ?_⟩
  have hfind := charIndices_find (fun c => isWhiteSpace c || c = '\'' || c = '"') 0 rest
  have hend : (match (charIndices 0 rest).find? fun e => isWhiteSpace e.2 || e.2 = '\'' || e.2 = '"' with
      | some (offset, _) => (encode before).length + offset
      | none => (encode (before ++ rest)).length) =
      (encode before).length +
        (encode (rest.takeWhile fun c => !(isWhiteSpace c || c = '\'' || c = '"'))).length := by
    simp only [Nat.zero_add] at hfind
    rw [← hfind, encode_append, List.length_append]
    split
    · rfl
    · rfl
  show Locates before rest (nonemptyRange (encode before).length (match (charIndices 0 rest).find? _ with
      | some (offset, _) => (encode before).length + offset
      | none => (encode (before ++ rest)).length)) _
  rw [hend]
  exact locates_bare (fun c => isWhiteSpace c || c = '\'' || c = '"') before rest

/-- The bounds of the value of an assignment are found, and they are those of a text. -/
theorem configDirValueBounds_eq (before rest : List Char) :
    ∃ bounds, configDirValueBounds (before ++ rest) (encode before).length = some bounds ∧
      Locates before rest bounds (configDirValue rest) := by
  by_cases hescaped : ∃ tail, rest = '\\' :: '"' :: tail
  · obtain ⟨tail, rfl⟩ := hescaped
    exact configDirValueBounds_escaped before tail
  by_cases hquote : ∃ tail, rest = '\'' :: tail
  · obtain ⟨tail, rfl⟩ := hquote
    exact configDirValueBounds_quoted (.inl rfl) before tail
  by_cases hdouble : ∃ tail, rest = '"' :: tail
  · obtain ⟨tail, rfl⟩ := hdouble
    exact configDirValueBounds_quoted (.inr rfl) before tail
  exact configDirValueBounds_bare (not_exists.mp hescaped) (not_exists.mp hquote) (not_exists.mp hdouble) before

/-- At the start of a character the bytes are an assignment exactly if the characters are. -/
theorem scanConfigDir_eq : scanConfigDir (before ++ rest) (encode before).length ids =
    some ((configDirsAt before.getLast? rest).foldl pushUnique ids) := by
  rw [scanConfigDir, drop_encode, byteBefore_encode, agree_isAlphanum.getLast?_any, configPrefixBytes,
    isPrefixOf_encode configPrefix_ascii, configDirsAt]
  split
  · rename_i hat
    obtain ⟨after, hafter⟩ := List.isPrefixOf_iff_prefix.mp (Bool.and_eq_true_iff.mp hat).1
    subst hafter
    obtain ⟨bounds, hbounds, hlocates⟩ := configDirValueBounds_eq (before ++ configPrefix) after
    rw [List.append_assoc, encode_append, List.length_append] at hbounds
    rw [hbounds, Option.bind_some, List.drop_left]
    cases hvalue : configDirValue after with
    | none =>
      rw [hvalue] at hlocates
      obtain rfl := hlocates
      rfl
    | some value =>
      rw [hvalue] at hlocates
      obtain ⟨lead, more, rfl, rfl⟩ := hlocates
      have hslice := @slice_append ((before ++ configPrefix) ++ lead) value more
      rw [List.append_assoc _ lead, List.append_assoc before] at hslice
      show (slice _ _ _).map _ = _
      rw [hslice]
      rfl
  · rfl

/-! ### The whole line -/

/-- Nothing that stands in a line starts with a character that is not ASCII. -/
theorem idsAt_wide {c : Char} (hc : ¬ IsAscii c) (before : Option Char) (rest : List Char) :
    idsAt before (c :: rest) = [] := by
  have hfirst : configPrefix = 'C' :: configPrefix.tail := by rw [configPrefix_eq, List.tail_cons]
  have hne : ('C' == c) = false := by
    refine beq_eq_false_iff_ne.mpr ?_
    rintro rfl
    exact hc (by decide)
  rw [idsAt, uuidsAt, uuidAt_eq, show uuidLength = 35 + 1 from rfl, fits_cons, (agree_uuid 0).wideChar c hc,
    configDirsAt, hfirst, List.isPrefixOf_cons_cons, hne]
  rfl

/-- The scan goes through the bytes of a character that is not ASCII. -/
theorem scanLoop_wide {line : List Char} {index : ℕ} {wide bytes : List UInt8} (hwide : ∀ b ∈ wide, 128 ≤ b.toNat)
    (h : (encode line).drop index = wide ++ bytes) :
    scanLoop line index ids = scanLoop line (index + wide.length) ids := by
  induction wide generalizing index with
  | nil => rfl
  | cons b wide ih =>
    have hb := hwide b List.mem_cons_self
    have hindex : index < (encode line).length := by
      by_contra hend
      rw [List.drop_eq_nil_of_le (Nat.not_lt.mp hend)] at h
      exact List.cons_ne_nil _ _ h.symm
    have hnext : (encode line).drop (index + 1) = wide ++ bytes := by
      rw [← List.drop_drop, h]
      rfl
    rw [scanLoop, if_pos hindex, scanUuid_inside h hb, Option.bind_some, scanConfigDir_inside h hb, Option.bind_some,
      ih (fun b hb => hwide b (List.mem_cons_of_mem _ hb)) hnext, List.length_cons, Nat.add_assoc, Nat.add_comm 1]

/-- The scan by bytes finds what the scan by characters finds, and no cut of it goes through a character. -/
theorem scanLoop_eq (before rest : List Char) (ids : FoundIds) :
    scanLoop (before ++ rest) (encode before).length ids =
      some ((scanFrom before.getLast? rest).foldl pushUnique ids) := by
  induction rest generalizing before ids with
  | nil =>
    rw [scanLoop, List.append_nil, if_neg (Nat.lt_irrefl _)]
    rfl
  | cons c rest ih =>
    have hnext := ih (before ++ [c])
    rw [List.append_assoc, List.singleton_append, List.getLast?_concat, encode_append, List.length_append] at hnext
    rw [scanFrom_cons]
    by_cases hc : IsAscii c
    · have hindex : (encode before).length < (encode (before ++ c :: rest)).length := by
        rw [encode_append, List.length_append, encode_cons, encodeChar_ascii hc, List.singleton_append, List.length_cons]
        omega
      have hone : (encode [c]).length = 1 := by
        rw [encode_cons, encodeChar_ascii hc]
        rfl
      rw [hone] at hnext
      rw [scanLoop, if_pos hindex, scanUuid_eq, Option.bind_some, scanConfigDir_eq, Option.bind_some, hnext, idsAt,
        List.foldl_append, List.foldl_append]
    · have hdrop : (encode (before ++ c :: rest)).drop (encode before).length =
          String.utf8EncodeChar c ++ encode rest := by
        rw [drop_encode, encode_cons]
      rw [show encode [c] = String.utf8EncodeChar c from List.flatMap_singleton ..] at hnext
      rw [scanLoop_wide (encodeChar_wide hc) hdrop, hnext, idsAt_wide hc, List.nil_append]

/-- Adding identifiers one by one keeps the first of each. -/
theorem foldl_pushUnique (l : List EvidenceId) (ids : FoundIds) :
    (l.foldl pushUnique ids).found = ids.found ++ Shortlist.keepFirst id ids.seen l := by
  induction l generalizing ids with
  | nil => exact (List.append_nil _).symm
  | cons evidence l ih =>
    rw [List.foldl_cons, ih, pushUnique, Shortlist.keepFirst]
    by_cases hseen : evidence ∈ ids.seen
    · rw [if_pos hseen]
      exact congrArg _ (if_pos hseen).symm
    · rw [if_neg hseen, List.append_assoc]
      exact congrArg _ (if_neg hseen).symm

theorem scanRawIdBytes_eq (line : String) : scanRawIdBytes line = some (scanRawIds line) := by
  have hloop := scanLoop_eq [] line.toList ⟨[], []⟩
  rw [scanRawIdBytes, show (0 : ℕ) = (encode []).length from rfl, ← List.nil_append line.toList, hloop, Option.map_some,
    foldl_pushUnique, List.nil_append]
  rfl

/-! ### What stands in a line -/

/-- The text is a token of the shape of a UUID, in lower case. -/
def IsUuid (value : List Char) : Prop :=
  ∃ a b c d e : List Char, value = a ++ '-' :: (b ++ '-' :: (c ++ '-' :: (d ++ '-' :: e))) ∧
    (a.length = 8 ∧ b.length = 4 ∧ c.length = 4 ∧ d.length = 4 ∧ e.length = 12) ∧
    ∀ group ∈ [a, b, c, d, e], group.all isLowerHex

/-- The character ends a value without quotation marks. -/
def endsBareValue (c : Char) : Bool := isWhiteSpace c || c = '\'' || c = '"'

/-- The forms in which a value is assigned by the text that follows the name of the variable. -/
inductive Assigns : List Char → List Char → Prop
  /-- In quotation marks that are escaped, as inside a string. -/
  | escaped (value more : List Char) : value ≠ [] → ¬ ['\\', '"'] <:+: value →
      Assigns ('\\' :: '"' :: (value ++ '\\' :: '"' :: more)) value
  /-- In quotation marks. -/
  | quoted (quote : Char) (value more : List Char) : quote = '\'' ∨ quote = '"' → value ≠ [] → quote ∉ value →
      Assigns (quote :: (value ++ quote :: more)) value
  /-- Up to white space or a quotation mark or the end. -/
  | bare (value more : List Char) : value ≠ [] → (∀ c ∈ value, endsBareValue c = false) →
      (∀ c ∈ more.head?, endsBareValue c = true) → ¬ ['\\', '"'] <+: value ++ more → Assigns (value ++ more) value

/-- The identifier stands between two parts of a line. -/
inductive Occurs (before rest : List Char) : EvidenceId → Prop
  /-- A UUID that no other hexadecimal digit adjoins. -/
  | uuid (value after : List Char) : rest = value ++ after → IsUuid value → (∀ c ∈ before.getLast?, isHexDigit c = false) →
      (∀ c ∈ after.head?, isHexDigit c = false) → Occurs before rest (.uuid (String.ofList value))
  /-- The value of an assignment to the variable, whose name does not go on to the left. -/
  | configDir (after value : List Char) : rest = configPrefix ++ after →
      (∀ c ∈ before.getLast?, (c.isAlphanum || c = '_') = false) → Assigns after value →
      Occurs before rest (.configDir (.ofText value))

/-- The identifier stands at a place of a line. -/
def OccursAt (line : List Char) (place : ℕ) (id : EvidenceId) : Prop :=
  ∃ before rest, line = before ++ rest ∧ before.length = place ∧ Occurs before rest id

/-- The identifier stands at a place of a line and at no place before. -/
def OccursFirstAt (line : List Char) (place : ℕ) (id : EvidenceId) : Prop :=
  OccursAt line place id ∧ ∀ earlier, OccursAt line earlier id → place ≤ earlier

theorem any_eq_false_iff {α : Type} {p : α → Bool} {o : Option α} : o.any p = false ↔ ∀ a ∈ o, p a = false := by
  cases o <;> simp

/-- The places of a UUID are a digit each, but for those between its groups. -/
def uuidPlace (offset : ℕ) (c : Char) : Bool := if offset ∈ uuidHyphens then c = '-' else isLowerHex c

theorem uuidPlace_digit {offset : ℕ} (h : offset ∉ uuidHyphens) : uuidPlace offset = isLowerHex := by
  funext c
  exact if_neg h

theorem uuidPlace_hyphen {offset : ℕ} (h : offset ∈ uuidHyphens) : uuidPlace offset = fun c => decide (c = '-') := by
  funext c
  exact if_pos h

/-- A group of digits of a UUID and what follows it. -/
theorem uuid_group {start size more : ℕ} (h : ∀ i < size, start + i ∉ uuidHyphens) {text : List Char} :
    fits (fun i => uuidPlace (start + i)) (size + more) text = true ↔
      ∃ group after, text = group ++ after ∧ group.length = size ∧ group.all isLowerHex = true ∧
        fits (fun i => uuidPlace (start + size + i)) more after = true := by
  simp only [Nat.add_assoc start size]
  exact fits_add_iff fun i hi => uuidPlace_digit (h i hi)

/-- The hyphen after a group. -/
theorem uuid_hyphen {start more : ℕ} (h : start ∈ uuidHyphens) {text : List Char} :
    fits (fun i => uuidPlace (start + i)) (more + 1) text = true ↔
      ∃ after, text = '-' :: after ∧ fits (fun i => uuidPlace (start + 1 + i)) more after = true := by
  cases text with
  | nil => simp [fits_nil]
  | cons c text =>
    rw [fits_cons, Bool.and_eq_true, Nat.add_zero, uuidPlace_hyphen h, decide_eq_true_iff]
    simp only [Nat.add_assoc, Nat.add_comm 1]
    constructor
    · rintro ⟨rfl, htext⟩
      exact ⟨text, rfl, htext⟩
    · rintro ⟨after, hcons, hafter⟩
      obtain ⟨rfl, rfl⟩ := List.cons.inj hcons
      exact ⟨rfl, hafter⟩

/-- The line starts with a UUID. -/
theorem uuidAt_iff {rest : List Char} : uuidAt rest = true ↔ ∃ value after, rest = value ++ after ∧ IsUuid value := by
  have hstart : uuidAt rest = fits (fun i => uuidPlace (0 + i)) 36 rest := by
    simp only [Nat.zero_add]
    rfl
  rw [hstart]
  constructor
  · intro h
    obtain ⟨a, rest, rfl, ha, haDigits, h₁⟩ := (@uuid_group 0 8 28 (by decide) _).mp h
    obtain ⟨rest, rfl, h₂⟩ := (@uuid_hyphen 8 27 (by decide) _).mp h₁
    obtain ⟨b, rest, rfl, hb, hbDigits, h₃⟩ := (@uuid_group 9 4 23 (by decide) _).mp h₂
    obtain ⟨rest, rfl, h₄⟩ := (@uuid_hyphen 13 22 (by decide) _).mp h₃
    obtain ⟨c, rest, rfl, hc, hcDigits, h₅⟩ := (@uuid_group 14 4 18 (by decide) _).mp h₄
    obtain ⟨rest, rfl, h₆⟩ := (@uuid_hyphen 18 17 (by decide) _).mp h₅
    obtain ⟨d, rest, rfl, hd, hdDigits, h₇⟩ := (@uuid_group 19 4 13 (by decide) _).mp h₆
    obtain ⟨rest, rfl, h₈⟩ := (@uuid_hyphen 23 12 (by decide) _).mp h₇
    obtain ⟨e, after, rfl, he, heDigits, -⟩ := (@uuid_group 24 12 0 (by decide) _).mp h₈
    refine ⟨a ++ '-' :: (b ++ '-' :: (c ++ '-' :: (d ++ '-' :: e))), after, ?_, a, b, c, d, e, rfl,
      ⟨ha, hb, hc, hd, he⟩, ?_⟩
    · simp only [List.append_assoc, List.cons_append]
    · simp only [List.forall_mem_cons]
      exact ⟨haDigits, hbDigits, hcDigits, hdDigits, heDigits, fun _ h => absurd h List.not_mem_nil⟩
  · rintro ⟨_, after, rfl, a, b, c, d, e, rfl, ⟨ha, hb, hc, hd, he⟩, hdigits⟩
    simp only [List.forall_mem_cons] at hdigits
    obtain ⟨haDigits, hbDigits, hcDigits, hdDigits, heDigits, -⟩ := hdigits
    simp only [List.append_assoc, List.cons_append]
    refine (@uuid_group 0 8 28 (by decide) _).mpr ⟨a, _, rfl, ha, haDigits, ?_⟩
    refine (@uuid_hyphen 8 27 (by decide) _).mpr ⟨_, rfl, ?_⟩
    refine (@uuid_group 9 4 23 (by decide) _).mpr ⟨b, _, rfl, hb, hbDigits, ?_⟩
    refine (@uuid_hyphen 13 22 (by decide) _).mpr ⟨_, rfl, ?_⟩
    refine (@uuid_group 14 4 18 (by decide) _).mpr ⟨c, _, rfl, hc, hcDigits, ?_⟩
    refine (@uuid_hyphen 18 17 (by decide) _).mpr ⟨_, rfl, ?_⟩
    refine (@uuid_group 19 4 13 (by decide) _).mpr ⟨d, _, rfl, hd, hdDigits, ?_⟩
    refine (@uuid_hyphen 23 12 (by decide) _).mpr ⟨_, rfl, ?_⟩
    exact (@uuid_group 24 12 0 (by decide) _).mpr ⟨e, after, rfl, he, heDigits, rfl⟩

theorem IsUuid.length {value : List Char} (h : IsUuid value) : value.length = uuidLength := by
  obtain ⟨a, b, c, d, e, rfl, ⟨ha, hb, hc, hd, he⟩, -⟩ := h
  simp only [List.length_append, List.length_cons, ha, hb, hc, hd, he]
  rfl

theorem mem_uuidsAt {before rest : List Char} {id : EvidenceId} :
    id ∈ uuidsAt before.getLast? rest ↔ ∃ value after, rest = value ++ after ∧ IsUuid value ∧
      (∀ c ∈ before.getLast?, isHexDigit c = false) ∧ (∀ c ∈ after.head?, isHexDigit c = false) ∧
      id = .uuid (String.ofList value) := by
  rw [uuidsAt, List.mem_ite_nil_right, List.mem_singleton, Bool.and_eq_true, Bool.and_eq_true, Bool.not_eq_true',
    Bool.not_eq_true', any_eq_false_iff, any_eq_false_iff, uuidAt_iff]
  have hparts : ∀ {value after : List Char}, IsUuid value → (value ++ after)[uuidLength]? = after.head? ∧
      (value ++ after).take uuidLength = value := by
    intro value after h
    rw [← h.length, List.getElem?_append_right (Nat.le_refl _), Nat.sub_self, ← List.head?_eq_getElem?,
      List.take_left]
    exact ⟨rfl, rfl⟩
  constructor
  · rintro ⟨⟨⟨⟨value, after, rfl, huuid⟩, hbefore⟩, hafter⟩, rfl⟩
    rw [(hparts huuid).1] at hafter
    rw [(hparts huuid).2]
    exact ⟨value, after, rfl, huuid, hbefore, hafter, rfl⟩
  · rintro ⟨value, after, rfl, huuid, hbefore, hafter, rfl⟩
    rw [(hparts huuid).1, (hparts huuid).2]
    exact ⟨⟨⟨⟨value, after, rfl, huuid⟩, hbefore⟩, hafter⟩, rfl⟩

/-- Up to the first escaped quotation mark: its backslash cannot be the mark of an earlier one. -/
theorem untilPattern_escaped {tail value : List Char} :
    untilPattern ['\\', '"'] tail = some value ↔
      (∃ more, tail = value ++ '\\' :: '"' :: more) ∧ ¬ ['\\', '"'] <:+: value := by
  rw [untilPattern_eq_some]
  refine and_congr_right ?_
  rintro ⟨more, rfl⟩
  constructor
  · rintro hleast ⟨shorter, after, rfl⟩
    have hle := hleast shorter (after ++ (['\\', '"'] ++ more)) (by simp only [List.append_assoc])
    simp only [List.length_append, List.length_cons, List.length_nil] at hle
    omega
  · intro hinfix shorter more' h
    by_contra hlt
    rcases List.append_eq_append_iff.mp h with ⟨between, rfl, -⟩ | ⟨between, rfl, hbetween⟩
    · rw [List.length_append] at hlt
      omega
    · rcases between with _ | ⟨first, _ | ⟨second, between⟩⟩
      · rw [List.append_nil] at hlt
        exact hlt (Nat.le_refl _)
      · exact absurd (List.cons.inj (List.cons.inj hbetween).2).1 (by decide)
      · obtain ⟨rfl, hsecond⟩ := List.cons.inj hbetween
        obtain ⟨rfl, -⟩ := List.cons.inj hsecond
        exact hinfix ⟨shorter, between, by simp only [List.append_assoc, List.cons_append, List.nil_append]⟩

/-- Up to the first quotation mark. -/
theorem untilPattern_quoted {quote : Char} {tail value : List Char} :
    untilPattern [quote] tail = some value ↔ (∃ more, tail = value ++ quote :: more) ∧ quote ∉ value := by
  rw [untilPattern_eq_some]
  refine and_congr_right ?_
  rintro ⟨more, rfl⟩
  constructor
  · intro hleast hmem
    obtain ⟨shorter, after, rfl⟩ := List.append_of_mem hmem
    have hle := hleast shorter (after ++ quote :: more) (by simp only [List.append_assoc, List.cons_append, List.nil_append])
    rw [List.length_append, List.length_cons] at hle
    omega
  · intro hmem shorter more' h
    by_contra hlt
    rcases List.append_eq_append_iff.mp h with ⟨between, rfl, -⟩ | ⟨between, rfl, hbetween⟩
    · rw [List.length_append] at hlt
      omega
    · cases between with
      | nil =>
        rw [List.append_nil] at hlt
        exact hlt (Nat.le_refl _)
      | cons first between =>
        obtain ⟨rfl, -⟩ := List.cons.inj hbetween
        exact hmem (List.mem_append_right _ List.mem_cons_self)

/-- Up to the first character that ends a bare value. -/
theorem takeWhile_bare {rest value : List Char} :
    (rest.takeWhile fun c => !endsBareValue c) = value ↔ ∃ more, rest = value ++ more ∧
      (∀ c ∈ value, endsBareValue c = false) ∧ ∀ c ∈ more.head?, endsBareValue c = true := by
  constructor
  · rintro rfl
    refine ⟨rest.dropWhile fun c => !endsBareValue c, List.takeWhile_append_dropWhile.symm, fun c hc => ?_,
      fun c hc => ?_⟩
    · simpa using List.all_eq_true.mp List.all_takeWhile c hc
    · have hhead := List.head?_dropWhile_not (fun c => !endsBareValue c) rest
      rw [Option.mem_def] at hc
      rw [hc] at hhead
      simpa using hhead
  · rintro ⟨more, rfl, hvalue, hmore⟩
    rw [List.takeWhile_append_of_pos fun c hc => by rw [hvalue c hc]; rfl]
    cases more with
    | nil => rw [List.takeWhile_nil, List.append_nil]
    | cons c more => rw [List.takeWhile_cons_of_neg (by rw [hmore c rfl]; exact Bool.false_ne_true), List.append_nil]

theorem assigns_iff {rest value : List Char} : Assigns rest value ↔ value ≠ [] ∧
    ((∃ more, rest = '\\' :: '"' :: (value ++ '\\' :: '"' :: more) ∧ ¬ ['\\', '"'] <:+: value) ∨
      (∃ quote more, (quote = '\'' ∨ quote = '"') ∧ rest = quote :: (value ++ quote :: more) ∧ quote ∉ value) ∨
      ∃ more, rest = value ++ more ∧ ¬ ['\\', '"'] <+: rest ∧ (∀ c ∈ value, endsBareValue c = false) ∧
        ∀ c ∈ more.head?, endsBareValue c = true) := by
  constructor
  · intro h
    cases h with
    | escaped _ more hvalue hinfix => exact ⟨hvalue, .inl ⟨more, rfl, hinfix⟩⟩
    | quoted quote _ more hquote hvalue hmem => exact ⟨hvalue, .inr (.inl ⟨quote, more, hquote, rfl, hmem⟩)⟩
    | bare _ more hvalue hclear hmore hstarts => exact ⟨hvalue, .inr (.inr ⟨more, rfl, hstarts, hclear, hmore⟩)⟩
  · rintro ⟨hvalue, ⟨more, rfl, hinfix⟩ | ⟨quote, more, hquote, rfl, hmem⟩ | ⟨more, rfl, hstarts, hclear, hmore⟩⟩
    · exact .escaped value more hvalue hinfix
    · exact .quoted quote value more hquote hvalue hmem
    · exact .bare value more hvalue hclear hmore hstarts

/-- The value found is the one that is assigned. -/
theorem configDirValue_eq_some {rest value : List Char} : configDirValue rest = some value ↔ Assigns rest value := by
  rw [assigns_iff]
  by_cases hescaped : ∃ tail, rest = '\\' :: '"' :: tail
  · obtain ⟨tail, rfl⟩ := hescaped
    have hvalue : configDirValue ('\\' :: '"' :: tail) =
        (untilPattern ['\\', '"'] tail).filter fun value => value ≠ [] := rfl
    rw [hvalue, Option.filter_eq_some_iff, untilPattern_escaped, decide_eq_true_iff, and_comm]
    refine and_congr_right fun _ => ⟨?_, ?_⟩
    · rintro ⟨⟨more, rfl⟩, hinfix⟩
      exact .inl ⟨more, rfl, hinfix⟩
    · rintro (⟨more, heq, hinfix⟩ | ⟨quote, more, rfl | rfl, heq, -⟩ | ⟨more, -, hstarts, -⟩)
      · exact ⟨⟨more, (List.cons.inj (List.cons.inj heq).2).2⟩, hinfix⟩
      · exact absurd (List.cons.inj heq).1 (by decide)
      · exact absurd (List.cons.inj heq).1 (by decide)
      · exact absurd ⟨tail, rfl⟩ hstarts
  by_cases hquoted : ∃ quote tail, (quote = '\'' ∨ quote = '"') ∧ rest = quote :: tail
  · obtain ⟨quote, tail, hquote, rfl⟩ := hquoted
    have hvalue : configDirValue (quote :: tail) = (untilPattern [quote] tail).filter fun value => value ≠ [] := by
      rcases hquote with rfl | rfl
      all_goals rfl
    have hends : endsBareValue quote = true := by
      rcases hquote with rfl | rfl
      all_goals decide
    rw [hvalue, Option.filter_eq_some_iff, untilPattern_quoted, decide_eq_true_iff, and_comm]
    refine and_congr_right fun hne => ⟨?_, ?_⟩
    · rintro ⟨⟨more, rfl⟩, hmem⟩
      exact .inr (.inl ⟨quote, more, hquote, rfl, hmem⟩)
    · rintro (⟨more, heq, -⟩ | ⟨_, more, -, heq, hmem⟩ | ⟨more, heq, -, hclear, -⟩)
      · exact absurd ⟨_, heq⟩ hescaped
      · obtain ⟨rfl, heq⟩ := List.cons.inj heq
        exact ⟨⟨more, heq⟩, hmem⟩
      · obtain ⟨c, value, rfl⟩ := List.exists_cons_of_ne_nil hne
        obtain ⟨rfl, -⟩ := List.cons.inj heq
        exact absurd (hclear quote List.mem_cons_self) (by rw [hends]; exact Bool.true_eq_false.mp)
  have hvalue : configDirValue rest = (some (rest.takeWhile fun c => !endsBareValue c)).filter fun value => value ≠ [] := by
    rw [configDirValue]
    · rfl
    · exact not_exists.mp hescaped
    · exact fun tail h => hquoted ⟨'\'', tail, .inl rfl, h⟩
    · exact fun tail h => hquoted ⟨'"', tail, .inr rfl, h⟩
  rw [hvalue, Option.filter_eq_some_iff, Option.some.injEq, takeWhile_bare, decide_eq_true_iff, and_comm]
  refine and_congr_right fun _ => ⟨?_, ?_⟩
  · rintro ⟨more, rfl, hclear, hmore⟩
    refine .inr (.inr ⟨more, rfl, ?_, hclear, hmore⟩)
    rintro ⟨tail, htail⟩
    exact hescaped ⟨tail, htail.symm⟩
  · rintro (⟨more, heq, -⟩ | ⟨quote, more, hquote, heq, -⟩ | ⟨more, heq, -, hclear, hmore⟩)
    · exact absurd ⟨_, heq⟩ hescaped
    · exact absurd ⟨quote, _, hquote, heq⟩ hquoted
    · exact ⟨more, heq, hclear, hmore⟩

theorem mem_configDirsAt {before rest : List Char} {id : EvidenceId} :
    id ∈ configDirsAt before.getLast? rest ↔ ∃ after value, rest = configPrefix ++ after ∧
      (∀ c ∈ before.getLast?, (c.isAlphanum || c = '_') = false) ∧ Assigns after value ∧
      id = .configDir (.ofText value) := by
  rw [configDirsAt, List.mem_ite_nil_right, Bool.and_eq_true, Bool.not_eq_true', any_eq_false_iff, Option.mem_toList,
    Option.map_eq_some_iff]
  simp only [configDirValue_eq_some]
  constructor
  · rintro ⟨⟨hstarts, hbefore⟩, value, hvalue, rfl⟩
    obtain ⟨after, rfl⟩ := List.isPrefixOf_iff_prefix.mp hstarts
    rw [List.drop_left] at hvalue
    exact ⟨after, value, rfl, hbefore, hvalue, rfl⟩
  · rintro ⟨after, value, rfl, hbefore, hvalue, rfl⟩
    rw [List.drop_left]
    exact ⟨⟨List.isPrefixOf_iff_prefix.mpr ⟨after, rfl⟩, hbefore⟩, value, hvalue, rfl⟩

/-- What is found at a place is what occurs there. -/
theorem mem_idsAt {before rest : List Char} {id : EvidenceId} : id ∈ idsAt before.getLast? rest ↔ Occurs before rest id := by
  rw [idsAt, List.mem_append, mem_uuidsAt, mem_configDirsAt]
  constructor
  · rintro (⟨value, after, hrest, huuid, hbefore, hafter, rfl⟩ | ⟨after, value, hrest, hbefore, hassigns, rfl⟩)
    · exact .uuid value after hrest huuid hbefore hafter
    · exact .configDir after value hrest hbefore hassigns
  · intro h
    cases h with
    | uuid value after hrest huuid hbefore hafter => exact .inl ⟨value, after, hrest, huuid, hbefore, hafter, rfl⟩
    | configDir after value hrest hbefore hassigns => exact .inr ⟨after, value, hrest, hbefore, hassigns, rfl⟩

/-! ### Places in order -/

theorem idsAt_nil (before : Option Char) : idsAt before [] = [] := rfl

/-- At one place there is at most one identifier, as a UUID and the name of the variable start differently. -/
theorem idsAt_cases (before : Option Char) (rest : List Char) :
    idsAt before rest = [] ∨ ∃ id, idsAt before rest = [id] := by
  rw [idsAt]
  by_cases huuid : uuidAt rest = true
  · have hnone : configDirsAt before rest = [] := by
      have hno : ¬ configPrefix.isPrefixOf rest = true := by
        intro hstarts
        obtain ⟨after, rfl⟩ := List.isPrefixOf_iff_prefix.mp hstarts
        rw [uuidAt_eq, show uuidLength = 35 + 1 from rfl,
          show configPrefix = 'C' :: configPrefix.tail by rw [configPrefix_eq, List.tail_cons], List.cons_append, fits_cons,
          Bool.and_eq_true] at huuid
        exact absurd huuid.1 (by decide)
      rw [configDirsAt, Bool.eq_false_iff.mpr hno, Bool.false_and]
      rfl
    rw [hnone, List.append_nil, uuidsAt]
    split
    · exact .inr ⟨_, rfl⟩
    · exact .inl rfl
  · rw [uuidsAt, Bool.eq_false_iff.mpr huuid, Bool.false_and, Bool.false_and, if_neg Bool.false_ne_true, List.nil_append,
      configDirsAt]
    split
    · cases configDirValue (rest.drop configPrefix.length) with
      | none => exact .inl rfl
      | some value => exact .inr ⟨_, rfl⟩
    · exact .inl rfl

theorem occursAt_length {before rest : List Char} {evidence : EvidenceId} :
    OccursAt (before ++ rest) before.length evidence ↔ Occurs before rest evidence := by
  constructor
  · rintro ⟨before', rest', hline, hlength, hoccurs⟩
    obtain ⟨rfl, rfl⟩ := List.append_inj hline hlength.symm
    exact hoccurs
  · intro h
    exact ⟨before, rest, rfl, rfl, h⟩

theorem mem_scanFrom {before rest : List Char} {evidence : EvidenceId} :
    evidence ∈ scanFrom before.getLast? rest ↔
      ∃ skipped after, rest = skipped ++ after ∧ Occurs (before ++ skipped) after evidence := by
  induction rest generalizing before with
  | nil =>
    refine iff_of_false List.not_mem_nil ?_
    rintro ⟨skipped, after, h, hoccurs⟩
    rw [(List.append_eq_nil_iff.mp h.symm).2, ← mem_idsAt, idsAt_nil] at hoccurs
    exact absurd hoccurs List.not_mem_nil
  | cons c rest ih =>
    have hnext := @ih (before ++ [c])
    rw [List.getLast?_concat] at hnext
    rw [scanFrom_cons, List.mem_append, hnext, mem_idsAt]
    constructor
    · rintro (hhere | ⟨skipped, after, rfl, hoccurs⟩)
      · exact ⟨[], c :: rest, rfl, by rwa [List.append_nil]⟩
      · exact ⟨c :: skipped, after, rfl, by rwa [List.append_cons]⟩
    · rintro ⟨skipped, after, h, hoccurs⟩
      cases skipped with
      | nil =>
        rw [List.append_nil] at hoccurs
        rw [List.nil_append] at h
        exact .inl (h ▸ hoccurs)
      | cons d skipped =>
        obtain ⟨rfl, rfl⟩ := List.cons.inj h
        exact .inr ⟨skipped, after, rfl, by rwa [← List.append_cons]⟩

/-- The places where the identifiers that are kept occur first, from one place of the line on. -/
theorem scanFrom_ordered {line before rest : List Char} {seen : List EvidenceId} (hline : line = before ++ rest)
    (hseen : ∀ evidence, evidence ∈ seen ↔ ∃ place < before.length, OccursAt line place evidence) :
    ∃ places : List ℕ, (∀ place ∈ places, before.length ≤ place) ∧ places.Pairwise (· < ·) ∧
      List.Forall₂ (OccursFirstAt line) places (Shortlist.keepFirst id seen (scanFrom before.getLast? rest)) := by
  induction rest generalizing before seen with
  | nil => exact ⟨[], fun _ h => absurd h List.not_mem_nil, .nil, .nil⟩
  | cons c rest ih =>
    have hhere : ∀ evidence, OccursAt line before.length evidence ↔ evidence ∈ idsAt before.getLast? (c :: rest) := by
      intro evidence
      rw [hline, occursAt_length, mem_idsAt]
    have hnext : ∀ seen', (∀ evidence, evidence ∈ seen' ↔ evidence ∈ seen ∨ evidence ∈ idsAt before.getLast? (c :: rest)) →
        ∃ places : List ℕ, (∀ place ∈ places, before.length + 1 ≤ place) ∧ places.Pairwise (· < ·) ∧
          List.Forall₂ (OccursFirstAt line) places (Shortlist.keepFirst id seen' (scanFrom (some c) rest)) := by
      intro seen' hseen'
      have hrest := @ih (before ++ [c]) seen' (by rw [hline, List.append_cons])
      rw [List.length_append, List.length_singleton, List.getLast?_concat] at hrest
      refine hrest fun evidence => ?_
      rw [hseen', hseen, ← hhere]
      constructor
      · rintro (⟨place, hplace, hoccurs⟩ | hoccurs)
        · exact ⟨place, Nat.lt_succ_of_lt hplace, hoccurs⟩
        · exact ⟨before.length, Nat.lt_succ_self _, hoccurs⟩
      · rintro ⟨place, hplace, hoccurs⟩
        rcases Nat.lt_or_eq_of_le (Nat.le_of_lt_succ hplace) with hlt | rfl
        · exact .inl ⟨place, hlt, hoccurs⟩
        · exact .inr hoccurs
    rw [scanFrom_cons]
    rcases idsAt_cases before.getLast? (c :: rest) with hnone | ⟨evidence, hone⟩
    · obtain ⟨places, hplaces, hordered, hfirst⟩ := hnext seen fun evidence => by
        rw [hnone]
        exact (or_iff_left List.not_mem_nil).symm
      rw [hnone, List.nil_append]
      exact ⟨places, fun place h => Nat.le_of_succ_le (hplaces place h), hordered, hfirst⟩
    · rw [hone, List.singleton_append]
      by_cases hmem : evidence ∈ seen
      · obtain ⟨places, hplaces, hordered, hfirst⟩ := hnext seen fun evidence' => by
          rw [hone, List.mem_singleton]
          exact ⟨.inl, fun h => h.elim (fun h => h) fun h => h ▸ hmem⟩
        have hkeep : Shortlist.keepFirst id seen (evidence :: scanFrom (some c) rest) = _ := if_pos hmem
        rw [hkeep]
        exact ⟨places, fun place h => Nat.le_of_succ_le (hplaces place h), hordered, hfirst⟩
      · obtain ⟨places, hplaces, hordered, hfirst⟩ := hnext (evidence :: seen) fun evidence' => by
          rw [hone, List.mem_singleton, List.mem_cons, or_comm]
        have hkeep : Shortlist.keepFirst id seen (evidence :: scanFrom (some c) rest) = _ := if_neg hmem
        rw [hkeep]
        refine ⟨before.length :: places, ?_, List.pairwise_cons.mpr ⟨hplaces, hordered⟩, .cons ⟨?_, ?_⟩ hfirst⟩
        · intro place h
          rcases List.mem_cons.mp h with rfl | h
          · exact Nat.le_refl _
          · exact Nat.le_of_succ_le (hplaces place h)
        · rw [hhere, hone]
          exact List.mem_singleton_self evidence
        · intro earlier hearlier
          by_contra hlt
          exact hmem ((hseen evidence).mpr ⟨earlier, Nat.not_le.mp hlt, hearlier⟩)

theorem mem_scanRawIds {line : String} {evidence : EvidenceId} :
    evidence ∈ scanRawIds line ↔ evidence ∈ scanFrom none line.toList := by
  constructor
  · exact fun h => Shortlist.keepFirst_sublist.subset h
  · intro h
    have hkept := @Shortlist.keepFirst_identity _ _ _ id [] (scanFrom none line.toList) evidence (by rwa [List.map_id])
      List.not_mem_nil
    rwa [List.map_id] at hkept

/-- The scan of the bytes of a line comes to its end without a cut through a character; the identifiers that it finds
are each found once, they are those that occur somewhere in the line, and they are in the order of the places where
they occur first. -/
theorem scanRawIds_exact (line : String) : ∃ ids, scanRawIdBytes line = some ids ∧ ids.Nodup ∧
    (∀ evidence, evidence ∈ ids ↔ ∃ place, OccursAt line.toList place evidence) ∧
    ∃ places : List ℕ, places.Pairwise (· < ·) ∧ List.Forall₂ (OccursFirstAt line.toList) places ids := by
  refine ⟨scanRawIds line, scanRawIdBytes_eq line, ?_, fun evidence => ?_, ?_⟩
  · have hnodup := @Shortlist.keepFirst_nodup _ _ _ id [] (scanFrom none line.toList)
    rwa [List.map_id] at hnodup
  · rw [mem_scanRawIds, show (none : Option Char) = [].getLast? from rfl, mem_scanFrom]
    constructor
    · rintro ⟨skipped, after, hline, hoccurs⟩
      exact ⟨skipped.length, skipped, after, hline, rfl, hoccurs⟩
    · rintro ⟨place, before, rest, hline, -, hoccurs⟩
      exact ⟨before, rest, hline, hoccurs⟩
  · obtain ⟨places, -, hordered, hfirst⟩ := @scanFrom_ordered line.toList [] line.toList [] rfl fun evidence =>
      iff_of_false List.not_mem_nil fun ⟨place, hplace, _⟩ => absurd hplace (Nat.not_lt_zero place)
    exact ⟨places, hordered, hfirst⟩

end HerdrTop
