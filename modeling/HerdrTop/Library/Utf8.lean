import Mathlib.Data.List.Basic
import Mathlib.Data.Nat.Notation

/-!
# Text as bytes

A text as the bytes of its UTF-8 form, and what a reader of bytes can see of its characters. A class of
ASCII characters holds of a byte only where it holds of the character that the byte is, so what such a
reader tests at the start of a character is true of the characters, and it is false inside a character.

## What is proved

* `slice_append`: a slice between the ends of characters is the text between them.
* `fits_encode`: a run of ASCII classes holds of the bytes exactly where it holds of the characters.
* `isPrefixOf_encode`, `findPattern_wide`: the same of patterns.
-/

namespace Utf8

/-- The bytes of a text. -/
def encode (text : List Char) : List UInt8 := text.flatMap String.utf8EncodeChar

/-- The characters with one byte. -/
def IsAscii (c : Char) : Prop := c.toNat < 128

instance (c : Char) : Decidable (IsAscii c) := inferInstanceAs (Decidable (_ < _))

variable {text before value rest pattern : List Char} {c : Char}

/-- Whether a text is ASCII can be checked. -/
theorem isAscii_of_all (h : text.all (fun c => decide (IsAscii c)) = true) : ∀ c ∈ text, IsAscii c :=
  fun c hc => of_decide_eq_true (List.all_eq_true.mp h c hc)

theorem encode_cons : encode (c :: text) = String.utf8EncodeChar c ++ encode text := List.flatMap_cons

theorem encode_append : encode (text ++ rest) = encode text ++ encode rest := List.flatMap_append

theorem encodeChar_ascii (h : IsAscii c) : String.utf8EncodeChar c = [UInt8.ofNat c.toNat] := by
  have hval : c.val.toNat ≤ 127 := Nat.le_of_lt_succ h
  rw [String.utf8EncodeChar, if_pos hval]
  rfl

/-- A character that is not ASCII has only bytes that are no ASCII character. -/
theorem encodeChar_wide (h : ¬ IsAscii c) : ∀ b ∈ String.utf8EncodeChar c, 128 ≤ b.toNat := by
  have hbyte : ∀ n : ℕ, 128 ≤ n % 256 → 128 ≤ (UInt8.ofNat n).toNat := by
    intro n hn
    rw [UInt8.toNat_ofNat']
    exact hn
  have hval : 128 ≤ c.val.toNat := Nat.not_lt.mp h
  intro b hb
  rw [String.utf8EncodeChar, if_neg (by omega)] at hb
  split at hb
  · simp only [List.mem_cons, List.not_mem_nil, or_false] at hb
    rcases hb with rfl | rfl
    all_goals
      apply hbyte
      omega
  · split at hb
    · simp only [List.mem_cons, List.not_mem_nil, or_false] at hb
      rcases hb with rfl | rfl | rfl
      all_goals
        apply hbyte
        omega
    · simp only [List.mem_cons, List.not_mem_nil, or_false] at hb
      rcases hb with rfl | rfl | rfl | rfl
      all_goals
        apply hbyte
        omega

/-! ### Slices -/

/-- The text before and after a number of bytes, if that is where a character ends. -/
def splitAtByte : ℕ → List Char → Option (List Char × List Char)
  | 0, text => some ([], text)
  | _ + 1, [] => none
  | bytes + 1, c :: text =>
    if c.utf8Size ≤ bytes + 1 then
      (splitAtByte (bytes + 1 - c.utf8Size) text).map fun parts => (c :: parts.1, parts.2)
    else none

/-- The text between two bytes, if these are where characters end. -/
def slice (text : List Char) (start stop : ℕ) : Option (List Char) :=
  if start ≤ stop then
    (splitAtByte start text).bind fun parts => (splitAtByte (stop - start) parts.2).map Prod.fst
  else none

theorem splitAtByte_append : splitAtByte (encode before).length (before ++ rest) = some (before, rest) := by
  induction before with
  | nil => rw [encode, List.flatMap_nil, List.length_nil, List.nil_append, splitAtByte]
  | cons c before ih =>
    obtain ⟨size, hsize⟩ := Nat.exists_eq_add_of_lt c.utf8Size_pos
    rw [Nat.zero_add] at hsize
    rw [encode_cons, List.length_append, String.length_utf8EncodeChar, hsize,
      show size + 1 + (encode before).length = size + (encode before).length + 1 by omega, List.cons_append, splitAtByte,
      if_pos (by omega), hsize, show size + (encode before).length + 1 - (size + 1) = (encode before).length by omega,
      ih]
    rfl

theorem slice_append :
    slice (before ++ (value ++ rest)) (encode before).length ((encode before).length + (encode value).length) =
      some value := by
  rw [slice, if_pos (Nat.le_add_right ..), splitAtByte_append, Option.bind_some, Nat.add_sub_cancel_left,
    splitAtByte_append]
  rfl

/-! ### Classes -/

/-- A class of bytes and a class of characters say the same of ASCII characters and hold of no others. -/
structure Agree (p : UInt8 → Bool) (q : Char → Bool) : Prop where
  ascii : ∀ c, IsAscii c → p (UInt8.ofNat c.toNat) = q c
  wideByte : ∀ b : UInt8, 128 ≤ b.toNat → p b = false
  wideChar : ∀ c, ¬ IsAscii c → q c = false

namespace Agree

variable {p p' : UInt8 → Bool} {q q' : Char → Bool}

/-- The characters from one to another. -/
theorem between {low high : UInt8} {first last : Char} (hlow : low.toNat = first.toNat) (hhigh : high.toNat = last.toNat)
    (hlast : IsAscii last) : Agree (fun b => low ≤ b && b ≤ high) (fun c => first ≤ c && c ≤ last) where
  ascii c hc := by
    have hsmall : c.toNat < 2 ^ 8 := Nat.lt_trans hc (by decide)
    rw [Bool.eq_iff_iff, Bool.and_eq_true, Bool.and_eq_true, decide_eq_true_iff, decide_eq_true_iff, decide_eq_true_iff,
      decide_eq_true_iff, UInt8.le_iff_toNat_le, UInt8.le_iff_toNat_le, UInt8.toNat_ofNat', Nat.mod_eq_of_lt hsmall, hlow,
      hhigh]
    exact Iff.rfl
  wideByte b hb := by
    refine Bool.eq_false_iff.mpr fun h => ?_
    rw [Bool.and_eq_true, decide_eq_true_iff, decide_eq_true_iff, UInt8.le_iff_toNat_le, UInt8.le_iff_toNat_le] at h
    exact absurd (Nat.le_trans hb (hhigh ▸ h.2)) (Nat.not_le.mpr hlast)
  wideChar c hc := by
    refine Bool.eq_false_iff.mpr fun h => hc ?_
    rw [Bool.and_eq_true, decide_eq_true_iff, decide_eq_true_iff] at h
    exact Nat.lt_of_le_of_lt h.2 hlast

/-- One character. -/
theorem one {byte : UInt8} {char : Char} (heq : byte.toNat = char.toNat) (hchar : IsAscii char) :
    Agree (fun b => decide (b = byte)) (fun c => decide (c = char)) where
  ascii c hc := by
    have hsmall : c.toNat < 2 ^ 8 := Nat.lt_trans hc (by decide)
    rw [decide_eq_decide, ← UInt8.toNat_inj, UInt8.toNat_ofNat', Nat.mod_eq_of_lt hsmall, heq]
    exact Char.toNat_inj
  wideByte b hb := by
    refine decide_eq_false ?_
    rintro rfl
    exact absurd (heq ▸ hb) (Nat.not_le.mpr hchar)
  wideChar c hc := by
    refine decide_eq_false ?_
    rintro rfl
    exact hc hchar

/-- The characters of two classes. -/
theorem either (h : Agree p q) (h' : Agree p' q') : Agree (fun b => p b || p' b) (fun c => q c || q' c) where
  ascii c hc := by rw [h.ascii c hc, h'.ascii c hc]
  wideByte b hb := by rw [h.wideByte b hb, h'.wideByte b hb, Bool.false_or]
  wideChar c hc := by rw [h.wideChar c hc, h'.wideChar c hc, Bool.false_or]

/-- A byte inside a character is in no class. -/
theorem eq_false (h : Agree p q) (hc : ¬ IsAscii c) {b : UInt8} (hb : b ∈ String.utf8EncodeChar c) : p b = false :=
  h.wideByte b (encodeChar_wide hc b hb)

theorem head?_any (h : Agree p q) : (encode text).head?.any p = text.head?.any q := by
  cases text with
  | nil => rfl
  | cons c text =>
    rw [encode_cons, List.head?_cons, Option.any_some]
    by_cases hc : IsAscii c
    · rw [encodeChar_ascii hc, List.singleton_append, List.head?_cons, Option.any_some, h.ascii c hc]
    · obtain ⟨b, bytes, hbytes⟩ := List.exists_cons_of_ne_nil (@String.utf8EncodeChar_ne_nil c)
      rw [h.wideChar c hc, hbytes, List.cons_append, List.head?_cons, Option.any_some]
      exact h.eq_false hc (hbytes ▸ List.mem_cons_self)

theorem getLast?_any (h : Agree p q) : (encode text).getLast?.any p = text.getLast?.any q := by
  rcases List.eq_nil_or_concat' text with rfl | ⟨text, c, rfl⟩
  · rfl
  · rw [encode_append, List.getLast?_concat, Option.any_some,
      show encode [c] = String.utf8EncodeChar c from List.flatMap_singleton ..]
    by_cases hc : IsAscii c
    · rw [encodeChar_ascii hc, List.getLast?_concat, Option.any_some, h.ascii c hc]
    · obtain ⟨bytes, b, hbytes⟩ :=
        (List.eq_nil_or_concat' (String.utf8EncodeChar c)).resolve_left String.utf8EncodeChar_ne_nil
      rw [h.wideChar c hc, hbytes, ← List.append_assoc, List.getLast?_concat, Option.any_some]
      exact h.eq_false hc (hbytes ▸ List.mem_append_right _ (List.mem_singleton_self b))

end Agree

/-! ### Runs of classes -/

/-- The first items of a list exist and are in a class each, by their places. -/
def fits {α : Type*} (p : ℕ → α → Bool) (n : ℕ) (l : List α) : Bool :=
  decide ((l.take n).length = n) && (l.take n).zipIdx.all fun e => p e.2 e.1

section

variable {α : Type*} {p : ℕ → α → Bool}

theorem fits_zero (l : List α) : fits p 0 l = true := rfl

theorem fits_nil (n : ℕ) : fits p (n + 1) ([] : List α) = false := rfl

theorem fits_cons (n : ℕ) (a : α) (l : List α) : fits p (n + 1) (a :: l) = (p 0 a && fits (fun i => p (i + 1)) n l) := by
  rw [fits, fits, List.take_succ_cons, List.length_cons, List.zipIdx_cons, List.all_cons, List.zipIdx_succ, List.all_map]
  rw [Bool.and_left_comm]
  congr 2
  exact decide_eq_decide.mpr Nat.succ_inj

/-- A run in two parts. -/
theorem fits_add (m n : ℕ) (l : List α) :
    fits p (m + n) l = (fits p m l && fits (fun i => p (m + i)) n (l.drop m)) := by
  induction m generalizing p l with
  | zero =>
    rw [fits_zero, Bool.true_and, Nat.zero_add]
    simp only [Nat.zero_add, List.drop_zero]
  | succ m ih =>
    cases l with
    | nil => rw [show m + 1 + n = m + n + 1 by omega, fits_nil, fits_nil, Bool.false_and]
    | cons a l =>
      rw [show m + 1 + n = m + n + 1 by omega, fits_cons, fits_cons, ih, Bool.and_assoc, List.drop_succ_cons]
      simp only [Nat.add_right_comm m 1]

/-- A run of one class. -/
theorem fits_iff_all {q : α → Bool} {n : ℕ} (h : ∀ i < n, p i = q) (l : List α) :
    fits p n l = true ↔ ∃ part after, l = part ++ after ∧ part.length = n ∧ part.all q = true := by
  induction n generalizing p l with
  | zero =>
    refine iff_of_true rfl ⟨[], l, rfl, rfl, rfl⟩
  | succ n ih =>
    cases l with
    | nil =>
      refine iff_of_false Bool.false_ne_true ?_
      rintro ⟨part, after, hl, hlength, -⟩
      rw [(List.append_eq_nil_iff.mp hl.symm).1] at hlength
      exact absurd hlength (Nat.succ_ne_zero n).symm
    | cons a l =>
      rw [fits_cons, Bool.and_eq_true, h 0 n.succ_pos, ih fun i hi => h (i + 1) (Nat.succ_lt_succ hi)]
      constructor
      · rintro ⟨ha, part, after, rfl, rfl, hpart⟩
        exact ⟨a :: part, after, rfl, rfl, by rw [List.all_cons, ha, hpart, Bool.true_and]⟩
      · rintro ⟨part, after, hl, hlength, hpart⟩
        cases part with
        | nil => exact absurd hlength (Nat.succ_ne_zero n).symm
        | cons b part =>
          rw [List.cons_append, List.cons.injEq] at hl
          obtain ⟨rfl, rfl⟩ := hl
          rw [List.all_cons, Bool.and_eq_true] at hpart
          exact ⟨hpart.1, part, after, rfl, Nat.succ.inj hlength, hpart.2⟩

/-- A run that starts with one class. -/
theorem fits_add_iff {q : α → Bool} {m n : ℕ} (h : ∀ i < m, p i = q) {l : List α} :
    fits p (m + n) l = true ↔ ∃ part after, l = part ++ after ∧ part.length = m ∧ part.all q = true ∧
      fits (fun i => p (m + i)) n after = true := by
  rw [fits_add, Bool.and_eq_true, fits_iff_all h]
  constructor
  · rintro ⟨⟨part, after, rfl, rfl, hpart⟩, hafter⟩
    rw [List.drop_left] at hafter
    exact ⟨part, after, rfl, rfl, hpart, hafter⟩
  · rintro ⟨part, after, rfl, rfl, hpart, hafter⟩
    rw [List.drop_left]
    exact ⟨⟨part, after, rfl, rfl, hpart⟩, hafter⟩

end

/-- A run of classes holds of the bytes exactly where it holds of the characters, and then each of these is a byte. -/
theorem fits_encode {p : ℕ → UInt8 → Bool} {q : ℕ → Char → Bool} (h : ∀ i, Agree (p i) (q i)) (n : ℕ) (text : List Char) :
    fits p n (encode text) = fits q n text ∧
      (fits q n text = true →
        (encode (text.take n)).length = n ∧ encode text = encode (text.take n) ++ encode (text.drop n)) := by
  induction n generalizing p q text with
  | zero => exact ⟨rfl, fun _ => ⟨rfl, rfl⟩⟩
  | succ n ih =>
    cases text with
    | nil => exact ⟨rfl, fun hfits => absurd hfits Bool.false_ne_true⟩
    | cons c text =>
      rw [encode_cons, fits_cons]
      by_cases hc : IsAscii c
      · obtain ⟨heq, hlength⟩ := ih (fun i => h (i + 1)) text
        rw [encodeChar_ascii hc, List.singleton_append, fits_cons, (h 0).ascii c hc, heq]
        refine ⟨rfl, fun hfits => ?_⟩
        obtain ⟨hcount, hsplit⟩ := hlength (Bool.and_eq_true_iff.mp hfits).2
        rw [List.take_succ_cons, List.drop_succ_cons, encode_cons, encodeChar_ascii hc, List.singleton_append,
          List.length_cons, hcount, List.cons_append, ← hsplit]
        exact ⟨rfl, rfl⟩
      · obtain ⟨b, bytes, hbytes⟩ := List.exists_cons_of_ne_nil (@String.utf8EncodeChar_ne_nil c)
        rw [(h 0).wideChar c hc, Bool.false_and, hbytes, List.cons_append, fits_cons,
          (h 0).eq_false hc (hbytes ▸ List.mem_cons_self), Bool.false_and]
        exact ⟨rfl, fun hfits => absurd hfits Bool.false_ne_true⟩

/-! ### Patterns -/

/-- Where a pattern starts for the first time. -/
def findPattern {α : Type*} [DecidableEq α] (pattern : List α) : List α → Option ℕ
  | [] => if pattern = [] then some 0 else none
  | a :: l => if pattern.isPrefixOf (a :: l) then some 0 else (findPattern pattern l).map (· + 1)

theorem ofNat_toNat_eq (hc : IsAscii c) {b : UInt8} : UInt8.ofNat c.toNat = b ↔ c.toNat = b.toNat := by
  have hsmall : c.toNat < 2 ^ 8 := Nat.lt_trans hc (by decide)
  rw [← UInt8.toNat_inj, UInt8.toNat_ofNat', Nat.mod_eq_of_lt hsmall]

theorem isPrefixOf_encode (h : ∀ c ∈ pattern, IsAscii c) :
    (encode pattern).isPrefixOf (encode text) = pattern.isPrefixOf text := by
  induction pattern generalizing text with
  | nil => rfl
  | cons c pattern ih =>
    have hc := h c List.mem_cons_self
    rw [encode_cons, encodeChar_ascii hc, List.singleton_append]
    cases text with
    | nil => rfl
    | cons d text =>
      rw [encode_cons, List.isPrefixOf_cons_cons]
      by_cases hd : IsAscii d
      · rw [encodeChar_ascii hd, List.singleton_append, List.isPrefixOf_cons_cons,
          ih fun c hc => h c (List.mem_cons_of_mem _ hc)]
        congr 1
        have hsmall : d.toNat < 2 ^ 8 := Nat.lt_trans hd (by decide)
        rw [Bool.eq_iff_iff, beq_iff_eq, beq_iff_eq, ofNat_toNat_eq hc, UInt8.toNat_ofNat', Nat.mod_eq_of_lt hsmall]
        exact ⟨fun h => Char.toNat_inj.mp h, fun h => h ▸ rfl⟩
      · obtain ⟨b, bytes, hbytes⟩ := List.exists_cons_of_ne_nil (@String.utf8EncodeChar_ne_nil d)
        have hb := encodeChar_wide hd b (hbytes ▸ List.mem_cons_self)
        have hbyte : UInt8.ofNat c.toNat ≠ b := fun heq => by
          rw [ofNat_toNat_eq hc] at heq
          exact absurd hc (Nat.not_lt.mpr (heq ▸ hb))
        have hchar : c ≠ d := fun heq => hd (heq ▸ hc)
        rw [hbytes, List.cons_append, List.isPrefixOf_cons_cons, beq_eq_false_iff_ne.mpr hbyte,
          beq_eq_false_iff_ne.mpr hchar, Bool.false_and, Bool.false_and]

/-- Bytes that are no ASCII character do not start a pattern. -/
theorem findPattern_wide {first : UInt8} {pattern wide bytes : List UInt8} (hfirst : first.toNat < 128)
    (hwide : ∀ b ∈ wide, 128 ≤ b.toNat) :
    findPattern (first :: pattern) (wide ++ bytes) = (findPattern (first :: pattern) bytes).map (· + wide.length) := by
  induction wide with
  | nil => simp
  | cons b wide ih =>
    have hne : ¬ (first :: pattern).isPrefixOf (b :: (wide ++ bytes)) = true := by
      rw [List.isPrefixOf_cons_cons, Bool.and_eq_true, beq_iff_eq]
      rintro ⟨rfl, -⟩
      exact absurd (hwide first List.mem_cons_self) (Nat.not_le.mpr hfirst)
    rw [List.cons_append, findPattern, if_neg hne, ih fun b hb => hwide b (List.mem_cons_of_mem _ hb), Option.map_map]
    rfl

end Utf8
