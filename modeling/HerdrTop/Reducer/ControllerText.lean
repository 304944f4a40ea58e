import HerdrTop.Reducer.Transitions

/-!
# Texts of Controllers

What a Controller wants to be shown is cut off at 256 bytes, with its control characters escaped. Each character
becomes a piece, the character itself or its escape, and a piece is taken whole or not at all.

## What is proved

* `sanitizeChars_eq`: what is kept are the pieces of the first characters, as many as fit.
* `sanitizeControllerText_safe`: the text is short and printable, its pieces are whole, and sanitizing it again leaves
  it as it is.
-/

namespace HerdrTop

/-- What a character becomes. -/
def sanitizedPiece (c : Char) : List Char := if isControl c then escapeControl c else [c]

/-- How many bytes characters take. -/
def encodedSize (text : List Char) : ℕ := (text.map Char.utf8Size).sum

@[simp] theorem encodedSize_nil : encodedSize [] = 0 := rfl

@[simp] theorem encodedSize_cons (c : Char) (text : List Char) :
    encodedSize (c :: text) = c.utf8Size + encodedSize text := rfl

@[simp] theorem encodedSize_append (text text' : List Char) :
    encodedSize (text ++ text') = encodedSize text + encodedSize text' := by
  rw [encodedSize, List.map_append, List.sum_append, encodedSize, encodedSize]

theorem utf8ByteSize_ofList (text : List Char) : (String.ofList text).utf8ByteSize = encodedSize text := by
  induction text with
  | nil => rfl
  | cons c text ih =>
    rw [String.ofList_cons, String.utf8ByteSize_append, String.utf8ByteSize_singleton, ih, encodedSize_cons]

/-- What is kept are the pieces of the first characters: all of them, or as many as fit. -/
theorem sanitizeChars_eq (text sanitized : List Char) {bytes : ℕ} (hbytes : bytes ≤ 256) :
    ∃ n, sanitizeChars text sanitized bytes = sanitized ++ (text.take n).flatMap sanitizedPiece ∧
      bytes + encodedSize ((text.take n).flatMap sanitizedPiece) ≤ 256 ∧
      ∀ c, text[n]? = some c →
        256 < bytes + encodedSize ((text.take n).flatMap sanitizedPiece) + encodedSize (sanitizedPiece c) := by
  induction text generalizing sanitized bytes with
  | nil => exact ⟨0, by simp [sanitizeChars], by simpa using hbytes, nofun⟩
  | cons c text ih =>
    have hcons : sanitizeChars (c :: text) sanitized bytes =
        if 256 < bytes + encodedSize (sanitizedPiece c) then sanitized
        else sanitizeChars text (sanitized ++ sanitizedPiece c) (bytes + encodedSize (sanitizedPiece c)) := rfl
    rw [hcons]
    split_ifs with hfull
    · refine ⟨0, by simp, by simpa using hbytes, fun d hd => ?_⟩
      obtain rfl := Option.some.inj hd
      simpa using hfull
    · obtain ⟨n, hkept, hsize, hnext⟩ := ih (sanitized ++ sanitizedPiece c) (Nat.le_of_not_lt hfull)
      have hpieces : ((c :: text).take (n + 1)).flatMap sanitizedPiece =
          sanitizedPiece c ++ (text.take n).flatMap sanitizedPiece := by
        rw [List.take_succ_cons, List.flatMap_cons]
      refine ⟨n + 1, ?_, ?_, fun d hd => ?_⟩
      · rw [hkept, hpieces, List.append_assoc]
      · rw [hpieces, encodedSize_append]
        omega
      · have hd' := hnext d hd
        rw [hpieces, encodedSize_append]
        omega

/-- Nothing but printable characters comes out of an escape. -/
theorem printable_escapeControl {c : Char} (hc : isControl c = true) :
    (escapeControl c).all (fun d => !isControl d) = true := by
  have hdigits : ∀ n < 160, (Nat.toDigits 16 n).all (fun d => !isControl d) = true := by decide +kernel
  have hsmall : c.toNat < 160 := by
    rw [isControl, Bool.or_eq_true, Bool.and_eq_true] at hc
    rcases hc with hc | ⟨-, hc⟩
    · exact Nat.lt_trans (of_decide_eq_true hc) (by omega)
    · exact of_decide_eq_true hc
  rw [escapeControl]
  split_ifs
  · decide
  · decide
  · decide
  · rw [List.all_append, List.all_append, hdigits _ hsmall]
    decide

theorem printable_sanitizedPiece (c : Char) : (sanitizedPiece c).all (fun d => !isControl d) = true := by
  rw [sanitizedPiece]
  split_ifs with hc
  · exact printable_escapeControl hc
  · rw [List.all_cons, List.all_nil, Bool.and_true, Bool.not_eq_true']
    exact Bool.eq_false_iff.mpr hc

/-- A printable text that fits is kept as it is. -/
theorem sanitizeChars_of_printable {text sanitized : List Char} {bytes : ℕ}
    (hprintable : text.all (fun c => !isControl c) = true) (hfits : bytes + encodedSize text ≤ 256) :
    sanitizeChars text sanitized bytes = sanitized ++ text := by
  induction text generalizing sanitized bytes with
  | nil => rw [sanitizeChars, List.append_nil]
  | cons c text ih =>
    rw [List.all_cons, Bool.and_eq_true, Bool.not_eq_true'] at hprintable
    obtain ⟨hc, hprintable⟩ := hprintable
    have hpiece : sanitizedPiece c = [c] := by rw [sanitizedPiece, hc, if_neg Bool.false_ne_true]
    rw [encodedSize_cons] at hfits
    have hcons : sanitizeChars (c :: text) sanitized bytes =
        if 256 < bytes + encodedSize (sanitizedPiece c) then sanitized
        else sanitizeChars text (sanitized ++ sanitizedPiece c) (bytes + encodedSize (sanitizedPiece c)) := rfl
    rw [hcons, hpiece, encodedSize_cons, encodedSize_nil, if_neg (by omega), ih hprintable (by omega),
      List.append_assoc]
    rfl

/-- The text takes at most 256 bytes and has no control character; it is made of the whole pieces of the first
characters, as many as fit; and sanitizing it again leaves it as it is. -/
theorem sanitizeControllerText_safe (value : String) :
    (sanitizeControllerText value).utf8ByteSize ≤ 256 ∧
      (∀ c ∈ (sanitizeControllerText value).toList, isControl c = false) ∧
      (∃ n, (sanitizeControllerText value).toList = (value.toList.take n).flatMap sanitizedPiece ∧
        ∀ c, value.toList[n]? = some c → 256 < (sanitizeControllerText value).utf8ByteSize +
          (String.ofList (sanitizedPiece c)).utf8ByteSize) ∧
      sanitizeControllerText (sanitizeControllerText value) = sanitizeControllerText value := by
  obtain ⟨n, hkept, hsize, hnext⟩ := sanitizeChars_eq value.toList [] (Nat.zero_le 256)
  rw [List.nil_append] at hkept
  rw [Nat.zero_add] at hsize
  have hprintable : ((value.toList.take n).flatMap sanitizedPiece).all (fun c => !isControl c) = true := by
    rw [List.all_flatMap, List.all_eq_true]
    exact fun c _ => printable_sanitizedPiece c
  have hagain : sanitizeChars ((value.toList.take n).flatMap sanitizedPiece) [] 0 =
      (value.toList.take n).flatMap sanitizedPiece :=
    sanitizeChars_of_printable hprintable (by rwa [Nat.zero_add])
  have hsanitized : sanitizeControllerText value = String.ofList ((value.toList.take n).flatMap sanitizedPiece) :=
    congrArg String.ofList hkept
  rw [hsanitized, String.toList_ofList, utf8ByteSize_ofList]
  refine ⟨hsize, fun c hc => ?_, ⟨n, rfl, fun c hc => ?_⟩, ?_⟩
  · rw [← Bool.not_eq_true']
    exact List.all_eq_true.mp hprintable c hc
  · rw [utf8ByteSize_ofList]
    have hfull := hnext c hc
    omega
  · rw [sanitizeControllerText, String.toList_ofList, hagain]

end HerdrTop
