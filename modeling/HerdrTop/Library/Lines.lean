import Mathlib.Data.List.Basic
import Mathlib.Data.List.Infix

/-!
# Lines of a text

A text is a list of symbols, and one symbol ends a line. The text may begin in the middle of a line:
`start` is the offset at which that line began and `cur` is what it had before.

## What is proved

The lines and the unfinished rest give the text back (`linesFrom_join`), no line holds the symbol
that ends one (`not_mem_linesFrom`), each line stands at its offset (`linesFrom_at`), and a text that
comes in two pieces has the lines of the first and then those of the second, which begins where the
first left off (`linesFrom_append`, `openFrom_append`).
-/

namespace HerdrTop.Lines

universe u

variable {α : Type u} [DecidableEq α]

/-- The finished lines, each with its offset. -/
def linesFrom (sep : α) : ℕ → List α → List α → List (ℕ × List α)
  | _, _, [] => []
  | start, cur, a :: rest =>
    if a = sep then (start, cur) :: linesFrom sep (start + cur.length + 1) [] rest
    else linesFrom sep start (cur ++ [a]) rest

/-- The line that is not finished, with its offset. -/
def openFrom (sep : α) : ℕ → List α → List α → ℕ × List α
  | start, cur, [] => (start, cur)
  | start, cur, a :: rest =>
    if a = sep then openFrom sep (start + cur.length + 1) [] rest
    else openFrom sep start (cur ++ [a]) rest

variable {sep : α} {start : ℕ} {cur s t : List α}

/-! ### Pieces -/

theorem linesFrom_append : linesFrom sep start cur (s ++ t) = linesFrom sep start cur s ++
    linesFrom sep (openFrom sep start cur s).1 (openFrom sep start cur s).2 t := by
  induction s generalizing start cur with
  | nil => rfl
  | cons a s ih =>
    simp only [List.cons_append, linesFrom, openFrom]
    split_ifs
    · rw [ih, List.cons_append]
    · exact ih

theorem openFrom_append : openFrom sep start cur (s ++ t) =
    openFrom sep (openFrom sep start cur s).1 (openFrom sep start cur s).2 t := by
  induction s generalizing start cur with
  | nil => rfl
  | cons a s ih =>
    simp only [List.cons_append, openFrom]
    split_ifs <;> exact ih

/-- What does not end a line makes the line longer. -/
theorem linesFrom_of_not_mem (h : sep ∉ s) : linesFrom sep start cur s = [] := by
  induction s generalizing cur with
  | nil => rfl
  | cons a s ih =>
    rw [List.mem_cons, not_or] at h
    simp only [linesFrom, if_neg (Ne.symm h.1)]
    exact ih h.2

theorem openFrom_of_not_mem (h : sep ∉ s) : openFrom sep start cur s = (start, cur ++ s) := by
  induction s generalizing cur with
  | nil => simp [openFrom]
  | cons a s ih =>
    rw [List.mem_cons, not_or] at h
    simp only [openFrom, if_neg (Ne.symm h.1)]
    rw [ih h.2, List.append_assoc, List.singleton_append]

/-- The symbol that ends a line ends it. -/
theorem linesFrom_line (h : sep ∉ s) : linesFrom sep start cur (s ++ sep :: t) =
    (start, cur ++ s) :: linesFrom sep (start + (cur ++ s).length + 1) [] t := by
  rw [linesFrom_append, linesFrom_of_not_mem h, openFrom_of_not_mem h, List.nil_append]
  simp only [linesFrom, if_pos]

theorem openFrom_line (h : sep ∉ s) : openFrom sep start cur (s ++ sep :: t) =
    openFrom sep (start + (cur ++ s).length + 1) [] t := by
  rw [openFrom_append, openFrom_of_not_mem h]
  simp only [openFrom, if_pos]

/-! ### The text from its lines -/

/-- The lines and what is not finished are the text. -/
theorem linesFrom_join : (linesFrom sep start cur s).flatMap (fun line => line.2 ++ [sep]) ++
    (openFrom sep start cur s).2 = cur ++ s := by
  induction s generalizing start cur with
  | nil => simp [linesFrom, openFrom]
  | cons a s ih =>
    simp only [linesFrom, openFrom]
    split_ifs with h
    · rw [List.flatMap_cons, List.append_assoc, ih]
      simp [h]
    · rw [ih, List.append_assoc, List.singleton_append]

theorem not_mem_linesFrom (hcur : sep ∉ cur) : ∀ line ∈ linesFrom sep start cur s, sep ∉ line.2 := by
  induction s generalizing start cur with
  | nil => simp [linesFrom]
  | cons a s ih =>
    simp only [linesFrom]
    split_ifs with h
    · intro line hline
      rcases List.mem_cons.mp hline with rfl | hline
      · exact hcur
      · exact ih List.not_mem_nil line hline
    · refine ih ?_
      simp [hcur, Ne.symm h]

theorem not_mem_openFrom (hcur : sep ∉ cur) : sep ∉ (openFrom sep start cur s).2 := by
  induction s generalizing start cur with
  | nil => exact hcur
  | cons a s ih =>
    simp only [openFrom]
    split_ifs with h
    · exact ih List.not_mem_nil
    · refine ih ?_
      simp [hcur, Ne.symm h]

/-- A line stands at its offset in the text, with the symbol that ends it. -/
theorem linesFrom_at : ∀ line ∈ linesFrom sep start cur s,
    start ≤ line.1 ∧ line.2 ++ [sep] <+: (cur ++ s).drop (line.1 - start) := by
  induction s generalizing start cur with
  | nil => simp [linesFrom]
  | cons a s ih =>
    simp only [linesFrom]
    split_ifs with h
    · intro line hline
      rcases List.mem_cons.mp hline with rfl | hline
      · refine ⟨le_rfl, ?_⟩
        rw [Nat.sub_self, List.drop_zero, h]
        exact ⟨s, by simp⟩
      · obtain ⟨hle, hpre⟩ := ih line hline
        refine ⟨by omega, ?_⟩
        have hdrop : line.1 - start = (cur ++ [a]).length + (line.1 - (start + cur.length + 1)) := by
          simp
          omega
        rw [hdrop, ← List.drop_drop, show cur ++ a :: s = (cur ++ [a]) ++ s by simp,
          List.drop_left]
        exact hpre
    · intro line hline
      simpa using ih line hline

/-- The unfinished line ends where the text ends. -/
theorem openFrom_end : (openFrom sep start cur s).1 + (openFrom sep start cur s).2.length =
    start + cur.length + s.length := by
  induction s generalizing start cur with
  | nil => rfl
  | cons a s ih =>
    simp only [openFrom, List.length_cons]
    split_ifs with h
    · rw [ih, List.length_nil]
      omega
    · rw [ih, List.length_append, List.length_singleton]
      omega

end HerdrTop.Lines
