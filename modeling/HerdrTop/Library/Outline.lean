import Mathlib.Order.Basic
import Mathlib.Data.List.Basic
import Mathlib.Logic.Relation

/-!
# Outlines

A tree that is written as a list of rows with depths: what is below a row are the deeper rows that follow it, up to
the first one that is not deeper. `Above` says which rows are above a row in the tree. `ancestors` finds them by
going back from a row and looking for smaller depths, and `hideBelow` leaves out what is below some rows while it
goes forward with one depth in hand.

## What is proved

* `mem_ancestors`: going back finds the rows above.
* `above_iff_transGen`: the rows above a row are its parent, the parent of that, and so on.
* `hideBelow_eq`: what is left out is what has one of the rows above it.
-/

namespace HerdrTop.Outline

universe u

/-! ### Rows by their places -/

/-- The items whose place satisfies a condition. -/
def pick {α : Type u} : (P : ℕ → Prop) → [DecidablePred P] → List α → List α
  | _, _, [] => []
  | P, _, a :: l => if P 0 then a :: pick (fun i => P (i + 1)) l else pick (fun i => P (i + 1)) l

variable {α : Type u}

theorem pick_congr {P Q : ℕ → Prop} [DecidablePred P] [DecidablePred Q] {l : List α}
    (h : ∀ i < l.length, P i ↔ Q i) : pick P l = pick Q l := by
  induction l generalizing P Q with
  | nil => rfl
  | cons a l ih =>
    have hrest : pick (fun i => P (i + 1)) l = pick (fun i => Q (i + 1)) l :=
      ih fun i hi => h (i + 1) (Nat.succ_lt_succ hi)
    rw [pick, pick, hrest]
    exact if_congr (h 0 (Nat.succ_pos _)) rfl rfl

theorem mem_pick {P : ℕ → Prop} [DecidablePred P] {l : List α} {a : α} :
    a ∈ pick P l ↔ ∃ i, l[i]? = some a ∧ P i := by
  induction l generalizing P with
  | nil => simp [pick]
  | cons b l ih =>
    have hsplit : (∃ i, (b :: l)[i]? = some a ∧ P i) ↔ (b = a ∧ P 0) ∨ ∃ i, l[i]? = some a ∧ P (i + 1) := by
      constructor
      · rintro ⟨_ | i, hi, hp⟩
        · exact .inl ⟨Option.some.inj hi, hp⟩
        · exact .inr ⟨i, hi, hp⟩
      · rintro (⟨rfl, hp⟩ | ⟨i, hi, hp⟩)
        · exact ⟨0, rfl, hp⟩
        · exact ⟨i + 1, hi, hp⟩
    rw [hsplit, ← ih, pick]
    split_ifs with h
    · rw [List.mem_cons, eq_comm]
      simp [h]
    · simp [h]

theorem pick_sublist {P : ℕ → Prop} [inst : DecidablePred P] {l : List α} : (pick P l).Sublist l := by
  induction l generalizing P with
  | nil => exact .slnil
  | cons a l ih =>
    rw [pick]
    split_ifs with h
    · exact .cons_cons a ih
    · exact .cons a ih

/-! ### What is above a row -/

/-- The first row is above the second: all rows after it, up to the second, are deeper. -/
def Above (depth : ℕ → ℕ) (j i : ℕ) : Prop := j < i ∧ ∀ k, j < k → k ≤ i → depth j < depth k

/-- Goes back from a place to the start and takes each row that is less deep than what was taken before it. -/
def ancestors (depth : ℕ → ℕ) : ℕ → ℕ → List ℕ
  | 0, _ => []
  | i + 1, target =>
    if depth i < target then i :: if depth i = 0 then [] else ancestors depth i (depth i)
    else ancestors depth i target

variable {depth : ℕ → ℕ} {i j target : ℕ}

theorem mem_ancestors_below :
    j ∈ ancestors depth i target ↔ j < i ∧ depth j < target ∧ ∀ k, j < k → k < i → depth j < depth k := by
  induction i generalizing target with
  | zero => simp [ancestors]
  | succ i ih =>
    have hlast : (∀ k, j < k → k < i + 1 → depth j < depth k) ↔
        (j < i → depth j < depth i) ∧ ∀ k, j < k → k < i → depth j < depth k := by
      constructor
      · exact fun h => ⟨fun hj => h i hj (Nat.lt_succ_self i), fun k hk hki => h k hk (by omega)⟩
      · rintro ⟨hi, hrest⟩ k hk hki
        rcases Nat.lt_succ_iff_lt_or_eq.mp hki with hki | rfl
        · exact hrest k hk hki
        · exact hi hk
    rw [ancestors, hlast]
    rcases Nat.lt_trichotomy j i with hj | rfl | hj
    · by_cases hless : depth i < target
      · rw [if_pos hless, List.mem_cons, or_iff_right (by omega)]
        by_cases hzero : depth i = 0
        · rw [if_pos hzero]
          constructor
          · exact fun h => absurd h List.not_mem_nil
          · rintro ⟨-, -, hi, -⟩
            have := hi hj
            omega
        · rw [if_neg hzero, ih]
          constructor
          · rintro ⟨-, hlt, hrest⟩
            exact ⟨by omega, by omega, fun _ => hlt, hrest⟩
          · rintro ⟨-, -, hi, hrest⟩
            exact ⟨hj, hi hj, hrest⟩
      · rw [if_neg hless, ih]
        constructor
        · rintro ⟨-, hlt, hrest⟩
          exact ⟨by omega, hlt, fun _ => by omega, hrest⟩
        · rintro ⟨-, hlt, -, hrest⟩
          exact ⟨hj, hlt, hrest⟩
    · have hnot : ∀ target, j ∉ ancestors depth j target := fun target hmem => Nat.lt_irrefl j (ih.mp hmem).1
      by_cases hless : depth j < target
      · rw [if_pos hless]
        exact iff_of_true List.mem_cons_self
          ⟨Nat.lt_succ_self j, hless, fun h => absurd h (Nat.lt_irrefl j), fun k hk hkj => by omega⟩
      · rw [if_neg hless]
        exact iff_of_false (hnot target) fun h => hless h.2.1
    · have hnot : ∀ target, j ∉ ancestors depth i target := fun target hmem => by
        have := (ih.mp hmem).1
        omega
      refine iff_of_false ?_ fun h => by omega
      split_ifs
      · simp; omega
      · simp only [List.mem_cons, hnot, or_false]
        omega
      · exact hnot target

/-- Going back from a row finds the rows above it. -/
theorem mem_ancestors : j ∈ ancestors depth i (depth i) ↔ Above depth j i := by
  rw [mem_ancestors_below]
  constructor
  · rintro ⟨hj, hlt, hrest⟩
    refine ⟨hj, fun k hk hki => ?_⟩
    rcases Nat.lt_or_eq_of_le hki with hki | rfl
    · exact hrest k hk hki
    · exact hlt
  · rintro ⟨hj, hrest⟩
    exact ⟨hj, hrest i hj (Nat.le_refl i), fun k hk hki => hrest k hk (Nat.le_of_lt hki)⟩

/-- Going back finds the innermost row first. -/
theorem ancestors_descend : (ancestors depth i target).Pairwise (· > ·) := by
  induction i generalizing target with
  | zero => exact .nil
  | succ i ih =>
    rw [ancestors]
    split_ifs
    · exact List.pairwise_singleton _ _
    · exact .cons (fun j hj => (mem_ancestors_below.mp hj).1) ih
    · exact ih

/-- The first row is the parent of the second: the last one before it that is less deep. -/
def Parent (depth : ℕ → ℕ) (j i : ℕ) : Prop := j < i ∧ depth j < depth i ∧ ∀ k, j < k → k < i → depth i ≤ depth k

theorem Above.trans {k : ℕ} (h : Above depth j i) (h' : Above depth i k) : Above depth j k := by
  refine ⟨Nat.lt_trans h.1 h'.1, fun l hl hlk => ?_⟩
  rcases Nat.lt_or_ge i l with hil | hil
  · exact Nat.lt_trans (h.2 i h.1 (Nat.le_refl i)) (h'.2 l hil hlk)
  · exact h.2 l hl hil

theorem Parent.above (h : Parent depth j i) : Above depth j i := by
  refine ⟨h.1, fun k hk hki => ?_⟩
  rcases Nat.lt_or_eq_of_le hki with hki | rfl
  · exact Nat.lt_of_lt_of_le h.2.1 (h.2.2 k hk hki)
  · exact h.2.1

/-- A row behind a less deep one has a parent, which is not before that one. -/
theorem exists_parent {m : ℕ} (hm : m < i) (hless : depth m < target) :
    ∃ p, m ≤ p ∧ p < i ∧ depth p < target ∧ ∀ k, p < k → k < i → target ≤ depth k := by
  induction i with
  | zero => omega
  | succ i ih =>
    by_cases hlast : depth i < target
    · exact ⟨i, Nat.le_of_lt_succ hm, Nat.lt_succ_self i, hlast, fun k hk hki => by omega⟩
    · have hmi : m < i := by
        rcases Nat.lt_succ_iff_lt_or_eq.mp hm with hmi | rfl
        · exact hmi
        · exact absurd hless hlast
      obtain ⟨p, hmp, hpi, hp, hrest⟩ := ih hmi
      refine ⟨p, hmp, by omega, hp, fun k hk hki => ?_⟩
      rcases Nat.lt_succ_iff_lt_or_eq.mp hki with hki | rfl
      · exact hrest k hk hki
      · exact Nat.le_of_not_lt hlast

/-- The rows above a row are its parent, the parent of that, and so on. -/
theorem above_iff_transGen : Above depth j i ↔ Relation.TransGen (Parent depth) j i := by
  constructor
  · intro h
    induction i using Nat.strongRecOn with
    | ind i ih =>
      obtain ⟨p, hjp, hpi, hp, hrest⟩ := exists_parent h.1 (h.2 i h.1 (Nat.le_refl i))
      have hparent : Parent depth p i := ⟨hpi, hp, hrest⟩
      rcases Nat.lt_or_eq_of_le hjp with hjp | rfl
      · exact (ih p hpi ⟨hjp, fun k hk hkp => h.2 k hk (by omega)⟩).tail hparent
      · exact .single hparent
  · intro h
    induction h with
    | single hparent => exact hparent.above
    | tail _ hparent ih => exact ih.trans hparent.above

/-! ### Hiding what is below -/

/-- Leaves out the rows that are deeper than the last one of the given rows, for as long as they follow it. -/
def hideBelow (depth : α → ℕ) (hides : α → Bool) : Option ℕ → List α → List α
  | _, [] => []
  | hiddenBelow, row :: rows =>
    if hiddenBelow.any (· < depth row) then hideBelow depth hides hiddenBelow rows
    else row :: hideBelow depth hides (if hides row then some (depth row) else none) rows

/-- The depth of the row at a place. -/
def depthAt (depth : α → ℕ) (rows : List α) (i : ℕ) : ℕ := (rows[i]?.map depth).getD 0

/-- Some row above a place hides what is below it. -/
def Hidden (depth : α → ℕ) (hides : α → Bool) (rows : List α) (i : ℕ) : Prop :=
  ∃ j, Above (depthAt depth rows) j i ∧ rows[j]?.any hides = true

/-- The rows up to a place are all deeper than this. -/
def AllDeeper (depth : α → ℕ) (hiddenBelow : Option ℕ) (rows : List α) (i : ℕ) : Prop :=
  ∃ e, hiddenBelow = some e ∧ ∀ k ≤ i, e < depthAt depth rows k

variable {rowDepth : α → ℕ} {hides : α → Bool} {row : α} {rows : List α} {hiddenBelow : Option ℕ}

/-- What hides a row after the first one: the first one, or a later one. -/
theorem hidden_cons :
    Hidden rowDepth hides (row :: rows) (i + 1) ↔
      AllDeeper rowDepth (if hides row then some (rowDepth row) else none) rows i ∨ Hidden rowDepth hides rows i := by
  constructor
  · rintro ⟨j, ⟨hj, hrest⟩, hhides⟩
    cases j with
    | zero =>
      refine .inl ⟨rowDepth row, if_pos (by simpa using hhides), fun k hk => ?_⟩
      exact hrest (k + 1) (Nat.succ_pos k) (Nat.succ_le_succ hk)
    | succ j =>
      exact .inr ⟨j, ⟨by omega, fun k hk hki => hrest (k + 1) (by omega) (by omega)⟩, hhides⟩
  · rintro (⟨e, he, hrest⟩ | ⟨j, ⟨hj, hrest⟩, hhides⟩)
    · by_cases hhides : hides row = true
      · rw [if_pos hhides] at he
        obtain rfl := Option.some.inj he
        refine ⟨0, ⟨Nat.succ_pos i, fun k hk hki => ?_⟩, by simpa using hhides⟩
        obtain ⟨k, rfl⟩ : ∃ m, k = m + 1 := ⟨k - 1, by omega⟩
        exact hrest k (by omega)
      · rw [if_neg hhides] at he
        cases he
    · refine ⟨j + 1, ⟨by omega, fun k hk hki => ?_⟩, hhides⟩
      obtain ⟨k, rfl⟩ : ∃ m, k = m + 1 := ⟨k - 1, by omega⟩
      exact hrest k (by omega) (by omega)

theorem allDeeper_cons :
    AllDeeper rowDepth hiddenBelow (row :: rows) (i + 1) ↔
      hiddenBelow.any (· < rowDepth row) = true ∧ AllDeeper rowDepth hiddenBelow rows i := by
  constructor
  · rintro ⟨e, rfl, hrest⟩
    exact ⟨decide_eq_true (hrest 0 (Nat.zero_le _)), e, rfl, fun k hk => hrest (k + 1) (Nat.succ_le_succ hk)⟩
  · rintro ⟨hfirst, e, rfl, hrest⟩
    refine ⟨e, rfl, fun k hk => ?_⟩
    cases k with
    | zero => exact of_decide_eq_true hfirst
    | succ k => exact hrest k (Nat.le_of_succ_le_succ hk)

theorem not_hidden_zero : ¬Hidden rowDepth hides rows 0 := fun ⟨_, ⟨hj, _⟩, _⟩ => absurd hj (Nat.not_lt_zero _)

open scoped Classical in
/-- With a depth in hand, what is left out are the rows behind nothing but deeper ones, and the hidden rows. -/
theorem hideBelow_from (rows : List α) (hiddenBelow : Option ℕ) :
    hideBelow rowDepth hides hiddenBelow rows =
      pick (fun i => ¬AllDeeper rowDepth hiddenBelow rows i ∧ ¬Hidden rowDepth hides rows i) rows := by
  induction rows generalizing hiddenBelow with
  | nil => rfl
  | cons row rows ih =>
    have hfirst : AllDeeper rowDepth hiddenBelow (row :: rows) 0 ↔ hiddenBelow.any (· < rowDepth row) = true := by
      constructor
      · rintro ⟨e, rfl, hrest⟩
        exact decide_eq_true (hrest 0 (Nat.le_refl 0))
      · intro hany
        obtain ⟨e, rfl, he⟩ := (Option.any_eq_true _ _).mp hany
        refine ⟨e, rfl, fun k hk => ?_⟩
        obtain rfl : k = 0 := by omega
        exact of_decide_eq_true he
    by_cases hany : hiddenBelow.any (· < rowDepth row) = true
    · rw [hideBelow, if_pos hany, pick, if_neg fun h => h.1 (hfirst.mpr hany), ih]
      refine pick_congr fun i hi => ?_
      rw [allDeeper_cons, hidden_cons]
      have himplied : AllDeeper rowDepth (if hides row then some (rowDepth row) else none) rows i →
          AllDeeper rowDepth hiddenBelow rows i := by
        rintro ⟨e, he, hrest⟩
        obtain ⟨e', rfl, he'⟩ := (Option.any_eq_true _ _).mp hany
        refine ⟨e', rfl, fun k hk => ?_⟩
        split_ifs at he
        obtain rfl := Option.some.inj he
        exact Nat.lt_trans (of_decide_eq_true he') (hrest k hk)
      tauto
    · have hkept : ¬AllDeeper rowDepth hiddenBelow (row :: rows) 0 ∧ ¬Hidden rowDepth hides (row :: rows) 0 :=
        ⟨mt hfirst.mp hany, not_hidden_zero⟩
      rw [hideBelow, if_neg hany, pick, if_pos hkept, ih]
      refine congrArg (row :: ·) (pick_congr fun i hi => ?_)
      rw [allDeeper_cons, hidden_cons]
      tauto

open scoped Classical in
/-- What is left out is what has one of the rows above it. -/
theorem hideBelow_eq (rows : List α) :
    hideBelow rowDepth hides none rows = pick (fun i => ¬Hidden rowDepth hides rows i) rows := by
  rw [hideBelow_from]
  refine pick_congr fun i _ => and_iff_right ?_
  rintro ⟨e, he, -⟩
  cases he

theorem hideBelow_sublist {depth : α → ℕ} {hides : α → Bool} {hiddenBelow : Option ℕ} {rows : List α} :
    (hideBelow depth hides hiddenBelow rows).Sublist rows := by
  induction rows generalizing hiddenBelow with
  | nil => exact .slnil
  | cons row rows ih =>
    rw [hideBelow]
    by_cases hany : hiddenBelow.any (· < depth row) = true
    · rw [if_pos hany]
      exact .cons row ih
    · rw [if_neg hany]
      exact .cons_cons row ih

/-- What is left out depends on the depths and on which rows hide something. -/
theorem map_hideBelow {β : Type u} (f : α → β) (depth : β → ℕ) (hides : β → Bool) (rows : List α) :
    (hideBelow (fun row => depth (f row)) (fun row => hides (f row)) hiddenBelow rows).map f =
      hideBelow depth hides hiddenBelow (rows.map f) := by
  induction rows generalizing hiddenBelow with
  | nil => rfl
  | cons row rows ih =>
    rw [List.map_cons, hideBelow, hideBelow]
    by_cases hany : hiddenBelow.any (· < depth (f row)) = true
    · rw [if_pos hany, if_pos hany]
      exact ih
    · rw [if_neg hany, if_neg hany, List.map_cons]
      exact congrArg (f row :: ·) ih

/-! ### Laying rows out -/

/-- Each depth is at most one more than the one before it. -/
def Grows : ℕ → List ℕ → Prop
  | _, [] => True
  | before, d :: depths => d ≤ before + 1 ∧ Grows d depths

theorem Grows.mono {b d : ℕ} {depths : List ℕ} (h : Grows d depths) (hd : d ≤ b) : Grows b depths := by
  cases depths with
  | nil => trivial
  | cons e depths => exact ⟨Nat.le_trans h.1 (Nat.succ_le_succ hd), h.2⟩

theorem Grows.append {b d : ℕ} {depths depths' : List ℕ} (h : Grows b depths) (hdeeper : ∀ e ∈ depths, d < e)
    (hd : d ≤ b) (h' : Grows d depths') : Grows b (depths ++ depths') := by
  induction depths generalizing b with
  | nil => exact h'.mono hd
  | cons e depths ih =>
    refine ⟨h.1, ih h.2 (fun e he => hdeeper e (List.mem_cons_of_mem _ he)) ?_⟩
    exact Nat.le_of_lt (hdeeper e List.mem_cons_self)

theorem Grows.isChain {b : ℕ} {depths : List ℕ} (h : Grows b depths) :
    (b :: depths).IsChain fun d e => e ≤ d + 1 := by
  induction depths generalizing b with
  | nil => exact .singleton b
  | cons e depths ih => exact .cons_cons h.1 (ih h.2)

/-- Depths that may stand below a row of the given depth. -/
structure Under (d : ℕ) (depths : List ℕ) : Prop where
  deeper : ∀ e ∈ depths, d < e
  grows : Grows d depths

theorem Under.nil {d : ℕ} : Under d [] := ⟨fun _ h => absurd h List.not_mem_nil, trivial⟩

theorem Under.append {d : ℕ} {depths depths' : List ℕ} (h : Under d depths) (h' : Under d depths') :
    Under d (depths ++ depths') := by
  refine ⟨fun e he => ?_, h.grows.append h.deeper (Nat.le_refl d) h'.grows⟩
  rcases List.mem_append.mp he with he | he
  · exact h.deeper e he
  · exact h'.deeper e he

/-- A row with what stands below it. -/
theorem Under.cons {d : ℕ} {depths : List ℕ} (h : Under (d + 1) depths) : Under d ((d + 1) :: depths) := by
  refine ⟨fun e he => ?_, Nat.le_refl _, h.grows⟩
  rcases List.mem_cons.mp he with rfl | he
  · exact Nat.lt_succ_self d
  · exact Nat.lt_trans (Nat.lt_succ_self d) (h.deeper e he)

end HerdrTop.Outline
