import HerdrTop.Library.HashMap
import Mathlib.Data.List.Induction
import Mathlib.Order.Basic

/-!
# The best candidate of each key

A loop that goes through candidates, each with a key, and keeps the one of lowest rank for each key. What
it keeps for a key depends on the candidates of that key only, and, when no two of them have the same rank,
not on the order in which they come.
-/

namespace HerdrTop.Champions

universe u v w

variable {κ : Type u} {α : Type v} {ρ : Type w} [LinearOrder ρ] (rank : α → ρ)

/-- The better of the one that was kept and a candidate; the kept one stays when they are equal. -/
def better (kept : Option α) (candidate : α) : Option α :=
  match kept with
  | none => some candidate
  | some current => if rank candidate < rank current then some candidate else some current

/-- The best candidate of a list. -/
def champion (l : List α) : Option α := l.foldl (better rank) none

section

variable {rank} {l l' : List α} {a b : α}

theorem champion_append : champion rank (l ++ [a]) = better rank (champion rank l) a := List.foldl_concat ..

theorem champion_eq_none : champion rank l = none ↔ l = [] := by
  induction l using List.reverseRecOn with
  | nil => exact ⟨fun _ => rfl, fun _ => rfl⟩
  | append_singleton l a _ =>
    have hsome : better rank (champion rank l) a ≠ none := by
      unfold better
      split
      · exact Option.some_ne_none _
      · split_ifs <;> exact Option.some_ne_none _
    rw [champion_append]
    exact ⟨fun h => absurd h hsome, fun h => absurd h (List.append_ne_nil_of_right_ne_nil _ (List.cons_ne_nil _ _))⟩

/-- The best candidate is one of the candidates, and none has a lower rank. -/
theorem champion_spec (h : champion rank l = some a) : a ∈ l ∧ ∀ b ∈ l, rank a ≤ rank b := by
  induction l using List.reverseRecOn generalizing a with
  | nil => cases h
  | append_singleton l c ih =>
    rw [champion_append] at h
    cases hkept : champion rank l with
    | none =>
      rw [hkept] at h
      obtain rfl := Option.some.inj h
      rw [champion_eq_none.mp hkept]
      refine ⟨List.mem_singleton_self _, fun b hb => ?_⟩
      exact (congrArg rank (List.mem_singleton.mp hb)).ge
    | some current =>
      obtain ⟨hmem, hleast⟩ := ih hkept
      rw [hkept, better] at h
      split_ifs at h with hlt
      · obtain rfl := Option.some.inj h
        refine ⟨List.mem_append_right _ (List.mem_singleton_self _), fun b hb => ?_⟩
        rcases List.mem_append.mp hb with hb | hb
        · exact hlt.le.trans (hleast b hb)
        · exact (congrArg rank (List.mem_singleton.mp hb)).ge
      · obtain rfl := Option.some.inj h
        refine ⟨List.mem_append_left _ hmem, fun b hb => ?_⟩
        rcases List.mem_append.mp hb with hb | hb
        · exact hleast b hb
        · rw [List.mem_singleton.mp hb]
          exact le_of_not_gt hlt

/-- Candidates of different ranks have one that is best. -/
theorem champion_eq_some (hrank : ∀ a ∈ l, ∀ b ∈ l, rank a = rank b → a = b) :
    champion rank l = some a ↔ a ∈ l ∧ ∀ b ∈ l, rank a ≤ rank b := by
  constructor
  · exact champion_spec
  · rintro ⟨hmem, hleast⟩
    have hsome : champion rank l ≠ none := fun hnone =>
      List.ne_nil_of_mem hmem (champion_eq_none.mp hnone)
    obtain ⟨b, hb⟩ := Option.ne_none_iff_exists'.mp hsome
    obtain ⟨hbmem, hbleast⟩ := champion_spec hb
    rw [hb, hrank b hbmem a hmem (le_antisymm (hbleast a hmem) (hleast b hbmem))]

/-- The order in which candidates of different ranks come does not matter. -/
theorem champion_perm (hrank : ∀ a ∈ l, ∀ b ∈ l, rank a = rank b → a = b) (hperm : l.Perm l') :
    champion rank l' = champion rank l := by
  refine Option.ext fun a => ?_
  rw [champion_eq_some hrank, champion_eq_some]
  · simp only [hperm.mem_iff]
  · intro a ha b hb
    exact hrank a (hperm.mem_iff.mpr ha) b (hperm.mem_iff.mpr hb)

end

variable [DecidableEq κ]

/-- Keeps a candidate for a key if it is better than the one that was kept. -/
def keepBest (m : HashMap κ α) (k : κ) (candidate : α) : HashMap κ α :=
  match m.get k with
  | none => m.insert k candidate
  | some current => if rank candidate < rank current then m.insert k candidate else m

variable {rank}

theorem get_keepBest (m : HashMap κ α) (k k' : κ) (candidate : α) :
    (keepBest rank m k candidate).get k' = if k' = k then better rank (m.get k) candidate else m.get k' := by
  unfold keepBest better
  cases hget : m.get k with
  | none => exact HashMap.get_insert ..
  | some current =>
    by_cases hlt : rank candidate < rank current
    · simp only [if_pos hlt]
      exact HashMap.get_insert ..
    · simp only [if_neg hlt]
      split_ifs with hk
      · rw [hk, hget]
      · rfl

/-- What is kept for a key is the best of the candidates with this key that were not passed over. -/
theorem get_foldl_keepBest {β : Type*} (skip : β → Bool) (key : β → κ) (candidate : β → α) (l : List β) (k : κ) :
    (l.foldl (fun m b => if skip b then m else keepBest rank m (key b) (candidate b)) ∅).get k =
      champion rank ((l.filter fun b => !skip b && key b = k).map candidate) := by
  induction l using List.reverseRecOn with
  | nil => rfl
  | append_singleton l b ih =>
    rw [List.foldl_concat, List.filter_append, List.map_append]
    have hsame : (!skip b && decide (key b = k)) = false →
        [b].filter (fun b => !skip b && key b = k) = [] := fun h => by rw [List.filter_singleton, h, cond_false]
    by_cases hskip : skip b = true
    · rw [if_pos hskip, ih, hsame (by rw [hskip]; rfl), List.map_nil, List.append_nil]
    · rw [if_neg hskip, get_keepBest]
      by_cases hk : key b = k
      · rw [if_pos hk.symm, hk, ih, List.filter_singleton, decide_eq_true hk, Bool.eq_false_iff.mpr hskip]
        exact champion_append.symm
      · rw [if_neg (Ne.symm hk), ih, hsame (by rw [decide_eq_false hk, Bool.and_false]), List.map_nil, List.append_nil]

end HerdrTop.Champions
