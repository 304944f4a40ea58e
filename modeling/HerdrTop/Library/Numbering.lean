import Mathlib.Data.Int.Order.Basic

/-!
# Numbers drawn from a counter

Holders get numbers from a counter that only grows. A step may draw the next number for one holder
that has none, and it may take numbers away; then no two holders ever have the same number, every
number is below the counter, and a holder that has a number before and after a step has the same one.
-/

namespace HerdrTop

universe u

/-- Who has which number, and the next one to draw. -/
structure Numbering (H : Type u) where
  number : H → Option ℤ
  next : ℤ

namespace Numbering

variable {H : Type u} {n n' : Numbering H}

/-- No two holders have the same number, and every number was drawn. -/
structure Unique (n : Numbering H) : Prop where
  /-- A number has one holder. -/
  distinct : ∀ h h' o, n.number h = some o → n.number h' = some o → h = h'
  /-- The counter is beyond it. -/
  below : ∀ h o, n.number h = some o → o < n.next

/-- One holder at most gets the next number, the others keep theirs or lose them. -/
inductive Step (n n' : Numbering H) : Prop
  /-- No number is drawn for anybody. -/
  | keep (next : n.next ≤ n'.next)
      (kept : ∀ h o, n'.number h = some o → n.number h = some o)
  /-- One holder gets the next number. -/
  | draw (holder : H) (absent : n.number holder = none) (next : n'.next = n.next + 1)
      (drawn : n'.number holder = some n.next)
      (kept : ∀ h, h ≠ holder → n'.number h = n.number h)

/-- Numbers stay unique. -/
theorem Step.unique (h : Step n n') (hn : n.Unique) : n'.Unique := by
  cases h with
  | keep next kept =>
    exact ⟨fun a b o ha hb => hn.distinct a b o (kept a o ha) (kept b o hb),
      fun a o ha => lt_of_lt_of_le (hn.below a o (kept a o ha)) next⟩
  | draw holder absent next drawn kept =>
    have hold : ∀ a o, a ≠ holder → n'.number a = some o → o < n.next := fun a o hne ha =>
      hn.below a o (kept a hne ▸ ha)
    refine ⟨fun a b o ha hb => ?_, fun a o ha => ?_⟩
    · by_cases h1 : a = holder <;> by_cases h2 : b = holder
      · rw [h1, h2]
      · rw [h1, drawn] at ha
        cases ha
        exact absurd (hold b _ h2 hb) (lt_irrefl _)
      · rw [h2, drawn] at hb
        cases hb
        exact absurd (hold a _ h1 ha) (lt_irrefl _)
      · exact hn.distinct a b o (kept a h1 ▸ ha) (kept b h2 ▸ hb)
    · rw [next]
      by_cases h1 : a = holder
      · rw [h1, drawn] at ha
        cases ha
        exact Int.lt_add_one_iff.mpr le_rfl
      · exact lt_trans (hold a o h1 ha) (Int.lt_add_one_iff.mpr le_rfl)

/-- The counter does not go back. -/
theorem Step.next_le (h : Step n n') : n.next ≤ n'.next := by
  cases h with
  | keep next _ => exact next
  | draw _ _ next _ _ =>
    rw [next]
    exact Int.le_add_one le_rfl

/-- Nothing changes. -/
theorem Step.refl (n : Numbering H) : Step n n := .keep le_rfl fun _ _ h => h

end Numbering

end HerdrTop
