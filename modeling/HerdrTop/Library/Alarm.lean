import Mathlib.Data.List.Basic
import Mathlib.Tactic.Tauto

/-!
# Alarms that outlast their cause

An alarm looks at a system now and then. A look that sees a breach raises it, and the alarm remembers a
mark; it stays raised as long as every look finds that what the mark names is not over. Only a look that
finds no alarm raised takes a new mark.

What the alarm remembers is computed look by look (`after`); `isSome_after_cons` says what that means for
the looks taken together.
-/

namespace HerdrTop

universe u v

/-- When an alarm is raised, and how long it stays so. -/
structure Alarm (ν : Type u) (μ : Type v) where
  /-- Whether a look sees a breach. -/
  breach : ν → Bool
  /-- What a look that raises the alarm remembers. -/
  mark : ν → μ
  /-- Whether a look finds that what was remembered is not over. -/
  lasts : μ → ν → Bool

namespace Alarm

variable {ν : Type u} {μ : Type v} (a : Alarm ν μ)

/-- One more look. -/
def next (raised : Option μ) (look : ν) : Option μ :=
  match raised.filter (a.lasts · look) with
  | some mark => some mark
  | none => if a.breach look then some (a.mark look) else none

theorem next_none (look : ν) : a.next none look = if a.breach look then some (a.mark look) else none := rfl

theorem next_some (mark : μ) (look : ν) :
    a.next (some mark) look = if a.lasts mark look then some mark else a.next none look := by
  unfold next
  rw [Option.filter_some]
  split_ifs <;> rfl

/-- A look keeps the mark or takes its own. -/
theorem next_cases {a : Alarm ν μ} {raised : Option μ} {look : ν} {mark : μ}
    (h : a.next raised look = some mark) : raised = some mark ∨ a.mark look = mark := by
  cases raised with
  | none =>
    rw [next_none] at h
    split_ifs at h
    exact .inr (Option.some.inj h)
  | some kept =>
    rw [next_some, next_none] at h
    split_ifs at h
    · exact .inl h
    · exact .inr (Option.some.inj h)

/-- What is remembered after looks; the latest comes first. -/
def after : List ν → Option μ
  | [] => none
  | look :: past => a.next (after past) look

/-- Whether the first look of a list, the latest, raises the alarm: it sees a breach, and no alarm that an
earlier look raised lasts up to it. -/
def Raises : List ν → Prop
  | [] => False
  | look :: past =>
    a.breach look = true ∧ ¬ ∃ later opener earlier, ∃ _ : past = later ++ opener :: earlier,
      Raises (opener :: earlier) ∧ ∀ l ∈ look :: later, a.lasts (a.mark opener) l = true
  termination_by looks => looks.length
  decreasing_by
    subst past
    simp only [List.length_cons, List.length_append]
    omega

/-- The looks among which one raised an alarm that lasts up to the latest of them. -/
def Lasting (looks : List ν) (mark : μ) : Prop :=
  ∃ later opener earlier, looks = later ++ opener :: earlier ∧ a.Raises (opener :: earlier) ∧
    (∀ l ∈ later, a.lasts (a.mark opener) l = true) ∧ mark = a.mark opener

variable {a} {looks past : List ν} {look : ν} {mark mark' : μ}

theorem raises_cons :
    a.Raises (look :: past) ↔ a.breach look = true ∧ ¬ ∃ later opener earlier,
      past = later ++ opener :: earlier ∧ a.Raises (opener :: earlier) ∧
        ∀ l ∈ look :: later, a.lasts (a.mark opener) l = true := by
  rw [Raises]
  simp only [exists_prop]

theorem lasting_cons :
    a.Lasting (look :: past) mark ↔ a.Raises (look :: past) ∧ mark = a.mark look ∨
      a.Lasting past mark ∧ a.lasts mark look = true := by
  constructor
  · rintro ⟨_ | ⟨l, later⟩, opener, earlier, hlooks, hraises, hlasts, rfl⟩
    · cases hlooks
      exact .inl ⟨hraises, rfl⟩
    · cases hlooks
      exact .inr ⟨⟨later, opener, earlier, rfl, hraises, fun l hl => hlasts l (List.mem_cons_of_mem _ hl), rfl⟩,
        hlasts _ List.mem_cons_self⟩
  · rintro (⟨hraises, rfl⟩ | ⟨⟨later, opener, earlier, rfl, hraises, hlasts, rfl⟩, hlook⟩)
    · exact ⟨[], look, past, rfl, hraises, by simp, rfl⟩
    · exact ⟨look :: later, opener, earlier, rfl, hraises, List.forall_mem_cons.mpr ⟨hlook, hlasts⟩, rfl⟩

/-- An alarm that lasts up to a look was raised by an earlier look, and every look since found it not over. -/
theorem exists_lasting :
    (∃ mark, a.Lasting past mark ∧ a.lasts mark look = true) ↔ ∃ later opener earlier,
      past = later ++ opener :: earlier ∧ a.Raises (opener :: earlier) ∧
        ∀ l ∈ look :: later, a.lasts (a.mark opener) l = true := by
  constructor
  · rintro ⟨_, ⟨later, opener, earlier, hpast, hraises, hlater, rfl⟩, hlook⟩
    exact ⟨later, opener, earlier, hpast, hraises, List.forall_mem_cons.mpr ⟨hlook, hlater⟩⟩
  · rintro ⟨later, opener, earlier, hpast, hraises, hlasts⟩
    obtain ⟨hlook, hlater⟩ := List.forall_mem_cons.mp hlasts
    exact ⟨_, ⟨later, opener, earlier, hpast, hraises, hlater, rfl⟩, hlook⟩

/-- A look raises the alarm when it sees a breach and no alarm lasts up to it. -/
theorem raises_iff :
    a.Raises (look :: past) ↔
      a.breach look = true ∧ ¬ ∃ mark, a.Lasting past mark ∧ a.lasts mark look = true := by
  rw [raises_cons, exists_lasting]

/-- The alarm remembers the mark that lasts. -/
theorem after_eq_some : a.after looks = some mark ↔ a.Lasting looks mark := by
  induction looks generalizing mark with
  | nil =>
    constructor
    · intro h
      cases h
    · rintro ⟨_ | ⟨_, _⟩, _, _, hlooks, -⟩ <;> cases hlooks
  | cons look past ih =>
    rw [lasting_cons, raises_iff]
    show a.next (a.after past) look = some mark ↔ _
    unfold next
    cases hkept : (a.after past).filter (a.lasts · look) with
    | some kept =>
      obtain ⟨hafter, hlasts⟩ := Option.filter_eq_some_iff.mp hkept
      constructor
      · intro h
        cases h
        exact .inr ⟨ih.mp hafter, hlasts⟩
      · rintro (⟨⟨-, hnone⟩, -⟩ | ⟨hlasting, -⟩)
        · exact absurd ⟨kept, ih.mp hafter, hlasts⟩ hnone
        · exact hafter.symm.trans (ih.mpr hlasting)
    | none =>
      have hnone : ¬ ∃ mark, a.Lasting past mark ∧ a.lasts mark look = true := by
        rintro ⟨mark, hlasting, hlasts⟩
        rw [ih.mpr hlasting, Option.filter_some, if_pos hlasts] at hkept
        cases hkept
      dsimp only
      split_ifs with hbreach
      · constructor
        · intro h
          exact .inl ⟨⟨hbreach, hnone⟩, (Option.some.inj h).symm⟩
        · rintro (⟨-, rfl⟩ | h)
          · rfl
          · exact absurd ⟨mark, h⟩ hnone
      · constructor
        · intro h
          cases h
        · rintro (⟨⟨hbreach', -⟩, -⟩ | h)
          · exact absurd hbreach' hbreach
          · exact absurd ⟨mark, h⟩ hnone

/-- The alarm is raised exactly when the latest look sees a breach or an earlier look raised it and every
look since then found it not over. -/
theorem isSome_after_cons :
    (a.after (look :: past)).isSome = true ↔ a.breach look = true ∨ ∃ later opener earlier,
      past = later ++ opener :: earlier ∧ a.Raises (opener :: earlier) ∧
        ∀ l ∈ look :: later, a.lasts (a.mark opener) l = true := by
  rw [← exists_lasting, Option.isSome_iff_exists]
  simp only [after_eq_some]
  constructor
  · rintro ⟨mark, hlasting⟩
    obtain ⟨hraises, -⟩ | hlasting := lasting_cons.mp hlasting
    · exact .inl (raises_iff.mp hraises).1
    · exact .inr ⟨mark, hlasting⟩
  · intro h
    by_cases hlasting : ∃ mark, a.Lasting past mark ∧ a.lasts mark look = true
    · obtain ⟨mark, hlasting⟩ := hlasting
      exact ⟨mark, lasting_cons.mpr (.inr hlasting)⟩
    · have hraises : a.Raises (look :: past) := raises_iff.mpr ⟨h.resolve_right hlasting, hlasting⟩
      exact ⟨_, lasting_cons.mpr (.inl ⟨hraises, rfl⟩)⟩

end Alarm

end HerdrTop
