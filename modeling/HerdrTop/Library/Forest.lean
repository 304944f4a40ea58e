import Mathlib.Data.List.Perm.Subperm
import Mathlib.Logic.Function.Basic
import Mathlib.Logic.Relation

/-!
# Forests of parent links

Every element has at most one parent, and a parent may be linked to before it has links of its own.
The links form a forest when nothing is above itself.

## What is proved

* `IsForest.update`: giving an element a parent that is not below it keeps the forest.
* `avoids_iff`: the walk up from an element tells whether it meets another one; with one unit of fuel
  more than there are links the walk never runs out early.
-/

namespace HerdrTop.Forest

open Relation

universe u

variable {α : Type u}

/-- The parent of `a` is `b`. -/
def Ascends (parent : α → Option α) (a b : α) : Prop := parent a = some b

/-- Nothing is above itself. -/
def IsForest (parent : α → Option α) : Prop := ∀ a, ¬ TransGen (Ascends parent) a a

/-- Fewer links, still a forest. -/
theorem IsForest.mono {parent parent' : α → Option α} (h : IsForest parent)
    (hsub : ∀ a b, parent' a = some b → parent a = some b) : IsForest parent' := fun a ha =>
  h a (TransGen.mono (show Ascends parent' ≤ Ascends parent from hsub) a a ha)

/-- Without links there is nothing above anything. -/
theorem isForest_none : IsForest fun _ : α => none := by
  intro a ha
  obtain ⟨b, hb, -⟩ := TransGen.head'_iff.mp ha
  cases hb

section

variable [DecidableEq α] {parent : α → Option α} {a : α} {next : Option α}

/-- A way up along the changed links is one along the old links, or it passes through the changed
link. -/
theorem ascends_update {v w : α} (hnext : ∀ b, next = some b → ¬ ReflTransGen (Ascends parent) b a)
    (h : TransGen (Ascends (Function.update parent a next)) v w) :
    TransGen (Ascends parent) v w ∨
      ∃ b, next = some b ∧ ReflTransGen (Ascends parent) v a ∧ ReflTransGen (Ascends parent) b w := by
  have hlink : ∀ x y, Ascends (Function.update parent a next) x y →
      (x = a ∧ next = some y) ∨ Ascends parent x y := by
    intro x y hxy
    unfold Ascends at hxy
    by_cases hx : x = a
    · subst hx
      rw [Function.update_self] at hxy
      exact .inl ⟨rfl, hxy⟩
    · rw [Function.update_of_ne hx] at hxy
      exact .inr hxy
  induction h with
  | single hvw =>
    rcases hlink _ _ hvw with ⟨rfl, hnew⟩ | hold
    · exact .inr ⟨_, hnew, .refl, .refl⟩
    · exact .inl (.single hold)
  | tail _ hxy ih =>
    rcases hlink _ _ hxy with ⟨rfl, hnew⟩ | hold
    · rcases ih with hva | ⟨b, hb, -, hba⟩
      · exact .inr ⟨_, hnew, hva.to_reflTransGen, .refl⟩
      · exact absurd hba (hnext b hb)
    · rcases ih with hvx | ⟨b, hb, hva, hbx⟩
      · exact .inl (hvx.tail hold)
      · exact .inr ⟨b, hb, hva, hbx.tail hold⟩

/-- A parent that is not below the element keeps the forest, and so does none at all. -/
theorem IsForest.update (h : IsForest parent)
    (hnext : ∀ b, next = some b → ¬ ReflTransGen (Ascends parent) b a) :
    IsForest (Function.update parent a next) := by
  intro v hv
  rcases ascends_update hnext hv with hold | ⟨b, hb, hva, hbv⟩
  · exact h v hold
  · exact hnext b hb (hbv.trans hva)

/-! ### The walk up -/

/-- Walks up from an element with as many steps as there is fuel: whether it comes to an end without
meeting `goal` or an element it has seen. -/
def avoids (parent : α → Option α) (goal : α) : ℕ → List α → α → Bool
  | 0, _, _ => false
  | fuel + 1, visited, v =>
    if v = goal ∨ v ∈ visited then false
    else match parent v with
      | some next => avoids parent goal fuel (v :: visited) next
      | none => true

/-- A walk that comes to an end has not met the goal. -/
theorem not_above_of_avoids {goal v : α} {fuel : ℕ} {visited : List α}
    (h : avoids parent goal fuel visited v = true) : ¬ ReflTransGen (Ascends parent) v goal := by
  induction fuel generalizing visited v with
  | zero => cases h
  | succ fuel ih =>
    unfold avoids at h
    split_ifs at h with hmet
    have hne : v ≠ goal := fun e => hmet (.inl e)
    intro hup
    rcases ReflTransGen.cases_head hup with heq | ⟨w, hvw, hup'⟩
    · exact hne heq
    · have hparent : parent v = some w := hvw
      rw [hparent] at h
      exact ih h hup'

/-- In a forest, a walk that does not meet the goal comes to an end before the fuel does: what it has
seen are different elements with parents, and all of them are below it. -/
theorem avoids_of_not_above (hforest : IsForest parent) {linked : List α}
    (hlinked : ∀ v w, parent v = some w → v ∈ linked) {goal v : α} {fuel : ℕ} {visited : List α}
    (hbelow : ∀ x ∈ visited, TransGen (Ascends parent) x v) (hnodup : visited.Nodup)
    (hseen : visited ⊆ linked) (hfuel : linked.length < fuel + visited.length)
    (hgoal : ¬ ReflTransGen (Ascends parent) v goal) : avoids parent goal fuel visited v = true := by
  induction fuel generalizing visited v with
  | zero =>
    have hlength : visited.length ≤ linked.length := (List.subperm_of_subset hnodup hseen).length_le
    omega
  | succ fuel ih =>
    have hfresh : v ∉ visited := fun hv => hforest v (hbelow v hv)
    have hmet : ¬ (v = goal ∨ v ∈ visited) := by
      rintro (rfl | hv)
      · exact hgoal .refl
      · exact hfresh hv
    unfold avoids
    rw [if_neg hmet]
    cases hparent : parent v with
    | none => rfl
    | some next =>
      have hup : Ascends parent v next := hparent
      refine ih ?_ (List.nodup_cons.mpr ⟨hfresh, hnodup⟩) ?_ ?_ fun h => hgoal (.head hup h)
      · intro x hx
        rcases List.mem_cons.mp hx with rfl | hx
        · exact .single hup
        · exact (hbelow x hx).tail hup
      · exact List.cons_subset.mpr ⟨hlinked v next hparent, hseen⟩
      · rw [List.length_cons]
        omega

/-- With one unit of fuel more than there are links, the walk up in a forest comes to an end exactly
when the goal is not above. -/
theorem avoids_iff (hforest : IsForest parent) {linked : List α}
    (hlinked : ∀ v w, parent v = some w → v ∈ linked) {goal v : α} {fuel : ℕ}
    (hfuel : linked.length < fuel) :
    avoids parent goal fuel [] v = true ↔ ¬ ReflTransGen (Ascends parent) v goal := by
  refine ⟨not_above_of_avoids, avoids_of_not_above hforest hlinked ?_ List.nodup_nil ?_ ?_⟩
  · intro x hx
    cases hx
  · exact List.nil_subset _
  · rw [List.length_nil]
    exact hfuel

end

/-! ### What is below -/

theorem rightUnique_ascends (parent : α → Option α) : Relator.RightUnique (Ascends parent) :=
  fun _ _ _ hb hc => Option.some.inj (hb.symm.trans hc)

/-- What is below two children of one parent is below one child. -/
theorem IsForest.siblings {parent : α → Option α} (h : IsForest parent) {a b c d : α} (hb : parent b = some a)
    (hc : parent c = some a) (hdb : ReflTransGen (Ascends parent) d b) (hdc : ReflTransGen (Ascends parent) d c) :
    b = c := by
  have hforth : ∀ {b c}, parent b = some a → parent c = some a → ReflTransGen (Ascends parent) b c → b = c := by
    intro b c hb hc hup
    rcases ReflTransGen.cases_head hup with heq | ⟨e, hbe, hec⟩
    · exact heq
    · obtain rfl := Option.some.inj (hbe.symm.trans hb)
      have hce : Ascends parent c e := hc
      exact absurd (TransGen.head' hce hec) (h c)
  rcases ReflTransGen.total_of_right_unique (rightUnique_ascends parent) hdb hdc with hup | hup
  · exact hforth hb hc hup
  · exact (hforth hc hb hup).symm

/-- What is below two roots is below one root. -/
theorem roots_eq {parent : α → Option α} {a b d : α} (ha : parent a = none) (hb : parent b = none)
    (hda : ReflTransGen (Ascends parent) d a) (hdb : ReflTransGen (Ascends parent) d b) : a = b := by
  have hforth : ∀ {a b}, parent a = none → ReflTransGen (Ascends parent) a b → a = b := by
    intro a b ha hup
    rcases ReflTransGen.cases_head hup with heq | ⟨e, hae, -⟩
    · exact heq
    · exact absurd (ha.symm.trans hae) (Option.some_ne_none e).symm
  rcases ReflTransGen.total_of_right_unique (rightUnique_ascends parent) hda hdb with hup | hup
  · exact hforth ha hup
  · exact (hforth hb hup).symm

end HerdrTop.Forest
