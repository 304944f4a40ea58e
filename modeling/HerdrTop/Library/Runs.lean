import Mathlib.Data.List.Basic

/-!
# Labelled runs

A step relation `R s l t` leads from a state to a state and carries a list of labels; a run is a
sequence of steps with all their labels, in order. Invariants are proved for one step, and so is
that one system's runs are runs of another.
-/

namespace HerdrTop

universe u v w

variable {σ : Type u} {τ : Type v} {ι : Type w}

/-- A sequence of steps, with their labels. -/
inductive Runs (R : σ → List ι → σ → Prop) : σ → List ι → σ → Prop
  /-- No step. -/
  | refl (s : σ) : Runs R s [] s
  /-- One more step. -/
  | tail {s t u : σ} {ls l : List ι} : Runs R s ls t → R t l u → Runs R s (ls ++ l) u

namespace Runs

variable {R : σ → List ι → σ → Prop} {s t u : σ} {l ls ls' : List ι}

theorem one (h : R s l t) : Runs R s l t := by simpa using (refl s).tail h

theorem trans (h : Runs R s ls t) (h' : Runs R t ls' u) : Runs R s (ls ++ ls') u := by
  induction h' with
  | refl => simpa using h
  | tail _ hr ih =>
    rw [← List.append_assoc]
    exact ih.tail hr

/-- A run without labels before another one. -/
theorem before (h : Runs R s [] t) (h' : Runs R t ls u) : Runs R s ls u := h.trans h'

/-- What every step keeps, every run keeps. -/
theorem invariant {I : σ → Prop} (step : ∀ {s l t}, R s l t → I s → I t) (h : Runs R s ls t)
    (hs : I s) : I t := by
  induction h with
  | refl => exact hs
  | tail _ hr ih => exact step hr ih

/-- Runs whose steps are runs of another system, from the states that an invariant describes. -/
theorem lift {R' : τ → List ι → τ → Prop} {f : σ → τ} {I : σ → Prop}
    (step : ∀ {s l t}, R s l t → I s → I t ∧ Runs R' (f s) l (f t)) (h : Runs R s ls t) (hs : I s) :
    I t ∧ Runs R' (f s) ls (f t) := by
  induction h with
  | refl => exact ⟨hs, refl _⟩
  | tail _ hr ih =>
    obtain ⟨ht, hrun⟩ := ih
    obtain ⟨hu, hrun'⟩ := step hr ht
    exact ⟨hu, hrun.trans hrun'⟩

/-- What every step keeps unless it carries some label, every run keeps unless it carries it. -/
theorem invariant_unless {I : σ → Prop} {F : ι → Prop}
    (step : ∀ {s l t}, R s l t → I s → (∃ a ∈ l, F a) ∨ I t) (h : Runs R s ls t) (hs : I s) :
    (∃ a ∈ ls, F a) ∨ I t := by
  induction h with
  | refl => exact .inr hs
  | tail _ hr ih =>
    rcases ih with ⟨a, ha, hF⟩ | ht
    · exact .inl ⟨a, List.mem_append_left _ ha, hF⟩
    · rcases step hr ht with ⟨a, ha, hF⟩ | hu
      · exact .inl ⟨a, List.mem_append_right _ ha, hF⟩
      · exact .inr hu

/-- The step of a run that carries a given one of its labels, and the runs before and after it. -/
theorem around (h : Runs R s ls t) {before rest : List ι} {a : ι} (hls : ls = before ++ a :: rest) :
    ∃ u v earlier later l₁ l₂, Runs R s earlier u ∧ R u (l₁ ++ a :: l₂) v ∧ Runs R v later t ∧
      before = earlier ++ l₁ ∧ rest = l₂ ++ later := by
  induction h generalizing before rest with
  | refl => cases before <;> cases hls
  | @tail t u ls l hrun hr ih =>
    rcases List.append_eq_append_iff.mp hls with ⟨l₁, hbefore, hl⟩ | ⟨rest', hls', hrest⟩
    · exact ⟨t, u, ls, [], l₁, rest, hrun, hl ▸ hr, refl _, hbefore, (List.append_nil _).symm⟩
    · cases rest' with
      | nil =>
        rw [List.append_nil] at hls'
        rw [List.nil_append] at hrest
        exact ⟨t, u, ls, [], [], rest, hrun, hrest ▸ hr, refl _, by rw [hls', List.append_nil],
          (List.append_nil _).symm⟩
      | cons b rest' =>
        obtain ⟨rfl, rfl⟩ := List.cons.inj hrest
        obtain ⟨u', v', earlier, later, l₁, l₂, hearlier, hstep, hlater, hbefore, hrest'⟩ := ih hls'
        refine ⟨u', v', earlier, later ++ l, l₁, l₂, hearlier, hstep, hlater.tail hr, hbefore, ?_⟩
        rw [hrest']
        exact List.append_assoc _ _ _

/-- The step of a run that carries a given one of its labels. -/
theorem step_at (h : Runs R s ls t) {before rest : List ι} {a : ι} (hls : ls = before ++ a :: rest) :
    ∃ u v earlier l₁ l₂, Runs R s earlier u ∧ R u (l₁ ++ a :: l₂) v ∧ before = earlier ++ l₁ := by
  obtain ⟨u, v, earlier, -, l₁, l₂, hearlier, hstep, -, hbefore, -⟩ := h.around hls
  exact ⟨u, v, earlier, l₁, l₂, hearlier, hstep, hbefore⟩

theorem mono {R' : σ → List ι → σ → Prop} (step : ∀ {s l t}, R s l t → R' s l t)
    (h : Runs R s ls t) : Runs R' s ls t := by
  induction h with
  | refl => exact refl _
  | tail _ hr ih => exact ih.tail (step hr)

end Runs

end HerdrTop
