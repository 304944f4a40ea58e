import HerdrTop.Library.Runs

/-!
# Monitors of labelled runs

A monitor watches a sequence of labels with a state of its own and rejects some of them. If every step of a
system only carries labels that the monitor accepts, from the states that an invariant relates to the state
of the monitor, then all labels of a run are accepted. What an accepted sequence has between two labels is
read off the monitor.
-/

namespace HerdrTop

universe u v w

/-- A monitor; `none` rejects a label. -/
structure Monitor (ι : Type v) (μ : Type w) where
  next : μ → ι → Option μ

namespace Monitor

variable {ι : Type v} {μ : Type w} {σ : Type u} (m : Monitor ι μ)

/-- Watches labels one after the other. -/
def watch : μ → List ι → Option μ
  | q, [] => some q
  | q, a :: l => (m.next q a).bind fun q => watch q l

variable {m}

@[simp] theorem watch_nil (q : μ) : m.watch q [] = some q := rfl

theorem watch_cons {q q' : μ} {a : ι} {l : List ι} :
    m.watch q (a :: l) = some q' ↔ ∃ r, m.next q a = some r ∧ m.watch r l = some q' := by
  simp [watch, Option.bind_eq_some_iff]

theorem watch_append {q q' : μ} {l l' : List ι} :
    m.watch q (l ++ l') = some q' ↔ ∃ r, m.watch q l = some r ∧ m.watch r l' = some q' := by
  induction l generalizing q with
  | nil => simp
  | cons a l ih =>
    rw [List.cons_append, watch_cons]
    constructor
    · rintro ⟨r, hnext, hwatch⟩
      obtain ⟨t, ht, hwatch⟩ := ih.mp hwatch
      exact ⟨t, watch_cons.mpr ⟨r, hnext, ht⟩, hwatch⟩
    · rintro ⟨t, ht, hwatch⟩
      obtain ⟨r, hnext, ht⟩ := watch_cons.mp ht
      exact ⟨r, hnext, ih.mpr ⟨t, ht, hwatch⟩⟩

/-- A system whose steps are accepted runs only through accepted labels. -/
theorem accepts {R : σ → List ι → σ → Prop} {I : σ → μ → Prop}
    (step : ∀ {s l t q}, R s l t → I s q → ∃ q', m.watch q l = some q' ∧ I t q') {s t : σ} {ls : List ι}
    (h : Runs R s ls t) {q : μ} (hs : I s q) : ∃ q', m.watch q ls = some q' ∧ I t q' := by
  induction h with
  | refl => exact ⟨q, rfl, hs⟩
  | tail _ hr ih =>
    obtain ⟨r, hwatch, hr'⟩ := ih
    obtain ⟨q', hwatch', hq'⟩ := step hr hr'
    exact ⟨q', watch_append.mpr ⟨r, hwatch, hwatch'⟩, hq'⟩

/-- What labels without a certain kind among them keep. -/
theorem watch_keeps {P : μ → Prop} {sep : ι → Prop}
    (keep : ∀ {q q' : μ} {a : ι}, P q → ¬ sep a → m.next q a = some q' → P q') {q q' : μ} {l : List ι}
    (hl : ∀ a ∈ l, ¬ sep a) (h : m.watch q l = some q') (hq : P q) : P q' := by
  induction l generalizing q with
  | nil => exact Option.some.inj h ▸ hq
  | cons a l ih =>
    obtain ⟨r, hnext, h⟩ := watch_cons.mp h
    exact ih (fun b hb => hl b (List.mem_cons_of_mem _ hb)) h (keep hq (hl a List.mem_cons_self) hnext)

end Monitor

end HerdrTop
