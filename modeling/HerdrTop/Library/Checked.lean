import Mathlib.Data.List.Basic

/-!
# Steps that may fail

What is known once a sequence of steps that may fail has succeeded: every step did, and what every
step keeps is kept by the whole sequence. What is known of a failed sequence, when a failure says what it
left: what every step keeps, also when it fails.
-/

namespace HerdrTop

universe u v w

variable {ε : Type u} {α β : Type v} {σ : Type v} {ι : Type w}

theorem bind_eq_ok {x : Except ε α} {f : α → Except ε β} {b : β} :
    (x >>= f) = .ok b ↔ ∃ a, x = .ok a ∧ f a = .ok b := by
  cases x with
  | error e => simp [bind, Except.bind]
  | ok a => simp [bind, Except.bind]

theorem map_eq_ok {x : Except ε α} {f : α → β} {b : β} :
    x.map f = .ok b ↔ ∃ a, x = .ok a ∧ f a = b := by
  cases x with
  | error e => simp [Except.map]
  | ok a => simp [Except.map]

theorem toOption_eq_some {x : Except ε α} {a : α} : x.toOption = some a ↔ x = .ok a := by
  cases x with
  | error e => simp [Except.toOption]
  | ok a => simp [Except.toOption]

/-- The empty sequence is left alone. -/
theorem foldlM_nil_ok {f : σ → ι → Except ε σ} {s t : σ} : [].foldlM f s = .ok t ↔ s = t := by
  simp [List.foldlM, pure, Except.pure]

/-- The first step, then the others. -/
theorem foldlM_cons_ok {f : σ → ι → Except ε σ} {a : ι} {l : List ι} {s u : σ} :
    (a :: l).foldlM f s = .ok u ↔ ∃ t, f s a = .ok t ∧ l.foldlM f t = .ok u := by
  rw [List.foldlM_cons, bind_eq_ok]

/-- A relation that holds of every step, and of sequences of what it holds of, holds of all steps. -/
theorem foldlM_relates {f : σ → ι → Except ε σ} {R : σ → σ → Prop} (refl : ∀ s, R s s)
    (trans : ∀ {s t u}, R s t → R t u → R s u) {l : List ι}
    (step : ∀ a ∈ l, ∀ {s t}, f s a = .ok t → R s t) {s t : σ} (h : l.foldlM f s = .ok t) : R s t := by
  induction l generalizing s with
  | nil =>
    rw [← foldlM_nil_ok.mp h]
    exact refl s
  | cons a l ih =>
    obtain ⟨next, hfirst, hrest⟩ := foldlM_cons_ok.mp h
    exact trans (step a List.mem_cons_self hfirst)
      (ih (fun b hb => step b (List.mem_cons_of_mem a hb)) hrest)

/-- What every step keeps is kept. -/
theorem foldlM_keeps {f : σ → ι → Except ε σ} {I : σ → Prop} {l : List ι}
    (step : ∀ a ∈ l, ∀ {s t}, f s a = .ok t → I s → I t) {s t : σ} (h : l.foldlM f s = .ok t)
    (hs : I s) : I t :=
  foldlM_relates (R := fun s t => I s → I t) (fun _ h => h) (fun h h' hs => h' (h hs)) step h hs

/-- What the step of an element establishes and every step keeps holds for all elements in the end. -/
theorem foldlM_establishes {f : σ → ι → Except ε σ} {I : σ → Prop} {P : ι → σ → Prop} {l : List ι}
    (step : ∀ a ∈ l, ∀ {s t}, f s a = .ok t → I s → I t ∧ P a t ∧ ∀ b, P b s → P b t) {s t : σ}
    (h : l.foldlM f s = .ok t) (hs : I s) : I t ∧ ∀ a, a ∈ l ∨ P a s → P a t := by
  induction l generalizing s with
  | nil =>
    rw [← foldlM_nil_ok.mp h]
    exact ⟨hs, fun a ha => ha.resolve_left List.not_mem_nil⟩
  | cons a l ih =>
    obtain ⟨next, hfirst, hrest⟩ := foldlM_cons_ok.mp h
    obtain ⟨hnext, hdone, hkept⟩ := step a List.mem_cons_self hfirst hs
    obtain ⟨ht, hall⟩ := ih (fun b hb => step b (List.mem_cons_of_mem a hb)) hrest hnext
    refine ⟨ht, fun b hb => hall b ?_⟩
    rcases hb with hb | hb
    · rcases List.mem_cons.mp hb with rfl | hb
      · exact .inr hdone
      · exact .inl hb
    · exact .inr (hkept b hb)

/-- A step leaves something: what comes out of it, and else what its failure carries, is so. -/
def Leaves (P : α → Prop) (Q : ε → Prop) : Except ε α → Prop
  | .ok a => P a
  | .error e => Q e

section

variable {P : α → Prop} {P' : β → Prop} {Q : ε → Prop}

/-- A step, and another one after it. -/
theorem Leaves.bind {x : Except ε α} {f : α → Except ε β} (h : Leaves P Q x) (h' : ∀ a, P a → Leaves P' Q (f a)) :
    Leaves P' Q (x >>= f) := by
  cases x with
  | error e => exact h
  | ok a => exact h' a h

/-- What every step leaves, one after the other. -/
theorem Leaves.foldlM {f : σ → ι → Except ε σ} {I : σ → Prop} (step : ∀ s a, I s → Leaves I Q (f s a)) {s : σ}
    (hs : I s) (l : List ι) : Leaves I Q (l.foldlM f s) := by
  induction l generalizing s with
  | nil => exact hs
  | cons a l ih =>
    rw [List.foldlM_cons]
    exact (step s a hs).bind fun t ht => ih ht

end

/-- Steps that succeed where an invariant holds, and keep it, succeed one after the other. -/
theorem foldlM_succeeds {f : σ → ι → Except ε σ} {I : σ → Prop} {l : List ι}
    (step : ∀ a ∈ l, ∀ {s}, I s → ∃ t, f s a = .ok t ∧ I t) {s : σ} (hs : I s) :
    ∃ t, l.foldlM f s = .ok t ∧ I t := by
  induction l generalizing s with
  | nil => exact ⟨s, rfl, hs⟩
  | cons a l ih =>
    obtain ⟨t, hfirst, ht⟩ := step a List.mem_cons_self hs
    obtain ⟨u, hrest, hu⟩ := ih (fun b hb => step b (List.mem_cons_of_mem a hb)) ht
    exact ⟨u, foldlM_cons_ok.mpr ⟨t, hfirst, hrest⟩, hu⟩

/-- Steps that succeed and keep what holds of the items so far build what holds of all of them. -/
theorem foldlM_builds {f : σ → ι → Option σ} {I : List ι → σ → Prop} {l : List ι} {s : σ} (hs : I [] s)
    (step : ∀ done a rest s, l = done ++ a :: rest → I done s → ∃ t, f s a = some t ∧ I (done ++ [a]) t) :
    ∃ t, l.foldlM f s = some t ∧ I l t := by
  have hfrom : ∀ rest done s, l = done ++ rest → I done s → ∃ t, rest.foldlM f s = some t ∧ I l t := by
    intro rest
    induction rest with
    | nil =>
      intro done s hl hs
      rw [List.append_nil] at hl
      exact ⟨s, rfl, hl ▸ hs⟩
    | cons a rest ih =>
      intro done s hl hs
      obtain ⟨next, hfirst, hnext⟩ := step done a rest s hl hs
      obtain ⟨t, hrest, ht⟩ := ih (done ++ [a]) next (by rw [hl, List.append_cons]) hnext
      refine ⟨t, ?_, ht⟩
      rw [List.foldlM_cons, hfirst]
      exact hrest
  exact hfrom l [] s rfl hs

/-- Two sequences of steps that go along with each other. -/
theorem foldlM_parallel {f g : σ → ι → Option σ} {R : σ → σ → Prop} {l : List ι}
    (step : ∀ a ∈ l, ∀ s t, R s t → Option.Rel R (f s a) (g t a)) {s t : σ} (hs : R s t) :
    Option.Rel R (l.foldlM f s) (l.foldlM g t) := by
  induction l generalizing s t with
  | nil => exact .some hs
  | cons a l ih =>
    have hfirst := step a List.mem_cons_self s t hs
    rw [List.foldlM_cons, List.foldlM_cons]
    generalize f s a = s', g t a = t' at hfirst
    cases hfirst with
    | none => exact .none
    | some hnext => exact ih (fun b hb => step b (List.mem_cons_of_mem a hb)) hnext

/-- Results that go along with each other stay so under functions that keep that. -/
theorem rel_map {α' β' : Type v} {R : α → α' → Prop} {S : β → β' → Prop} {f : α → β} {g : α' → β'} {x : Option α}
    {y : Option α'} (h : Option.Rel R x y) (hfg : ∀ a b, R a b → S (f a) (g b)) : Option.Rel S (x.map f) (y.map g) := by
  cases h with
  | none => exact .none
  | some hab => exact .some (hfg _ _ hab)

theorem rel_bind {α' β' : Type v} {R : α → α' → Prop} {S : β → β' → Prop} {f : α → Option β} {g : α' → Option β'}
    {x : Option α} {y : Option α'} (h : Option.Rel R x y) (hfg : ∀ a b, R a b → Option.Rel S (f a) (g b)) :
    Option.Rel S (x.bind f) (y.bind g) := by
  cases h with
  | none => exact .none
  | some hab => exact hfg _ _ hab

theorem mapM_succeeds {ε : Type u} {α : Type w} {β : Type v} {f : α → Except ε β} {l : List α}
    (h : ∀ a ∈ l, ∃ b, f a = .ok b) : ∃ bs, l.mapM f = .ok bs := by
  induction l with
  | nil => exact ⟨[], rfl⟩
  | cons a l ih =>
    obtain ⟨b, hb⟩ := h a List.mem_cons_self
    obtain ⟨bs, hbs⟩ := ih fun x hx => h x (List.mem_cons_of_mem a hx)
    refine ⟨b :: bs, ?_⟩
    rw [List.mapM_cons, hb, hbs]
    rfl

end HerdrTop
