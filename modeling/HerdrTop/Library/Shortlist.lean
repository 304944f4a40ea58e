import Mathlib.Data.List.Sort

/-!
# Shortlists

A shortlist keeps the best entries of a list: highest rank first, one entry for each identity, at most so
many. Making a shortlist of a shortlist changes nothing.
-/

namespace HerdrTop.Shortlist

universe u v w

variable {α : Type u} {ι : Type v} {κ : Type w}

/-- The first entry of every identity that was not seen. -/
def keepFirst [DecidableEq ι] (identity : α → ι) (seen : List ι) : List α → List α
  | [] => []
  | a :: l =>
    if identity a ∈ seen then keepFirst identity seen l
    else a :: keepFirst identity (identity a :: seen) l

/-- Highest rank first. -/
def descending [LinearOrder κ] (rank : α → κ) (l : List α) : List α :=
  l.insertionSort fun a b => rank b ≤ rank a

/-- The shortlist of a list. -/
def shortlist [LinearOrder κ] [DecidableEq ι] (rank : α → κ) (identity : α → ι) (limit : ℕ) (l : List α) :
    List α :=
  (keepFirst identity [] (descending rank l)).take limit

/-- A list that is a shortlist already. -/
structure IsShortlist [LinearOrder κ] (rank : α → κ) (identity : α → ι) (limit : ℕ) (l : List α) : Prop where
  sorted : l.Pairwise fun a b => rank b ≤ rank a
  distinct : (l.map identity).Nodup
  bounded : l.length ≤ limit

section KeepFirst

variable [DecidableEq ι] {identity : α → ι} {seen : List ι} {l : List α}

theorem keepFirst_sublist : List.Sublist (keepFirst identity seen l) l := by
  induction l generalizing seen with
  | nil => exact .refl _
  | cons a l ih =>
    unfold keepFirst
    split_ifs
    · exact ih.cons a
    · exact ih.cons_cons a

theorem keepFirst_notMem {a : α} (h : a ∈ keepFirst identity seen l) : identity a ∉ seen := by
  induction l generalizing seen with
  | nil => cases h
  | cons b l ih =>
    unfold keepFirst at h
    split_ifs at h with hb
    · exact ih h
    · rcases List.mem_cons.mp h with rfl | h
      · exact hb
      · exact fun hseen => ih h (List.mem_cons_of_mem _ hseen)

theorem keepFirst_nodup : ((keepFirst identity seen l).map identity).Nodup := by
  induction l generalizing seen with
  | nil => exact List.nodup_nil
  | cons a l ih =>
    unfold keepFirst
    split_ifs
    · exact ih
    · rw [List.map_cons, List.nodup_cons]
      refine ⟨fun hmem => ?_, ih⟩
      obtain ⟨b, hb, heq⟩ := List.mem_map.mp hmem
      exact keepFirst_notMem hb (heq ▸ List.mem_cons_self)

/-- Every identity that was not seen is kept. -/
theorem keepFirst_identity {i : ι} (h : i ∈ l.map identity) (hnew : i ∉ seen) :
    i ∈ (keepFirst identity seen l).map identity := by
  induction l generalizing seen with
  | nil => cases h
  | cons a l ih =>
    unfold keepFirst
    rcases List.mem_cons.mp h with rfl | h
    · rw [if_neg hnew]
      exact List.mem_cons_self
    · split_ifs with ha
      · exact ih h hnew
      · by_cases hi : i = identity a
        · rw [hi]
          exact List.mem_cons_self
        · refine List.mem_cons_of_mem _ (ih h fun hseen => ?_)
          exact (List.mem_cons.mp hseen).elim hi hnew

theorem keepFirst_eq_self (hnodup : (l.map identity).Nodup) (hnew : ∀ a ∈ l, identity a ∉ seen) :
    keepFirst identity seen l = l := by
  induction l generalizing seen with
  | nil => rfl
  | cons a l ih =>
    rw [List.map_cons, List.nodup_cons] at hnodup
    unfold keepFirst
    rw [if_neg (hnew a List.mem_cons_self), ih hnodup.2]
    intro b hb hseen
    rcases List.mem_cons.mp hseen with heq | hseen
    · exact hnodup.1 (List.mem_map.mpr ⟨b, hb, heq⟩)
    · exact hnew b (List.mem_cons_of_mem _ hb) hseen

end KeepFirst

section

variable [LinearOrder κ] [DecidableEq ι] {rank : α → κ} {identity : α → ι} {limit : ℕ} {l : List α}

theorem mem_descending {a : α} : a ∈ descending rank l ↔ a ∈ l := List.mem_insertionSort _

instance rankTotal : Std.Total fun a b : α => rank b ≤ rank a := ⟨fun a b => le_total (rank b) (rank a)⟩

instance rankTrans : IsTrans α fun a b : α => rank b ≤ rank a := ⟨fun _ _ _ h h' => le_trans h' h⟩

theorem descending_sorted : (descending rank l).Pairwise fun a b => rank b ≤ rank a :=
  List.pairwise_insertionSort _ l

theorem isShortlist_shortlist : IsShortlist rank identity limit (shortlist rank identity limit l) where
  sorted := (descending_sorted.sublist keepFirst_sublist).sublist (List.take_sublist _ _)
  distinct := keepFirst_nodup.sublist ((List.take_sublist _ _).map identity)
  bounded := List.length_take_le _ _

theorem mem_of_shortlist {a : α} (h : a ∈ shortlist rank identity limit l) : a ∈ l :=
  mem_descending.mp (keepFirst_sublist.subset (List.mem_of_mem_take h))

/-- A shortlist is its own shortlist. -/
theorem shortlist_eq_self (h : IsShortlist rank identity limit l) : shortlist rank identity limit l = l := by
  rw [shortlist, descending, h.sorted.insertionSort_eq, keepFirst_eq_self h.distinct fun _ _ => List.not_mem_nil,
    List.take_of_length_le h.bounded]

omit [DecidableEq ι] in
/-- What keeps ranks and identities keeps shortlists. -/
theorem IsShortlist.map {f : α → α} (h : IsShortlist rank identity limit l) (hrank : ∀ a, rank (f a) = rank a)
    (hidentity : ∀ a, identity (f a) = identity a) : IsShortlist rank identity limit (l.map f) where
  sorted := by
    rw [List.pairwise_map]
    exact h.sorted.imp fun hab => by rwa [hrank, hrank]
  distinct := by
    have hsame : (l.map f).map identity = l.map identity := by
      rw [List.map_map]
      exact List.map_congr_left fun a _ => hidentity a
    rw [hsame]
    exact h.distinct
  bounded := by
    rw [List.length_map]
    exact h.bounded

end

end HerdrTop.Shortlist
