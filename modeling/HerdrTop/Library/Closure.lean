import HerdrTop.Library.HashMap
import Mathlib.Data.Finset.Card
import Mathlib.Logic.Relation

/-!
# Closures

What can be reached from a set of seeds, computed in two ways: `collect` takes one item after the other from a list
of those that wait, `saturate` adds everything that is next to the set, round after round. Both come to an end on
cycles, when everything that is next to something lies in a finite list, and both give the same set: what the seeds
lead to. It is the least set with the seeds that is closed (`LedTo.mem_closed`), and depends neither on the order
of what waits nor on that of a round.
-/

namespace HerdrTop.Closure

open Relation

universe u

variable {α : Type u}

/-- What the seeds lead to. -/
def LedTo (R : α → α → Prop) (seeds : α → Prop) (a : α) : Prop := ∃ seed, seeds seed ∧ ReflTransGen R seed a

theorem LedTo.seed {R : α → α → Prop} {seeds : α → Prop} {a : α} (h : seeds a) : LedTo R seeds a := ⟨a, h, .refl⟩

theorem LedTo.step {R : α → α → Prop} {seeds : α → Prop} {a b : α} (h : LedTo R seeds a) (hab : R a b) :
    LedTo R seeds b := by
  obtain ⟨seed, hseed, hreach⟩ := h
  exact ⟨seed, hseed, hreach.tail hab⟩

/-- A closed set with the seeds has what they lead to. -/
theorem LedTo.mem_closed {R : α → α → Prop} {seeds S : α → Prop} {a : α} (h : LedTo R seeds a)
    (hseeds : ∀ a, seeds a → S a) (hclosed : ∀ a b, S a → R a b → S b) : S a := by
  obtain ⟨seed, hseed, hreach⟩ := h
  induction hreach with
  | refl => exact hseeds _ hseed
  | tail _ hab ih => exact hclosed _ _ ih hab

theorem LedTo.mono {R R' : α → α → Prop} {seeds seeds' : α → Prop} {a : α} (h : LedTo R seeds a)
    (hseeds : ∀ a, seeds a → seeds' a) (hR : ∀ a b, R a b → R' a b) : LedTo R' seeds' a := by
  obtain ⟨seed, hseed, hreach⟩ := h
  exact ⟨seed, hseeds seed hseed, ReflTransGen.mono hR _ _ hreach⟩

/-! ### One item after the other -/

variable [DecidableEq α]

/-- Adds what is new; it waits, too, the last one first. -/
def visit : List α → HashSet α → List α → HashSet α × List α
  | [], found, pending => (found, pending)
  | a :: rest, found, pending =>
    if found.contains a then visit rest found pending else visit rest (HashSet.insert found a) (a :: pending)

/-- Takes what waits until nothing does; `none` if it is out of turns. -/
def collect (next : α → List α) : ℕ → HashSet α → List α → Option (HashSet α)
  | _, found, [] => some found
  | 0, _, _ :: _ => none
  | fuel + 1, found, a :: pending =>
    let visited := visit (next a) found pending
    collect next fuel visited.1 visited.2

variable {next : α → List α} {found : HashSet α} {pending items all : List α} {seeds : α → Prop}

/-- How many of these were not found. -/
def missing (all : List α) (found : HashSet α) : ℕ := (all.toFinset.filter (· ∉ found.keys)).card

theorem missing_le_length (all : List α) (found : HashSet α) : missing all found ≤ all.length :=
  (Finset.card_filter_le _ _).trans (List.toFinset_card_le all)

/-- Where more is found, no more is missing. -/
theorem missing_mono {found' : HashSet α} (h : ∀ a ∈ found.keys, a ∈ found'.keys) :
    missing all found' ≤ missing all found := by
  refine Finset.card_le_card fun b hb => ?_
  rw [Finset.mem_filter] at hb ⊢
  exact ⟨hb.1, fun hmem => hb.2 (h b hmem)⟩

/-- What was missing and is found is missed no more. -/
theorem missing_lt {found' : HashSet α} {a : α} (h : ∀ a ∈ found.keys, a ∈ found'.keys) (hall : a ∈ all)
    (hnew : a ∉ found.keys) (hfound : a ∈ found'.keys) : missing all found' < missing all found := by
  refine Finset.card_lt_card (Finset.ssubset_iff_subset_ne.mpr ⟨fun b hb => ?_, fun heq => ?_⟩)
  · rw [Finset.mem_filter] at hb ⊢
    exact ⟨hb.1, fun hmem => hb.2 (h b hmem)⟩
  · have ha : a ∈ all.toFinset.filter (· ∉ found.keys) := Finset.mem_filter.mpr ⟨List.mem_toFinset.mpr hall, hnew⟩
    rw [← heq, Finset.mem_filter] at ha
    exact ha.2 hfound

/-- One item that was missing, found. -/
theorem missing_insert_lt {a : α} (hall : a ∈ all) (hnew : a ∉ found.keys) :
    missing all (HashSet.insert found a) < missing all found :=
  missing_lt (fun _ hb => HashSet.mem_keys_insert.mpr (.inr hb)) hall hnew (HashSet.mem_keys_insert.mpr (.inl rfl))

/-- What is found, and what waits to be looked behind. -/
structure Collecting (next : α → List α) (seeds : α → Prop) (found : HashSet α) (pending : List α) : Prop where
  started : ∀ a, seeds a → a ∈ found.keys
  sound : ∀ a ∈ found.keys, LedTo (fun a b => b ∈ next a) seeds a
  waits : ∀ a ∈ pending, a ∈ found.keys
  closed : ∀ a ∈ found.keys, a ∈ pending ∨ ∀ b ∈ next a, b ∈ found.keys

/-- A visit finds its items, and what is new waits. -/
theorem visit_spec (items : List α) (found : HashSet α) (pending : List α) :
    (∀ a, a ∈ (visit items found pending).1.keys ↔ a ∈ found.keys ∨ a ∈ items) ∧
    (∀ a, a ∈ (visit items found pending).2 ↔ a ∈ pending ∨ a ∈ items ∧ a ∉ found.keys) ∧
    ∀ all : List α, (∀ a ∈ items, a ∈ all) →
      (visit items found pending).2.length + missing all (visit items found pending).1 ≤
        pending.length + missing all found := by
  induction items generalizing found pending with
  | nil => simp [visit]
  | cons a items ih =>
    rw [visit]
    split_ifs with hfound
    · rw [HashSet.contains_iff_mem_keys] at hfound
      obtain ⟨hkeys, hpending, hlength⟩ := ih found pending
      refine ⟨fun b => ?_, fun b => ?_, fun all hall => hlength all fun b hb => hall b (List.mem_cons_of_mem _ hb)⟩
      · rw [hkeys, List.mem_cons]
        constructor
        · tauto
        · rintro (hb | rfl | hb)
          · exact .inl hb
          · exact .inl hfound
          · exact .inr hb
      · rw [hpending, List.mem_cons]
        constructor
        · tauto
        · rintro (hb | ⟨rfl | hb, hnew⟩)
          · exact .inl hb
          · exact absurd hfound hnew
          · exact .inr ⟨hb, hnew⟩
    · rw [HashSet.contains_iff_mem_keys] at hfound
      obtain ⟨hkeys, hpending, hlength⟩ := ih (HashSet.insert found a) (a :: pending)
      refine ⟨fun b => ?_, fun b => ?_, fun all hall => ?_⟩
      · rw [hkeys, HashSet.mem_keys_insert, List.mem_cons]
        tauto
      · rw [hpending, HashSet.mem_keys_insert, List.mem_cons, List.mem_cons]
        by_cases hb : b = a
        · subst hb
          simp [hfound]
        · simp [hb]
      · have hless : missing all (HashSet.insert found a) < missing all found :=
          missing_insert_lt (hall a List.mem_cons_self) hfound
        have hrest := hlength all fun b hb => hall b (List.mem_cons_of_mem _ hb)
        rw [List.length_cons] at hrest
        omega

/-- One turn. -/
theorem Collecting.step {a : α} (h : Collecting next seeds found (a :: pending)) :
    Collecting next seeds (visit (next a) found pending).1 (visit (next a) found pending).2 := by
  obtain ⟨hkeys, hpending, -⟩ := visit_spec (next a) found pending
  have ha := h.waits a List.mem_cons_self
  constructor
  · exact fun b hb => (hkeys b).mpr (.inl (h.started b hb))
  · intro b hb
    rcases (hkeys b).mp hb with hb | hb
    · exact h.sound b hb
    · exact (h.sound a ha).step hb
  · intro b hb
    rcases (hpending b).mp hb with hb | ⟨hb, -⟩
    · exact (hkeys b).mpr (.inl (h.waits b (List.mem_cons_of_mem _ hb)))
    · exact (hkeys b).mpr (.inr hb)
  · intro b hb
    by_cases hold : b ∈ found.keys
    · rcases h.closed b hold with hwaits | hclosed
      · rcases List.mem_cons.mp hwaits with rfl | hwaits
        · exact .inr fun c hc => (hkeys c).mpr (.inr hc)
        · exact .inl ((hpending b).mpr (.inl hwaits))
      · exact .inr fun c hc => (hkeys c).mpr (.inl (hclosed c hc))
    · exact .inl ((hpending b).mpr (.inr ⟨((hkeys b).mp hb).resolve_left hold, hold⟩))

/-- The turns come to an end, with what the seeds lead to. -/
theorem Collecting.collect (h : Collecting next seeds found pending) (hall : ∀ a, ∀ b ∈ next a, b ∈ all) {fuel : ℕ}
    (hfuel : pending.length + missing all found ≤ fuel) :
    ∃ result, Closure.collect next fuel found pending = some result ∧
      ∀ a, a ∈ result.keys ↔ LedTo (fun a b => b ∈ next a) seeds a := by
  induction fuel generalizing found pending with
  | zero =>
    obtain rfl : pending = [] := List.length_eq_zero_iff.mp (by omega)
    refine ⟨found, rfl, fun a => ⟨h.sound a, fun hled => ?_⟩⟩
    exact hled.mem_closed h.started fun a b ha hb => (h.closed a ha).elim nofun fun hclosed => hclosed b hb
  | succ fuel ih =>
    cases pending with
    | nil =>
      refine ⟨found, rfl, fun a => ⟨h.sound a, fun hled => ?_⟩⟩
      exact hled.mem_closed h.started fun a b ha hb => (h.closed a ha).elim nofun fun hclosed => hclosed b hb
    | cons a pending =>
      have hlength := (visit_spec (next a) found pending).2.2 all (hall a)
      rw [List.length_cons] at hfuel
      exact ih h.step (by omega)

/-! ### Round after round -/

/-- Adds what is next to the set until there is nothing. -/
def saturate (grow : HashSet α → List α) : ℕ → HashSet α → HashSet α
  | 0, found => found
  | rounds + 1, found =>
    let more := grow found
    if more.isEmpty then found else saturate grow rounds (HashSet.extend found more)

variable {grow : HashSet α → List α} {R : α → α → Prop}

/-- A set with nothing next to it has what it leads to. -/
theorem mem_of_saturated (hgrow : ∀ found b, b ∈ grow found ↔ b ∉ found.keys ∧ ∃ a ∈ found.keys, R a b)
    (hnone : ∀ b, b ∉ grow found) (b : α) : b ∈ found.keys ↔ LedTo R (· ∈ found.keys) b := by
  refine ⟨.seed, fun hled => hled.mem_closed (fun _ ha => ha) fun a c ha hac => ?_⟩
  by_contra hc
  exact hnone c ((hgrow found c).mpr ⟨hc, a, ha, hac⟩)

/-- When each round adds what is next to the set and not in it, and all of that is known, enough rounds give what
the set leads to. -/
theorem mem_saturate (hgrow : ∀ found b, b ∈ grow found ↔ b ∉ found.keys ∧ ∃ a ∈ found.keys, R a b)
    (hall : ∀ a b, R a b → b ∈ all) {rounds : ℕ} (hrounds : missing all found ≤ rounds) (b : α) :
    b ∈ (saturate grow rounds found).keys ↔ LedTo R (· ∈ found.keys) b := by
  have hextend : ∀ found c, c ∈ (HashSet.extend found (grow found)).keys ↔ c ∈ grow found ∨ c ∈ found.keys :=
    fun found c => HashSet.mem_keys_extend
  have hless : ∀ found c, c ∈ grow found → missing all (HashSet.extend found (grow found)) < missing all found := by
    intro found c hc
    obtain ⟨hnew, a, -, hac⟩ := (hgrow found c).mp hc
    exact missing_lt (fun b hb => (hextend found b).mpr (.inr hb)) (hall a c hac) hnew
      ((hextend found c).mpr (.inl hc))
  induction rounds generalizing found with
  | zero =>
    refine mem_of_saturated hgrow (fun c hc => ?_) b
    have hfewer := hless found c hc
    omega
  | succ rounds ih =>
    rw [saturate]
    split_ifs with hempty
    · refine mem_of_saturated hgrow (fun c hc => ?_) b
      rw [List.isEmpty_iff.mp hempty] at hc
      cases hc
    · have hfewer : missing all (HashSet.extend found (grow found)) < missing all found := by
        obtain ⟨c, hc⟩ := List.exists_mem_of_ne_nil _ (mt List.isEmpty_iff.mpr hempty)
        exact hless found c hc
      have hled : ∀ c, c ∈ (HashSet.extend found (grow found)).keys → LedTo R (· ∈ found.keys) c := by
        intro c hc
        rcases (hextend found c).mp hc with hc | hc
        · obtain ⟨-, a, ha, hac⟩ := (hgrow found c).mp hc
          exact (LedTo.seed ha).step hac
        · exact .seed hc
      refine (ih (show missing all (HashSet.extend found (grow found)) ≤ rounds by omega)).trans ?_
      constructor
      · exact fun hreach => hreach.mem_closed hled fun a c ha hac => ha.step hac
      · exact fun hreach => hreach.mono (fun c hc => (hextend found c).mpr (.inr hc)) fun _ _ hac => hac

end HerdrTop.Closure
