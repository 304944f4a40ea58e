import HerdrTop.Library.Digraph
import Mathlib.Order.WithBot
import Mathlib.Algebra.Order.BigOperators.Group.List

/-!
# Topological orders by priority

A topological sort that always takes the free vertex with the least key. `Greedy` is such a run:
it is determined by the graph and the keys, it lists exactly the vertices that no cycle leads to,
and it keeps two vertices in the order of the keys unless an ancestor of the first one has to wait
for the second.

Keys are inherited along the edges: a vertex may get the least label of its descendants.
`Inherits` says what a propagation of labels ends with, and that it is determined.
-/

namespace HerdrTop.PriorityOrder

open Relation HerdrTop.Digraph

universe u v

variable {α : Type u} {κ : Type v}

/-- The first vertex stands before the second one in a list. -/
def Before (l : List α) (a b : α) : Prop := [a, b].Sublist l

theorem Before.cons {l : List α} {a b : α} (c : α) (h : Before l a b) : Before (c :: l) a b :=
  List.Sublist.cons c h

theorem before_cons_self {l : List α} {a b : α} (h : b ∈ l) : Before (a :: l) a b :=
  List.Sublist.cons_cons a (List.singleton_sublist.mpr h)

theorem Before.left {l : List α} {a b : α} (h : Before l a b) : a ∈ l :=
  h.subset List.mem_cons_self

theorem Before.right {l : List α} {a b : α} (h : Before l a b) : b ∈ l :=
  h.subset (List.mem_cons_of_mem _ List.mem_cons_self)

theorem Before.append {l : List α} {a b : α} (h : Before l a b) (l' : List α) :
    Before (l ++ l') a b :=
  List.Sublist.trans h (List.sublist_append_left l l')

theorem before_append {l l' : List α} {a b : α} (ha : a ∈ l) (hb : b ∈ l') : Before (l ++ l') a b :=
  List.Sublist.append (List.singleton_sublist.mpr ha) (List.singleton_sublist.mpr hb)

/-! ### Greedy runs -/

/-- A vertex that is not done and whose parents all are. -/
structure Free (edges : List (α × α)) (nodes done : List α) (n : α) : Prop where
  node : n ∈ nodes
  fresh : n ∉ done
  ready : ∀ a, Edge edges a n → a ∈ done

/-- The rest of a run that takes the free vertex with the least key as long as there is one. -/
inductive Greedy [LE κ] (edges : List (α × α)) (nodes : List α) (key : α → κ) :
    List α → List α → Prop
  /-- No vertex is free. -/
  | stop {done : List α} : (∀ n, ¬ Free edges nodes done n) → Greedy edges nodes key done []
  /-- The free vertex with the least key is next. -/
  | pick {done : List α} {n : α} {rest : List α} : Free edges nodes done n →
      (∀ m, Free edges nodes done m → key n ≤ key m) →
      Greedy edges nodes key (n :: done) rest → Greedy edges nodes key done (n :: rest)

/-- No cycle leads to the vertex. -/
def Grounded (edges : List (α × α)) (n : α) : Prop :=
  ∀ a, ReflTransGen (Edge edges) a n → ¬ TransGen (Edge edges) a a

theorem Grounded.of_acyclic {edges : List (α × α)} (h : Acyclic edges) (n : α) :
    Grounded edges n := fun a _ => h a

theorem Grounded.ancestor {edges : List (α × α)} {a n : α} (h : Grounded edges n)
    (ha : ReflTransGen (Edge edges) a n) : Grounded edges a := fun _ hb => h _ (hb.trans ha)

/-- A vertex is grounded when its parents are. -/
theorem Grounded.of_parents {edges : List (α × α)} {n : α}
    (h : ∀ a, Edge edges a n → Grounded edges a) : Grounded edges n := by
  intro a ha hcycle
  rcases ReflTransGen.cases_tail ha with rfl | ⟨p, hap, hpn⟩
  · obtain ⟨p, hnp, hpn⟩ := TransGen.tail'_iff.mp hcycle
    exact h p hpn p .refl (TransGen.head'_iff.mpr ⟨n, hpn, hnp⟩)
  · exact h p hpn a hap hcycle

section Runs

variable {edges : List (α × α)} {nodes done l : List α}

theorem Free.congr {edges' : List (α × α)} {nodes' : List α}
    (he : ∀ e, e ∈ edges' ↔ e ∈ edges) (hn : ∀ n, n ∈ nodes' ↔ n ∈ nodes) {n : α}
    (h : Free edges nodes done n) : Free edges' nodes' done n :=
  ⟨(hn n).mpr h.node, h.fresh, fun a ha => h.ready a ((he _).mp ha)⟩

section Order

variable [Preorder κ] {key : α → κ}

/-- A run does not depend on the order in which vertices and edges are listed. -/
theorem Greedy.congr {edges' : List (α × α)} {nodes' : List α}
    (he : ∀ e, e ∈ edges' ↔ e ∈ edges) (hn : ∀ n, n ∈ nodes' ↔ n ∈ nodes)
    (h : Greedy edges nodes key done l) : Greedy edges' nodes' key done l := by
  have hback : ∀ {done n}, Free edges' nodes' done n → Free edges nodes done n := fun hf =>
    hf.congr (fun e => (he e).symm) fun n => (hn n).symm
  induction h with
  | stop hnone => exact .stop fun n hf => hnone n (hback hf)
  | pick hfree hleast _ ih => exact .pick (hfree.congr he hn) (fun m hm => hleast m (hback hm)) ih

theorem Greedy.mem (h : Greedy edges nodes key done l) {n : α} (hn : n ∈ l) :
    n ∈ nodes ∧ n ∉ done := by
  induction h with
  | stop => cases hn
  | pick hfree _ _ ih =>
    rcases List.mem_cons.mp hn with rfl | hn
    · exact ⟨hfree.node, hfree.fresh⟩
    · obtain ⟨hnode, hfresh⟩ := ih hn
      exact ⟨hnode, fun hd => hfresh (List.mem_cons_of_mem _ hd)⟩

theorem Greedy.nodup (h : Greedy edges nodes key done l) : l.Nodup := by
  induction h with
  | stop => exact List.nodup_nil
  | pick _ _ hrest ih =>
    exact List.nodup_cons.mpr ⟨fun hn => (hrest.mem hn).2 List.mem_cons_self, ih⟩

/-- A run takes every free vertex at some point. -/
theorem Greedy.mem_of_free (h : Greedy edges nodes key done l) {m : α}
    (hm : Free edges nodes done m) : m ∈ l := by
  induction h with
  | stop hnone => exact absurd hm (hnone m)
  | @pick done n rest hfree hleast hrest ih =>
    by_cases hmn : m = n
    · exact hmn ▸ List.mem_cons_self
    · refine List.mem_cons_of_mem _ (ih ⟨hm.node, ?_, fun a ha => ?_⟩)
      · exact fun hd => (List.mem_cons.mp hd).elim hmn hm.fresh
      · exact List.mem_cons_of_mem _ (hm.ready a ha)

/-- A parent was done or is listed before its child. -/
theorem Greedy.parent (h : Greedy edges nodes key done l) {a n : α} (hn : n ∈ l)
    (ha : Edge edges a n) : a ∈ done ∨ Before l a n := by
  induction h with
  | stop => cases hn
  | @pick done m rest hfree _ _ ih =>
    rcases List.mem_cons.mp hn with rfl | hn'
    · exact .inl (hfree.ready a ha)
    · rcases ih hn' with hd | hb
      · rcases List.mem_cons.mp hd with rfl | hd
        · exact .inr (before_cons_self hn')
        · exact .inl hd
      · exact .inr (hb.cons m)

/-- Whatever a vertex still waits for, one of its ancestors is free. -/
theorem Greedy.exists_free_ancestor (h : Greedy edges nodes key done l) {u : α} (hu : u ∈ l) :
    ∃ a, ReflTransGen (Edge edges) a u ∧ Free edges nodes done a := by
  induction h with
  | stop => cases hu
  | @pick done n rest hfree _ _ ih =>
    rcases List.mem_cons.mp hu with rfl | hu
    · exact ⟨u, .refl, hfree⟩
    · obtain ⟨a, hau, ha⟩ := ih hu
      by_cases hna : Edge edges n a
      · exact ⟨n, .head hna hau, hfree⟩
      · refine ⟨a, hau, ha.node, fun hd => ha.fresh (List.mem_cons_of_mem _ hd), fun b hb => ?_⟩
        exact (List.mem_cons.mp (ha.ready b hb)).resolve_left fun hbn => hna (hbn ▸ hb)

/-- Two vertices keep the order of the keys when no ancestor of the first one has to wait for the
second one. -/
theorem Greedy.before (h : Greedy edges nodes key done l) {u v : α} (hu : u ∈ l) (hv : v ∈ l)
    (hkey : ∀ a ∈ nodes, ReflTransGen (Edge edges) a u → key a < key v) : Before l u v := by
  induction h with
  | stop => cases hu
  | @pick done n rest hfree hleast hrest ih =>
    have hnv : n ≠ v := fun hnv => by
      obtain ⟨a, hau, ha⟩ := (Greedy.pick hfree hleast hrest).exists_free_ancestor hu
      have hle := hleast a ha
      rw [hnv] at hle
      exact lt_irrefl _ (lt_of_le_of_lt hle (hkey a ha.node hau))
    have hv' : v ∈ rest := (List.mem_cons.mp hv).resolve_left hnv.symm
    rcases List.mem_cons.mp hu with rfl | hu'
    · exact before_cons_self hv'
    · exact (ih hu' hv').cons n

/-- A run is also the run for any keys that grow along it. -/
theorem Greedy.rekey {κ' : Type v} [Preorder κ'] {key' : α → κ'}
    (h : Greedy edges nodes key done l) (hl : l.Pairwise fun a b => key' a ≤ key' b) :
    Greedy edges nodes key' done l := by
  induction h with
  | stop hnone => exact .stop hnone
  | @pick done n rest hfree hleast hrest ih =>
    obtain ⟨hn, hrest'⟩ := List.pairwise_cons.mp hl
    refine .pick hfree (fun m hm => ?_) (ih hrest')
    rcases List.mem_cons.mp ((Greedy.pick hfree hleast hrest).mem_of_free hm) with rfl | hmem
    · exact le_rfl
    · exact hn m hmem

/-- What a run lists is grounded. -/
theorem Greedy.grounded (h : Greedy edges nodes key done l)
    (hdone : ∀ n ∈ done, Grounded edges n) {n : α} (hn : n ∈ l) : Grounded edges n := by
  induction h with
  | stop => cases hn
  | @pick done m rest hfree _ _ ih =>
    have hm : Grounded edges m := .of_parents fun a ha => hdone a (hfree.ready a ha)
    rcases List.mem_cons.mp hn with rfl | hn
    · exact hm
    · refine ih (fun k hk => ?_) hn
      rcases List.mem_cons.mp hk with rfl | hk
      · exact hm
      · exact hdone k hk

end Order

/-- With different keys for different vertices there is one run. -/
theorem Greedy.unique [PartialOrder κ] {key : α → κ}
    (hkey : ∀ a ∈ nodes, ∀ b ∈ nodes, key a = key b → a = b) {l' : List α}
    (h : Greedy edges nodes key done l) (h' : Greedy edges nodes key done l') : l = l' := by
  induction h generalizing l' with
  | stop hnone =>
    cases h' with
    | stop => rfl
    | pick hfree => exact absurd hfree (hnone _)
  | @pick done n rest hfree hleast _ ih =>
    cases h' with
    | stop hnone => exact absurd hfree (hnone n)
    | @pick _ m rest' hfree' hleast' hrest' =>
      have hnm : n = m := hkey n hfree.node m hfree'.node
        (le_antisymm (hleast m hfree') (hleast' n hfree))
      subst hnm
      rw [ih hrest']

/-- A run from the start lists every grounded vertex. -/
theorem Greedy.mem_iff [DecidableEq α] [Preorder κ] {key : α → κ}
    (hnodes : ∀ e ∈ edges, e.1 ∈ nodes) (h : Greedy edges nodes key [] l) (n : α) :
    n ∈ l ↔ n ∈ nodes ∧ Grounded edges n := by
  refine ⟨fun hn => ⟨(h.mem hn).1, h.grounded (fun _ hd => by cases hd) hn⟩, ?_⟩
  rintro ⟨hn, hgrounded⟩
  by_contra hnl
  -- what stops is closed under parents: an ancestor of `n` that is not listed has such a parent
  have hstop : ∀ {done l : List α}, Greedy edges nodes key done l → ∀ m, m ∈ nodes → m ∉ done →
      m ∉ l → ∃ a, Edge edges a m ∧ a ∉ done ∧ a ∉ l := by
    intro done l h
    induction h with
    | stop hnone =>
      intro m hm hd _
      by_contra hno
      push Not at hno
      exact hnone m ⟨hm, hd, fun a ha => by_contra fun hd => List.not_mem_nil (hno a ha hd)⟩
    | @pick done k rest hfree _ _ ih =>
      intro m hm hd hl
      obtain ⟨hmk, hml⟩ := not_or.mp (List.mem_cons.not.mp hl)
      obtain ⟨a, ha, had, hal⟩ := ih m hm (fun h => (List.mem_cons.mp h).elim hmk hd) hml
      obtain ⟨hak, had⟩ := not_or.mp (List.mem_cons.not.mp had)
      exact ⟨a, ha, had, fun h => (List.mem_cons.mp h).elim hak hal⟩
  obtain ⟨v, hv, hcycle⟩ : ∃ v, ReflTransGen (Edge edges) v n ∧ TransGen (Edge edges) v v := by
    classical
    obtain ⟨v, hv, hcycle⟩ := cycle_of_closed edges
      (nodes.filter fun m => m ∉ l ∧ ReflTransGen (Edge edges) m n)
      (List.ne_nil_of_mem (List.mem_filter.mpr ⟨hn, by simpa using ⟨hnl, ReflTransGen.refl⟩⟩))
      fun m hm => by
        obtain ⟨hmn, hm⟩ := List.mem_filter.mp hm
        obtain ⟨hml, hmr⟩ := of_decide_eq_true hm
        obtain ⟨a, ha, -, hal⟩ := hstop h m hmn List.not_mem_nil hml
        exact ⟨a, List.mem_filter.mpr ⟨hnodes _ ha, decide_eq_true ⟨hal, .head ha hmr⟩⟩, ha⟩
    exact ⟨v, (of_decide_eq_true (List.mem_filter.mp hv).2).2, hcycle⟩
  exact hgrounded v hv hcycle

end Runs

/-! ### Inherited labels -/

/-- The labels with which a propagation against the edges ends: each vertex has the least label
that it or a descendant had at first. -/
structure Inherits (edges : List (α × α)) (first last : α → WithTop ℕ) : Prop where
  /-- Labels only go down. -/
  le : ∀ n, last n ≤ first n
  /-- Nothing is left to propagate. -/
  closed : ∀ a n, Edge edges a n → last a ≤ last n
  /-- Every label comes from somewhere. -/
  source : ∀ n, ∃ d, ReflTransGen (Edge edges) n d ∧ first d = last n

theorem Inherits.closed_star {edges : List (α × α)} {first last : α → WithTop ℕ}
    (h : Inherits edges first last) {a n : α} (ha : ReflTransGen (Edge edges) a n) :
    last a ≤ last n := by
  induction ha with
  | refl => exact le_rfl
  | tail _ hbc ih => exact ih.trans (h.closed _ _ hbc)

/-- The result of a propagation is determined. -/
theorem Inherits.unique {edges : List (α × α)} {first last last' : α → WithTop ℕ}
    (h : Inherits edges first last) (h' : Inherits edges first last') : last = last' := by
  have hle : ∀ {last last' : α → WithTop ℕ}, Inherits edges first last →
      Inherits edges first last' → ∀ n, last n ≤ last' n := by
    intro last last' h h' n
    obtain ⟨d, hd, hfirst⟩ := h'.source n
    calc last n ≤ last d := h.closed_star hd
      _ ≤ first d := h.le d
      _ = last' n := hfirst
  exact funext fun n => le_antisymm (hle h h' n) (hle h' h n)

end HerdrTop.PriorityOrder
