import HerdrTop.Library.HashMap
import Mathlib.Algebra.BigOperators.Group.List.Lemmas
import Mathlib.Data.List.Dedup
import Mathlib.Data.List.Induction

/-!
# A bounded queue with keys

Entries wait in one queue, each under a key. An entry leaves when the queue is full and it is the oldest of
all, or when its key is served and it is the oldest of its key. A history lists what happened; replaying it
gives the entries that wait.

An implementation keeps a queue for each key, the order of the keys of all entries, and a count.

## What is proved

* `Lawful.conserved`: of every key, what was put in is what left, in this order, and then what waits.
* `Represents`: how an implementation shows the entries, and that it goes on to after each operation.
-/

namespace HerdrTop.KeyedFifo

universe u v

variable {κ : Type u} {α : Type v}

/-- What happens to an entry. -/
inductive Event (κ : Type u) (α : Type v)
  /-- It is put in. -/
  | enqueued (k : κ) (a : α)
  /-- It is dropped to make room. -/
  | evicted (k : κ) (a : α)
  /-- It is served. -/
  | applied (k : κ) (a : α)

variable [DecidableEq κ]

/-- The values of a key among entries, oldest first. -/
def valuesOf (k : κ) (entries : List (κ × α)) : List α := (entries.filter fun e => e.1 = k).map Prod.snd

/-- The entries that wait after an event. -/
def Event.effect (entries : List (κ × α)) : Event κ α → List (κ × α)
  | .enqueued k a => entries ++ [(k, a)]
  | .evicted _ _ => entries.tail
  | .applied k _ => entries.eraseP fun e => e.1 = k

/-- The entries that wait after a history. -/
def replay (history : List (Event κ α)) : List (κ × α) := history.foldl Event.effect []

/-- The values of a key that were put in. -/
def enqueuedOf (k : κ) (history : List (Event κ α)) : List α :=
  history.filterMap fun
    | .enqueued k' a => if k' = k then some a else none
    | _ => none

/-- The values of a key that left. -/
def removedOf (k : κ) (history : List (Event κ α)) : List α :=
  history.filterMap fun
    | .enqueued _ _ => none
    | .evicted k' a => if k' = k then some a else none
    | .applied k' a => if k' = k then some a else none

/-- When an event may happen. -/
inductive Legal (capacity : ℕ) (entries : List (κ × α)) : Event κ α → Prop
  /-- There is room. -/
  | enqueued (k : κ) (a : α) (room : entries.length < capacity) : Legal capacity entries (.enqueued k a)
  /-- There is no room, and it is the oldest of all. -/
  | evicted (k : κ) (a : α) (full : entries.length = capacity) (oldest : entries.head? = some (k, a)) :
      Legal capacity entries (.evicted k a)
  /-- It is the oldest of its key. -/
  | applied (k : κ) (a : α) (oldest : (valuesOf k entries).head? = some a) : Legal capacity entries (.applied k a)

/-- A history in which everything happened when it may. -/
def Lawful (capacity : ℕ) (history : List (Event κ α)) : Prop :=
  ∀ before event after, history = before ++ event :: after → Legal capacity (replay before) event

section

variable {capacity : ℕ} {history : List (Event κ α)} {event : Event κ α} {entries : List (κ × α)} {k : κ} {a : α}

theorem replay_append (history later : List (Event κ α)) :
    replay (history ++ later) = later.foldl Event.effect (replay history) := List.foldl_append

theorem replay_concat (history : List (Event κ α)) (event : Event κ α) :
    replay (history ++ [event]) = event.effect (replay history) := replay_append history [event]

theorem Lawful.nil : Lawful capacity ([] : List (Event κ α)) := by
  rintro (_ | _) event after h <;> cases h

theorem Lawful.concat (h : Lawful capacity history) (hlegal : Legal capacity (replay history) event) :
    Lawful capacity (history ++ [event]) := by
  intro before event' after heq
  rcases List.eq_nil_or_concat after with rfl | ⟨after, last, rfl⟩
  · obtain ⟨rfl, hlast⟩ := List.append_inj' heq rfl
    rw [← (List.cons.inj hlast).1]
    exact hlegal
  · have hsplit : history ++ [event] = before ++ event' :: after ++ [last] := by
      rw [heq, List.concat_eq_append, List.append_assoc, List.cons_append]
    exact h before event' after (List.append_inj' hsplit rfl).1

theorem Lawful.init (h : Lawful capacity (history ++ [event])) : Lawful capacity history := by
  intro before event' after heq
  refine h before event' (after ++ [event]) ?_
  rw [heq, List.append_assoc, List.cons_append]

theorem Lawful.last (h : Lawful capacity (history ++ [event])) : Legal capacity (replay history) event :=
  h history event [] rfl

/-- There are never more entries than the capacity. -/
theorem Lawful.length_le (h : Lawful capacity history) : (replay history).length ≤ capacity := by
  induction history using List.reverseRecOn with
  | nil => exact Nat.zero_le _
  | append_singleton history event ih =>
    rw [replay_concat]
    have hinit := ih h.init
    cases h.last with
    | enqueued k a room =>
      rw [Event.effect, List.length_append, List.length_singleton]
      omega
    | evicted =>
      rw [Event.effect, List.length_tail]
      omega
    | applied => exact (List.length_eraseP_le).trans hinit

/-- The oldest entry is the oldest of its key. -/
theorem valuesOf_tail (h : entries.head? = some (k, a)) (k' : κ) :
    valuesOf k' entries = (if k = k' then [a] else []) ++ valuesOf k' entries.tail := by
  cases entries with
  | nil => cases h
  | cons e entries =>
    obtain rfl := Option.some.inj h
    unfold valuesOf
    rw [List.filter_cons]
    by_cases hk : k = k'
    · rw [if_pos hk, if_pos (decide_eq_true hk)]
      rfl
    · rw [if_neg hk, if_neg (by simpa using hk)]
      rfl

theorem valuesOf_eraseP (h : (valuesOf k entries).head? = some a) (k' : κ) :
    valuesOf k' entries = (if k = k' then [a] else []) ++ valuesOf k' (entries.eraseP fun e => e.1 = k) := by
  induction entries with
  | nil => cases h
  | cons e entries ih =>
    unfold valuesOf at h ih ⊢
    by_cases hk : e.1 = k
    · rw [List.filter_cons, if_pos (decide_eq_true hk)] at h
      obtain rfl : e.2 = a := Option.some.inj h
      rw [List.eraseP_cons_of_pos (by simpa using hk), List.filter_cons]
      by_cases hk' : k = k'
      · rw [if_pos hk', if_pos (by simpa using hk.trans hk')]
        rfl
      · rw [if_neg hk', if_neg (by simpa using fun heq => hk' (hk.symm.trans heq))]
        rfl
    · rw [List.filter_cons, if_neg (by simpa using hk)] at h
      rw [List.eraseP_cons_of_neg (by simpa using hk), List.filter_cons, List.filter_cons]
      by_cases hek : e.1 = k'
      · have hne : k ≠ k' := fun heq => hk (hek.trans heq.symm)
        have hrest := ih h
        rw [if_neg hne, List.nil_append] at hrest ⊢
        rw [if_pos (by simpa using hek), if_pos (by simpa using hek), List.map_cons, List.map_cons, hrest]
      · have hskip : ¬decide (e.1 = k') = true := by simpa using hek
        rw [if_neg hskip, if_neg hskip, ih h]

/-- Of every key, what was put in is what left, in the same order, and then what waits. -/
theorem Lawful.conserved (h : Lawful capacity history) (k : κ) :
    enqueuedOf k history = removedOf k history ++ valuesOf k (replay history) := by
  induction history using List.reverseRecOn with
  | nil => rfl
  | append_singleton history event ih =>
    have hinit := ih h.init
    unfold enqueuedOf removedOf at hinit ⊢
    rw [replay_concat, List.filterMap_append, List.filterMap_append, hinit]
    cases h.last with
    | enqueued k' a room =>
      by_cases hk : k' = k <;> simp [Event.effect, valuesOf, hk]
    | evicted k' a full oldest =>
      rw [valuesOf_tail oldest k]
      by_cases hk : k' = k <;> simp [Event.effect, hk]
    | applied k' a oldest =>
      rw [valuesOf_eraseP oldest k]
      by_cases hk : k' = k <;> simp [Event.effect, hk]

/-! ### Serving keys -/

/-- All entries of a key are served. -/
theorem Lawful.serve (h : Lawful capacity history) (k : κ) :
    Lawful capacity (history ++ (valuesOf k (replay history)).map (.applied k)) ∧
      replay (history ++ (valuesOf k (replay history)).map (.applied k)) =
        (replay history).filter fun e => e.1 ≠ k := by
  generalize hvalues : valuesOf k (replay history) = values
  induction values generalizing history with
  | nil =>
    have hnone : ∀ e ∈ replay history, e.1 ≠ k := by
      intro e he hk
      have hmem : e.2 ∈ valuesOf k (replay history) :=
        List.mem_map.mpr ⟨e, List.mem_filter.mpr ⟨he, decide_eq_true hk⟩, rfl⟩
      rw [hvalues] at hmem
      cases hmem
    rw [List.map_nil, List.append_nil, List.filter_eq_self.mpr fun e he => by simpa using hnone e he]
    exact ⟨h, rfl⟩
  | cons a values ih =>
    have holdest : (valuesOf k (replay history)).head? = some a := by rw [hvalues]; rfl
    have hnext := h.concat (.applied k a holdest)
    have hrest := valuesOf_eraseP holdest k
    rw [if_pos rfl, hvalues] at hrest
    have hserved := ih hnext (by rw [replay_concat]; exact (List.cons.inj hrest).2.symm)
    rw [List.append_assoc] at hserved
    refine ⟨hserved.1, hserved.2.trans ?_⟩
    rw [replay_concat]
    change ((replay history).eraseP fun e => e.1 = k).filter _ = _
    clear ih hnext hrest hserved holdest hvalues h
    induction replay history with
    | nil => rfl
    | cons e entries ih =>
      by_cases hk : e.1 = k
      · rw [List.eraseP_cons_of_pos (by simpa using hk), List.filter_cons, if_neg (by simpa using hk)]
      · rw [List.eraseP_cons_of_neg (by simpa using hk), List.filter_cons, List.filter_cons, ih]

/-- The entries of some keys are served, key after key. -/
theorem Lawful.serveAll (h : Lawful capacity history) {keys : List κ} (hkeys : keys.Nodup) :
    Lawful capacity (history ++ keys.flatMap fun k => (valuesOf k (replay history)).map (.applied k)) ∧
      replay (history ++ keys.flatMap fun k => (valuesOf k (replay history)).map (.applied k)) =
        (replay history).filter fun e => !(e.1 ∈ keys) := by
  induction keys generalizing history with
  | nil =>
    rw [List.flatMap_nil, List.append_nil, List.filter_eq_self.mpr fun e _ => by simp]
    exact ⟨h, rfl⟩
  | cons k keys ih =>
    obtain ⟨hk, hkeys⟩ := List.nodup_cons.mp hkeys
    obtain ⟨hserved, hreplay⟩ := h.serve k
    obtain ⟨hall, hrest⟩ := ih hserved hkeys
    have hsame : ∀ k' ∈ keys, valuesOf k' ((replay history).filter fun e => e.1 ≠ k) = valuesOf k' (replay history) := by
      intro k' hk'
      unfold valuesOf
      rw [List.filter_filter]
      congr 1
      refine List.filter_congr fun e _ => ?_
      by_cases he : e.1 = k'
      · have hne : e.1 ≠ k := fun heq => hk (heq ▸ he ▸ hk')
        rw [decide_eq_true he, decide_eq_true hne, Bool.and_self]
      · rw [decide_eq_false he, Bool.false_and]
    have hevents : keys.flatMap (fun k' => (valuesOf k' (replay (history ++
        (valuesOf k (replay history)).map (.applied k)))).map (Event.applied k')) =
        keys.flatMap fun k' => (valuesOf k' (replay history)).map (.applied k') := by
      refine List.flatMap_congr fun k' hk' => ?_
      rw [hreplay, hsame k' hk']
    rw [hevents, List.append_assoc] at hall hrest
    rw [List.flatMap_cons]
    refine ⟨hall, hrest.trans ?_⟩
    rw [hreplay, List.filter_filter]
    refine List.filter_congr fun e _ => ?_
    by_cases he : e.1 = k <;> simp [he]

end

/-! ### Implementations -/

/-- The entries as queues of keys, the order of all keys, and a count. -/
structure Represents (queues : HashMap κ (List α)) (order : List κ) (count : ℕ) (entries : List (κ × α)) : Prop where
  /-- A key has a queue when an entry has this key. -/
  queue : ∀ k, queues.get k = if valuesOf k entries = [] then none else some (valuesOf k entries)
  order : order = entries.map Prod.fst
  count : count = entries.length

section

variable {queues : HashMap κ (List α)} {order : List κ} {count : ℕ} {entries : List (κ × α)}

theorem Represents.empty : Represents (∅ : HashMap κ (List α)) [] 0 [] := ⟨fun _ => rfl, rfl, rfl⟩

theorem Represents.getD (h : Represents queues order count entries) (k : κ) :
    (queues.get k).getD [] = valuesOf k entries := by
  rw [h.queue]
  split_ifs with hnil
  · exact hnil.symm
  · rfl

/-- The order has as many places for a key as its queue has entries. -/
theorem Represents.count_order (h : Represents queues order count entries) (k : κ) :
    order.count k = ((queues.get k).getD []).length := by
  rw [h.getD, h.order, valuesOf, List.length_map, List.count, List.countP_map, List.countP_eq_length_filter]
  rfl

/-- The queues have as many entries as are counted. -/
theorem Represents.sum (h : Represents queues order count entries) :
    (queues.values.map List.length).sum = count := by
  have hkeys : queues.keys.Perm order.dedup := by
    refine (List.perm_ext_iff_of_nodup queues.keys_nodup (List.nodup_dedup _)).mpr fun k => ?_
    rw [HashMap.mem_keys, List.mem_dedup, ← List.count_pos_iff, h.count_order, h.queue]
    split_ifs with hnil
    · simp
    · simpa using List.length_pos_iff.mpr hnil
  have hvalues : queues.values.map List.length = queues.keys.map fun k => order.count k := by
    rw [HashMap.values_eq_map_toList, HashMap.keys_eq_map_toList, List.map_map, List.map_map]
    refine List.map_congr_left fun e he => ?_
    have hget : queues.get e.1 = some e.2 := HashMap.mem_toList.mp he
    simp only [Function.comp_apply, h.count_order, hget, Option.getD_some]
  rw [hvalues, (hkeys.map _).sum_eq, List.sum_map_count_dedup_eq_length, h.count, h.order, List.length_map]

/-- One entry more. -/
theorem Represents.push (h : Represents queues order count entries) (k : κ) (a : α) :
    Represents (queues.insert k ((queues.get k).getD [] ++ [a])) (order ++ [k]) (count + 1) (entries ++ [(k, a)]) where
  queue := by
    intro k'
    have hpush : valuesOf k' (entries ++ [(k, a)]) = valuesOf k' entries ++ if k = k' then [a] else [] := by
      by_cases hk : k = k' <;> simp [valuesOf, hk]
    rw [hpush, HashMap.get_insert, h.getD]
    by_cases hk : k' = k
    · subst hk
      rw [if_pos rfl, if_pos rfl, if_neg (List.append_ne_nil_of_right_ne_nil _ (List.cons_ne_nil _ _))]
    · rw [if_neg hk, if_neg (Ne.symm hk), List.append_nil, h.queue]
  order := by rw [h.order, List.map_append]; rfl
  count := by rw [h.count, List.length_append]; rfl

/-- The oldest entry less. -/
theorem Represents.pop {k : κ} {a : α} {rest : List α} (h : Represents queues order count ((k, a) :: entries))
    (hrest : rest = valuesOf k entries) :
    Represents (if rest.isEmpty then queues.remove k else queues.insert k rest) order.tail (count - 1) entries where
  queue := by
    intro k'
    have hvalues : valuesOf k' ((k, a) :: entries) = (if k = k' then [a] else []) ++ valuesOf k' entries :=
      valuesOf_tail rfl k'
    have hqueue := h.queue k'
    rw [hvalues] at hqueue
    subst hrest
    by_cases hk : k' = k
    · subst hk
      cases hnil : valuesOf k' entries with
      | nil => exact HashMap.get_remove_self _ _
      | cons b l => exact HashMap.get_insert_self _ _ _
    · rw [if_neg (Ne.symm hk), List.nil_append] at hqueue
      rw [← hqueue]
      split_ifs
      · exact HashMap.get_remove_ne _ hk
      · exact HashMap.get_insert_ne _ _ hk
  order := by rw [h.order]; rfl
  count := by rw [h.count, List.length_cons, Nat.add_sub_cancel]

/-- The entries of a key less. -/
theorem Represents.serve (h : Represents queues order count entries) (k : κ) :
    Represents (queues.remove k) (order.filter fun k' => k' ≠ k) (count - ((queues.get k).getD []).length)
      (entries.filter fun e => e.1 ≠ k) where
  queue := by
    intro k'
    rw [HashMap.get_remove]
    unfold valuesOf
    rw [List.filter_filter]
    by_cases hk : k' = k
    · have hnone : entries.filter (fun e => decide (e.1 = k') && decide (e.1 ≠ k)) = [] :=
        List.filter_eq_nil_iff.mpr fun e _ => by simp [hk]
      rw [if_pos hk, hnone]
      rfl
    · have hsame : entries.filter (fun e => decide (e.1 = k') && decide (e.1 ≠ k)) =
          entries.filter fun e => decide (e.1 = k') := List.filter_congr fun e _ => by
        by_cases he : e.1 = k'
        · have hne : e.1 ≠ k := fun heq => hk (he ▸ heq)
          rw [decide_eq_true hne, Bool.and_true]
        · rw [decide_eq_false he, Bool.false_and]
      rw [if_neg hk, hsame]
      exact h.queue k'
  order := by
    rw [h.order, List.filter_map]
    rfl
  count := by
    have hlength := List.length_eq_length_filter_add (l := entries) fun e => decide (e.1 = k)
    rw [h.getD, h.count, valuesOf, List.length_map, hlength, Nat.add_sub_cancel_left]
    congr 2
    funext e
    simp

end

end HerdrTop.KeyedFifo
