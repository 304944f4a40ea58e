import Mathlib.Data.List.AList
import Mathlib.Algebra.Order.Ring.Int
import Mathlib.Algebra.Order.Ring.WithTop
import Mathlib.Data.Int.ConditionallyCompleteOrder
import Mathlib.Order.ConditionallyCompleteLattice.Basic

/-!
# Hash maps and hash sets with an iteration order

A hash map is a finite map together with some order in which its entries are
visited. Lookups do not depend on that order, loops over the map do. The map is
kept as an association list without duplicate keys (`AList`), whose list order is
the iteration order; `Rehash` relates two maps that differ in nothing else.

Every operation has one lemma giving `get` of its result, and iteration is reduced
to `get` by `mem_toList`.
-/

namespace HerdrTop

universe u v w

/-- A finite map with an iteration order. -/
structure HashMap (κ : Type u) (α : Type v) where
  /-- The entries, in iteration order. -/
  alist : AList (fun _ : κ => α)

namespace HashMap

variable {κ : Type u} {α : Type v} {β : Type w}

/-- The empty map. -/
def empty : HashMap κ α := ⟨∅⟩

instance : EmptyCollection (HashMap κ α) := ⟨empty⟩
instance : Inhabited (HashMap κ α) := ⟨empty⟩

/-- The entries as pairs, in iteration order. -/
def toList (m : HashMap κ α) : List (κ × α) := m.alist.entries.map fun e => (e.1, e.2)

/-- The keys, in iteration order. -/
def keys (m : HashMap κ α) : List κ := m.alist.keys

/-- The values, in iteration order. -/
def values (m : HashMap κ α) : List α := m.alist.entries.map fun e => e.2

/-- The map with every value replaced by `f` of its key and itself. -/
def mapValues (f : κ → α → β) (m : HashMap κ α) : HashMap κ β :=
  ⟨⟨m.alist.entries.map (.map id f), m.alist.nodupKeys.map₂ f _⟩⟩

/-- The entries that satisfy `p`, in their order. -/
def retain (p : κ → α → Bool) (m : HashMap κ α) : HashMap κ α :=
  ⟨⟨m.alist.entries.filter fun e => p e.1 e.2,
    m.alist.nodupKeys.sublist List.filter_sublist⟩⟩

theorem keys_eq_map_toList (m : HashMap κ α) : m.keys = m.toList.map Prod.fst := by
  simp [keys, toList, AList.keys, List.keys]

theorem values_eq_map_toList (m : HashMap κ α) : m.values = m.toList.map Prod.snd := by
  simp [values, toList]

theorem keys_nodup (m : HashMap κ α) : m.keys.Nodup := m.alist.keys_nodup

theorem toList_nodup (m : HashMap κ α) : m.toList.Nodup :=
  List.Nodup.of_map Prod.fst (m.keys_eq_map_toList ▸ m.keys_nodup)

/-- Two maps with the same entries, visited in different orders. -/
def Rehash (m m' : HashMap κ α) : Prop := m.alist.entries.Perm m'.alist.entries

theorem Rehash.refl (m : HashMap κ α) : Rehash m m := List.Perm.refl _

theorem Rehash.toList_perm {m m' : HashMap κ α} (h : Rehash m m') : m.toList.Perm m'.toList :=
  List.Perm.map _ h

variable [DecidableEq κ]

instance [DecidableEq α] : DecidableEq (HashMap κ α) := fun m m' =>
  decidable_of_iff (m.alist.entries = m'.alist.entries)
    ⟨fun h => congrArg HashMap.mk (AList.ext h), fun h => h ▸ rfl⟩

/-- The value stored under a key. -/
def get (m : HashMap κ α) (k : κ) : Option α := m.alist.lookup k

/-- Whether a key has a value. -/
def contains (m : HashMap κ α) (k : κ) : Bool := (m.get k).isSome

/-- Stores a value under a key, replacing the former one. -/
def insert (m : HashMap κ α) (k : κ) (a : α) : HashMap κ α := ⟨m.alist.insert k a⟩

/-- Drops a key. -/
def remove (m : HashMap κ α) (k : κ) : HashMap κ α := ⟨m.alist.erase k⟩

/-- Stores a value under a key that has none (`entry(k).or_insert(a)`). -/
def orInsert (m : HashMap κ α) (k : κ) (a : α) : HashMap κ α :=
  if m.contains k then m else m.insert k a

/-- Changes the value of a key that has one (`get_mut(k)`). -/
def modify (m : HashMap κ α) (k : κ) (f : α → α) : HashMap κ α :=
  match m.get k with
  | some a => m.insert k (f a)
  | none => m

/-- Stores the pairs one after the other. -/
def extend (m : HashMap κ α) : List (κ × α) → HashMap κ α
  | [] => m
  | p :: ps => (m.insert p.1 p.2).extend ps

/-- The map holding the pairs of a list, later pairs replacing earlier ones. -/
def ofList (l : List (κ × α)) : HashMap κ α := (empty : HashMap κ α).extend l

/-! ### Lookups -/

@[simp] theorem get_empty (k : κ) : (∅ : HashMap κ α).get k = none := rfl

theorem get_insert (m : HashMap κ α) (k k' : κ) (a : α) :
    (m.insert k a).get k' = if k' = k then some a else m.get k' := by
  unfold get insert
  split_ifs with h
  · rw [h, AList.lookup_insert]
  · rw [AList.lookup_insert_ne h]

@[simp] theorem get_insert_self (m : HashMap κ α) (k : κ) (a : α) :
    (m.insert k a).get k = some a := by rw [get_insert, if_pos rfl]

theorem get_insert_ne (m : HashMap κ α) {k k' : κ} (a : α) (h : k' ≠ k) :
    (m.insert k a).get k' = m.get k' := by rw [get_insert, if_neg h]

theorem get_remove (m : HashMap κ α) (k k' : κ) :
    (m.remove k).get k' = if k' = k then none else m.get k' := by
  unfold get remove
  split_ifs with h
  · rw [h, AList.lookup_erase]
  · rw [AList.lookup_erase_ne h]

@[simp] theorem get_remove_self (m : HashMap κ α) (k : κ) : (m.remove k).get k = none := by
  rw [get_remove, if_pos rfl]

theorem get_remove_ne (m : HashMap κ α) {k k' : κ} (h : k' ≠ k) :
    (m.remove k).get k' = m.get k' := by rw [get_remove, if_neg h]

theorem get_eq_some_iff_mem (m : HashMap κ α) (k : κ) (a : α) :
    m.get k = some a ↔ (⟨k, a⟩ : Sigma fun _ : κ => α) ∈ m.alist.entries :=
  AList.mem_lookup_iff

theorem get_mapValues (f : κ → α → β) (m : HashMap κ α) (k : κ) :
    (m.mapValues f).get k = (m.get k).map (f k) := by
  refine Option.ext fun b => ?_
  rw [get_eq_some_iff_mem, Option.map_eq_some_iff]
  simp only [mapValues, List.mem_map, get_eq_some_iff_mem]
  constructor
  · rintro ⟨⟨k', a⟩, he, h⟩
    cases h
    exact ⟨a, he, rfl⟩
  · rintro ⟨a, he, rfl⟩
    exact ⟨⟨k, a⟩, he, rfl⟩

theorem get_retain (p : κ → α → Bool) (m : HashMap κ α) (k : κ) :
    (m.retain p).get k = (m.get k).filter (p k) := by
  refine Option.ext fun a => ?_
  rw [get_eq_some_iff_mem, Option.filter_eq_some_iff, get_eq_some_iff_mem]
  simp [retain, List.mem_filter]

theorem contains_iff {m : HashMap κ α} {k : κ} : m.contains k = true ↔ ∃ a, m.get k = some a := by
  rw [contains, Option.isSome_iff_exists]

theorem contains_eq_false {m : HashMap κ α} {k : κ} : m.contains k = false ↔ m.get k = none := by
  rw [contains, Option.isSome_eq_false_iff, Option.isNone_iff_eq_none]

theorem get_orInsert (m : HashMap κ α) (k k' : κ) (a : α) :
    (m.orInsert k a).get k' = if k' = k then some ((m.get k).getD a) else m.get k' := by
  unfold orInsert
  by_cases h : m.contains k = true
  · obtain ⟨b, hb⟩ := contains_iff.mp h
    rw [if_pos h]
    split_ifs with hk
    · rw [hk, hb, Option.getD_some]
    · rfl
  · have hn : m.get k = none := contains_eq_false.mp (by simpa using h)
    rw [if_neg h, get_insert, hn, Option.getD_none]

theorem get_modify (m : HashMap κ α) (k k' : κ) (f : α → α) :
    (m.modify k f).get k' = if k' = k then (m.get k).map f else m.get k' := by
  unfold modify
  cases h : m.get k with
  | none =>
    split_ifs with hk
    · rw [hk, h, Option.map_none]
    · rfl
  | some a => rw [get_insert, Option.map_some]

/-- What is left of a map has an entry where there was one. -/
theorem contains_remove {m : HashMap κ α} {k k' : κ} :
    (m.remove k).contains k' = true ↔ k' ≠ k ∧ m.contains k' = true := by
  rw [HashMap.contains, HashMap.get_remove, HashMap.contains]
  split_ifs with h <;> simp [h]

theorem contains_of_retain {m : HashMap κ α} {p : κ → α → Bool} {k : κ}
    (h : (m.retain p).contains k = true) : m.contains k = true := by
  obtain ⟨a, ha⟩ := HashMap.contains_iff.mp h
  rw [HashMap.get_retain, Option.filter_eq_some_iff] at ha
  exact HashMap.contains_iff.mpr ⟨a, ha.1⟩

/-- Where every entry satisfies `p`, nothing is left out. -/
theorem retain_eq_self {m : HashMap κ α} {p : κ → α → Bool} (h : ∀ k a, m.get k = some a → p k a = true) :
    m.retain p = m := by
  obtain ⟨entries, hnodup⟩ := m
  have hall : entries.filter (fun e => p e.1 e.2) = entries := by
    refine List.filter_eq_self.mpr fun e he => h e.1 e.2 ?_
    exact (get_eq_some_iff_mem _ _ _).mpr he
  unfold retain
  congr 2

theorem contains_modify {m : HashMap κ α} {k k' : κ} {f : α → α} :
    (m.modify k f).contains k' = m.contains k' := by
  rw [HashMap.contains, HashMap.get_modify, HashMap.contains]
  split_ifs with h
  · rw [h, Option.isSome_map]
  · rfl

theorem contains_insert {m : HashMap κ α} {k k' : κ} {a : α} :
    (m.insert k a).contains k' = true ↔ k' = k ∨ m.contains k' = true := by
  rw [HashMap.contains, HashMap.get_insert, HashMap.contains]
  split_ifs with h <;> simp [h]

/-! ### Iteration -/

theorem mem_toList {m : HashMap κ α} {k : κ} {a : α} : (k, a) ∈ m.toList ↔ m.get k = some a := by
  rw [get_eq_some_iff_mem, toList, List.mem_map]
  constructor
  · rintro ⟨⟨k', a'⟩, he, h⟩
    cases h
    exact he
  · intro he
    exact ⟨⟨k, a⟩, he, rfl⟩

theorem mem_values {m : HashMap κ α} {a : α} : a ∈ m.values ↔ ∃ k, m.get k = some a := by
  rw [values, List.mem_map]
  constructor
  · rintro ⟨⟨k, a'⟩, he, h⟩
    cases h
    exact ⟨k, (get_eq_some_iff_mem m k _).mpr he⟩
  · rintro ⟨k, hk⟩
    exact ⟨⟨k, a⟩, (get_eq_some_iff_mem m k a).mp hk, rfl⟩

theorem mem_keys {m : HashMap κ α} {k : κ} : k ∈ m.keys ↔ ∃ a, m.get k = some a := by
  rw [← contains_iff, contains, get, AList.lookup_isSome, keys, AList.mem_keys]

theorem get_extend_of_notMem (m : HashMap κ α) (l : List (κ × α)) (k : κ)
    (h : ∀ a, (k, a) ∉ l) : (m.extend l).get k = m.get k := by
  induction l generalizing m with
  | nil => rfl
  | cons p ps ih =>
    have hk : k ≠ p.1 := fun e => h p.2 (by rw [e]; exact List.mem_cons_self)
    rw [extend, ih _ fun a ha => h a (List.mem_cons_of_mem _ ha), get_insert_ne _ _ hk]

/-- What `extend` stores under a key was there before or comes from the list. -/
theorem get_extend_cases {m : HashMap κ α} {l : List (κ × α)} {k : κ} {a : α}
    (h : (m.extend l).get k = some a) : (k, a) ∈ l ∨ (m.get k = some a ∧ ∀ b, (k, b) ∉ l) := by
  induction l generalizing m with
  | nil => exact .inr ⟨h, fun _ => List.not_mem_nil⟩
  | cons p ps ih =>
    rcases ih h with hm | ⟨hm, hn⟩
    · exact .inl (List.mem_cons_of_mem _ hm)
    · rw [get_insert] at hm
      split_ifs at hm with e
      · cases hm
        exact .inl (by rw [e]; exact List.mem_cons_self)
      · refine .inr ⟨hm, fun b hb => ?_⟩
        rcases List.mem_cons.mp hb with rfl | hb
        · exact e rfl
        · exact hn b hb

/-- `extend` stores something under every key of the list. -/
theorem get_extend_ne_none {m : HashMap κ α} {l : List (κ × α)} {k : κ} {a : α} (h : (k, a) ∈ l) :
    (m.extend l).get k ≠ none := by
  induction l generalizing m a with
  | nil => cases h
  | cons p ps ih =>
    by_cases hmem : ∃ b, (k, b) ∈ ps
    · obtain ⟨b, hb⟩ := hmem
      exact ih hb
    · have hp : p = (k, a) := ((List.mem_cons.mp h).resolve_right fun h => hmem ⟨a, h⟩).symm
      rw [extend, get_extend_of_notMem _ _ _ fun b hb => hmem ⟨b, hb⟩, hp, get_insert_self]
      exact Option.some_ne_none a

/-- What `extend` stores under a key to which the list gives one value. -/
theorem get_extend_of_unique {m : HashMap κ α} {l : List (κ × α)} {k : κ} {a : α} (h : (k, a) ∈ l)
    (hunique : ∀ b, (k, b) ∈ l → b = a) : (m.extend l).get k = some a := by
  induction l generalizing m with
  | nil => cases h
  | cons p ps ih =>
    have htail : ∀ b, (k, b) ∈ ps → b = a := fun b hb => hunique b (List.mem_cons_of_mem _ hb)
    by_cases hmem : (k, a) ∈ ps
    · exact ih hmem htail
    · have hp : p = (k, a) := ((List.mem_cons.mp h).resolve_right hmem).symm
      subst hp
      rw [extend, get_extend_of_notMem]
      · exact get_insert_self m _ _
      · intro b hb
        exact hmem (htail b hb ▸ hb)

/-- What `extend` stores under a key that the list has once. -/
theorem get_extend_of_mem {m : HashMap κ α} {l : List (κ × α)} (hnodup : (l.map Prod.fst).Nodup)
    {k : κ} {a : α} (h : (k, a) ∈ l) : (m.extend l).get k = some a :=
  get_extend_of_unique h fun _ hb => (Prod.mk.inj (List.inj_on_of_nodup_map hnodup hb h rfl)).2

/-- Storing one value under many keys. -/
theorem get_extend_const (m : HashMap κ α) (keys : List κ) (a : α) (k : κ) :
    (m.extend (keys.map fun k => (k, a))).get k = if k ∈ keys then some a else m.get k := by
  induction keys generalizing m with
  | nil => rw [List.map_nil, extend, if_neg List.not_mem_nil]
  | cons x xs ih =>
    rw [List.map_cons, extend, ih, get_insert]
    by_cases hk : k ∈ xs
    · rw [if_pos hk, if_pos (List.mem_cons_of_mem _ hk)]
    · by_cases hx : k = x
      · subst hx
        simp [hk]
      · simp [hk, hx]

/-! ### Sizes -/

theorem insert_orInsert (m : HashMap κ α) (k : κ) (a b : α) : (m.orInsert k a).insert k b = m.insert k b := by
  unfold orInsert
  split_ifs
  · rfl
  · simp only [insert, AList.insert_insert]

theorem length_keys_insert (m : HashMap κ α) (k : κ) (a : α) :
    (m.insert k a).keys.length = if m.contains k then m.keys.length else m.keys.length + 1 := by
  have hkeys : (m.insert k a).keys = k :: m.keys.erase k := AList.keys_insert _
  rw [hkeys, List.length_cons]
  split_ifs with h
  · have hmem : k ∈ m.keys := mem_keys.mpr (contains_iff.mp h)
    have hpos := List.length_pos_of_mem hmem
    rw [List.length_erase_of_mem hmem]
    omega
  · have hmem : k ∉ m.keys := fun hmem => h (contains_iff.mpr (mem_keys.mp hmem))
    rw [List.erase_of_not_mem hmem]

theorem length_keys_remove_le (m : HashMap κ α) (k : κ) : (m.remove k).keys.length ≤ m.keys.length := by
  have hkeys : (m.remove k).keys = m.keys.erase k := AList.keys_erase _ _
  rw [hkeys]
  exact List.length_erase_le

/-- Taking a value out takes its share out of a sum over the values. -/
theorem sum_values_remove {m : HashMap κ α} {k : κ} {a : α} (h : m.get k = some a) (f : α → ℕ) :
    ((m.remove k).values.map f).sum + f a = (m.values.map f).sum := by
  have hmem : (⟨k, a⟩ : Sigma fun _ : κ => α) ∈ m.alist.entries := (get_eq_some_iff_mem m k a).mp h
  obtain ⟨b, l₁, l₂, -, hsplit, herase⟩ := List.exists_of_kerase (List.mem_keys_of_mem hmem)
  obtain rfl : b = a := by
    have hb : m.get k = some b := (get_eq_some_iff_mem m k b).mpr (hsplit ▸ by simp)
    exact Option.some.inj (hb.symm.trans h)
  have hvalues : (m.remove k).values = (l₁ ++ l₂).map fun e => e.2 :=
    congrArg (List.map fun e : Sigma fun _ : κ => α => e.2) herase
  rw [hvalues, values, hsplit]
  simp only [List.map_append, List.map_cons, List.sum_append, List.sum_cons]
  omega

theorem sum_values_insert {m : HashMap κ α} {k : κ} {a : α} (h : m.get k = some a) (b : α)
    (f : α → ℕ) : ((m.insert k b).values.map f).sum + f a = (m.values.map f).sum + f b := by
  have hvalues : (m.insert k b).values = b :: (m.remove k).values := rfl
  rw [hvalues, List.map_cons, List.sum_cons, ← sum_values_remove h f]
  omega

/-! ### Iteration order -/

theorem Rehash.get {m m' : HashMap κ α} (h : Rehash m m') (k : κ) : m'.get k = m.get k :=
  (AList.perm_lookup h).symm

omit [DecidableEq κ] in
theorem Rehash.keys_perm {m m' : HashMap κ α} (h : Rehash m m') : m.keys.Perm m'.keys := by
  rw [keys_eq_map_toList, keys_eq_map_toList]
  exact h.toList_perm.map _

omit [DecidableEq κ] in
theorem Rehash.values_perm {m m' : HashMap κ α} (h : Rehash m m') : m.values.Perm m'.values := by
  rw [values_eq_map_toList, values_eq_map_toList]
  exact h.toList_perm.map _

/-- Maps with the same lookups have the same entries. -/
theorem Rehash.of_get {m m' : HashMap κ α} (h : ∀ k, m'.get k = m.get k) : Rehash m m' := by
  refine (List.perm_ext_iff_of_nodup m.alist.nodupKeys.nodup m'.alist.nodupKeys.nodup).mpr ?_
  rintro ⟨k, a⟩
  rw [← get_eq_some_iff_mem, ← get_eq_some_iff_mem, h]

end HashMap

/-- A finite set with an iteration order. -/
abbrev HashSet (α : Type u) := HashMap α Unit

namespace HashSet

variable {α : Type u} [DecidableEq α]

/-- Adds an element. -/
def insert (s : HashSet α) (a : α) : HashSet α := HashMap.insert s a ()

/-- Adds the elements of a list. -/
def extend (s : HashSet α) : List α → HashSet α
  | [] => s
  | a :: as => extend (insert s a) as

/-- The set of the elements of a list. -/
def ofList (l : List α) : HashSet α := extend (∅ : HashMap α Unit) l

theorem mem_keys_insert {s : HashSet α} {a b : α} :
    b ∈ (insert s a).keys ↔ b = a ∨ b ∈ HashMap.keys s := by
  rw [HashMap.mem_keys, HashMap.mem_keys, insert, HashMap.get_insert]
  split_ifs with h <;> simp [h]

theorem mem_keys_extend {s : HashSet α} {l : List α} {b : α} :
    b ∈ (extend s l).keys ↔ b ∈ l ∨ b ∈ HashMap.keys s := by
  induction l generalizing s with
  | nil => simp [extend]
  | cons a as ih =>
    rw [extend, ih, mem_keys_insert, List.mem_cons]
    tauto

@[simp] theorem mem_keys_ofList {l : List α} {b : α} : b ∈ (ofList l).keys ↔ b ∈ l := by
  rw [ofList, mem_keys_extend]
  simp [HashMap.mem_keys]

theorem mem_keys_retain {s : HashSet α} {p : α → Bool} {b : α} :
    b ∈ (HashMap.retain (fun a _ => p a) s).keys ↔ b ∈ HashMap.keys s ∧ p b = true := by
  simp only [HashMap.mem_keys, HashMap.get_retain, Option.filter_eq_some_iff, exists_and_right]

theorem contains_iff_mem_keys {s : HashSet α} {a : α} :
    HashMap.contains s a = true ↔ a ∈ HashMap.keys s := by
  rw [HashMap.contains_iff, HashMap.mem_keys]

end HashSet

end HerdrTop
