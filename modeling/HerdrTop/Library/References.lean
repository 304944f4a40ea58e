import HerdrTop.Library.HashMap

/-!
# References between tables

Tables are hash maps. The rows of one table may refer to rows of another one, which must exist, and a
row may be filed under a name that it carries itself. Both are kept by the writes of tables under the
conditions that foreign keys have: a row is stored after the row it refers to, and a row is removed when
nothing refers to it.
-/

namespace HerdrTop

universe u v w

variable {κ ι : Type u} {α : Type v} {β : Type w} [DecidableEq κ] [DecidableEq ι]

/-- Every row refers to a row of the other table. -/
def Refers (ref : κ → α → ι) (rows : HashMap κ α) (targets : HashMap ι β) : Prop :=
  ∀ k a, rows.get k = some a → (targets.get (ref k a)).isSome = true

/-- Every row is filed under its own name. -/
def FiledUnder (name : α → κ) (rows : HashMap κ α) : Prop := ∀ k a, rows.get k = some a → name a = k

namespace FiledUnder

variable {name : α → κ} {rows : HashMap κ α}

theorem empty : FiledUnder name (∅ : HashMap κ α) := fun _ _ h => by cases h

theorem of_toList (h : ∀ row ∈ rows.toList, name row.2 = row.1) : FiledUnder name rows :=
  fun k a hrow => h (k, a) (HashMap.mem_toList.mpr hrow)

theorem insert (h : FiledUnder name rows) (a : α) : FiledUnder name (rows.insert (name a) a) := by
  intro k b hb
  rw [HashMap.get_insert] at hb
  split_ifs at hb with hk
  · cases hb
    exact hk.symm
  · exact h k b hb

theorem remove (h : FiledUnder name rows) (k : κ) : FiledUnder name (rows.remove k) := by
  intro k' b hb
  rw [HashMap.get_remove] at hb
  split_ifs at hb
  exact h k' b hb

theorem retain (h : FiledUnder name rows) (p : κ → α → Bool) : FiledUnder name (rows.retain p) := by
  intro k a ha
  rw [HashMap.get_retain] at ha
  exact h k a (Option.filter_eq_some_iff.mp ha).1

/-- The names of the rows are the keys. -/
theorem mem_names (h : FiledUnder name rows) {k : κ} :
    k ∈ rows.values.map name ↔ (rows.get k).isSome = true := by
  rw [List.mem_map]
  constructor
  · rintro ⟨a, ha, rfl⟩
    obtain ⟨k, hk⟩ := HashMap.mem_values.mp ha
    rw [h k a hk, hk]
    rfl
  · intro hk
    obtain ⟨a, ha⟩ := Option.isSome_iff_exists.mp hk
    exact ⟨a, HashMap.mem_values.mpr ⟨k, ha⟩, h k a ha⟩

/-- The rows have different names. -/
theorem nodup_names (h : FiledUnder name rows) : (rows.values.map name).Nodup := by
  have hkeys : rows.values.map name = rows.keys := by
    rw [HashMap.values_eq_map_toList, HashMap.keys_eq_map_toList, List.map_map]
    exact List.map_congr_left fun entry hentry => h entry.1 entry.2 (HashMap.mem_toList.mp hentry)
  rw [hkeys]
  exact rows.keys_nodup

/-- A row is found under its name. -/
theorem get_name (h : FiledUnder name rows) {a : α} (ha : a ∈ rows.values) : rows.get (name a) = some a := by
  obtain ⟨k, hk⟩ := HashMap.mem_values.mp ha
  rw [h k a hk, hk]

end FiledUnder

namespace Refers

variable {ref : κ → α → ι} {rows : HashMap κ α} {targets : HashMap ι β}

theorem empty : Refers ref (∅ : HashMap κ α) targets := fun _ _ h => by cases h

/-- No fewer targets. -/
theorem mono {targets' : HashMap ι β} (h : Refers ref rows targets)
    (hsub : ∀ i, (targets.get i).isSome = true → (targets'.get i).isSome = true) :
    Refers ref rows targets' := fun k a hk => hsub _ (h k a hk)

theorem insert_target (h : Refers ref rows targets) (i : ι) (b : β) : Refers ref rows (targets.insert i b) := by
  refine h.mono fun i' hi' => ?_
  rw [HashMap.get_insert]
  split_ifs
  · rfl
  · exact hi'

/-- A row is stored after the one it refers to. -/
theorem insert (h : Refers ref rows targets) {k : κ} {a : α}
    (target : (targets.get (ref k a)).isSome = true) : Refers ref (rows.insert k a) targets := by
  intro k' b hb
  rw [HashMap.get_insert] at hb
  split_ifs at hb with hk
  · cases hb
    rw [hk]
    exact target
  · exact h k' b hb

theorem remove (h : Refers ref rows targets) (k : κ) : Refers ref (rows.remove k) targets := by
  intro k' b hb
  rw [HashMap.get_remove] at hb
  split_ifs at hb
  exact h k' b hb

/-- A row is removed when nothing refers to it. -/
theorem remove_target (h : Refers ref rows targets) {i : ι}
    (free : ∀ k a, rows.get k = some a → ref k a ≠ i) : Refers ref rows (targets.remove i) := by
  intro k a hk
  rw [HashMap.get_remove_ne _ (free k a hk)]
  exact h k a hk

end Refers

end HerdrTop
