import HerdrTop.Tui.Shapes

/-!
# Where the selection goes

When the selected row is gone, the selection goes to the run that the selected one was merged into, to the same run at
another place, to the innermost row above that is still there, to the nearest row around it, or to the first row.

## What is proved

* `nearestVisibleAncestor_spec`: going back finds the innermost row above that is left.
* `survivingNeighbor_spec`: a row that is left is found if there is any besides the selected one, one of the same
  depth if there is any, and none of its kind is nearer.
-/

namespace HerdrTop.Tui

open Outline

/-- Whether there is a row with this key. -/
def hasKey (rows : List TreeRow) (key : NodeKey) : Bool := rows.any fun row => row.key = key

/-- Where the row with this key is. -/
def rowIndex (rows : List TreeRow) (key : NodeKey) : Option ℕ := rows.findIdx? fun row => row.key = key

/-- The pane of a run. -/
def NodeKey.runPane : NodeKey → Option String
  | .run _ paneId => paneId
  | _ => none

/-- A row of a run: the one at the previous place, or else the first one. -/
def preferredRunRow (rows : List TreeRow) (runId : RunId) (previous : NodeKey) : Option TreeRow :=
  (rows.find? fun row => row.key = .run runId previous.runPane) <|> rows.find? fun row => row.key.runId = some runId

/-- The rows at this distance, the one that comes after first. -/
def candidatesAt (rows : List TreeRow) (index distance : ℕ) : List TreeRow :=
  (rows[index + distance]?).toList ++ (if distance ≤ index then rows[index - distance]? else none).toList

/-- The nearest row that is left, one of the same depth if there is any. -/
def survivingNeighbor (oldRows newRows : List TreeRow) (selected : NodeKey) : Option NodeKey := do
  let oldIndex ← rowIndex oldRows selected
  let selectedRow ← oldRows[oldIndex]?
  [true, false].findSome? fun sameDepthOnly =>
    (List.range' 1 (oldRows.length - 1)).findSome? fun distance =>
      ((candidatesAt oldRows oldIndex distance).find? fun candidate =>
        (!sameDepthOnly || candidate.depth = selectedRow.depth) && hasKey newRows candidate.key).map (·.key)

/-- Goes back over the rows and takes each one that is less deep than what was taken before, up to one that is left. -/
def goBack (newRows : List TreeRow) : List TreeRow → ℕ → Option NodeKey
  | [], _ => none
  | row :: before, depth =>
    if row.depth < depth then if hasKey newRows row.key then some row.key else goBack newRows before row.depth
    else goBack newRows before depth

/-- The innermost row above that is left. -/
def nearestVisibleAncestor (oldRows newRows : List TreeRow) (selected : NodeKey) : Option NodeKey := do
  let index ← rowIndex oldRows selected
  let row ← oldRows[index]?
  goBack newRows (oldRows.take index).reverse row.depth

/-! ### Finding rows -/

theorem hasKey_iff {rows : List TreeRow} {key : NodeKey} : hasKey rows key = true ↔ key ∈ rows.map (·.key) := by
  simp only [hasKey, List.any_eq_true, decide_eq_true_eq, List.mem_map]

theorem rowIndex_eq_some {rows : List TreeRow} {key : NodeKey} {index : ℕ} (h : rowIndex rows key = some index) :
    ∃ row, rows[index]? = some row ∧ row.key = key := by
  obtain ⟨hlt, hkey, -⟩ := List.findIdx?_eq_some_iff_getElem.mp h
  exact ⟨rows[index], List.getElem?_eq_getElem hlt, of_decide_eq_true hkey⟩

/-- The row of the run that is at the place of the selected row, or else the first one. -/
structure TakesPlace (rows : List TreeRow) (runId : RunId) (selected : NodeKey) (row : TreeRow) : Prop where
  mem : row ∈ rows
  run : row.key.runId = some runId
  place : .run runId selected.runPane ∈ rows.map (·.key) → row.key = .run runId selected.runPane
  first : .run runId selected.runPane ∉ rows.map (·.key) →
    ∃ before after, rows = before ++ row :: after ∧ ∀ other ∈ before, other.key.runId ≠ some runId

theorem preferredRunRow_eq_some {rows : List TreeRow} {runId : RunId} {previous : NodeKey} {row : TreeRow}
    (h : preferredRunRow rows runId previous = some row) : TakesPlace rows runId previous row := by
  unfold preferredRunRow at h
  generalize hsame : rows.find? _ = same at h
  cases same with
  | some found =>
    obtain rfl := Option.some.inj h
    have hfound := List.find?_some hsame
    have hkey : found.key = .run runId previous.runPane := of_decide_eq_true hfound
    have hmem := List.mem_of_find?_eq_some hsame
    exact ⟨hmem, by rw [hkey]; rfl, fun _ => hkey, fun hnone => absurd (hkey ▸ List.mem_map_of_mem hmem) hnone⟩
  | none =>
    have hfirst : rows.find? (fun row => row.key.runId = some runId) = some row := h
    obtain ⟨hkey, before, after, hrows, hbefore⟩ := List.find?_eq_some_iff_append.mp hfirst
    refine ⟨List.mem_of_find?_eq_some hfirst, of_decide_eq_true hkey, fun hplace => ?_, fun _ => ?_⟩
    · obtain ⟨other, hother, heq⟩ := List.mem_map.mp hplace
      exact absurd (decide_eq_true heq) (List.find?_eq_none.mp hsame other hother)
    · exact ⟨before, after, hrows, fun other hother => by simpa using hbefore other hother⟩

theorem preferredRunRow_eq_none {rows : List TreeRow} {runId : RunId} {previous : NodeKey}
    (h : preferredRunRow rows runId previous = none) (row : TreeRow) : ¬TakesPlace rows runId previous row := by
  intro htakes
  unfold preferredRunRow at h
  generalize rows.find? (fun row => row.key = .run runId previous.runPane) = same at h
  cases same with
  | some found => cases h
  | none =>
    have hnone : rows.find? (fun row => row.key.runId = some runId) = none := h
    exact absurd (decide_eq_true htakes.run) (List.find?_eq_none.mp hnone row htakes.mem)

/-- One row at most takes the place, by its key. -/
theorem TakesPlace.key_eq {rows : List TreeRow} {runId : RunId} {selected : NodeKey} {row row' : TreeRow}
    (h : TakesPlace rows runId selected row) (h' : TakesPlace rows runId selected row') : row.key = row'.key := by
  by_cases hplace : .run runId selected.runPane ∈ rows.map (·.key)
  · rw [h.place hplace, h'.place hplace]
  · obtain ⟨before, after, hrows, hbefore⟩ := h.first hplace
    obtain ⟨before', after', hrows', hbefore'⟩ := h'.first hplace
    rcases List.append_eq_append_iff.mp (hrows.symm.trans hrows') with ⟨between, hmore, hrest⟩ | ⟨between, hmore, hrest⟩
    · cases between with
      | nil => exact congrArg TreeRow.key (List.cons.inj hrest).1
      | cons other between =>
        obtain ⟨rfl, -⟩ := List.cons.inj hrest
        exact absurd h.run (hbefore' row (by simp [hmore]))
    · cases between with
      | nil => exact congrArg TreeRow.key (List.cons.inj hrest).1.symm
      | cons other between =>
        obtain ⟨rfl, -⟩ := List.cons.inj hrest
        exact absurd h'.run (hbefore row' (by simp [hmore]))

/-! ### The innermost row above -/

section

variable {oldRows newRows : List TreeRow} {selected key : NodeKey} {index : ℕ}

theorem goBack_zero (rows : List TreeRow) : goBack newRows rows 0 = none := by
  induction rows with
  | nil => rfl
  | cons row rows ih => rw [goBack, if_neg (Nat.not_lt_zero _), ih]

/-- The key of the row at a place, if it is left. -/
def leftAt (oldRows newRows : List TreeRow) (j : ℕ) : Option NodeKey :=
  (oldRows[j]?.map (·.key)).filter (hasKey newRows)

theorem goBack_eq (hindex : index ≤ oldRows.length) (depth : ℕ) :
    goBack newRows (oldRows.take index).reverse depth =
      (ancestors (depthAt TreeRow.depth oldRows) index depth).findSome? (leftAt oldRows newRows) := by
  induction index generalizing depth with
  | zero => rfl
  | succ index ih =>
    obtain ⟨row, hrow⟩ := List.getElem?_eq_some_iff.mpr ⟨hindex, rfl⟩ |> fun h => (⟨_, h⟩ : ∃ row, oldRows[index]? = some row)
    have hdepth : depthAt TreeRow.depth oldRows index = row.depth := by rw [depthAt, hrow]; rfl
    rw [List.take_add_one, hrow, Option.toList_some, List.reverse_append, List.reverse_singleton, List.singleton_append,
      goBack, ancestors, hdepth]
    by_cases hless : row.depth < depth
    · rw [if_pos hless, if_pos hless, List.findSome?_cons, leftAt, hrow, Option.map_some, Option.filter_some]
      by_cases hleft : hasKey newRows row.key = true
      · rw [if_pos hleft, if_pos hleft]
      · rw [if_neg hleft, if_neg hleft]
        dsimp only
        split_ifs with hzero
        · rw [hzero, goBack_zero]
          rfl
        · exact ih (Nat.le_of_succ_le hindex) row.depth
    · rw [if_neg hless, if_neg hless]
      exact ih (Nat.le_of_succ_le hindex) depth

/-- The innermost row above the selected one that is left, by its key. -/
def InnermostLeft (oldRows newRows : List TreeRow) (index : ℕ) (key : NodeKey) : Prop :=
  ∃ j, Above (depthAt TreeRow.depth oldRows) j index ∧ leftAt oldRows newRows j = some key ∧
    ∀ k, Above (depthAt TreeRow.depth oldRows) k index → j < k → leftAt oldRows newRows k = none

theorem nearestVisibleAncestor_eq (hindex : rowIndex oldRows selected = some index) :
    nearestVisibleAncestor oldRows newRows selected =
      (ancestors (depthAt TreeRow.depth oldRows) index (depthAt TreeRow.depth oldRows index)).findSome?
        (leftAt oldRows newRows) := by
  obtain ⟨row, hrow, -⟩ := rowIndex_eq_some hindex
  have hdepth : row.depth = depthAt TreeRow.depth oldRows index := by rw [depthAt, hrow]; rfl
  have hlength : index ≤ oldRows.length := Nat.le_of_lt (List.getElem?_eq_some_iff.mp hrow).1
  rw [← goBack_eq hlength, ← hdepth, nearestVisibleAncestor, hindex]
  simp only [Option.bind_eq_bind, Option.bind_some, hrow]

/-- Going back finds the innermost row above that is left, if there is one. -/
theorem nearestVisibleAncestor_spec (hindex : rowIndex oldRows selected = some index) :
    nearestVisibleAncestor oldRows newRows selected = some key ↔ InnermostLeft oldRows newRows index key := by
  rw [nearestVisibleAncestor_eq hindex, List.findSome?_eq_some_iff]
  have hsorted := @ancestors_descend (depthAt TreeRow.depth oldRows) index (depthAt TreeRow.depth oldRows index)
  constructor
  · rintro ⟨inner, j, outer, hall, hleft, hnone⟩
    refine ⟨j, mem_ancestors.mp (hall ▸ List.mem_append_right _ List.mem_cons_self), hleft, fun k hk hjk => ?_⟩
    have hmem := mem_ancestors.mpr hk
    rw [hall] at hmem hsorted
    rcases List.mem_append.mp hmem with hmem | hmem
    · exact hnone k hmem
    · rcases List.mem_cons.mp hmem with rfl | hmem
      · exact absurd hjk (Nat.lt_irrefl k)
      · have hless := List.rel_of_pairwise_cons (List.pairwise_append.mp hsorted).2.1 hmem
        omega
  · rintro ⟨j, habove, hleft, hnone⟩
    obtain ⟨inner, outer, hall⟩ := List.append_of_mem (mem_ancestors.mpr habove)
    refine ⟨inner, j, outer, hall, hleft, fun k hk => ?_⟩
    rw [hall] at hsorted
    have hless := (List.pairwise_append.mp hsorted).2.2 k hk j List.mem_cons_self
    exact hnone k (mem_ancestors.mp (hall ▸ List.mem_append_left _ hk)) hless

/-- Without any row above that is left, none is found. -/
theorem nearestVisibleAncestor_none (hindex : rowIndex oldRows selected = some index) :
    nearestVisibleAncestor oldRows newRows selected = none ↔
      ∀ k, Above (depthAt TreeRow.depth oldRows) k index → leftAt oldRows newRows k = none := by
  rw [nearestVisibleAncestor_eq hindex, List.findSome?_eq_none_iff]
  exact ⟨fun h k hk => h k (mem_ancestors.mpr hk), fun h k hk => h k (mem_ancestors.mp hk)⟩

/-! ### The nearest row -/

theorem mem_candidatesAt {rows : List TreeRow} {distance : ℕ} {row : TreeRow} :
    row ∈ candidatesAt rows index distance ↔ ∃ k, rows[k]? = some row ∧ (k = index + distance ∨ k + distance = index) := by
  rw [candidatesAt, List.mem_append, Option.mem_toList, Option.mem_toList]
  constructor
  · rintro (h | h)
    · exact ⟨index + distance, h, .inl rfl⟩
    · split_ifs at h with hle
      exact ⟨index - distance, h, .inr (Nat.sub_add_cancel hle)⟩
  · rintro ⟨k, hrow, rfl | rfl⟩
    · exact .inl hrow
    · rw [if_pos (Nat.le_add_left _ _), Nat.add_sub_cancel]
      exact .inr hrow

/-- The nearest row besides that at the place with this property. -/
def NearestWith (rows : List TreeRow) (p : TreeRow → Bool) (index : ℕ) (key : NodeKey) : Prop :=
  ∃ j row, rows[j]? = some row ∧ j ≠ index ∧ p row = true ∧ row.key = key ∧
    ∀ k other, rows[k]? = some other → k ≠ index → p other = true → Nat.dist index j ≤ Nat.dist index k

def findNearest (rows : List TreeRow) (p : TreeRow → Bool) (index : ℕ) : Option NodeKey :=
  (List.range' 1 (rows.length - 1)).findSome? fun distance => ((candidatesAt rows index distance).find? p).map (·.key)

theorem findNearest_none {rows : List TreeRow} {p : TreeRow → Bool} (hindex : index < rows.length) :
    findNearest rows p index = none ↔ ∀ k row, rows[k]? = some row → k ≠ index → p row = false := by
  rw [findNearest, List.findSome?_eq_none_iff]
  simp only [Option.map_eq_none_iff, List.find?_eq_none, Bool.not_eq_true, List.mem_range'_1]
  constructor
  · intro h k row hrow hk
    have hlt := (List.getElem?_eq_some_iff.mp hrow).1
    exact h (Nat.dist index k) (by unfold Nat.dist; omega) row
      (mem_candidatesAt.mpr ⟨k, hrow, by unfold Nat.dist; omega⟩)
  · intro h distance hdistance row hrow
    obtain ⟨k, hrow, hk⟩ := mem_candidatesAt.mp hrow
    exact h k row hrow (by omega)

theorem findNearest_some {rows : List TreeRow} {p : TreeRow → Bool} (h : findNearest rows p index = some key) :
    NearestWith rows p index key := by
  obtain ⟨before, distance, after, hall, hfound, hnone⟩ := List.findSome?_eq_some_iff.mp h
  obtain ⟨row, hrow, hkey⟩ := Option.map_eq_some_iff.mp hfound
  have hdistance : 1 ≤ distance ∧ distance < 1 + (rows.length - 1) :=
    List.mem_range'_1.mp (hall ▸ List.mem_append_right _ List.mem_cons_self)
  obtain ⟨j, hj, hplace⟩ := mem_candidatesAt.mp (List.mem_of_find?_eq_some hrow)
  refine ⟨j, row, hj, by omega, List.find?_some hrow, hkey, fun k other hk hother hp => ?_⟩
  by_contra hfar
  have hlt := (List.getElem?_eq_some_iff.mp hk).1
  have hjlt := (List.getElem?_eq_some_iff.mp hj).1
  have hnear : Nat.dist index k ∈ before := by
    have hmem : Nat.dist index k ∈ List.range' 1 (rows.length - 1) :=
      List.mem_range'_1.mpr (by unfold Nat.dist at *; omega)
    have hsorted : (List.range' 1 (rows.length - 1)).Pairwise (· < ·) := List.pairwise_lt_range'
    rw [hall] at hmem hsorted
    rcases List.mem_append.mp hmem with hmem | hmem
    · exact hmem
    · rcases List.mem_cons.mp hmem with heq | hmem
      · unfold Nat.dist at *
        omega
      · have hless := List.rel_of_pairwise_cons (List.pairwise_append.mp hsorted).2.1 hmem
        unfold Nat.dist at *
        omega
  have hempty := hnone _ hnear
  rw [Option.map_eq_none_iff, List.find?_eq_none] at hempty
  exact hempty other (mem_candidatesAt.mpr ⟨k, hk, by unfold Nat.dist; omega⟩) hp

theorem survivingNeighbor_eq (hindex : rowIndex oldRows selected = some index) :
    survivingNeighbor oldRows newRows selected =
      (findNearest oldRows (fun row =>
        row.depth = depthAt TreeRow.depth oldRows index && hasKey newRows row.key) index <|>
      findNearest oldRows (fun row => hasKey newRows row.key) index) := by
  obtain ⟨row, hrow, -⟩ := rowIndex_eq_some hindex
  have hdepth : depthAt TreeRow.depth oldRows index = row.depth := by rw [depthAt, hrow]; rfl
  rw [survivingNeighbor, hindex]
  simp only [Option.bind_eq_bind, Option.bind_some, hrow, hdepth, List.findSome?_cons, List.findSome?_nil]
  simp only [Bool.not_true, Bool.not_false, Bool.false_or, Bool.true_or, Bool.true_and]
  unfold findNearest
  generalize (List.range' 1 (oldRows.length - 1)).findSome? _ = same
  cases same with
  | some key => rfl
  | none =>
    generalize (List.range' 1 (oldRows.length - 1)).findSome? _ = any
    cases any <;> rfl

/-- The nearest row that is left: of the rows of the same depth, or of all rows if none of these is. -/
def NearestLeft (oldRows newRows : List TreeRow) (index : ℕ) (key : NodeKey) : Prop :=
  NearestWith oldRows (fun row => row.depth = depthAt TreeRow.depth oldRows index && hasKey newRows row.key) index key ∨
    (∀ k row, oldRows[k]? = some row → k ≠ index → row.depth = depthAt TreeRow.depth oldRows index →
      hasKey newRows row.key = false) ∧
    NearestWith oldRows (fun row => hasKey newRows row.key) index key

theorem survivingNeighbor_some (hindex : rowIndex oldRows selected = some index)
    (h : survivingNeighbor oldRows newRows selected = some key) : NearestLeft oldRows newRows index key := by
  obtain ⟨row, hrow, -⟩ := rowIndex_eq_some hindex
  have hlt := (List.getElem?_eq_some_iff.mp hrow).1
  rw [survivingNeighbor_eq hindex] at h
  generalize hsame : findNearest oldRows (fun row =>
    row.depth = depthAt TreeRow.depth oldRows index && hasKey newRows row.key) index = same at h
  cases same with
  | some found =>
    obtain rfl := Option.some.inj h
    exact .inl (findNearest_some hsame)
  | none =>
    refine .inr ⟨fun k row hk hother hdepth => ?_, findNearest_some h⟩
    have hnone := (findNearest_none hlt).mp hsame k row hk hother
    rwa [decide_eq_true hdepth, Bool.true_and] at hnone

theorem survivingNeighbor_none (hindex : rowIndex oldRows selected = some index)
    (h : survivingNeighbor oldRows newRows selected = none) :
    ∀ k row, oldRows[k]? = some row → k ≠ index → hasKey newRows row.key = false := by
  obtain ⟨row, hrow, -⟩ := rowIndex_eq_some hindex
  rw [survivingNeighbor_eq hindex] at h
  generalize findNearest oldRows (fun row =>
    row.depth = depthAt TreeRow.depth oldRows index && hasKey newRows row.key) index = same at h
  cases same with
  | some found => cases h
  | none => exact (findNearest_none (List.getElem?_eq_some_iff.mp hrow).1).mp h

end

/-! ### The replacement -/

/-- Where the selection goes when nothing is known of what was selected. -/
def fallback (oldRows newRows : List TreeRow) (selected : NodeKey) : Option NodeKey :=
  nearestVisibleAncestor oldRows newRows selected <|> survivingNeighbor oldRows newRows selected <|>
    newRows.head?.map (·.key)

/-- What the selection falls back on: the innermost row above that is left, or else the nearest one, or else the first
row, if the selected one was not shown before or nothing is left. -/
def FallsBackOn (oldRows newRows : List TreeRow) (selected key : NodeKey) : Prop :=
  (∃ index, rowIndex oldRows selected = some index ∧ (InnermostLeft oldRows newRows index key ∨
    (∀ k, Above (depthAt TreeRow.depth oldRows) k index → leftAt oldRows newRows k = none) ∧
      NearestLeft oldRows newRows index key)) ∨
  ((∀ row ∈ oldRows, row.key ≠ selected → hasKey newRows row.key = false) ∨ rowIndex oldRows selected = none) ∧
    newRows.head?.map (·.key) = some key

theorem leftAt_eq_some {oldRows newRows : List TreeRow} {j : ℕ} {key : NodeKey}
    (h : leftAt oldRows newRows j = some key) : key ∈ newRows.map (·.key) :=
  hasKey_iff.mp (Option.filter_eq_some_iff.mp h).2

theorem fallback_spec {oldRows newRows : List TreeRow} {selected key : NodeKey}
    (h : fallback oldRows newRows selected = some key) : FallsBackOn oldRows newRows selected key := by
  cases hindex : rowIndex oldRows selected with
  | none =>
    refine .inr ⟨.inr hindex, ?_⟩
    rw [fallback, nearestVisibleAncestor, survivingNeighbor, hindex] at h
    exact h
  | some index =>
    cases habove : nearestVisibleAncestor oldRows newRows selected with
    | some found =>
      rw [fallback, habove] at h
      obtain rfl := Option.some.inj h
      exact .inl ⟨index, hindex, .inl ((nearestVisibleAncestor_spec hindex).mp habove)⟩
    | none =>
      rw [fallback, habove] at h
      cases hnear : survivingNeighbor oldRows newRows selected with
      | some found =>
        rw [hnear] at h
        obtain rfl := Option.some.inj h
        exact .inl ⟨index, hindex,
          .inr ⟨(nearestVisibleAncestor_none hindex).mp habove, survivingNeighbor_some hindex hnear⟩⟩
      | none =>
        rw [hnear] at h
        refine .inr ⟨.inl fun row hrow hother => ?_, h⟩
        obtain ⟨k, hk⟩ := List.mem_iff_getElem?.mp hrow
        refine survivingNeighbor_none hindex hnear k row hk fun heq => hother ?_
        obtain ⟨row', hrow', hkey⟩ := rowIndex_eq_some hindex
        rw [heq, hrow'] at hk
        rw [← Option.some.inj hk]
        exact hkey

theorem NearestWith.mem {rows newRows : List TreeRow} {p : TreeRow → Bool} {index : ℕ} {key : NodeKey}
    (h : NearestWith rows p index key) (hp : ∀ row, p row = true → hasKey newRows row.key = true) :
    key ∈ newRows.map (·.key) := by
  obtain ⟨j, row, -, -, hrow, rfl, -⟩ := h
  exact hasKey_iff.mp (hp row hrow)

/-- The selection falls back on a row, unless there is none. -/
theorem fallback_mem {oldRows newRows : List TreeRow} {selected key : NodeKey}
    (h : fallback oldRows newRows selected = some key) : key ∈ newRows.map (·.key) := by
  rcases fallback_spec h with ⟨index, -, hinner | ⟨-, hnear⟩⟩ | ⟨-, hfirst⟩
  · obtain ⟨j, -, hleft, -⟩ := hinner
    exact leftAt_eq_some hleft
  · rcases hnear with hnear | ⟨-, hnear⟩
    · exact hnear.mem fun row hrow => ((Bool.and_eq_true _ _).mp hrow).2
    · exact hnear.mem fun row hrow => hrow
  · obtain ⟨row, hrow, rfl⟩ := Option.map_eq_some_iff.mp hfirst
    exact List.mem_map_of_mem (List.mem_of_head? hrow)

theorem fallback_none {oldRows newRows : List TreeRow} {selected : NodeKey}
    (h : fallback oldRows newRows selected = none) : newRows = [] := by
  unfold fallback at h
  generalize nearestVisibleAncestor oldRows newRows selected = above,
    survivingNeighbor oldRows newRows selected = near at h
  cases above with
  | some key => cases h
  | none => cases near with
    | some key => cases h
    | none => cases newRows with
      | nil => rfl
      | cons row rows => cases h

end HerdrTop.Tui
