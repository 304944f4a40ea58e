import HerdrTop.Tui.AppRows

/-!
# The selection stays on the screen

The selected row is one of those on the screen, the last one while the selection follows. Most keys and all changes of
the model select again after rows have been made; collapsing and moving over the tree make rows first and may keep the
selection then, so they need that nothing goes out of view meanwhile by itself. A key that comes after the rows were
due may lose the selection, until something selects again.

## What is proved

* `recoverSelection_spec`: where the selection goes when its row is gone, and what is said about it.
* `selection_displayed`: in every run, the selection is on the screen unless a key came late since the last selection.
* `selection_recovered`: in every run, where it goes when a new model is taken up.
* `frames_apart`: frames are drawn at a distance.
-/

namespace HerdrTop.Tui

open Outline

/-- The selected row is on the screen, and it is the last one while the selection follows. -/
structure App.Displayed (app : App) : Prop where
  shown : ∀ key, app.state.selected = some key → key ∈ app.rows.map (·.key)
  empty : app.state.selected = none → app.rows = []
  follows : app.state.follow = true → app.state.selected = lastKey app.rows

/-- The same rows, and the same one is selected. -/
structure App.SameScreen (app app' : App) : Prop where
  rows : app'.rows.map (·.key) = app.rows.map (·.key)
  selected : app'.state.selected = app.state.selected
  follow : app'.state.follow = app.state.follow

theorem lastKey_eq (rows : List TreeRow) : lastKey rows = (rows.map (·.key)).getLast? := List.getLast?_map.symm

theorem lastKey_none {rows : List TreeRow} (h : lastKey rows = none) : rows = [] :=
  List.getLast?_eq_none_iff.mp (Option.map_eq_none_iff.mp h)

theorem lastKey_mem {rows : List TreeRow} {key : NodeKey} (h : lastKey rows = some key) : key ∈ rows.map (·.key) := by
  rw [lastKey_eq] at h
  exact List.mem_of_getLast? h

namespace App

variable {env : Environment} {app app' origin : App} {clock : ℕ → ℤ} {key : NodeKey}

theorem SameScreen.refl (app : App) : SameScreen app app := ⟨rfl, rfl, rfl⟩

theorem SameScreen.trans {app'' : App} (h : SameScreen app app') (h' : SameScreen app' app'') : SameScreen app app'' :=
  ⟨h'.rows.trans h.rows, h'.selected.trans h.selected, h'.follow.trans h.follow⟩

theorem Displayed.transfer (h : Displayed app) (hsame : SameScreen app app') : Displayed app' where
  shown key hkey := by
    rw [hsame.rows]
    exact h.shown key (hsame.selected ▸ hkey)
  empty hnone := by
    have hempty := hsame.rows
    rw [h.empty (hsame.selected ▸ hnone), List.map_nil, List.map_eq_nil_iff] at hempty
    exact hempty
  follows hfollow := by
    rw [hsame.selected, h.follows (hsame.follow ▸ hfollow), lastKey_eq, lastKey_eq, hsame.rows]

theorem setSelection_last (app : App) : Displayed (app.setSelection (lastKey app.rows)) :=
  ⟨fun _ hkey => lastKey_mem hkey, fun hnone => lastKey_none hnone, fun _ => rfl⟩

theorem setSelection_shown (hfollow : app.state.follow = false) (hkey : key ∈ app.rows.map (·.key)) :
    Displayed (app.setSelection (some key)) := by
  refine ⟨fun other hother => ?_, fun hnone => ?_, fun hfollows => ?_⟩
  · obtain rfl := Option.some.inj hother
    exact hkey
  · cases hnone
  · exact absurd (hfollow.symm.trans hfollows) Bool.false_ne_true

theorem select_shown (hkey : key ∈ app.rows.map (·.key)) : Displayed (app.select key) := by
  have hfollow :
      ({ app with state := { app.state with follow := false, selectionReason := none } } : App).state.follow = false :=
    rfl
  exact setSelection_shown hfollow hkey

theorem setSelection_none (hfollow : app.state.follow = false) (hempty : app.rows = []) :
    Displayed (app.setSelection none) := by
  refine ⟨fun key hkey => ?_, fun _ => hempty, fun hfollows => ?_⟩
  · cases hkey
  · exact absurd (hfollow.symm.trans hfollows) Bool.false_ne_true

/-- The selection falls back on what there is. -/
theorem setSelection_fallback {oldRows : List TreeRow} {selected : NodeKey} (hfollow : app.state.follow = false) :
    Displayed (app.setSelection (fallback oldRows app.rows selected)) := by
  cases hfallback : fallback oldRows app.rows selected with
  | some key => exact setSelection_shown hfollow (fallback_mem hfallback)
  | none => exact setSelection_none hfollow (fallback_none hfallback)

theorem withReason_screen (app : App) (reason : Option SelectionReason) : SameScreen app (app.withReason reason) :=
  ⟨rfl, rfl, rfl⟩

/-! ### Recovery -/

theorem survivorRow_mem {newRows : List TreeRow} {selected : NodeKey} {row : TreeRow}
    (h : app.survivorRow newRows selected = some row) : row ∈ newRows := by
  obtain ⟨oldRunId, -, h⟩ := Option.bind_eq_some_iff.mp h
  obtain ⟨selectedKey, -, h⟩ := Option.bind_eq_some_iff.mp h
  obtain ⟨survivor, -, h⟩ := Option.bind_eq_some_iff.mp h
  split_ifs at h
  exact (preferredRunRow_eq_some h).mem

theorem reparentedRow_mem {oldRows newRows : List TreeRow} {selected : NodeKey} {row : TreeRow}
    (h : reparentedRow oldRows newRows selected = some row) : row ∈ newRows := by
  obtain ⟨runId, -, h⟩ := Option.bind_eq_some_iff.mp h
  obtain ⟨found, hfound, h⟩ := Option.bind_eq_some_iff.mp h
  split_ifs at h
  obtain rfl := Option.some.inj h
  exact (preferredRunRow_eq_some hfound).mem

/-- After a recovery the selection is on the screen. -/
theorem recoverSelection_displayed (hfollow : app.state.follow = false) (oldRows : List TreeRow)
    (hint : Option SelectionReason) : Displayed (app.recoverSelection oldRows app.rows hint) := by
  unfold recoverSelection
  cases hselected : app.state.selected with
  | none => exact setSelection_last app
  | some selected =>
    dsimp only
    split_ifs with hleft
    · refine ⟨fun key hkey => ?_, fun hnone => ?_, fun hfollows => ?_⟩
      · obtain rfl := Option.some.inj (hselected.symm.trans hkey)
        exact hasKey_iff.mp hleft
      · exact absurd (hselected.symm.trans hnone) (Option.some_ne_none selected)
      · exact absurd (hfollow.symm.trans hfollows) Bool.false_ne_true
    · cases hsurvivor : app.survivorRow app.rows selected with
      | some row =>
        exact (setSelection_shown hfollow (List.mem_map_of_mem (survivorRow_mem hsurvivor))).transfer
          (withReason_screen _ _)
      | none => cases hmoved : reparentedRow oldRows app.rows selected with
        | some row =>
          exact (setSelection_shown hfollow (List.mem_map_of_mem (reparentedRow_mem hmoved))).transfer
            (withReason_screen _ _)
        | none => exact (setSelection_fallback hfollow).transfer (withReason_screen _ _)

/-- The key of the selected run leads to another run. -/
def LeadsTo (model : DomainModel) (selectedRunKey : Option RunKey) (selected : NodeKey) (survivor : RunId) : Prop :=
  ∃ oldRunId key run, selected.runId = some oldRunId ∧ selectedRunKey = some key ∧
    model.taskRunByKey key = some run ∧ run.runId = survivor ∧ survivor ≠ oldRunId

/-- The selected run ended a day ago. -/
def AgedOut (model : DomainModel) (nowMs : ℤ) (selected : NodeKey) : Prop :=
  ∃ runId run endMs, selected.runId = some runId ∧ model.taskRun runId = some run ∧
    model.effectiveLifecycleEndMs run = some endMs ∧ satAddI64 endMs defaultTerminalVisibilityMs ≤ nowMs

/-- Why a row is gone. -/
inductive Gone (model : DomainModel) (selectedRunKey : Option RunKey) (nowMs : ℤ) (oldRows : List TreeRow)
    (selected : NodeKey) : SelectionReason → Prop
  | merged {survivor : RunId} (shown : selected ∈ oldRows.map (·.key))
      (leads : LeadsTo model selectedRunKey selected survivor) :
      Gone model selectedRunKey nowMs oldRows selected .merged
  | agedOut (shown : selected ∈ oldRows.map (·.key)) (stays : ∀ survivor, ¬LeadsTo model selectedRunKey selected survivor)
      (old : AgedOut model nowMs selected) : Gone model selectedRunKey nowMs oldRows selected .agedOut
  | closed (other : selected ∈ oldRows.map (·.key) →
      (∀ survivor, ¬LeadsTo model selectedRunKey selected survivor) ∧ ¬AgedOut model nowMs selected) :
      Gone model selectedRunKey nowMs oldRows selected .closed

/-- The row of the run that the selected one was merged into. -/
def MergesTo (model : DomainModel) (selectedRunKey : Option RunKey) (newRows : List TreeRow) (selected : NodeKey)
    (row : TreeRow) : Prop :=
  ∃ survivor, LeadsTo model selectedRunKey selected survivor ∧ TakesPlace newRows survivor selected row

/-- The row of the selected run, at a place where it has not been before. -/
def MovesTo (oldRows newRows : List TreeRow) (selected : NodeKey) (row : TreeRow) : Prop :=
  ∃ runId, selected.runId = some runId ∧ TakesPlace newRows runId selected row ∧ row.key ∉ oldRows.map (·.key)

/-- Where the selection goes from a row, and what is said about it; the earlier options come first. -/
inductive Recovered (model : DomainModel) (selectedRunKey : Option RunKey) (oldRows newRows : List TreeRow)
    (selected : NodeKey) (why : SelectionReason → Prop) : Option NodeKey → Option SelectionReason → Prop
  /-- The row is still there. -/
  | kept (shown : selected ∈ newRows.map (·.key)) :
      Recovered model selectedRunKey oldRows newRows selected why (some selected) none
  /-- Its run was merged into another one, which has a row. -/
  | merged {row : TreeRow} (gone : selected ∉ newRows.map (·.key))
      (merges : MergesTo model selectedRunKey newRows selected row) :
      Recovered model selectedRunKey oldRows newRows selected why (some row.key) (some .merged)
  /-- Its run is at another place. -/
  | moved {row : TreeRow} (gone : selected ∉ newRows.map (·.key))
      (stays : ∀ row, ¬MergesTo model selectedRunKey newRows selected row) (moves : MovesTo oldRows newRows selected row) :
      Recovered model selectedRunKey oldRows newRows selected why (some row.key) none
  /-- It falls back on another row. -/
  | fell {key : NodeKey} {reason : SelectionReason} (gone : selected ∉ newRows.map (·.key))
      (stays : ∀ row, ¬MergesTo model selectedRunKey newRows selected row)
      (nowhere : ∀ row, ¬MovesTo oldRows newRows selected row) (falls : FallsBackOn oldRows newRows selected key)
      (told : why reason) : Recovered model selectedRunKey oldRows newRows selected why (some key) (some reason)
  /-- There are no rows. -/
  | lost {reason : SelectionReason} (empty : newRows = []) (told : why reason) :
      Recovered model selectedRunKey oldRows newRows selected why none (some reason)

theorem survivorRow_eq_some {newRows : List TreeRow} {selected : NodeKey} {row : TreeRow}
    (h : app.survivorRow newRows selected = some row) :
    MergesTo app.model app.state.selectedRunKey newRows selected row := by
  obtain ⟨oldRunId, hrun, h⟩ := Option.bind_eq_some_iff.mp h
  obtain ⟨selectedKey, hkey, h⟩ := Option.bind_eq_some_iff.mp h
  obtain ⟨survivor, hleads, h⟩ := Option.bind_eq_some_iff.mp h
  split_ifs at h with hother
  exact ⟨survivor.runId, ⟨oldRunId, selectedKey, survivor, hrun, hkey, hleads, rfl, hother⟩, preferredRunRow_eq_some h⟩

theorem survivorRow_eq_none {newRows : List TreeRow} {selected : NodeKey}
    (h : app.survivorRow newRows selected = none) (row : TreeRow) :
    ¬MergesTo app.model app.state.selectedRunKey newRows selected row := by
  rintro ⟨_, ⟨oldRunId, key, survivor, hrun, hkey, hleads, rfl, hother⟩, htakes⟩
  unfold survivorRow at h
  simp only [hrun, hkey, hleads, Option.bind_eq_bind, Option.bind_some, if_pos hother] at h
  exact preferredRunRow_eq_none h row htakes

theorem reparentedRow_eq_some {oldRows newRows : List TreeRow} {selected : NodeKey} {row : TreeRow}
    (h : reparentedRow oldRows newRows selected = some row) : MovesTo oldRows newRows selected row := by
  obtain ⟨runId, hrun, h⟩ := Option.bind_eq_some_iff.mp h
  obtain ⟨found, hfound, h⟩ := Option.bind_eq_some_iff.mp h
  split_ifs at h with hnew
  obtain rfl := Option.some.inj h
  refine ⟨runId, hrun, preferredRunRow_eq_some hfound, mt hasKey_iff.mpr ?_⟩
  simpa using hnew

theorem reparentedRow_eq_none {oldRows newRows : List TreeRow} {selected : NodeKey}
    (h : reparentedRow oldRows newRows selected = none) (row : TreeRow) : ¬MovesTo oldRows newRows selected row := by
  rintro ⟨runId, hrun, htakes, hnew⟩
  unfold reparentedRow at h
  simp only [hrun, Option.bind_eq_bind, Option.bind_some] at h
  cases hfound : preferredRunRow newRows runId selected with
  | none => exact preferredRunRow_eq_none hfound row htakes
  | some found =>
    rw [hfound, Option.bind_some] at h
    split_ifs at h with hknown
    rw [htakes.key_eq (preferredRunRow_eq_some hfound), ← hasKey_iff] at hnew
    simp [hnew] at hknown

/-- A selection that is gone is recovered, in this order. -/
theorem recoverSelection_spec {selected : NodeKey} (hselected : app.state.selected = some selected)
    (oldRows newRows : List TreeRow) (hint : Option SelectionReason) {why : SelectionReason → Prop}
    (hwhy : selected ∉ newRows.map (·.key) → why (hint.getD .closed)) :
    Recovered app.model app.state.selectedRunKey oldRows newRows selected why
      (app.recoverSelection oldRows newRows hint).state.selected
      (app.recoverSelection oldRows newRows hint).state.selectionReason := by
  unfold recoverSelection
  rw [hselected]
  dsimp only
  by_cases hleft : hasKey newRows selected = true
  · rw [if_pos hleft]
    have hkept : (app.withReason none).state.selected = some selected := hselected
    rw [hkept]
    exact .kept (hasKey_iff.mp hleft)
  rw [if_neg hleft]
  have hgone := mt hasKey_iff.mpr hleft
  have hreason : hint.or (some .closed) = some (hint.getD .closed) := by cases hint <;> rfl
  cases hsurvivor : app.survivorRow newRows selected with
  | some row => exact .merged hgone (survivorRow_eq_some hsurvivor)
  | none =>
    have hstays := survivorRow_eq_none hsurvivor
    cases hmoved : reparentedRow oldRows newRows selected with
    | some row => exact .moved hgone hstays (reparentedRow_eq_some hmoved)
    | none =>
      dsimp only
      rw [hreason]
      cases hfallback : fallback oldRows newRows selected with
      | some key => exact .fell hgone hstays (reparentedRow_eq_none hmoved) (fallback_spec hfallback) (hwhy hgone)
      | none => exact .lost (fallback_none hfallback) (hwhy hgone)

theorem selectedMerged_iff {selected : NodeKey} :
    app.selectedMerged selected = true ↔ ∃ survivor, LeadsTo app.model app.state.selectedRunKey selected survivor := by
  unfold selectedMerged LeadsTo
  cases hrun : selected.runId with
  | none => simp
  | some oldRunId =>
    cases hkey : app.state.selectedRunKey with
    | none => simp
    | some key =>
      dsimp only
      rw [Option.any_eq_true]
      constructor
      · rintro ⟨run, hleads, hother⟩
        exact ⟨run.runId, oldRunId, key, run, rfl, rfl, hleads, rfl, of_decide_eq_true hother⟩
      · rintro ⟨_, _, _, run, hrun, hkey, hleads, rfl, hother⟩
        cases hrun
        cases hkey
        exact ⟨run, hleads, decide_eq_true hother⟩

theorem selectedAgedOut_iff {selected : NodeKey} :
    app.selectedAgedOut selected = true ↔ AgedOut app.model app.state.nowMs selected := by
  simp only [selectedAgedOut, AgedOut, Option.any_eq_true, Option.bind_eq_some_iff, decide_eq_true_eq]
  constructor
  · rintro ⟨endMs, ⟨run, ⟨runId, hrun, htask⟩, hend⟩, hold⟩
    exact ⟨runId, run, endMs, hrun, htask, hend, hold⟩
  · rintro ⟨runId, run, endMs, hrun, htask, hend, hold⟩
    exact ⟨endMs, ⟨run, ⟨runId, hrun, htask⟩, hend⟩, hold⟩

/-- The reason why the selected row is gone. -/
theorem disappearanceReason_spec {selected : NodeKey} (hselected : app.state.selected = some selected)
    {oldRows newRows : List TreeRow} (hgone : selected ∉ newRows.map (·.key)) :
    Gone app.model app.state.selectedRunKey app.state.nowMs oldRows selected
      ((app.disappearanceReason oldRows newRows).getD .closed) := by
  unfold disappearanceReason
  rw [hselected]
  have hnot : hasKey newRows selected = false := Bool.eq_false_iff.mpr (mt hasKey_iff.mp hgone)
  simp only [hnot, Bool.or_false, Option.bind_eq_bind, Option.bind_some]
  by_cases hold : hasKey oldRows selected = true
  · have hshown := hasKey_iff.mp hold
    rw [hold, if_neg (by simp)]
    by_cases hmerged : app.selectedMerged selected = true
    · rw [if_pos hmerged]
      obtain ⟨survivor, hleads⟩ := selectedMerged_iff.mp hmerged
      exact .merged hshown hleads
    · rw [if_neg hmerged]
      have hstays : ∀ survivor, ¬LeadsTo app.model app.state.selectedRunKey selected survivor :=
        fun survivor hleads => hmerged (selectedMerged_iff.mpr ⟨survivor, hleads⟩)
      by_cases haged : app.selectedAgedOut selected = true
      · rw [if_pos haged]
        exact .agedOut hshown hstays (selectedAgedOut_iff.mp haged)
      · rw [if_neg haged]
        exact .closed fun _ => ⟨hstays, mt selectedAgedOut_iff.mpr haged⟩
  · rw [if_pos (by simp [hold])]
    exact .closed fun hshown => absurd (hasKey_iff.mpr hshown) hold

theorem reselect_displayed (app : App) (oldRows : List TreeRow) : Displayed (app.reselect oldRows) := by
  unfold reselect
  split_ifs with hfollow
  · exact setSelection_last (app.withReason none)
  · exact recoverSelection_displayed (Bool.eq_false_iff.mpr hfollow) oldRows _

/-! ### Keys that select again -/

theorem moveSelection_displayed {down : Bool} {nowMs : ℤ} (h : app.moveSelection env down nowMs = some app') :
    Displayed app' := by
  obtain ⟨new, hnew, h⟩ := Option.bind_eq_some_iff.mp h
  have hfollow : new.state.follow = false := by rw [(rebuildRows_same hnew).2]
  by_cases hempty : new.rows.isEmpty = true
  · rw [if_pos hempty] at h
    obtain rfl := Option.some.inj h
    exact setSelection_none hfollow (List.isEmpty_iff.mp hempty)
  · rw [if_neg hempty] at h
    obtain rfl := Option.some.inj h
    have hpositive : 0 < new.rows.length := List.length_pos_iff.mpr (mt List.isEmpty_iff.mpr hempty)
    have hcurrent : (new.state.selected.bind (rowIndex new.rows)).getD (new.rows.length - 1) < new.rows.length := by
      cases hindex : new.state.selected.bind (rowIndex new.rows) with
      | none => exact Nat.sub_one_lt_of_lt hpositive
      | some index =>
        obtain ⟨selected, -, hrow⟩ := Option.bind_eq_some_iff.mp hindex
        obtain ⟨row, hrow, -⟩ := rowIndex_eq_some hrow
        exact (List.getElem?_eq_some_iff.mp hrow).1
    generalize hnext : (if down = true then min ((new.state.selected.bind (rowIndex new.rows)).getD
      (new.rows.length - 1) + 1) (new.rows.length - 1)
      else (new.state.selected.bind (rowIndex new.rows)).getD (new.rows.length - 1) - 1) = next
    have hlt : next < new.rows.length := by
      rw [← hnext]
      split_ifs
      · omega
      · omega
    rw [List.getElem?_eq_getElem hlt]
    exact setSelection_shown hfollow (List.mem_map_of_mem (List.getElem_mem hlt))

theorem resumeFollow_displayed {nowMs : ℤ} (h : app.resumeFollow env nowMs = some app') : Displayed app' := by
  obtain ⟨new, -, h⟩ := Option.bind_eq_some_iff.mp h
  obtain rfl := Option.some.inj h
  exact setSelection_last new

theorem commitFilter_displayed (h : app.commitFilter env clock = some app') : Displayed app' := by
  obtain ⟨old, -, h⟩ := Option.bind_eq_some_iff.mp h
  obtain ⟨new, hnew, h⟩ := Option.bind_eq_some_iff.mp h
  obtain rfl := Option.some.inj h
  refine recoverSelection_displayed ?_ old.rows _
  rw [(rebuildRows_same hnew).2]

theorem toggleView_displayed (h : app.toggleView env clock = some app') : Displayed app' := by
  obtain ⟨old, hold, h⟩ := Option.bind_eq_some_iff.mp h
  obtain ⟨new, hnew, h⟩ := Option.bind_eq_some_iff.mp h
  by_cases hfollow : old.state.follow = true
  · rw [if_pos hfollow] at h
    obtain rfl := Option.some.inj h
    exact setSelection_last new
  · rw [if_neg hfollow] at h
    have hfollow' : new.state.follow = false := by
      rw [(rebuildRows_same hnew).2]
      exact Bool.eq_false_iff.mpr hfollow
    generalize hreplacement : (app.state.selected.bind fun selected => _) = replacement at h
    cases replacement with
    | some key =>
      obtain rfl := Option.some.inj h
      refine setSelection_shown hfollow' ?_
      obtain ⟨selected, -, hrun⟩ := Option.bind_eq_some_iff.mp hreplacement
      obtain ⟨runId, -, hrow⟩ := Option.bind_eq_some_iff.mp hrun
      cases hmode : new.state.viewMode with
      | executionTree =>
        rw [hmode] at hrow
        dsimp only at hrow
        obtain ⟨row, hfound, rfl⟩ := Option.map_eq_some_iff.mp hrow
        exact List.mem_map_of_mem (preferredRunRow_eq_some hfound).mem
      | dependencyDag =>
        rw [hmode] at hrow
        dsimp only at hrow
        obtain ⟨row, hfound, rfl⟩ := Option.map_eq_some_iff.mp hrow
        exact List.mem_map_of_mem (List.mem_of_find?_eq_some hfound)
    | none =>
      obtain rfl := Option.some.inj h
      dsimp only
      cases app.state.selected with
      | some selected => exact setSelection_fallback hfollow'
      | none =>
        dsimp only
        refine ⟨fun key hkey => ?_, fun hnone => ?_, fun hfollows => ?_⟩
        · obtain ⟨row, hrow, rfl⟩ := Option.map_eq_some_iff.mp hkey
          exact List.mem_map_of_mem (List.mem_of_head? hrow)
        · exact List.head?_eq_none_iff.mp (Option.map_eq_none_iff.mp hnone)
        · exact absurd (hfollow'.symm.trans hfollows) Bool.false_ne_true

/-! ### Keys that may keep the selection -/

/-- All readings come before the rows are due, and the clock is not set back. -/
def Punctual (app : App) (clock : ℕ → ℤ) : Prop :=
  ∀ reading, app.state.nowMs ≤ clock reading ∧ ∀ d, app.nextExpiryMs = some d → clock reading < d

/-- The same view of the same model, maybe at another time. -/
def Resembles (origin app : App) : Prop :=
  app.model = origin.model ∧ app.state = { origin.state with nowMs := app.state.nowMs }

theorem Resembles.refl (app : App) : Resembles app app := ⟨rfl, rfl⟩

/-- The rows that are made again before they are due are the same. -/
theorem Resembles.rebuild (h : Resembles origin app) (hcoherent : Coherent env origin)
    (hquery : origin.state.filterQuery.isEmpty = true) (hpunctual : Punctual origin clock) (reading : ℕ)
    (hnew : app.rebuildRows env (clock reading) = some app') : Resembles origin app' ∧ SameScreen origin app' := by
  obtain ⟨hmodel, hstate⟩ := h
  obtain ⟨projection, hprojection, hnew⟩ := Option.bind_eq_some_iff.mp hnew
  obtain rfl := Option.some.inj hnew
  have hnow : ({ app.state with nowMs := clock reading } : AppState) = { origin.state with nowMs := clock reading } := by
    rw [hstate]
  obtain ⟨hle, hbefore⟩ := hpunctual reading
  obtain ⟨later, hlater, hshape⟩ :=
    buildProjection_stays hcoherent.adopted hquery hcoherent.fresh hcoherent.fits hle hbefore
  rw [hnow, hmodel] at hprojection
  obtain rfl := Option.some.inj (hprojection.symm.trans hlater)
  refine ⟨⟨hmodel, hnow⟩, hshape.keys.symm, ?_, ?_⟩
  · rw [hstate]
  · rw [hstate]

theorem collapseAvailable_query (h : app.collapseAvailable = true) : app.state.filterQuery.isEmpty = true :=
  ((Bool.and_eq_true _ _).mp h).2

/-- Collapsing or expanding the selected row keeps a selection on the screen. -/
theorem toggleCollapse_displayed (hres : Resembles origin app) (hcoherent : Coherent env origin)
    (hpunctual : Punctual origin clock) (hdisplayed : Displayed origin) (happ : Displayed app)
    (hselected : origin.state.selected = some key) (h : app.toggleCollapse env key clock = some app') :
    Displayed app' := by
  unfold App.toggleCollapse at h
  by_cases havailable : app.collapseAvailable = true
  swap
  · rw [if_pos (by simpa using havailable)] at h
    obtain rfl := Option.some.inj h
    exact happ
  rw [if_neg (by simpa using havailable)] at h
  have hquery : origin.state.filterQuery.isEmpty = true := by
    have hquery := collapseAvailable_query havailable
    rwa [hres.2] at hquery
  obtain ⟨old, hold, h⟩ := Option.bind_eq_some_iff.mp h
  obtain ⟨fullRows, -, h⟩ := Option.bind_eq_some_iff.mp h
  obtain ⟨holdRes, holdScreen⟩ := hres.rebuild hcoherent hquery hpunctual 0 hold
  have holdDisplayed := hdisplayed.transfer holdScreen
  split at h
  · obtain rfl := Option.some.inj h
    exact holdDisplayed
  · dsimp only at h
    split_ifs at h with hleaf hcollapses
    · obtain rfl := Option.some.inj h
      exact holdDisplayed
    · obtain ⟨new, hnew, h⟩ := Option.bind_eq_some_iff.mp h
      obtain rfl := Option.some.inj h
      refine recoverSelection_displayed ?_ old.rows _
      rw [(rebuildRows_same hnew).2]
    · -- fewer rows are collapsed, so the selected one is still there
      obtain ⟨new, hnew, h⟩ := Option.bind_eq_some_iff.mp h
      obtain rfl := Option.some.inj h
      obtain ⟨projection, hprojection, hnew⟩ := Option.bind_eq_some_iff.mp hnew
      obtain rfl := Option.some.inj hnew
      obtain ⟨hle, hbefore⟩ := hpunctual 1
      have hfewer : ∀ other, (HashMap.remove old.state.collapsed key.collapseKey).contains other = true →
          origin.state.collapsed.contains other = true := by
        intro other hother
        rw [holdRes.2] at hother
        exact (HashMap.contains_remove.mp hother).2
      obtain ⟨later, hlater, hkept⟩ := buildCollapsed_keeps hcoherent.adopted hquery hcoherent.fresh hcoherent.fits hle
        hbefore _ hfewer (hdisplayed.shown key hselected)
      have hsame : buildProjection env old.model { old.state with
          follow := false, selectionReason := none
          collapsed := HashMap.remove old.state.collapsed key.collapseKey, nowMs := clock 1 } =
          buildCollapsed env origin.model { origin.state with nowMs := clock 1 }
            (HashMap.remove old.state.collapsed key.collapseKey) := by
        rw [buildProjection, holdRes.1]
        apply buildCollapsed_congr
        · rfl
        all_goals rw [holdRes.2]
      have hrows : projection = later := Option.some.inj (hprojection.symm.trans (hsame.trans hlater))
      refine ⟨fun other hother => ?_, fun hnone => ?_, fun hfollows => ?_⟩
      · have hother' : old.state.selected = some other := hother
        rw [holdRes.2] at hother'
        obtain rfl := Option.some.inj (hselected.symm.trans hother')
        rw [← hrows] at hkept
        exact hkept
      · have hnone' : old.state.selected = none := hnone
        rw [holdRes.2] at hnone'
        exact absurd (hselected.symm.trans hnone') (Option.some_ne_none key)
      · cases hfollows

theorem navigateRight_displayed (hcoherent : Coherent env app) (hpunctual : Punctual app clock)
    (hdisplayed : Displayed app) (h : app.navigateRight env clock = some app') : Displayed app' := by
  unfold App.navigateRight at h
  by_cases havailable : app.collapseAvailable = true
  swap
  · rw [if_pos (by simpa using havailable)] at h
    obtain rfl := Option.some.inj h
    exact hdisplayed
  rw [if_neg (by simpa using havailable)] at h
  cases hselected : app.state.selected with
  | none =>
    rw [hselected] at h
    obtain rfl := Option.some.inj h
    exact hdisplayed
  | some selected =>
    rw [hselected] at h
    dsimp only at h
    split_ifs at h
    · exact toggleCollapse_displayed (.refl app) hcoherent hpunctual hdisplayed hdisplayed hselected h
    · obtain ⟨new, hnew, h⟩ := Option.bind_eq_some_iff.mp h
      obtain ⟨-, hscreen⟩ := (Resembles.refl app).rebuild hcoherent (collapseAvailable_query havailable) hpunctual 0 hnew
      have hnewDisplayed := hdisplayed.transfer hscreen
      split at h
      · obtain rfl := Option.some.inj h
        exact hnewDisplayed
      · split at h
        · rename_i child hchild
          obtain rfl := Option.some.inj h
          have hrow := (Option.filter_eq_some_iff.mp hchild).1
          exact select_shown (List.mem_map_of_mem (List.mem_of_getElem? hrow))
        · obtain rfl := Option.some.inj h
          exact hnewDisplayed

theorem navigateLeft_displayed (hcoherent : Coherent env app) (hpunctual : Punctual app clock)
    (hdisplayed : Displayed app) (h : app.navigateLeft env clock = some app') : Displayed app' := by
  unfold App.navigateLeft at h
  by_cases havailable : app.collapseAvailable = true
  swap
  · rw [if_pos (by simpa using havailable)] at h
    obtain rfl := Option.some.inj h
    exact hdisplayed
  rw [if_neg (by simpa using havailable)] at h
  cases hselected : app.state.selected with
  | none =>
    rw [hselected] at h
    obtain rfl := Option.some.inj h
    exact hdisplayed
  | some selected =>
    rw [hselected] at h
    obtain ⟨new, hnew, h⟩ := Option.bind_eq_some_iff.mp h
    obtain ⟨hres, hscreen⟩ := (Resembles.refl app).rebuild hcoherent (collapseAvailable_query havailable) hpunctual 0 hnew
    have hnewDisplayed := hdisplayed.transfer hscreen
    split at h
    · obtain rfl := Option.some.inj h
      exact hnewDisplayed
    · dsimp only at h
      split_ifs at h
      · exact toggleCollapse_displayed hres hcoherent (fun reading => hpunctual (reading + 1)) hdisplayed hnewDisplayed
          hselected h
      · split at h
        · rename_i parent hparent
          obtain rfl := Option.some.inj h
          have hrow := List.mem_reverse.mp (List.mem_of_find?_eq_some hparent)
          exact select_shown (List.mem_map_of_mem (List.mem_of_mem_take hrow))
        · obtain rfl := Option.some.inj h
          exact hnewDisplayed

/-! ### What a key does to the selection -/

inductive KeyEffect
  /-- Rows and selection stay. -/
  | keeps
  /-- A row of the new rows is selected. -/
  | selects
  /-- The selection moves over the tree, or stays. -/
  | moves
  deriving DecidableEq

def keyEffect (app : App) (key : KeyEvent) : KeyEffect :=
  if key.release || app.state.overlay.isSome then .keeps
  else if app.state.filterDraft.isSome then if key.code = .enter then .selects else .keeps
  else match key.code with
    | .up | .down | .char 'f' | .endKey | .tab => .selects
    | .left | .right | .enter => .moves
    | _ => .keeps

theorem keyEffect_up (app : App) : app.keyEffect { code := .up } ≠ .moves := by
  unfold keyEffect
  split_ifs
  all_goals simp

theorem handleOverlayKey_screen (app : App) (overlay : Overlay) (code : KeyCode) (notice : NoticeReply) :
    SameScreen app (app.handleOverlayKey env overlay code notice) := by
  unfold handleOverlayKey
  split
  all_goals
    try dsimp only
    try split_ifs
  all_goals exact ⟨rfl, rfl, rfl⟩

theorem handleFilterKey_screen {code : KeyCode} (hcode : code ≠ .enter)
    (h : app.handleFilterKey env code clock = some app') : SameScreen app app' := by
  unfold App.handleFilterKey at h
  split at h
  case h_2 => exact absurd rfl hcode
  all_goals
    obtain rfl := Option.some.inj h
    exact ⟨rfl, rfl, rfl⟩

/-- What becomes of the selection, by the effect of the key. -/
structure Selected (app app' : App) (clock : ℕ → ℤ) (effect : KeyEffect) : Prop where
  keeps : effect = .keeps → SameScreen app app'
  selects : effect = .selects → Displayed app'
  moves : effect = .moves → Punctual app clock → Displayed app → Displayed app'

theorem Selected.of_screen (h : SameScreen app app') : Selected app app' clock .keeps :=
  ⟨fun _ => h, fun heffect => (by cases heffect), fun heffect => (by cases heffect)⟩

theorem Selected.of_displayed (h : Displayed app') : Selected app app' clock .selects :=
  ⟨fun heffect => (by cases heffect), fun _ => h, fun heffect => (by cases heffect)⟩

theorem Selected.of_moves (h : Punctual app clock → Displayed app → Displayed app') : Selected app app' clock .moves :=
  ⟨fun heffect => (by cases heffect), fun heffect => (by cases heffect), fun _ => h⟩

theorem handled {result : Option App} {control control' : LoopControl}
    (h : result.map (·, control) = some (app', control')) : result = some app' := by
  obtain ⟨found, hfound, heq⟩ := Option.map_eq_some_iff.mp h
  rw [hfound, (Prod.mk.inj heq).1]

theorem handleKey_selected (hcoherent : Coherent env app) {key : KeyEvent} {notice : NoticeReply}
    {control : LoopControl} (h : app.handleKey env key clock notice = some (app', control)) :
    Selected app app' clock (app.keyEffect key) := by
  unfold App.handleKey at h
  unfold keyEffect
  by_cases hrelease : key.release = true
  · rw [if_pos hrelease] at h
    obtain ⟨rfl, -⟩ := Prod.mk.inj (Option.some.inj h)
    rw [hrelease, Bool.true_or, if_pos rfl]
    exact .of_screen (.refl _)
  rw [if_neg hrelease] at h
  cases hoverlay : app.state.overlay with
  | some overlay =>
    rw [hoverlay] at h
    obtain ⟨rfl, -⟩ := Prod.mk.inj (Option.some.inj h)
    rw [Option.isSome_some, Bool.or_true, if_pos rfl]
    exact .of_screen (handleOverlayKey_screen app _ _ _)
  | none =>
    rw [hoverlay] at h
    dsimp only at h
    rw [Bool.eq_false_iff.mpr hrelease, Option.isSome_none, Bool.or_false, if_neg Bool.false_ne_true]
    by_cases hdraft : app.state.filterDraft.isSome = true
    · rw [if_pos hdraft] at h ⊢
      have hfilter := handled h
      by_cases hcode : key.code = .enter
      · rw [if_pos hcode]
        rw [hcode] at hfilter
        exact .of_displayed (commitFilter_displayed hfilter)
      · rw [if_neg hcode]
        exact .of_screen (handleFilterKey_screen hcode hfilter)
    rw [if_neg hdraft] at h ⊢
    split at h
    case h_7 hcode =>
      rw [hcode]
      exact .of_displayed (moveSelection_displayed (handled h))
    case h_8 hcode =>
      rw [hcode]
      exact .of_displayed (moveSelection_displayed (handled h))
    case h_9 hcode =>
      rw [hcode]
      exact .of_displayed (resumeFollow_displayed (handled h))
    case h_10 hcode =>
      rw [hcode]
      exact .of_displayed (resumeFollow_displayed (handled h))
    case h_11 hcode =>
      rw [hcode]
      exact .of_displayed (toggleView_displayed (handled h))
    case h_12 hcode =>
      rw [hcode]
      exact .of_moves fun hpunctual hdisplayed => navigateLeft_displayed hcoherent hpunctual hdisplayed (handled h)
    case h_13 hcode =>
      rw [hcode]
      exact .of_moves fun hpunctual hdisplayed => navigateRight_displayed hcoherent hpunctual hdisplayed (handled h)
    case h_14 hcode =>
      rw [hcode]
      refine .of_moves fun hpunctual hdisplayed => ?_
      cases hselected : app.state.selected with
      | none =>
        rw [hselected] at h
        obtain ⟨rfl, -⟩ := Prod.mk.inj (Option.some.inj h)
        exact hdisplayed
      | some selected =>
        rw [hselected] at h
        exact toggleCollapse_displayed (.refl app) hcoherent hpunctual hdisplayed hdisplayed hselected (handled h)
    case h_15 =>
      obtain ⟨rfl, -⟩ := Prod.mk.inj (Option.some.inj h)
      -- no key that selects or moves is left
      split
      case h_9 => exact .of_screen (.refl _)
      all_goals contradiction
    all_goals
      rename_i hcode
      rw [hcode]
      try split_ifs at h
      all_goals
        obtain ⟨rfl, -⟩ := Prod.mk.inj (Option.some.inj h)
        exact .of_screen ⟨rfl, rfl, rfl⟩

/-! ### Refreshing -/

/-- Whether a look for changes makes rows. -/
def rowsMayChange (app : App) (deadlineMs : ℤ) : Bool :=
  app.modelReceiver.hasChanged.getD false || app.operatorReceiver.hasChanged.getD false || app.deadlineDue deadlineMs

theorem refreshCached_selected {recompute : Bool} {nowMs : ℤ} (h : app.refreshCached env recompute nowMs = some app') :
    (recompute = true → Displayed app') ∧ (recompute = false → SameScreen app app') := by
  unfold App.refreshCached at h
  cases recompute with
  | false =>
    rw [if_neg Bool.false_ne_true] at h
    obtain rfl := Option.some.inj h
    exact ⟨fun hfalse => absurd hfalse Bool.false_ne_true, fun _ => ⟨rfl, rfl, rfl⟩⟩
  | true =>
    rw [if_pos rfl] at h
    obtain ⟨oldRows, -, h⟩ := Option.bind_eq_some_iff.mp h
    obtain ⟨adopted, -, h⟩ := Option.bind_eq_some_iff.mp h
    obtain ⟨rebuilt, -, h⟩ := Option.bind_eq_some_iff.mp h
    obtain rfl := Option.some.inj h
    exact ⟨fun _ => reselect_displayed rebuilt oldRows, fun hfalse => Bool.noConfusion hfalse⟩

/-- A look for changes selects again where it makes rows, and leaves the screen alone elsewhere. -/
theorem refreshIfChanged_selected {deadlineMs nowMs : ℤ} {refreshed : App × Bool}
    (h : app.refreshIfChanged env deadlineMs nowMs = some (.ok refreshed)) :
    (app.rowsMayChange deadlineMs = true → Displayed refreshed.1) ∧
      (app.rowsMayChange deadlineMs = false → SameScreen app refreshed.1) := by
  unfold App.refreshIfChanged at h
  unfold rowsMayChange
  generalize app.operatorReceiver.hasChanged.getD false = operator at h ⊢
  cases hmodel : app.modelReceiver.hasChanged with
  | none =>
    rw [hmodel] at h
    cases h
  | some modelChanged =>
    rw [hmodel] at h
    cases hperformance : app.performance.hasChanged with
    | none =>
      rw [hperformance] at h
      cases h
    | some performanceChanged =>
      rw [hperformance] at h
      dsimp only at h
      rw [Option.getD_some]
      split_ifs at h with hchanged
      · obtain ⟨app', hrefresh, h⟩ := Option.map_eq_some_iff.mp h
        obtain rfl := Except.ok.inj h
        exact refreshCached_selected hrefresh
      · obtain rfl := Except.ok.inj (Option.some.inj h)
        refine ⟨fun hdue => absurd ?_ hchanged, fun _ => .refl app⟩
        simp only [Bool.or_eq_true] at hdue ⊢
        tauto

end App

/-! ### Runs -/

namespace Taken

/-- What the application is when the turn takes its event, but for how far the overlay is scrolled. -/
def Refreshed (env : Environment) (taken : Taken) (app : App) : Prop :=
  ∃ changed, taken.before.app.refreshIfChanged env taken.inputs.deadlineMs taken.inputs.nowMs = some (.ok (app, changed))

/-- A key moves over the tree or collapses a row of it, and some clock reading meanwhile is not before the time when
rows are due, or before the time when they were made. -/
def Late (env : Environment) (taken : Taken) : Prop :=
  ∃ app key clock notice, taken.Refreshed env app ∧ taken.inputs.event = .ok (some (.key key clock notice)) ∧
    app.keyEffect key = .moves ∧ ¬app.Punctual clock

/-- Something selects a row of new rows: the look for changes, or the key. -/
def Selects (env : Environment) (taken : Taken) : Prop :=
  taken.before.app.rowsMayChange taken.inputs.deadlineMs = true ∨
    ∃ app key clock notice, taken.Refreshed env app ∧ taken.inputs.event = .ok (some (.key key clock notice)) ∧
      app.keyEffect key = .selects

end Taken

namespace EventLoop

variable {env : Environment} {loop loop' : EventLoop} {inputs : TurnInputs} {turn : Turn} {taken : List Taken}

/-- Painting and drawing leave alone what matters to a key. -/
structure SameForKeys (app app' : App) : Prop where
  view : app.SameView app'
  screen : app.SameScreen app'
  effect : ∀ key, app'.keyEffect key = app.keyEffect key

theorem SameForKeys.trans {app app' app'' : App} (h : SameForKeys app app') (h' : SameForKeys app' app'') :
    SameForKeys app app'' :=
  ⟨h.view.trans h'.view, h.screen.trans h'.screen, fun key => (h'.effect key).trans (h.effect key)⟩

theorem SameForKeys.punctual {app app' : App} {clock : ℕ → ℤ} (h : SameForKeys app app') (hpunctual : app.Punctual clock) :
    app'.Punctual clock := by
  intro reading
  rw [h.view.nowMs, h.view.nextExpiryMs]
  exact hpunctual reading

theorem looked_keys (loop : EventLoop) (paintMs : ℤ) (refreshed : App × Bool) :
    SameForKeys refreshed.1 (loop.looked paintMs refreshed).app := by
  refine ⟨looked_same loop paintMs refreshed, ?_, ?_⟩
  all_goals
    unfold looked App.paintTickDue
    dsimp only
    split_ifs
  · exact .refl _
  · exact ⟨rfl, rfl, rfl⟩
  · exact fun _ => rfl
  · exact fun _ => rfl

theorem draw_keys {elapsed : ℕ} {drawn : Except String (Option ℕ)} {frame : Option App}
    (h : loop.draw elapsed drawn = .ok (loop', frame)) : SameForKeys loop.app loop'.app := by
  refine ⟨draw_same h, ?_, ?_⟩
  all_goals
    unfold draw at h
    split_ifs at h
  · cases drawn with
    | error => cases h
    | ok overlayMaximum => cases overlayMaximum <;> cases h <;> exact ⟨rfl, rfl, rfl⟩
  · cases h
    exact .refl _
  · cases drawn with
    | error => cases h
    | ok overlayMaximum => cases overlayMaximum <;> cases h <;> exact fun _ => rfl
  · cases h
    exact fun _ => rfl

/-- A turn in its three parts. -/
theorem turn_parts (h : loop.turn env inputs = some (.ok turn)) :
    ∃ refreshed before, loop.app.refreshIfChanged env inputs.deadlineMs inputs.nowMs = some (.ok refreshed) ∧
      (loop.looked inputs.paintMs refreshed).draw inputs.elapsed inputs.drawn = .ok (before, turn.frame) ∧
      before.await env inputs.event = some (turn.loop, turn.control) := by
  obtain ⟨result, hresult, h⟩ := Option.bind_eq_some_iff.mp h
  cases result with
  | error message => cases h
  | ok refreshed =>
    unfold proceed at h
    dsimp only at h
    cases hdraw : (loop.looked inputs.paintMs refreshed).draw inputs.elapsed inputs.drawn with
    | error message =>
      rw [hdraw] at h
      cases h
    | ok drawn =>
      rw [hdraw] at h
      obtain ⟨taken, htaken, h⟩ := Option.map_eq_some_iff.mp h
      obtain rfl := Except.ok.inj h
      exact ⟨refreshed, drawn.1, hresult, hdraw, htaken⟩

/-- The loop stays as it is if the terminal fails, and takes what is read elsewhere. -/
theorem await_cases {event : Except String (Option TerminalEvent)} {control : Except String LoopControl}
    (h : loop.await env event = some (loop', control)) :
    (∃ message, event = .error message ∧ loop' = loop) ∨
      ∃ read control', event = .ok read ∧ loop.take env read = some (loop', control') := by
  cases event with
  | error message => exact .inl ⟨message, rfl, (Prod.mk.inj (Option.some.inj h)).1.symm⟩
  | ok read =>
    obtain ⟨⟨last, control'⟩, htaken, h⟩ := Option.map_eq_some_iff.mp h
    obtain ⟨rfl, -⟩ := Prod.mk.inj h
    exact .inr ⟨read, control', rfl, htaken⟩

/-- After a turn whose key is not late the selection is on the screen if it was, or if something selected again. -/
theorem turn_displayed (hcoherent : loop.app.Coherent env) (hfits : inputs.Fits)
    (h : loop.turn env inputs = some (.ok turn)) (hlate : ¬(⟨loop, inputs, turn⟩ : Taken).Late env)
    (hcase : loop.app.Displayed ∨ (⟨loop, inputs, turn⟩ : Taken).Selects env) : turn.loop.app.Displayed := by
  obtain ⟨⟨app, changed⟩, before, hrefresh, hdraw, hawait⟩ := turn_parts h
  have hsame : SameForKeys app before.app := (looked_keys loop inputs.paintMs (app, changed)).trans (draw_keys hdraw)
  obtain ⟨hmade, hkept⟩ := App.refreshIfChanged_selected hrefresh
  have hready : app.Coherent env := by
    rcases hcoherent.refreshIfChanged inputs.deadlineMs hfits.nowMs with ⟨message, herror, -⟩ |
      ⟨app', changed', hok, hcoherent', -⟩
    · rw [hrefresh] at herror
      cases herror
    · rw [hrefresh] at hok
      obtain rfl := (Prod.mk.inj (Except.ok.inj (Option.some.inj hok))).1
      exact hcoherent'
  have hrefreshed : ∀ other, (⟨loop, inputs, turn⟩ : Taken).Refreshed env other → other = app := by
    rintro other ⟨changed', hother⟩
    rw [hrefresh] at hother
    exact (Prod.mk.inj (Except.ok.inj (Option.some.inj hother))).1.symm
  have hbefore : (∃ key clock notice, inputs.event = .ok (some (.key key clock notice)) ∧
      app.keyEffect key = .selects) ∨ before.app.Displayed := by
    cases hdue : loop.app.rowsMayChange inputs.deadlineMs with
    | true => exact .inr ((hmade hdue).transfer hsame.screen)
    | false =>
      rcases hcase with hdisplayed | hmade' | ⟨other, key, clock, notice, hother, hevent, heffect⟩
      · exact .inr ((hdisplayed.transfer (hkept hdue)).transfer hsame.screen)
      · exact absurd (hdue.symm.trans hmade') Bool.false_ne_true
      · obtain rfl := hrefreshed other hother
        exact .inl ⟨key, clock, notice, hevent, heffect⟩
  -- what is neither a key nor makes rows leaves the loop as it is
  have hquiet : turn.loop.app = before.app → (∀ key clock notice, inputs.event ≠ .ok (some (.key key clock notice))) →
      turn.loop.app.Displayed := by
    intro hloop hnone
    rcases hbefore with ⟨key, clock, notice, hevent, -⟩ | hdisplayed
    · exact absurd hevent (hnone key clock notice)
    · exact hloop ▸ hdisplayed
  rcases await_cases hawait with ⟨message, hevent, hloop⟩ | ⟨read, control, hevent, htake⟩
  · exact hquiet (congrArg EventLoop.app hloop) fun _ _ _ hkey => by
      rw [hevent] at hkey
      cases hkey
  cases read with
  | none =>
    obtain ⟨hloop, -⟩ := Prod.mk.inj (Option.some.inj htake)
    exact hquiet (congrArg EventLoop.app hloop.symm) fun _ _ _ hkey => by
      rw [hevent] at hkey
      cases hkey
  | some event =>
    cases event with
    | resize =>
      obtain ⟨hloop, -⟩ := Prod.mk.inj (Option.some.inj htake)
      exact hquiet (hloop ▸ rfl) fun _ _ _ hkey => by
        rw [hevent] at hkey
        cases hkey
    | other =>
      obtain ⟨hloop, -⟩ := Prod.mk.inj (Option.some.inj htake)
      exact hquiet (congrArg EventLoop.app hloop.symm) fun _ _ _ hkey => by
        rw [hevent] at hkey
        cases hkey
    | key key clock notice =>
      obtain ⟨⟨last, control'⟩, hkey, htaken⟩ := Option.map_eq_some_iff.mp htake
      have hloop : turn.loop.app = last := by rw [← (Prod.mk.inj htaken).1]
      have hselected := App.handleKey_selected (hsame.view.coherent hready) hkey
      rw [hloop]
      rcases hbefore with ⟨key', clock', notice', hsome, heffect⟩ | hdisplayed
      · rw [hevent] at hsome
        cases hsome
        exact hselected.selects ((hsame.effect key).trans heffect)
      · cases heffect : app.keyEffect key with
        | keeps => exact hdisplayed.transfer (hselected.keeps ((hsame.effect key).trans heffect))
        | selects => exact hselected.selects ((hsame.effect key).trans heffect)
        | moves =>
          refine hselected.moves ((hsame.effect key).trans heffect) (hsame.punctual ?_) hdisplayed
          by_contra hpunctual
          exact hlate ⟨app, key, clock, notice, ⟨changed, hrefresh⟩, hevent, heffect, hpunctual⟩

/-- Something selected again after every late key. -/
def Settled (env : Environment) (taken : List Taken) : Prop :=
  ∀ before late after, taken = before ++ late :: after → late.Late env → ∃ again ∈ after, again.Selects env ∧ ¬again.Late env

theorem Settled.init {last : Taken} (h : Settled env (taken ++ [last])) :
    ¬last.Late env ∧ (last.Selects env ∨ Settled env taken) := by
  have hlast : ¬last.Late env := by
    intro hlate
    obtain ⟨again, hagain, -⟩ := h taken last [] rfl hlate
    exact List.not_mem_nil hagain
  refine ⟨hlast, ?_⟩
  by_cases hselects : last.Selects env
  · exact .inl hselects
  · refine .inr fun before late after htaken hlate => ?_
    obtain ⟨again, hagain, hselects', hnot⟩ := h before late (after ++ [last]) (by rw [htaken]; simp) hlate
    rcases List.mem_append.mp hagain with hagain | hagain
    · exact ⟨again, hagain, hselects', hnot⟩
    · obtain rfl := List.mem_singleton.mp hagain
      exact absurd hselects' hselects

/-- In every run the selected row is on the screen, the last one while the selection follows, unless a key came late
and nothing has selected again since. -/
theorem selection_displayed (hbegins : Begins env loop) (h : Runs (LoopStep env) loop taken loop')
    (hsettled : Settled env taken) : loop'.app.Displayed := by
  induction h with
  | refl =>
    obtain ⟨_, _, _, _, _, _, _, _, app, -, -, hbegin, rfl⟩ := hbegins
    obtain ⟨state, -, hbegin⟩ := Option.bind_eq_some_iff.mp hbegin
    obtain ⟨built, -, hbegin⟩ := Option.bind_eq_some_iff.mp hbegin
    obtain rfl := Option.some.inj hbegin
    exact App.setSelection_last built
  | @tail middle last ls l hrun hstep ih =>
    have hcoherent := run_coherent hbegins hrun
    cases hstep with
    | publish model keyed =>
      rw [List.append_nil] at hsettled
      exact (ih hsettled).transfer ⟨rfl, rfl, rfl⟩
    | elsewhere =>
      rw [List.append_nil] at hsettled
      exact (ih hsettled).transfer ⟨rfl, rfl, rfl⟩
    | turn inputs fits turn hturn goesOn =>
      obtain ⟨hlate, hcase⟩ := hsettled.init
      refine turn_displayed hcoherent fits hturn hlate ?_
      rcases hcase with hselects | hearlier
      · exact .inr hselects
      · exact .inl (ih hearlier)

/-- Up, and up again: the first row is selected. -/
theorem selection_displayed_oneRun : ∃ loop taken loop', Begins plainEnvironment loop ∧
    Runs (LoopStep plainEnvironment) loop taken loop' ∧ taken.length = 2 ∧ Settled plainEnvironment taken ∧
    loop'.app.state.follow = false ∧ loop'.app.state.selected = (loop'.app.rows.map (·.key)).head? ∧
    loop'.app.Displayed := by
  obtain ⟨app, earlier, later, hbegins, hearlier, hlater, hselected⟩ := @twoTurns_spec .up .up
    (fun turns => !turns.2.2.loop.app.state.follow &&
      turns.2.2.loop.app.state.selected = (turns.2.2.loop.app.rows.map (·.key)).head?) (by decide +kernel)
  obtain ⟨-, hfirst⟩ := step_turnAt hearlier
  obtain ⟨-, hsecond⟩ := step_turnAt hlater
  have hruns := (Runs.one hfirst).trans (.one hsecond)
  have hsettled : Settled plainEnvironment ([⟨{ app }, oneRunInputs 0 .up, earlier⟩] ++
      [⟨earlier.loop, oneRunInputs 150000000 .up, later⟩]) := by
    intro before late after htaken hlate
    have hkey : late.inputs.event = .ok (some (.key { code := .up } (fun _ => 600) ⟨true, true⟩)) := by
      have hlate : late ∈ [(⟨{ app }, oneRunInputs 0 .up, earlier⟩ : Taken)] ++
          [⟨earlier.loop, oneRunInputs 150000000 .up, later⟩] := by
        rw [htaken]
        simp
      simp only [List.cons_append, List.nil_append, List.mem_cons, List.not_mem_nil, or_false] at hlate
      rcases hlate with rfl | rfl
      · rfl
      · rfl
    obtain ⟨origin, key, clock, notice, -, hevent, hmoves, -⟩ := hlate
    rw [hkey] at hevent
    cases hevent
    exact absurd hmoves origin.keyEffect_up
  obtain ⟨hfollow, hfirstRow⟩ := (Bool.and_eq_true _ _).mp hselected
  exact ⟨_, _, _, hbegins, hruns, rfl, hsettled, (Bool.not_eq_true' _).mp hfollow, of_decide_eq_true hfirstRow,
    selection_displayed hbegins hruns hsettled⟩

/-- In every run: when the loop takes up a model and the selection does not follow, the selection is recovered from the
row that is on the screen, and if it falls back on another row it is told why. -/
theorem selection_recovered (hbegins : Begins env loop) (h : Runs (LoopStep env) loop taken loop')
    (hfollow : loop'.app.state.follow = false) {selected : NodeKey} (hselected : loop'.app.state.selected = some selected)
    {nowMs : ℤ} (hfits : i64Min ≤ nowMs) :
    ∃ app, loop'.app.refreshCached env true nowMs = some app ∧ app.model = loop'.app.modelReceiver.value ∧
      App.Recovered app.model loop'.app.state.selectedRunKey loop'.app.rows app.rows selected
        (App.Gone app.model loop'.app.state.selectedRunKey nowMs loop'.app.rows selected) app.state.selected
        app.state.selectionReason := by
  have hcoherent := run_coherent hbegins h
  obtain ⟨adopted, hadopt, hready, hmodel, -, hkept⟩ :=
    (hcoherent.ready.transfer (App.takeUp_same loop'.app).toSameInputs).adopt
  obtain ⟨rebuilt, hbuilt, -⟩ := App.rebuildRows_spec env hready hfits
  obtain ⟨hinputs, hstate⟩ := App.rebuildRows_same hbuilt
  have hmodel' : rebuilt.model = loop'.app.modelReceiver.value := hinputs.model.trans hmodel
  have hselected' : rebuilt.state.selected = some selected := by
    rw [hstate, hkept]
    exact hselected
  have hkey : rebuilt.state.selectedRunKey = loop'.app.state.selectedRunKey := by
    rw [hstate, hkept]
    rfl
  have hnow : rebuilt.state.nowMs = nowMs := by rw [hstate]
  have hreselect : rebuilt.reselect loop'.app.rows =
      rebuilt.recoverSelection loop'.app.rows rebuilt.rows (rebuilt.disappearanceReason loop'.app.rows rebuilt.rows) := by
    unfold App.reselect
    rw [if_neg]
    rw [hstate, hkept]
    exact Bool.eq_false_iff.mp hfollow
  have hsame := App.recoverSelection_same rebuilt loop'.app.rows rebuilt.rows
    (rebuilt.disappearanceReason loop'.app.rows rebuilt.rows)
  refine ⟨rebuilt.reselect loop'.app.rows, ?_, ?_, ?_⟩
  · unfold App.refreshCached
    rw [if_pos rfl, App.previousRows_eq hcoherent, if_neg (Bool.eq_false_iff.mp hfollow)]
    simp only [Option.bind_eq_bind, Option.bind_some, hadopt, hbuilt]
    rfl
  · rw [hreselect, hsame.model, hmodel']
  · have hrecovered := App.recoverSelection_spec hselected' loop'.app.rows rebuilt.rows
      (rebuilt.disappearanceReason loop'.app.rows rebuilt.rows)
      (App.disappearanceReason_spec hselected')
    rw [hreselect, hsame.model, hsame.rows, ← hkey, ← hnow]
    exact hrecovered

/-- The run, and a session that shows beside it. -/
def runAndSession : DomainModel where
  taskRuns := HashMap.ofList [
    (⟨1⟩, { runId := ⟨1⟩, key := .controller "run", displayOrdinal := 1, state := .running,
            hasControllerTaskStateEvent := true, createdAtMs := some 0 }),
    (⟨2⟩, { runId := ⟨2⟩, key := .native .codex "s", displayOrdinal := 2, state := .running,
            hasControllerTaskStateEvent := true, createdAtMs := some 0 })]

/-- The session is that of the run. -/
def sessionAbsorbed : DomainModel where
  taskRuns := HashMap.ofList [
    (⟨1⟩, { runId := ⟨1⟩, key := .controller "run", displayOrdinal := 1, state := .running,
            hasControllerTaskStateEvent := true, createdAtMs := some 0 })]
  runIdsByKey := HashMap.ofList [(.controller "run", ⟨1⟩), (.native .codex "s", ⟨1⟩)]

theorem runAndSession_keyed : Keyed runAndSession where
  workspaces := .of_toList (by decide)
  tabs := .of_toList (by decide)
  panes := .of_toList (by decide)
  runs := FiledUnder.of_toList (by decide)
  agents := FiledUnder.of_toList (by decide)

theorem sessionAbsorbed_keyed : Keyed sessionAbsorbed where
  workspaces := .of_toList (by decide)
  tabs := .of_toList (by decide)
  panes := .of_toList (by decide)
  runs := FiledUnder.of_toList (by decide)
  agents := FiledUnder.of_toList (by decide)

def runAndSessionApp : App :=
  App.initial plainEnvironment { value := runAndSession } { value := () } { value := () } { value := () }
    { value := () } { capacity := 1 } 500

/-- The start, a turn in which the session is selected, and the look at the model in which the run has absorbed it. -/
def absorbedTurn : Option (App × Turn × App) :=
  (runAndSessionApp.begin plainEnvironment 500).bind fun app =>
    (turnAt 0 .down { app }).bind fun turn =>
      (App.refreshCached plainEnvironment { turn.loop.app with
        modelReceiver := turn.loop.app.modelReceiver.send sessionAbsorbed } true 600).map fun seen => (app, turn, seen)

/-- The selection goes from the session to the run that has absorbed it. -/
theorem selection_recovered_absorbed : ∃ loop taken loop' app, Begins plainEnvironment loop ∧
    Runs (LoopStep plainEnvironment) loop taken loop' ∧ taken.length = 1 ∧
    loop'.app.state.selected = some (.run ⟨2⟩ none) ∧ .run ⟨2⟩ none ∉ app.rows.map (·.key) ∧
    loop'.app.refreshCached plainEnvironment true 600 = some app ∧
    app.state.selected = some (.run ⟨1⟩ none) ∧ app.state.selectionReason = some .merged ∧
    App.Recovered app.model loop'.app.state.selectedRunKey loop'.app.rows app.rows (.run ⟨2⟩ none)
      (App.Gone app.model loop'.app.state.selectedRunKey 600 loop'.app.rows (.run ⟨2⟩ none)) app.state.selected
      app.state.selectionReason := by
  have hdone : (absorbedTurn.any fun p => !p.2.1.loop.app.state.follow &&
      decide (p.2.1.loop.app.state.selected = some (.run ⟨2⟩ none)) &&
      decide (.run ⟨2⟩ none ∉ p.2.2.rows.map (·.key)) && decide (p.2.2.state.selected = some (.run ⟨1⟩ none)) &&
        decide (p.2.2.state.selectionReason = some .merged)) = true := by decide +kernel
  obtain ⟨⟨begun, turn, seen⟩, hturns, hp⟩ := (Option.any_eq_true _ _).mp hdone
  obtain ⟨app, hbegin, hturns⟩ := Option.bind_eq_some_iff.mp hturns
  obtain ⟨turn', hturn, hturns⟩ := Option.bind_eq_some_iff.mp hturns
  obtain ⟨seen', hseen, hpair⟩ := Option.map_eq_some_iff.mp hturns
  cases hpair
  simp only [Bool.and_eq_true, decide_eq_true_eq, Bool.not_eq_true'] at hp
  obtain ⟨⟨⟨⟨hfollow, hselected⟩, hgone⟩, hrun⟩, hreason⟩ := hp
  have hbegins : Begins plainEnvironment { app := begun } :=
    ⟨runAndSessionApp.modelReceiver, runAndSessionApp.performance, runAndSessionApp.sourceCoverage,
      runAndSessionApp.diagnosticsReceiver, runAndSessionApp.operatorReceiver, runAndSessionApp.operatorCommands, 500, 500,
      begun, runAndSession_keyed, (by decide : i64Min ≤ 500), hbegin, rfl⟩
  have hruns := (Runs.one (step_turnAt hturn).2).tail (.publish turn.loop sessionAbsorbed sessionAbsorbed_keyed)
  obtain ⟨found, hfound, -, hrecovered⟩ :=
    selection_recovered hbegins hruns hfollow hselected (by decide : i64Min ≤ 600)
  obtain rfl := Option.some.inj (hseen.symm.trans hfound)
  exact ⟨_, _, _, seen, hbegins, hruns, rfl, hselected, hgone, hfound, hrun, hreason, hrecovered⟩

/-! ### Frames -/

/-- When the frames were drawn. -/
def frames (taken : List Taken) : List ℕ := taken.filterMap fun turn => turn.turn.frame.map fun _ => turn.inputs.elapsed

theorem handleKey_limiter {event : Option TerminalEvent} {control : LoopControl}
    (h : loop.take env event = some (loop', control)) : loop'.limiter = loop.limiter := by
  unfold take at h
  split at h
  · obtain ⟨handled, -, h⟩ := Option.map_eq_some_iff.mp h
    rw [← (Prod.mk.inj h).1]
  all_goals rw [← (Prod.mk.inj (Option.some.inj h)).1]

/-- A frame is drawn when the last one is old enough, and is the last one then. -/
theorem turn_frame (h : loop.turn env inputs = some (.ok turn)) :
    (turn.frame = none ∧ turn.loop.limiter = loop.limiter) ∨
      (turn.frame.isSome = true ∧ turn.loop.limiter = ⟨some inputs.elapsed⟩ ∧
        ∀ last, loop.limiter.lastDraw = some last → frameInterval ≤ inputs.elapsed - last) := by
  obtain ⟨refreshed, before, -, hdraw, hawait⟩ := turn_parts h
  have hlimiter : turn.loop.limiter = before.limiter := by
    rcases await_cases hawait with ⟨message, -, hloop⟩ | ⟨read, control, -, htake⟩
    · rw [hloop]
    · exact handleKey_limiter htake
  rw [hlimiter]
  unfold draw at hdraw
  split_ifs at hdraw with hready
  · cases hdrawn : inputs.drawn with
    | error =>
      rw [hdrawn] at hdraw
      cases hdraw
    | ok overlayMaximum =>
      rw [hdrawn] at hdraw
      obtain ⟨rfl, hframe⟩ := Prod.mk.inj (Except.ok.inj hdraw)
      rw [← hframe]
      refine .inr ⟨rfl, rfl, fun last hlast => ?_⟩
      unfold FrameLimiter.ready at hready
      have hlast' : (loop.looked inputs.paintMs refreshed).limiter.lastDraw = some last := hlast
      rw [hlast', Option.all_some, Bool.and_eq_true, decide_eq_true_eq] at hready
      exact hready.2
  · obtain ⟨rfl, hframe⟩ := Prod.mk.inj (Except.ok.inj hdraw)
    exact .inl ⟨hframe.symm, rfl⟩

/-- Frames are drawn at a distance. -/
theorem frames_apart (h : Runs (LoopStep env) loop taken loop') :
    (frames taken).Pairwise fun earlier later => earlier + frameInterval ≤ later := by
  have hrun : (frames taken).Pairwise (fun earlier later => earlier + frameInterval ≤ later) ∧
      ∀ time ∈ frames taken, ∃ last, loop'.limiter.lastDraw = some last ∧ time ≤ last := by
    induction h with
    | refl => exact ⟨.nil, fun time htime => absurd htime List.not_mem_nil⟩
    | @tail middle last ls l hrun hstep ih =>
      obtain ⟨hapart, hlast⟩ := ih
      cases hstep with
      | publish model keyed =>
        rw [List.append_nil]
        exact ⟨hapart, hlast⟩
      | elsewhere =>
        rw [List.append_nil]
        exact ⟨hapart, hlast⟩
      | turn inputs fits turn hturn goesOn =>
        rcases turn_frame hturn with ⟨hnone, hsame⟩ | ⟨hsome, hnow, hold⟩
        · have hframes : frames (ls ++ [⟨middle, inputs, turn⟩]) = frames ls := by simp [frames, hnone]
          rw [hframes, hsame]
          exact ⟨hapart, hlast⟩
        · obtain ⟨app, happ⟩ := Option.isSome_iff_exists.mp hsome
          have hframes : frames (ls ++ [⟨middle, inputs, turn⟩]) = frames ls ++ [inputs.elapsed] := by
            simp [frames, happ]
          rw [hframes, hnow]
          have hearlier : ∀ time ∈ frames ls, time + frameInterval ≤ inputs.elapsed := by
            intro time htime
            obtain ⟨drawn, hdrawn, hle⟩ := hlast time htime
            have hdistance := hold drawn hdrawn
            unfold frameInterval at hdistance ⊢
            omega
          refine ⟨List.pairwise_append.mpr ⟨hapart, List.pairwise_singleton _ _, fun time htime other hother => ?_⟩, ?_⟩
          · obtain rfl := List.mem_singleton.mp hother
            exact hearlier time htime
          · intro time htime
            refine ⟨inputs.elapsed, rfl, ?_⟩
            rcases List.mem_append.mp htime with htime | htime
            · exact Nat.le_of_add_right_le (hearlier time htime)
            · rw [List.mem_singleton.mp htime]
  exact hrun.1

/-- Two frames. -/
theorem frames_apart_oneRun : ∃ loop taken loop', Runs (LoopStep plainEnvironment) loop taken loop' ∧
    frames taken = [0, 150000000] ∧
    (frames taken).Pairwise fun earlier later => earlier + frameInterval ≤ later := by
  obtain ⟨app, earlier, later, -, hearlier, hlater, hframes⟩ := @twoTurns_spec .up .up
    (fun turns => turns.2.1.frame.isSome && turns.2.2.frame.isSome) (by decide +kernel)
  obtain ⟨-, hfirst⟩ := step_turnAt hearlier
  obtain ⟨-, hsecond⟩ := step_turnAt hlater
  have hruns := (Runs.one hfirst).trans (.one hsecond)
  obtain ⟨hdrawn, hdrawnAgain⟩ := (Bool.and_eq_true _ _).mp hframes
  obtain ⟨shown, hshown⟩ := Option.isSome_iff_exists.mp hdrawn
  obtain ⟨again, hagain⟩ := Option.isSome_iff_exists.mp hdrawnAgain
  have hfirstFrame : earlier.frame = some shown := hshown
  have hsecondFrame : later.frame = some again := hagain
  refine ⟨_, _, _, hruns, ?_, frames_apart hruns⟩
  simp [frames, hfirstFrame, hsecondFrame, oneRunInputs]

end EventLoop

end HerdrTop.Tui
