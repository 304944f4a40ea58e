import HerdrTop.Library.Runs
import HerdrTop.Tui.App

/-!
# The rows on the screen are up to date

Whatever is published and whatever the user does, the rows of the interface are those of its model at the time when it
made them, and that model is the last one that was published, once this has been noticed. Nothing the interface does
with such a model fails.

## What is proved

* `App.Coherent`: the invariant, with `App.begin_coherent`, `Coherent.refreshIfChanged` and `Coherent.handleKey`.
* `EventLoop.run_coherent`: the invariant holds in every state that the loop reaches.
* `EventLoop.turn_shows`: what a frame of any turn shows.
* `EventLoop.rows_last`: how long the rows are good for.
-/

namespace HerdrTop.Tui

/-! ### The invariant -/

/-- The rows are those of the model at the time of the state. -/
structure App.Coherent (env : Environment) (app : App) : Prop where
  adopted : Adopted app.model app.state
  fresh : buildProjection env app.model app.state = some ⟨app.rows, app.nextExpiryMs⟩
  fits : i64Min ≤ app.state.nowMs
  published : Keyed app.modelReceiver.value
  newest : app.modelReceiver.changed = false → app.model = app.modelReceiver.value

/-- The same inputs, the same model and the same order of it. -/
structure App.SameInputs (app app' : App) : Prop where
  modelReceiver : app'.modelReceiver = app.modelReceiver
  model : app'.model = app.model
  dagOrder : app'.state.dagOrder = app.state.dagOrder

namespace App

variable {env : Environment} {app app' app'' : App}

theorem SameInputs.refl (app : App) : SameInputs app app := ⟨rfl, rfl, rfl⟩

theorem SameInputs.trans (h : SameInputs app app') (h' : SameInputs app' app'') : SameInputs app app'' :=
  ⟨h'.modelReceiver.trans h.modelReceiver, h'.model.trans h.model, h'.dagOrder.trans h.dagOrder⟩

/-- What is needed to make rows. -/
structure Ready (app : App) : Prop where
  adopted : Adopted app.model app.state
  published : Keyed app.modelReceiver.value
  newest : app.modelReceiver.changed = false → app.model = app.modelReceiver.value

theorem Coherent.ready (h : Coherent env app) : Ready app := ⟨h.adopted, h.published, h.newest⟩

theorem Ready.transfer (h : Ready app) (hsame : SameInputs app app') : Ready app' := by
  refine ⟨⟨?_, ?_, ?_⟩, ?_, ?_⟩
  · rw [hsame.model]
    exact h.adopted.keyed
  · rw [hsame.dagOrder]
    exact h.adopted.nodup
  · rw [hsame.dagOrder, hsame.model]
    exact h.adopted.covers
  · rw [hsame.modelReceiver]
    exact h.published
  · rw [hsame.modelReceiver, hsame.model]
    exact h.newest

/-- Rows are made; everything else stays as it is. -/
theorem rebuildRows_spec (env : Environment) (h : Ready app) {nowMs : ℤ} (hfits : i64Min ≤ nowMs) :
    ∃ app', app.rebuildRows env nowMs = some app' ∧ Coherent env app' ∧
      app' = { app with
        state := { app.state with nowMs }, rows := app'.rows, nextExpiryMs := app'.nextExpiryMs } ∧
      (app'.rows.map (·.key)).Nodup := by
  have hadopted : Adopted app.model { app.state with nowMs } := ⟨h.adopted.keyed, h.adopted.nodup, h.adopted.covers⟩
  obtain ⟨projection, hprojection, hnodup⟩ := buildCollapsed_total hadopted env app.state.collapsed
  refine ⟨{ app with state := { app.state with nowMs }, rows := projection.rows, nextExpiryMs := projection.nextExpiryMs },
    ?_, ⟨hadopted, hprojection, hfits, h.published, h.newest⟩, rfl, hnodup⟩
  unfold rebuildRows buildProjection
  rw [hprojection]
  rfl

theorem rebuildRows_same {nowMs : ℤ} (h : app.rebuildRows env nowMs = some app') :
    SameInputs app app' ∧ app'.state = { app.state with nowMs } := by
  obtain ⟨projection, -, h⟩ := Option.bind_eq_some_iff.mp h
  obtain rfl := Option.some.inj h
  exact ⟨⟨rfl, rfl, rfl⟩, rfl⟩

/-- The fields of the state that no row depends on. -/
structure SameView (app app' : App) : Prop extends SameInputs app app' where
  rows : app'.rows = app.rows
  nextExpiryMs : app'.nextExpiryMs = app.nextExpiryMs
  nowMs : app'.state.nowMs = app.state.nowMs
  executionOrder : app'.state.executionOrder = app.state.executionOrder
  viewMode : app'.state.viewMode = app.state.viewMode
  collapsed : app'.state.collapsed = app.state.collapsed
  filterQuery : app'.state.filterQuery = app.state.filterQuery

theorem buildCollapsed_congr {model : DomainModel} {state state' : AppState} (hnow : state'.nowMs = state.nowMs)
    (hexecution : state'.executionOrder = state.executionOrder) (hdag : state'.dagOrder = state.dagOrder)
    (hview : state'.viewMode = state.viewMode) (hquery : state'.filterQuery = state.filterQuery)
    (collapsed : HashSet NodeKey) :
    buildCollapsed env model state' collapsed = buildCollapsed env model state collapsed := by
  simp only [buildCollapsed, buildFullRows, rowContext, defaultVisible, hnow, hexecution, hdag, hview, hquery]

theorem SameView.coherent (h : SameView app app') (hcoherent : Coherent env app) : Coherent env app' := by
  have hready := hcoherent.ready.transfer h.toSameInputs
  refine ⟨hready.adopted, ?_, ?_, hready.published, hready.newest⟩
  · rw [buildProjection, buildCollapsed_congr h.nowMs h.executionOrder h.dagOrder h.viewMode h.filterQuery, h.model,
      h.collapsed, h.rows, h.nextExpiryMs]
    exact hcoherent.fresh
  · rw [h.nowMs]
    exact hcoherent.fits

theorem SameView.refl (app : App) : SameView app app := ⟨.refl app, rfl, rfl, rfl, rfl, rfl, rfl, rfl⟩

theorem SameView.trans (h : SameView app app') (h' : SameView app' app'') : SameView app app'' :=
  ⟨h.toSameInputs.trans h'.toSameInputs, h'.rows.trans h.rows, h'.nextExpiryMs.trans h.nextExpiryMs,
    h'.nowMs.trans h.nowMs, h'.executionOrder.trans h.executionOrder, h'.viewMode.trans h.viewMode,
    h'.collapsed.trans h.collapsed, h'.filterQuery.trans h.filterQuery⟩

theorem setSelection_same (app : App) (selected : Option NodeKey) : SameView app (app.setSelection selected) :=
  ⟨⟨rfl, rfl, rfl⟩, rfl, rfl, rfl, rfl, rfl, rfl, rfl⟩

theorem withReason_same (app : App) (reason : Option SelectionReason) : SameView app (app.withReason reason) :=
  ⟨⟨rfl, rfl, rfl⟩, rfl, rfl, rfl, rfl, rfl, rfl, rfl⟩

theorem select_same (app : App) (key : NodeKey) : SameView app (app.select key) :=
  ⟨⟨rfl, rfl, rfl⟩, rfl, rfl, rfl, rfl, rfl, rfl, rfl⟩

theorem recoverSelection_same (app : App) (oldRows newRows : List TreeRow) (hint : Option SelectionReason) :
    SameView app (app.recoverSelection oldRows newRows hint) := by
  unfold recoverSelection
  split
  · exact setSelection_same app _
  · split_ifs
    · exact withReason_same app none
    · split
      · exact (setSelection_same app _).trans (withReason_same _ _)
      · split
        · exact (setSelection_same app _).trans (withReason_same _ _)
        · exact (setSelection_same app _).trans (withReason_same _ _)

theorem reselect_same (app : App) (oldRows : List TreeRow) : SameView app (app.reselect oldRows) := by
  unfold reselect
  split_ifs
  · exact (withReason_same app none).trans (setSelection_same _ _)
  · exact recoverSelection_same app _ _ _

theorem takeUp_same (app : App) : SameView app app.takeUp := ⟨⟨rfl, rfl, rfl⟩, rfl, rfl, rfl, rfl, rfl, rfl, rfl⟩

/-! ### Refreshing -/

/-- The rows at the cached time are those on the screen. -/
theorem previousRows_eq (h : Coherent env app) :
    app.previousRows env = some (if app.state.follow then [] else app.rows) := by
  unfold previousRows
  split_ifs
  · rfl
  · rw [buildRows, h.fresh]
    rfl

/-- The model that was published at last is taken up. -/
theorem Ready.adopt (h : Ready app) : ∃ app', app.adopt = some app' ∧ Ready app' ∧
    app'.model = app.modelReceiver.value ∧ app'.modelReceiver = app.modelReceiver.borrowAndUpdate ∧
    app'.state = { app.state with
      executionOrder := app'.state.executionOrder, dagOrder := app'.state.dagOrder } := by
  obtain ⟨dagOrder, hadopt, hadopted⟩ := adoptModel_total h.published app.state
  rw [App.adopt, hadopt]
  exact ⟨_, rfl, ⟨⟨hadopted.keyed, hadopted.nodup, hadopted.covers⟩, h.published, fun _ => rfl⟩, rfl, rfl, rfl⟩

/-- What was published is taken up; the rows are made of the new model where it may be another one. -/
theorem Coherent.refreshCached (h : Coherent env app) {nowMs : ℤ} (hfits : i64Min ≤ nowMs) (recompute : Bool) :
    ∃ app', app.refreshCached env recompute nowMs = some app' ∧ Coherent env app' ∧
      app'.modelReceiver.value = app.modelReceiver.value ∧
      (recompute = true → app'.state.nowMs = nowMs ∧ app'.model = app.modelReceiver.value) ∧
      (recompute = false → SameView app app') := by
  unfold App.refreshCached
  cases recompute with
  | false =>
    rw [if_neg Bool.false_ne_true]
    have hsame := takeUp_same app
    refine ⟨_, rfl, hsame.coherent h, rfl, fun hfalse => absurd hfalse Bool.false_ne_true, fun _ => hsame⟩
  | true =>
    obtain ⟨adopted, hadopt, hready, hmodel, hreceiver, -⟩ := (h.ready.transfer (takeUp_same app).toSameInputs).adopt
    obtain ⟨rebuilt, hbuilt, hcoherent, heq, -⟩ := rebuildRows_spec env hready hfits
    have hsame := reselect_same rebuilt (if app.state.follow then [] else app.rows)
    have hnow : rebuilt.state.nowMs = nowMs := by rw [heq]
    have hrebuilt := (rebuildRows_same hbuilt).1
    refine ⟨_, ?_, hsame.coherent hcoherent, ?_, fun _ => ⟨hsame.nowMs.trans hnow, ?_⟩, fun hfalse => by cases hfalse⟩
    · rw [if_pos rfl, previousRows_eq h]
      simp only [Option.bind_eq_bind, Option.bind_some, hadopt, hbuilt]
      rfl
    · rw [hsame.modelReceiver, hrebuilt.modelReceiver, hreceiver]
      rfl
    · rw [hsame.model, hrebuilt.model, hmodel]
      rfl

theorem deadlineDue_eq_false {nowMs : ℤ} (h : app.deadlineDue nowMs = false) :
    ∀ d, app.nextExpiryMs = some d → nowMs < d := by
  intro d hd
  rw [deadlineDue, hd, Option.any_some] at h
  exact not_le.mp (of_decide_eq_false h)

/-- A look for changes succeeds unless somebody does not publish any more. Then the model is the last one that was
published, and the rows were made at this time, or are not due at the time of the look. -/
theorem Coherent.refreshIfChanged (h : Coherent env app) (deadlineMs : ℤ) {nowMs : ℤ} (hfits : i64Min ≤ nowMs) :
    (∃ message, app.refreshIfChanged env deadlineMs nowMs = some (.error message) ∧
      (app.modelReceiver.closed = true ∨ app.performance.closed = true)) ∨
    ∃ app' refreshed, app.refreshIfChanged env deadlineMs nowMs = some (.ok (app', refreshed)) ∧ Coherent env app' ∧
      app'.modelReceiver.value = app.modelReceiver.value ∧ app'.model = app.modelReceiver.value ∧
      (app'.state.nowMs = nowMs ∨ SameView app app' ∧ ∀ d, app'.nextExpiryMs = some d → deadlineMs < d) := by
  unfold App.refreshIfChanged Watch.hasChanged
  cases hmodel : app.modelReceiver.closed with
  | true => exact .inl ⟨_, rfl, .inl rfl⟩
  | false => cases hperformance : app.performance.closed with
    | true => exact .inl ⟨_, rfl, .inr rfl⟩
    | false =>
      refine .inr ?_
      simp only [Bool.false_eq_true, if_false]
      generalize (if app.sourceCoverage.closed then none else some app.sourceCoverage.changed).getD false = coverage,
        (if app.diagnosticsReceiver.closed then none else some app.diagnosticsReceiver.changed).getD false = diagnostics,
        (if app.operatorReceiver.closed then none else some app.operatorReceiver.changed).getD false = operator
      have hquiet : (app.modelReceiver.changed || operator || app.deadlineDue deadlineMs) = false →
          app.model = app.modelReceiver.value ∧ ∀ d, app.nextExpiryMs = some d → deadlineMs < d := by
        intro hnone
        simp only [Bool.or_eq_false_iff] at hnone
        exact ⟨h.newest hnone.1.1, deadlineDue_eq_false hnone.2⟩
      split_ifs with hsome
      · obtain ⟨app', hrefresh, hcoherent, hvalue, hdone, hsame⟩ :=
          h.refreshCached hfits (app.modelReceiver.changed || operator || app.deadlineDue deadlineMs)
        refine ⟨app', true, by rw [hrefresh]; rfl, hcoherent, hvalue, ?_⟩
        cases hrecompute : app.modelReceiver.changed || operator || app.deadlineDue deadlineMs with
        | true => exact ⟨(hdone hrecompute).2, .inl (hdone hrecompute).1⟩
        | false =>
          have hview := hsame hrecompute
          refine ⟨hview.model.trans (hquiet hrecompute).1, .inr ⟨hview, fun d hd => (hquiet hrecompute).2 d ?_⟩⟩
          rw [← hview.nextExpiryMs]
          exact hd
      · have hnone : (app.modelReceiver.changed || operator || app.deadlineDue deadlineMs) = false := by
          simp only [Bool.or_eq_true, not_or, Bool.not_eq_true] at hsome
          obtain ⟨⟨⟨⟨⟨hchanged, -⟩, -⟩, -⟩, hoperator⟩, hdue⟩ := hsome
          rw [hchanged, hoperator, hdue]
          rfl
        exact ⟨app, false, rfl, h, rfl, (hquiet hnone).1, .inr ⟨.refl app, (hquiet hnone).2⟩⟩

/-! ### Keys -/

/-- It succeeds, and the rows are up to date then. -/
def Done (env : Environment) (app : App) (result : Option App) : Prop :=
  ∃ app', result = some app' ∧ Coherent env app' ∧ SameInputs app app'

theorem SameView.done (h : SameView app app') (hcoherent : Coherent env app) : Done env app (some app') :=
  ⟨app', rfl, h.coherent hcoherent, h.toSameInputs⟩

theorem Done.of_same (hsame : SameInputs app app') {result : Option App} (h : Done env app' result) :
    Done env app result := by
  obtain ⟨last, hresult, hcoherent, hlast⟩ := h
  exact ⟨last, hresult, hcoherent, hsame.trans hlast⟩

/-- Rows are made, and what follows succeeds. -/
theorem Ready.rebuild (h : Ready app) {nowMs : ℤ} (hfits : i64Min ≤ nowMs) {next : App → Option App}
    (hnext : ∀ app', Coherent env app' → SameInputs app app' → app'.state = { app.state with nowMs } →
      Done env app' (next app')) : Done env app (app.rebuildRows env nowMs >>= next) := by
  obtain ⟨app', hbuilt, hcoherent, -, -⟩ := rebuildRows_spec env h hfits
  obtain ⟨hsame, hstate⟩ := rebuildRows_same hbuilt
  rw [hbuilt]
  exact (hnext app' hcoherent hsame hstate).of_same hsame

/-- Fields that no order depends on are changed before rows are made. -/
theorem Ready.rebuild_with (h : Ready app) (hsame : SameInputs app app') {nowMs : ℤ} (hfits : i64Min ≤ nowMs)
    {next : App → Option App} (hnext : ∀ new, Coherent env new → new.state = { app'.state with nowMs } →
      Done env new (next new)) : Done env app (app'.rebuildRows env nowMs >>= next) :=
  ((h.transfer hsame).rebuild hfits fun new hcoherent _ hstate => hnext new hcoherent hstate).of_same hsame

variable {clock : ℕ → ℤ}

theorem Ready.commitFilter (h : Ready app) (hfits : ∀ reading, i64Min ≤ clock reading) :
    Done env app (app.commitFilter env clock) := by
  refine h.rebuild (hfits 0) fun old hold _ _ => ?_
  refine hold.ready.rebuild_with ?_ (hfits 1) ?_
  · exact ⟨rfl, rfl, rfl⟩
  · exact fun new hnew _ => (recoverSelection_same new _ _ _).done hnew

theorem Coherent.toggleCollapse (h : Coherent env app) (key : NodeKey) (hfits : ∀ reading, i64Min ≤ clock reading) :
    Done env app (app.toggleCollapse env key clock) := by
  unfold App.toggleCollapse
  split_ifs
  · exact (SameView.refl app).done h
  · refine h.ready.rebuild (hfits 0) fun old hold _ _ => ?_
    obtain ⟨projection, hprojection, -⟩ := buildCollapsed_total hold.adopted env (∅ : HashMap NodeKey Unit)
    rw [buildUncollapsedRows, hprojection]
    simp only [Option.map_some, Option.bind_eq_bind, Option.bind_some]
    split
    · exact (SameView.refl old).done hold
    · split_ifs
      · exact (SameView.refl old).done hold
      all_goals
        refine hold.ready.rebuild_with ?_ (hfits 1) ?_
        · exact ⟨rfl, rfl, rfl⟩
      · exact fun new hnew _ => (recoverSelection_same new _ _ _).done hnew
      · exact fun new hnew _ => (SameView.refl new).done hnew

theorem Coherent.navigateRight (h : Coherent env app) (hfits : ∀ reading, i64Min ≤ clock reading) :
    Done env app (app.navigateRight env clock) := by
  unfold App.navigateRight
  split_ifs
  · exact (SameView.refl app).done h
  · split
    · exact (SameView.refl app).done h
    · split_ifs
      · exact h.toggleCollapse _ hfits
      · refine h.ready.rebuild (hfits 0) fun new hnew _ _ => ?_
        split
        · exact (SameView.refl new).done hnew
        · dsimp only
          split
          · exact (select_same new _).done hnew
          · exact (SameView.refl new).done hnew

theorem Coherent.navigateLeft (h : Coherent env app) (hfits : ∀ reading, i64Min ≤ clock reading) :
    Done env app (app.navigateLeft env clock) := by
  unfold App.navigateLeft
  split_ifs
  · exact (SameView.refl app).done h
  · split
    · exact (SameView.refl app).done h
    · refine h.ready.rebuild (hfits 0) fun new hnew _ _ => ?_
      split
      · exact (SameView.refl new).done hnew
      · dsimp only
        split_ifs
        · exact hnew.toggleCollapse _ fun reading => hfits (reading + 1)
        · split
          · exact (select_same new _).done hnew
          · exact (SameView.refl new).done hnew

theorem Ready.moveSelection (h : Ready app) (down : Bool) {nowMs : ℤ} (hfits : i64Min ≤ nowMs) :
    Done env app (app.moveSelection env down nowMs) := by
  unfold App.moveSelection
  refine h.rebuild_with ?_ hfits ?_
  · exact ⟨rfl, rfl, rfl⟩
  · intro new hnew _
    by_cases hempty : new.rows.isEmpty = true
    · rw [if_pos hempty]
      exact (setSelection_same new _).done hnew
    · rw [if_neg hempty]
      exact (setSelection_same new _).done hnew

theorem Ready.resumeFollow (h : Ready app) {nowMs : ℤ} (hfits : i64Min ≤ nowMs) :
    Done env app (app.resumeFollow env nowMs) := by
  unfold App.resumeFollow
  refine h.rebuild_with ?_ hfits ?_
  · exact ⟨rfl, rfl, rfl⟩
  · exact fun new hnew _ => (setSelection_same new _).done hnew

theorem Ready.toggleView (h : Ready app) (hfits : ∀ reading, i64Min ≤ clock reading) :
    Done env app (app.toggleView env clock) := by
  refine h.rebuild (hfits 0) fun old hold _ _ => ?_
  refine hold.ready.rebuild_with ?_ (hfits 1) ?_
  · exact ⟨rfl, rfl, rfl⟩
  · intro new hnew _
    split_ifs
    · exact (setSelection_same new _).done hnew
    · dsimp only
      split
      · exact (setSelection_same new _).done hnew
      · exact (setSelection_same new _).done hnew

theorem handleOverlayKey_same (app : App) (overlay : Overlay) (code : KeyCode) (notice : NoticeReply) :
    SameView app (app.handleOverlayKey env overlay code notice) := by
  unfold handleOverlayKey
  split
  all_goals
    try dsimp only
    try split_ifs
  all_goals exact ⟨⟨rfl, rfl, rfl⟩, rfl, rfl, rfl, rfl, rfl, rfl, rfl⟩

theorem Coherent.handleFilterKey (h : Coherent env app) (code : KeyCode) (hfits : ∀ reading, i64Min ≤ clock reading) :
    Done env app (app.handleFilterKey env code clock) := by
  unfold App.handleFilterKey
  split
  case h_2 => exact h.ready.commitFilter hfits
  all_goals exact SameView.done ⟨⟨rfl, rfl, rfl⟩, rfl, rfl, rfl, rfl, rfl, rfl, rfl⟩ h

theorem Done.map {result : Option App} (h : Done env app result) (control : LoopControl) :
    ∃ app' control', result.map (·, control) = some (app', control') ∧ Coherent env app' ∧ SameInputs app app' := by
  obtain ⟨app', hresult, hcoherent, hsame⟩ := h
  exact ⟨app', control, by rw [hresult]; rfl, hcoherent, hsame⟩

/-- A key is handled, whatever it is. -/
theorem Coherent.handleKey (h : Coherent env app) (key : KeyEvent) (hfits : ∀ reading, i64Min ≤ clock reading)
    (notice : NoticeReply) :
    ∃ app' control, app.handleKey env key clock notice = some (app', control) ∧ Coherent env app' ∧
      SameInputs app app' := by
  have hkeep : ∀ {app' : App} {control : LoopControl}, SameView app app' →
      ∃ app'' control', some (app', control) = some (app'', control') ∧ Coherent env app'' ∧ SameInputs app app'' :=
    fun hsame => ⟨_, _, rfl, hsame.coherent h, hsame.toSameInputs⟩
  unfold App.handleKey
  by_cases hrelease : key.release = true
  · rw [if_pos hrelease]
    exact hkeep (.refl app)
  rw [if_neg hrelease]
  cases app.state.overlay with
  | some overlay => exact hkeep (handleOverlayKey_same app _ _ _)
  | none =>
    dsimp only
    by_cases hdraft : app.state.filterDraft.isSome = true
    · rw [if_pos hdraft]
      exact (h.handleFilterKey _ hfits).map .goOn
    rw [if_neg hdraft]
    split
    case h_7 => exact (h.ready.moveSelection false (hfits 0)).map .goOn
    case h_8 => exact (h.ready.moveSelection true (hfits 0)).map .goOn
    case h_9 | h_10 => exact (h.ready.resumeFollow (hfits 0)).map .goOn
    case h_11 => exact (h.ready.toggleView hfits).map .goOn
    case h_12 => exact (h.navigateLeft hfits).map .goOn
    case h_13 => exact (h.navigateRight hfits).map .goOn
    case h_14 =>
      split
      · exact (h.toggleCollapse _ hfits).map .goOn
      · exact hkeep (.refl app)
    -- the other keys open an overlay or a draft, send a command, or do nothing
    all_goals
      try split_ifs
      all_goals exact hkeep ⟨⟨rfl, rfl, rfl⟩, rfl, rfl, rfl, rfl, rfl, rfl, rfl⟩

/-! ### The start -/

theorem paintTickDue_same (app : App) (nowMs : ℤ) : SameView app (app.paintTickDue nowMs).1 := by
  unfold paintTickDue
  split_ifs
  · exact .refl app
  · exact ⟨⟨rfl, rfl, rfl⟩, rfl, rfl, rfl, rfl, rfl, rfl, rfl⟩

/-- The application starts with every model that files things under their identities. -/
theorem begin_coherent (app : App) (hkeyed : Keyed app.model) (hreceived : app.model = app.modelReceiver.value)
    {nowMs : ℤ} (hfits : i64Min ≤ nowMs) :
    ∃ app', app.begin env nowMs = some app' ∧ Coherent env app' := by
  obtain ⟨dagOrder, hadopt, hadopted⟩ := adoptModel_total hkeyed app.state
  have hready : Ready { app with state := { app.state with
      executionOrder := app.state.executionOrder.adopt (app.model.executions.values.map (·.executionId)), dagOrder } } :=
    ⟨⟨hadopted.keyed, hadopted.nodup, hadopted.covers⟩, hreceived ▸ hkeyed, fun _ => hreceived⟩
  obtain ⟨built, hbuilt, hcoherent, -⟩ := rebuildRows_spec env hready hfits
  refine ⟨_, ?_, (setSelection_same built (lastKey built.rows)).coherent hcoherent⟩
  unfold App.begin
  rw [hadopt]
  simp only [Option.bind_eq_bind, Option.bind_some, hbuilt, Option.pure_def]

end App

/-! ### The loop -/

/-- The readings are numbers of 64 bits. -/
structure TurnInputs.Fits (inputs : TurnInputs) : Prop where
  nowMs : i64Min ≤ inputs.nowMs
  key : ∀ key clock notice, inputs.event = .ok (some (.key key clock notice)) → ∀ reading, i64Min ≤ clock reading

/-- A turn, with the loop before it and what clocks and the terminal said. -/
structure Taken where
  before : EventLoop
  inputs : TurnInputs
  turn : Turn

/-- Something is published elsewhere, or the loop takes a turn and goes on. -/
inductive LoopStep (env : Environment) : EventLoop → List Taken → EventLoop → Prop
  | publish (loop : EventLoop) (model : DomainModel) (keyed : Keyed model) :
      LoopStep env loop [] { loop with app := { loop.app with modelReceiver := loop.app.modelReceiver.send model } }
  /-- What makes no rows is published, the collector takes commands, or nobody publishes any more. -/
  | elsewhere (loop : EventLoop) (performance sourceCoverage diagnosticsReceiver operatorReceiver : Watch Unit)
      (operatorCommands : CommandQueue) (closed : Bool) :
      LoopStep env loop [] { loop with app := { loop.app with
        performance, sourceCoverage, diagnosticsReceiver, operatorReceiver, operatorCommands
        modelReceiver := { loop.app.modelReceiver with closed } } }
  | turn (loop : EventLoop) (inputs : TurnInputs) (fits : inputs.Fits) (turn : Turn)
      (taken : loop.turn env inputs = some (.ok turn)) (goesOn : turn.control = .ok .goOn) :
      LoopStep env loop [⟨loop, inputs, turn⟩] turn.loop

/-- The loop at its start, with some model. -/
def Begins (env : Environment) (loop : EventLoop) : Prop :=
  ∃ modelReceiver performance sourceCoverage diagnosticsReceiver operatorReceiver operatorCommands firstMs nowMs app,
    Keyed modelReceiver.value ∧ i64Min ≤ nowMs ∧
      (App.initial env modelReceiver performance sourceCoverage diagnosticsReceiver operatorReceiver operatorCommands
        firstMs).begin env nowMs = some app ∧ loop = { app }

namespace EventLoop

variable {env : Environment} {loop loop' : EventLoop} {inputs : TurnInputs} {taken : List Taken}

/-- Drawing fails only if the terminal does. -/
theorem draw_error {elapsed : ℕ} {drawn : Except String (Option ℕ)} {message : String}
    (h : loop.draw elapsed drawn = .error message) : drawn = .error message := by
  unfold draw at h
  split_ifs at h
  cases drawn with
  | error => exact congrArg Except.error (Except.error.inj h)
  | ok => cases h

theorem draw_same {elapsed : ℕ} {drawn : Except String (Option ℕ)} {frame : Option App}
    (h : loop.draw elapsed drawn = .ok (loop', frame)) : loop.app.SameView loop'.app := by
  unfold draw at h
  split_ifs at h
  · cases drawn with
    | error => cases h
    | ok overlayMaximum =>
      obtain ⟨rfl, -⟩ := Prod.mk.inj (Except.ok.inj h)
      cases overlayMaximum with
      | none => exact .refl loop.app
      | some maximum => exact ⟨⟨rfl, rfl, rfl⟩, rfl, rfl, rfl, rfl, rfl, rfl, rfl⟩
  · cases h
    exact .refl loop.app

theorem draw_frame {elapsed : ℕ} {drawn : Except String (Option ℕ)} {app : App}
    (h : loop.draw elapsed drawn = .ok (loop', some app)) :
    app = loop.app ∧ loop.limiter.ready loop.dirty elapsed = true := by
  unfold draw at h
  split_ifs at h with hready
  · cases drawn with
    | error => cases h
    | ok =>
      obtain ⟨-, hframe⟩ := Prod.mk.inj (Except.ok.inj h)
      exact ⟨(Option.some.inj hframe).symm, hready⟩
  · cases h

theorem looked_same (loop : EventLoop) (paintMs : ℤ) (refreshed : App × Bool) :
    refreshed.1.SameView (loop.looked paintMs refreshed).app := refreshed.1.paintTickDue_same paintMs

/-- An event is taken. -/
theorem take_spec (h : loop.app.Coherent env) (event : Option TerminalEvent)
    (hfits : ∀ key clock notice, event = some (.key key clock notice) → ∀ reading, i64Min ≤ clock reading) :
    ∃ loop' control, loop.take env event = some (loop', control) ∧ loop'.app.Coherent env ∧
      loop'.app.modelReceiver = loop.app.modelReceiver := by
  cases event with
  | none => exact ⟨loop, .goOn, rfl, h, rfl⟩
  | some event => cases event with
    | key key clock notice =>
      obtain ⟨app', control, hkey, hcoherent, hsame⟩ := h.handleKey key (hfits key clock notice rfl) notice
      exact ⟨{ loop with app := app', dirty := true }, control, by rw [take, hkey]; rfl, hcoherent, hsame.modelReceiver⟩
    | resize => exact ⟨_, .goOn, rfl, h, rfl⟩
    | other => exact ⟨loop, .goOn, rfl, h, rfl⟩

/-- There is no event if the terminal fails when it is asked, or when the event is read. -/
theorem event_error {message : String} (h : inputs.event = .error message) :
    inputs.polled = .error message ∨ inputs.polled = .ok true ∧ inputs.read = .error message := by
  unfold TurnInputs.event at h
  cases hpolled : inputs.polled with
  | error other =>
    rw [hpolled] at h
    exact .inl (congrArg Except.error (Except.error.inj h))
  | ok ready =>
    rw [hpolled] at h
    cases ready with
    | false => cases h
    | true =>
      cases hread : inputs.read with
      | error other =>
        rw [hread] at h
        exact .inr ⟨rfl, congrArg Except.error (Except.error.inj h)⟩
      | ok event =>
        rw [hread] at h
        cases h

/-- What is waited for is taken. -/
theorem await_spec (h : loop.app.Coherent env) (hfits : inputs.Fits) :
    ∃ loop' control, loop.await env inputs.event = some (loop', control) ∧ loop'.app.Coherent env ∧
      loop'.app.modelReceiver = loop.app.modelReceiver ∧
      ∀ message, control = .error message → inputs.event = .error message := by
  cases hevent : inputs.event with
  | error message => exact ⟨loop, .error message, rfl, h, rfl, fun _ hsame => congrArg _ (Except.error.inj hsame)⟩
  | ok event =>
    obtain ⟨loop', control, htaken, hcoherent, hreceiver⟩ := take_spec h event fun key clock notice hkey =>
      hfits.key key clock notice (hevent.trans (congrArg Except.ok hkey))
    exact ⟨loop', .ok control, by rw [await, htaken]; rfl, hcoherent, hreceiver, fun message hfails => by cases hfails⟩

/-- A turn succeeds unless somebody does not publish any more or nothing can be drawn, and it publishes nothing; the
loop goes on unless the terminal fails. The frame shows the last model that was published, with the rows that were made
during the turn, or are not due when it begins. -/
theorem turn_spec (h : loop.app.Coherent env) (hfits : inputs.Fits) :
    (∃ message, loop.turn env inputs = some (.error message) ∧
      (loop.app.modelReceiver.closed = true ∨ loop.app.performance.closed = true ∨ inputs.drawn = .error message)) ∨
    ∃ turn, loop.turn env inputs = some (.ok turn) ∧ turn.loop.app.Coherent env ∧
      turn.loop.app.modelReceiver.value = loop.app.modelReceiver.value ∧
      (∀ message, turn.control = .error message → inputs.event = .error message) ∧
      ∀ app, turn.frame = some app → app.Coherent env ∧ app.model = loop.app.modelReceiver.value ∧
        (app.state.nowMs = inputs.nowMs ∨
          app.state.nowMs = loop.app.state.nowMs ∧ ∀ d, app.nextExpiryMs = some d → inputs.deadlineMs < d) := by
  rcases h.refreshIfChanged inputs.deadlineMs hfits.nowMs with ⟨message, hrefresh, hclosed⟩ |
    ⟨app', refreshed, hrefresh, hcoherent, hvalue, hmodel, htime⟩
  · exact .inl ⟨message, by rw [turn, hrefresh]; rfl, hclosed.imp_right .inl⟩
  · have hlooked := looked_same loop inputs.paintMs (app', refreshed)
    have hcoherent' := hlooked.coherent hcoherent
    cases hdraw : (loop.looked inputs.paintMs (app', refreshed)).draw inputs.elapsed inputs.drawn with
    | error message =>
      refine .inl ⟨message, ?_, .inr (.inr (draw_error hdraw))⟩
      rw [turn, hrefresh]
      simp only [Option.bind_some, proceed, hdraw]
    | ok drawn =>
      refine .inr ?_
      obtain ⟨drawn, frame⟩ := drawn
      have hdrawn := draw_same hdraw
      obtain ⟨loop', control, htaken, hlast, hreceiver, hfails⟩ := await_spec (hdrawn.coherent hcoherent') hfits
      have hkept : loop'.app.modelReceiver.value = loop.app.modelReceiver.value := by
        rw [hreceiver, hdrawn.modelReceiver, hlooked.modelReceiver]
        exact hvalue
      refine ⟨⟨loop', frame, control⟩, ?_, hlast, hkept, hfails, fun app happ => ?_⟩
      · rw [turn, hrefresh]
        simp only [Option.bind_some, proceed, hdraw, htaken, Option.map_some]
      · obtain rfl : frame = some app := happ
        obtain ⟨rfl, -⟩ := draw_frame hdraw
        refine ⟨hcoherent', hlooked.model.trans hmodel, ?_⟩
        rcases htime with hnow | ⟨hsame, hdue⟩
        · exact .inl (hlooked.nowMs.trans hnow)
        · refine .inr ⟨hlooked.nowMs.trans hsame.nowMs, fun d hd => hdue d ?_⟩
          rw [← hlooked.nextExpiryMs]
          exact hd

theorem step_coherent (hstep : LoopStep env loop taken loop') (h : loop.app.Coherent env) : loop'.app.Coherent env := by
  cases hstep with
  | publish model keyed =>
    exact ⟨h.adopted, h.fresh, h.fits, keyed, fun hunchanged => Bool.noConfusion hunchanged⟩
  | elsewhere => exact ⟨h.adopted, h.fresh, h.fits, h.published, h.newest⟩
  | turn inputs fits turn hturn goesOn =>
    rcases turn_spec h fits with ⟨message, herror, -⟩ | ⟨turn', hok, hcoherent, -⟩
    · rw [hturn] at herror
      cases herror
    · rw [hturn] at hok
      obtain rfl := Except.ok.inj (Option.some.inj hok)
      exact hcoherent

/-- Whatever is published and whatever the user does, the rows are up to date with the model at the time they were
made. -/
theorem run_coherent (hbegins : Begins env loop) (h : Runs (LoopStep env) loop taken loop') : loop'.app.Coherent env := by
  obtain ⟨modelReceiver, performance, sourceCoverage, diagnosticsReceiver, operatorReceiver, operatorCommands, firstMs,
    nowMs, app, hkeyed, hfits, hbegin, rfl⟩ := hbegins
  obtain ⟨app', hbegin', hcoherent⟩ := (App.initial env modelReceiver performance sourceCoverage diagnosticsReceiver
    operatorReceiver operatorCommands firstMs).begin_coherent hkeyed rfl hfits
  obtain rfl := Option.some.inj (hbegin.symm.trans hbegin')
  exact h.invariant (I := fun loop => loop.app.Coherent env) step_coherent hcoherent

end EventLoop

/-! ### A run -/

/-- Without a notice, and with plain texts. -/
def plainEnvironment : Environment where
  texts := sharedContext.texts
  shortRunName := fun _ => "run"
  toLowercase := id
  trim := id
  stalledRuns := fun _ _ _ => false
  ghostVisibilityMs := 0
  headlessInactivityMs := 600000
  positive := by decide
  bounded := by decide
  noticeVisible := false
  noticeStateBase := none

/-- A run that has been there from the beginning. -/
def oneRun : DomainModel where
  taskRuns := HashMap.ofList [
    (⟨1⟩, { runId := ⟨1⟩, key := .controller "run", displayOrdinal := 1, state := .running,
            hasControllerTaskStateEvent := true, createdAtMs := some 0 })]

theorem oneRun_keyed : Keyed oneRun where
  workspaces := .of_toList (by decide)
  tabs := .of_toList (by decide)
  panes := .of_toList (by decide)
  runs := FiledUnder.of_toList (by decide)
  agents := FiledUnder.of_toList (by decide)

def oneRunApp : App :=
  App.initial plainEnvironment { value := oneRun } { value := () } { value := () } { value := () } { value := () }
    { capacity := 1 } 500

/-- A turn in the same second. -/
def oneRunInputs (elapsed : ℕ) (code : KeyCode) : TurnInputs where
  deadlineMs := 600
  nowMs := 600
  paintMs := 600
  elapsed
  drawn := .ok none
  polled := .ok true
  read := .ok (.key { code } (fun _ => 600) ⟨true, true⟩)

theorem oneRunInputs_fit (elapsed : ℕ) (code : KeyCode) : (oneRunInputs elapsed code).Fits where
  nowMs := (by decide : i64Min ≤ 600)
  key key clock notice hevent := by
    cases hevent
    exact fun _ => (by decide : i64Min ≤ 600)

theorem begins_oneRun {app : App} (h : oneRunApp.begin plainEnvironment 500 = some app) :
    Begins plainEnvironment { app } :=
  ⟨oneRunApp.modelReceiver, oneRunApp.performance, oneRunApp.sourceCoverage, oneRunApp.diagnosticsReceiver,
    oneRunApp.operatorReceiver, oneRunApp.operatorCommands, 500, 500, app, oneRun_keyed,
    (by decide : i64Min ≤ 500), h, rfl⟩

/-- A turn that goes on. -/
def turnAt (elapsed : ℕ) (code : KeyCode) (loop : EventLoop) : Option Turn :=
  ((loop.turn plainEnvironment (oneRunInputs elapsed code)).bind (·.toOption)).filter (·.control = .ok .goOn)

theorem step_turnAt {elapsed : ℕ} {code : KeyCode} {loop : EventLoop} {turn : Turn}
    (h : turnAt elapsed code loop = some turn) :
    loop.turn plainEnvironment (oneRunInputs elapsed code) = some (.ok turn) ∧
      LoopStep plainEnvironment loop [⟨loop, oneRunInputs elapsed code, turn⟩] turn.loop := by
  obtain ⟨hturn, hgoes⟩ := Option.filter_eq_some_iff.mp h
  obtain ⟨result, hresult, hok⟩ := Option.bind_eq_some_iff.mp hturn
  cases result with
  | error message => cases hok
  | ok found =>
    obtain rfl := Option.some.inj hok
    exact ⟨hresult, .turn loop _ (oneRunInputs_fit elapsed code) _ hresult (of_decide_eq_true hgoes)⟩

/-- The start, and two turns with a key each. -/
def twoTurns (first second : KeyCode) : Option (App × Turn × Turn) :=
  (oneRunApp.begin plainEnvironment 500).bind fun app =>
    (turnAt 0 first { app }).bind fun earlier =>
      (turnAt 150000000 second earlier.loop).map fun later => (app, earlier, later)

theorem twoTurns_spec {first second : KeyCode} {p : App × Turn × Turn → Bool}
    (h : (twoTurns first second).any p = true) :
    ∃ app earlier later, Begins plainEnvironment { app } ∧ turnAt 0 first { app } = some earlier ∧
      turnAt 150000000 second earlier.loop = some later ∧ p (app, earlier, later) = true := by
  obtain ⟨turns, hturns, hp⟩ := (Option.any_eq_true p _).mp h
  obtain ⟨app, hbegin, hturns⟩ := Option.bind_eq_some_iff.mp hturns
  obtain ⟨earlier, hearlier, hturns⟩ := Option.bind_eq_some_iff.mp hturns
  obtain ⟨later, hlater, rfl⟩ := Option.map_eq_some_iff.mp hturns
  exact ⟨app, earlier, later, begins_oneRun hbegin, hearlier, hlater, hp⟩

/-! ### What is on the screen -/

namespace EventLoop

variable {env : Environment} {loop loop' : EventLoop} {inputs : TurnInputs} {taken : List Taken}

/-- Every turn in every run succeeds unless somebody does not publish any more or the terminal fails: while a frame is
drawn, while an event is waited for, or when it is read. A frame that is drawn shows the last model that was published:
its rows were made for it during the turn; or they were made before, and without a query the same rows at the same
depths would be made when the turn begins, if the clock has not been set back. -/
theorem turn_shows (hbegins : Begins env loop) (h : Runs (LoopStep env) loop taken loop') (hfits : inputs.Fits) :
    (∃ message, loop'.turn env inputs = some (.error message) ∧
      (loop'.app.modelReceiver.closed = true ∨ loop'.app.performance.closed = true ∨
        inputs.drawn = .error message)) ∨
    ∃ turn, loop'.turn env inputs = some (.ok turn) ∧
      (∀ message, turn.control = .error message →
        inputs.polled = .error message ∨ inputs.polled = .ok true ∧ inputs.read = .error message) ∧
      ∀ app, turn.frame = some app → app.model = loop'.app.modelReceiver.value ∧
        buildProjection env app.model app.state = some ⟨app.rows, app.nextExpiryMs⟩ ∧
        (app.state.nowMs = inputs.nowMs ∨
          (app.state.filterQuery.isEmpty = true → app.state.nowMs ≤ inputs.deadlineMs →
            ∃ fresh, buildProjection env app.model { app.state with nowMs := inputs.deadlineMs } = some fresh ∧
              SameShape app.rows fresh.rows)) := by
  rcases turn_spec (run_coherent hbegins h) hfits with herror | ⟨turn, hturn, -, -, hfails, hframe⟩
  · exact .inl herror
  · refine .inr ⟨turn, hturn, fun message hmessage => event_error (hfails message hmessage), fun app happ => ?_⟩
    obtain ⟨hcoherent, hmodel, htime⟩ := hframe app happ
    refine ⟨hmodel, hcoherent.fresh, htime.imp_right fun hdue hquery hle => ?_⟩
    exact buildProjection_stays hcoherent.adopted hquery hcoherent.fresh hcoherent.fits hle hdue.2

/-- The frame of the second turn has three rows. -/
theorem turn_shows_oneRun : ∃ loop taken loop' turn app, Begins plainEnvironment loop ∧
    Runs (LoopStep plainEnvironment) loop taken loop' ∧ taken.length = 1 ∧
    loop'.turn plainEnvironment (oneRunInputs 150000000 .up) = some (.ok turn) ∧ turn.frame = some app ∧
    app.rows.length = 3 ∧ app.model = loop'.app.modelReceiver.value ∧
    buildProjection plainEnvironment app.model app.state = some ⟨app.rows, app.nextExpiryMs⟩ := by
  obtain ⟨app, earlier, later, hbegins, hearlier, hlater, hframe⟩ := @twoTurns_spec .up .up
    (fun turns => turns.2.2.frame.any fun app => app.rows.length = 3) (by decide +kernel)
  obtain ⟨-, hstep⟩ := step_turnAt hearlier
  obtain ⟨hturn, -⟩ := step_turnAt hlater
  obtain ⟨shown, hshown, hrows⟩ := (Option.any_eq_true _ _).mp hframe
  rcases turn_shows hbegins (.one hstep) (oneRunInputs_fit 150000000 .up) with ⟨message, herror, -⟩ |
    ⟨turn, hturn', hshows⟩
  · rw [hturn] at herror
    cases herror
  · rw [hturn] at hturn'
    obtain rfl := Except.ok.inj (Option.some.inj hturn')
    obtain ⟨hmodel, hfresh, -⟩ := hshows.2 shown hshown
    exact ⟨_, _, _, later, shown, hbegins, .one hstep, rfl, hturn, hshown, of_decide_eq_true hrows, hmodel, hfresh⟩

/-- In every state that is reached, the time when rows are due is to come, and until then, without a query, the same
rows would be made again at the same depths: whatever goes out of view or turns stale by itself does so later. -/
theorem rows_last (hbegins : Begins env loop) (h : Runs (LoopStep env) loop taken loop')
    (hquery : loop'.app.state.filterQuery.isEmpty = true) (hnow : loop'.app.state.nowMs < i64Max) :
    (∀ d, loop'.app.nextExpiryMs = some d → loop'.app.state.nowMs < d) ∧
      ∀ t, loop'.app.state.nowMs ≤ t → (∀ d, loop'.app.nextExpiryMs = some d → t < d) →
        ∃ later, buildProjection env loop'.app.model { loop'.app.state with nowMs := t } = some later ∧
          SameShape loop'.app.rows later.rows := by
  have hcoherent := run_coherent hbegins h
  constructor
  · exact buildProjection_expiry hcoherent.adopted hquery hcoherent.fresh hnow
  · intro t hle hbefore
    exact buildProjection_stays hcoherent.adopted hquery hcoherent.fresh hcoherent.fits hle hbefore

/-- How long the run has been going is shown, so its rows are good for half a second. -/
theorem rows_last_oneRun : ∃ loop later, Begins plainEnvironment loop ∧ loop.app.state.nowMs = 500 ∧
    loop.app.nextExpiryMs = some 1000 ∧ loop.app.rows.length = 3 ∧
    buildProjection plainEnvironment loop.app.model { loop.app.state with nowMs := 999 } = some later ∧
    SameShape loop.app.rows later.rows := by
  obtain ⟨app, earlier, later, hbegins, -, -, hshown⟩ := @twoTurns_spec .up .up (fun turns =>
    decide (turns.1.state.nowMs = 500 ∧ turns.1.nextExpiryMs = some 1000 ∧ turns.1.rows.length = 3 ∧
      turns.1.state.filterQuery.isEmpty = true)) (by decide +kernel)
  obtain ⟨hnow, hexpiry, hrows, hquery⟩ : app.state.nowMs = 500 ∧ app.nextExpiryMs = some 1000 ∧
    app.rows.length = 3 ∧ app.state.filterQuery.isEmpty = true := of_decide_eq_true hshown
  have hearly : app.state.nowMs < i64Max := by
    have hmax : (500 : ℤ) < i64Max := by decide
    omega
  obtain ⟨-, hlasts⟩ := rows_last hbegins (.refl _) hquery hearly
  have hnotYet : ∀ d, app.nextExpiryMs = some d → 999 < d := by
    intro d hd
    rw [hexpiry] at hd
    obtain rfl := Option.some.inj hd
    decide
  have hle : app.state.nowMs ≤ 999 := by omega
  obtain ⟨fresh, hfresh, hshape⟩ := hlasts 999 hle hnotYet
  exact ⟨_, fresh, hbegins, hnow, hexpiry, hrows, hfresh, hshape⟩

end EventLoop

end HerdrTop.Tui
