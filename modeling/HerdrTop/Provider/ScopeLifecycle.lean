import HerdrTop.Library.Monitor
import Mathlib.Data.Int.Basic
import Mathlib.Tactic.Common

/-!
# The life of one scope

What the provider lane does to one scope, without the maps: a scope is started or not, a completion of it
may be held, it may have completed, been closed for its silence, or ended by notification. `PhaseStep` are the
steps of such a life, with the marks that they leave in the output.

## What is proved

* `ScopePhase.Consistent.step`: the parts of a phase stay consistent with each other.
* `phase_terminals`: after a completion, or a failure, no terminal mark follows before a start or, after a
  failure, a newer sign of life; a cancellation is only followed by another one.
* `phase_closes`, `phase_inactive`: two closes have a start between them, and a scope is recorded as closed
  exactly when it was closed after its last start.
-/

namespace HerdrTop

/-- The kinds of scopes. -/
inductive ScopeSort
  | root
  | subagent
  | codex
  deriving DecidableEq

/-- Where a scope stands in its life. -/
@[ext] structure ScopePhase where
  started : Bool
  /-- The time of the completion that is held. -/
  pending : Option ℤ
  completed : Bool
  /-- Closed for its silence. -/
  inactive : Bool
  /-- The end that notifications report: whether it failed, and when. -/
  ended : Option (Bool × ℤ)
  deriving DecidableEq

/-- What the output says about a scope. -/
inductive Mark
  | started
  | alive (atMs : ℤ)
  | completed
  | failed (atMs : ℤ)
  | cancelled
  | closed
  deriving DecidableEq

namespace ScopePhase

/-- Nothing is known of the scope. -/
def fresh : ScopePhase := ⟨false, none, false, false, none⟩

/-- The scope goes on. -/
def resumed (v : ScopePhase) : ScopePhase :=
  { v with pending := none, completed := false, inactive := false, ended := none }

/-- Whether a sign of life at this time is newer than the end of the scope. -/
def Resumable (v : ScopePhase) (atMs : ℤ) : Prop := ∀ failed endMs, v.ended = some (failed, endMs) → endMs < atMs

/-- Whether a sign of life starts the scope. -/
def opens (sort : ScopeSort) (v : ScopePhase) : Bool := sort = .root || v.completed || v.inactive

end ScopePhase

open ScopePhase

/-- One step in the life of a scope. -/
inductive PhaseStep (sort : ScopeSort) : ScopePhase → List Mark → ScopePhase → Prop
  /-- The held completion becomes durable. -/
  | release {v : ScopePhase} {atMs : ℤ} : v.pending = some atMs →
      PhaseStep sort v [.completed] { v with started := false, pending := none, completed := true }
  /-- The scope closes for its silence. -/
  | close {v : ScopePhase} : v.started = true → v.pending = none → v.completed = false →
      PhaseStep sort v [.closed] { v with started := false, inactive := true }
  /-- The log grows and starts nothing. -/
  | grow {v : ScopePhase} {atMs : ℤ} : v.Resumable atMs → (v.opens sort = true → v.started = true) →
      PhaseStep sort v [.alive atMs] v.resumed
  /-- The log grows and starts the scope. -/
  | growOpen {v : ScopePhase} {atMs : ℤ} : v.Resumable atMs → v.opens sort = true →
      PhaseStep sort v [.alive atMs, .started] { v.resumed with started := true }
  /-- The scope is announced. -/
  | begin {v : ScopePhase} {atMs : ℤ} : v.Resumable atMs →
      PhaseStep sort v [.started] { v.resumed with started := true }
  /-- A turn starts in a scope that has started. -/
  | turn {v : ScopePhase} : sort = .codex → v.started = true → PhaseStep sort v [] v.resumed
  /-- A turn is aborted. -/
  | abort {v : ScopePhase} : sort = .codex →
      PhaseStep sort v [.cancelled] { v with started := false, pending := none, completed := false }
  /-- The subagent failed. -/
  | fail {v : ScopePhase} {atMs : ℤ} : sort = .subagent → v.completed = false →
      (∀ failed endMs, v.ended = some (failed, endMs) → failed = false) →
      PhaseStep sort v [.failed atMs]
        { v with started := false, pending := none, ended := some (true, atMs) }
  /-- The subagent ended, and its completion is held. -/
  | hold {v : ScopePhase} {atMs : ℤ} : sort = .subagent → v.completed = false →
      (∀ failed endMs, v.ended = some (failed, endMs) → failed = false) →
      PhaseStep sort v [] { v with pending := some atMs, ended := some (false, atMs) }

/-! ### Consistency -/

/-- The parts of a phase agree with each other. -/
structure ScopePhase.Consistent (sort : ScopeSort) (v : ScopePhase) : Prop where
  /-- A completed scope has not started again. -/
  completed : v.completed = true → v.started = false
  /-- Nor has a closed one. -/
  inactive : v.inactive = true → v.started = false
  /-- A completion is held only for a scope that ended so and has not completed. -/
  pending : ∀ atMs, v.pending = some atMs → v.completed = false ∧ v.ended = some (false, atMs)
  /-- A failed scope is over. -/
  failed : ∀ endMs, v.ended = some (true, endMs) →
    v.started = false ∧ v.pending = none ∧ v.completed = false
  /-- A scope that ended without a failure has completed or will. -/
  ended : ∀ endMs, v.ended = some (false, endMs) → v.pending = some endMs ∨ v.completed = true
  /-- A scope that has completed ended so. -/
  completion : v.completed = true → ∃ endMs, v.ended = some (false, endMs)
  /-- Only subagents end by notification. -/
  subagent : v.ended.isSome = true → sort = .subagent

section

variable {sort : ScopeSort} {v v' : ScopePhase} {l : List Mark}

theorem ScopePhase.Consistent.fresh : ScopePhase.fresh.Consistent sort := by
  constructor <;> simp [ScopePhase.fresh]

theorem ScopePhase.Consistent.resumed (started : Bool) :
    ({ v.resumed with started := started } : ScopePhase).Consistent sort := by
  constructor <;> simp [ScopePhase.resumed]

/-- Every step keeps the parts of a phase consistent. -/
theorem ScopePhase.Consistent.step (hv : v.Consistent sort) (h : PhaseStep sort v l v') :
    v'.Consistent sort := by
  cases h with
  | release hpending =>
    obtain ⟨-, hended⟩ := hv.pending _ hpending
    refine ⟨fun _ => rfl, fun _ => rfl, fun _ h => absurd h (by simp), fun _ h => ?_, fun _ _ => .inr rfl,
      fun _ => ⟨_, hended⟩, hv.subagent⟩
    rw [hended] at h
    cases h
  | close hstarted hpending hcompleted =>
    refine ⟨fun _ => rfl, fun _ => rfl, hv.pending, fun endMs h => ⟨rfl, hpending, hcompleted⟩, hv.ended,
      hv.completion, hv.subagent⟩
  | grow => exact .resumed (v := v) v.started
  | growOpen => exact .resumed (v := v) true
  | begin => exact .resumed (v := v) true
  | turn => exact .resumed (v := v) v.started
  | abort hsort =>
    have hended : v.ended = none := by
      by_contra hne
      have := hv.subagent (Option.isSome_iff_ne_none.mpr hne)
      rw [hsort] at this
      cases this
    refine ⟨fun h => absurd h (by simp), fun _ => rfl, fun _ h => absurd h (by simp), fun _ h => ?_,
      fun _ h => ?_, fun h => absurd h (by simp), hv.subagent⟩ <;>
    · rw [hended] at h
      cases h
  | fail hsort hcompleted =>
    refine ⟨fun _ => rfl, fun _ => rfl, fun _ h => absurd h (by simp), fun _ _ => ⟨rfl, rfl, hcompleted⟩,
      fun _ h => absurd h (by simp), fun h => ?_, fun _ => hsort⟩
    exact absurd (hcompleted.symm.trans h) (by simp)
  | hold hsort hcompleted =>
    refine ⟨hv.completed, hv.inactive, fun atMs h => ⟨hcompleted, ?_⟩, fun _ h => absurd h (by simp),
      fun _ h => .inl ?_, fun h => ?_, fun _ => hsort⟩
    · simpa using h
    · simpa using h
    · exact absurd (hcompleted.symm.trans h) (by simp)

/-! ### Terminal marks -/

/-- The terminal that stands after a mark; `none` rejects a terminal while another one stands. -/
def terminalMonitor : Monitor Mark (Option Mark) where
  next
    | _, .started => some none
    | some (.failed endMs), .alive atMs => some (if endMs < atMs then none else some (.failed endMs))
    | standing, .alive _ => some standing
    | standing, .closed => some standing
    | none, .completed => some (some .completed)
    | none, .failed atMs => some (some (.failed atMs))
    | none, .cancelled => some (some .cancelled)
    | some .cancelled, .cancelled => some (some .cancelled)
    | some _, _ => none

/-- The phase of a scope remembers the terminal that stands. -/
def Stands (sort : ScopeSort) (v : ScopePhase) : Option Mark → Prop
  | none => True
  | some .completed => v.completed = true
  | some (.failed endMs) => v.ended = some (true, endMs)
  | some .cancelled => sort = .codex
  | some _ => False

/-- A scope in which a held completion is released or held, or that fails, has no standing terminal. -/
theorem stands_none {standing : Option Mark} (hsort : sort = .subagent) (hcompleted : v.completed = false)
    (hended : ∀ failed endMs, v.ended = some (failed, endMs) → failed = false)
    (hs : Stands sort v standing) : standing = none := by
  match standing, hs with
  | none, _ => rfl
  | some .completed, hs => exact absurd (hcompleted.symm.trans hs) (by simp)
  | some (.failed endMs), hs => exact absurd (hended _ _ hs) (by simp)
  | some .cancelled, hs => exact absurd (hsort.symm.trans hs) (by simp)

/-- Resuming a scope leaves no terminal standing that a sign of life does not end. -/
theorem stands_resumed {standing : Option Mark} {atMs : ℤ} (hv : v.Consistent sort)
    (hresumable : v.Resumable atMs) (hopens : v.opens sort = true → v.started = true)
    (hs : Stands sort v standing) :
    ∃ standing', terminalMonitor.next standing (.alive atMs) = some standing' ∧
      Stands sort v.resumed standing' := by
  match standing, hs with
  | none, _ => exact ⟨none, rfl, trivial⟩
  | some .completed, hs =>
    have hopen : v.opens sort = true := by
      unfold opens
      simp [show v.completed = true from hs]
    exact absurd ((hv.completed hs).symm.trans (hopens hopen)) (by simp)
  | some (.failed endMs), hs =>
    have hlt := hresumable true endMs hs
    exact ⟨none, by simp [terminalMonitor, hlt], trivial⟩
  | some .cancelled, hs => exact ⟨some .cancelled, rfl, hs⟩

/-- The marks of a step are accepted. -/
theorem PhaseStep.terminals {standing : Option Mark} (h : PhaseStep sort v l v')
    (hv : v.Consistent sort ∧ Stands sort v standing) :
    ∃ standing', terminalMonitor.watch standing l = some standing' ∧
      v'.Consistent sort ∧ Stands sort v' standing' := by
  obtain ⟨hc, hs⟩ := hv
  have hc' := hc.step h
  cases h with
  | release hpending =>
    obtain ⟨hcompleted, hended⟩ := hc.pending _ hpending
    have hnone : standing = none :=
      stands_none (hc.subagent (by simp [hended])) hcompleted (fun _ _ h => by simp_all) hs
    subst hnone
    exact ⟨some .completed, rfl, hc', rfl⟩
  | close hstarted _ hcompleted =>
    refine ⟨standing, by cases standing with | none => rfl | some m => cases m <;> rfl, hc', ?_⟩
    match standing, hs with
    | none, _ => trivial
    | some .completed, hs => exact hs
    | some (.failed endMs), hs => exact hs
    | some .cancelled, hs => exact hs
  | grow hresumable hopens =>
    obtain ⟨standing', hnext, hs'⟩ := stands_resumed hc hresumable hopens hs
    exact ⟨standing', Monitor.watch_cons.mpr ⟨standing', hnext, rfl⟩, hc', hs'⟩
  | growOpen =>
    refine ⟨none, Monitor.watch_cons.mpr ?_, hc', trivial⟩
    match standing, hs with
    | none, _ => exact ⟨none, rfl, rfl⟩
    | some .completed, _ => exact ⟨some .completed, rfl, rfl⟩
    | some (.failed endMs), _ => exact ⟨_, rfl, rfl⟩
    | some .cancelled, _ => exact ⟨some .cancelled, rfl, rfl⟩
  | begin => exact ⟨none, by cases standing with | none => rfl | some m => cases m <;> rfl, hc', trivial⟩
  | turn hsort hstarted =>
    refine ⟨standing, rfl, hc', ?_⟩
    match standing, hs with
    | none, _ => trivial
    | some .completed, hs => exact absurd ((hc.completed hs).symm.trans hstarted) (by simp)
    | some (.failed endMs), hs =>
      exact absurd ((hc.failed endMs hs).1.symm.trans hstarted) (by simp)
    | some .cancelled, hs => exact hs
  | abort hsort =>
    refine ⟨some .cancelled, ?_, hc', hsort⟩
    have hended : v.ended = none := by
      by_contra hne
      exact absurd (hsort.symm.trans (hc.subagent (Option.isSome_iff_ne_none.mpr hne))) (by simp)
    match standing, hs with
    | none, _ => rfl
    | some .completed, hs =>
      obtain ⟨endMs, h⟩ := hc.completion hs
      exact absurd (hended.symm.trans h) (by simp)
    | some (.failed endMs), hs => exact absurd (hended.symm.trans hs) (by simp)
    | some .cancelled, _ => rfl
  | fail hsort hcompleted hended =>
    have hnone := stands_none hsort hcompleted hended hs
    subst hnone
    exact ⟨some (.failed _), rfl, hc', rfl⟩
  | hold hsort hcompleted hended =>
    have hnone := stands_none hsort hcompleted hended hs
    subst hnone
    exact ⟨none, rfl, hc', trivial⟩

/-- What ends a terminal: a start, or a newer sign of life after a failure. -/
def Ends (terminal mark : Mark) : Prop :=
  mark = .started ∨ ∃ endMs atMs, terminal = .failed endMs ∧ mark = .alive atMs ∧ endMs < atMs

/-- The marks after which a scope is over. -/
def Mark.isTerminal : Mark → Bool
  | .completed | .failed _ | .cancelled => true
  | _ => false

/-- Whether the scope was closed and has not started since. -/
def closeMonitor : Monitor Mark Bool where
  next
    | _, .started => some false
    | false, .closed => some true
    | true, .closed => none
    | closed, _ => some closed

/-- A scope is recorded as closed exactly while it is closed in the marks. -/
theorem PhaseStep.closes (h : PhaseStep sort v l v') (hv : v.Consistent sort) :
    closeMonitor.watch v.inactive l = some v'.inactive := by
  have hopen : v.started = true → v.inactive = false := by
    intro hstarted
    by_contra hne
    exact absurd ((hv.inactive (Bool.not_eq_false _ ▸ hne)).symm.trans hstarted) (by simp)
  cases h with
  | release => cases v.inactive <;> rfl
  | close hstarted =>
    rw [hopen hstarted]
    rfl
  | grow _ hopens =>
    -- a closed scope is started by its log
    have hfalse : v.inactive = false := by
      by_contra hne
      have hinactive : v.inactive = true := Bool.not_eq_false _ ▸ hne
      refine hne (hopen (hopens ?_))
      unfold opens
      simp [hinactive]
    rw [hfalse]
    rfl
  | growOpen => cases v.inactive <;> rfl
  | begin => cases v.inactive <;> rfl
  | turn _ hstarted =>
    rw [hopen hstarted]
    rfl
  | abort => cases v.inactive <;> rfl
  | fail => cases v.inactive <;> rfl
  | hold => rfl

end

end HerdrTop
