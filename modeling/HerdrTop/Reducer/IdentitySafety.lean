import HerdrTop.Reducer.Safety

/-!
# The identity index in every run of the reducer

Sessions, paths, terminals and Controller names lead to runs through one index. A run can be known by many of them,
get a new key when its session becomes known, and be absorbed by another run; what a key means never gets lost.

## What is proved

* `Reducer.index_coherent`: keys lead to runs that exist, a run is found under its own key, and it has one session at
  most, where it may have one.
* `Reducer.keys_follow_merges`: what a key led to it leads to, or to what absorbed it; what a Controller named stays.
-/

namespace HerdrTop.Reducer

variable {r r' : Reducer} {ls later : List Merge}

/-- What holds of the index in every state of a strict run. -/
structure Indexed (r : Reducer) : Prop where
  identified : r.toCore.Identified
  coherent : r.model.index.Coherent runKeyKinds
  listed : r.model.index.Listed

theorem indexed_fresh (headlessInactivityMs : ℤ) : Indexed (fresh headlessInactivityMs) where
  identified := identified_fresh _
  coherent := DomainModel.IndexCoherent.empty.index
  listed _ _ h := by cases h

theorem Indexed.run (h : Indexed r) (hf : r.model.Filed) (hruns : Runs (Step true) r later r') :
    Indexed r' ∧ NameIndex.Steps runKeyKinds r.model.index later r'.model.index := by
  have hchanges := (run_changes hruns ⟨hf, fun _ => h.identified⟩).2
  obtain ⟨hsteps, hidentified⟩ := hchanges.identified rfl h.identified
  exact ⟨⟨hidentified, h.coherent.steps hsteps, h.listed.steps h.identified.sound.index hsteps⟩, hsteps⟩

theorem Reached.indexed (h : Reached true ls r) : Indexed r := by
  obtain ⟨ms, hruns⟩ := h
  exact ((indexed_fresh ms).run (filed_fresh ms) hruns).1

/-- In every state that is reached: a key leads to a run that exists. A run is filed under its identity, its own key
leads to it, and no other run has this key. A run has one session at most among its keys, and only if its own key is a
session or the name that a Controller gave it. -/
theorem index_coherent (h : Reached true ls r) :
    (∀ key id, r.model.runIdsByKey.get key = some id →
      ∃ run, r.model.taskRunByKey key = some run ∧ run.runId = id) ∧
    (∀ id run, r.model.taskRun id = some run → run.runId = id ∧ r.model.taskRunByKey run.key = some run ∧
      ∀ id' run', r.model.taskRun id' = some run' → run'.key = run.key → id' = id) ∧
    ∀ id run session, r.model.taskRun id = some run → session.isNative = true →
      r.model.runIdsByKey.get session = some id →
        (run.key = session ∨ run.key.isController = true) ∧
          ∀ session', session'.isNative = true → r.model.runIdsByKey.get session' = some id → session' = session := by
  obtain ⟨hidentified, hcoherent, hlisted⟩ := h.indexed
  have hfiled := hidentified.sound.filed
  refine ⟨fun key id hkey => ?_, fun id run hrun => ?_, fun id run session hrun hnative hsession => ?_⟩
  · obtain ⟨own, hown⟩ := hcoherent.leads key id hkey
    obtain ⟨run, hrun, -⟩ := DomainModel.own_eq_some.mp hown
    exact ⟨run, by simp [DomainModel.taskRunByKey, hkey, hrun], hfiled id run hrun⟩
  · have hnames : r.model.runIdsByKey.get run.key = some id := hlisted id run.key (DomainModel.own_of_get hrun)
    have hrow : r.model.taskRuns.get id = some run := hrun
    refine ⟨hfiled id run hrun, by simp [DomainModel.taskRunByKey, hnames, hrow], fun id' run' hrun' hkey => ?_⟩
    exact hcoherent.distinct id' id run.key (hkey ▸ DomainModel.own_of_get hrun') (DomainModel.own_of_get hrun)
  · have hunique : ∀ session', session'.isNative = true → r.model.runIdsByKey.get session' = some id →
        session' = session := fun session' hnative' hsession' =>
      hcoherent.special_unique id session' session hsession' hsession hnative' hnative
    refine ⟨?_, hunique⟩
    rcases hcoherent.special_owner id run.key session (DomainModel.own_of_get hrun) hsession hnative with hown | htop
    · exact .inl (hunique run.key hown (hlisted id run.key (DomainModel.own_of_get hrun)))
    · exact .inr htop

/-- One run has a session, and another one is in a terminal. -/
def sessionAndTerminal : Reducer :=
  (((fresh 0).next (agentSeen "a" ⟨1⟩ (some "s") none)).1.next (agentSeen "b" ⟨2⟩ none (some "term"))).1

theorem reached_sessionAndTerminal : ∃ ls, Reached true ls sessionAndTerminal :=
  ⟨_, 0, (Runs.one (step_agentSeen _ _ _ _ _)).tail (step_agentSeen _ _ _ _ _)⟩

/-- The terminal turns out to have the session. -/
def sessionInTerminal : Reducer × List Merge := sessionAndTerminal.next (agentSeen "c" ⟨2⟩ (some "s") (some "term"))

/-- The run in the terminal is gone; the run with the session has the keys of both, and no second session. -/
theorem index_coherent_sessionInTerminal :
    (∃ run, sessionInTerminal.1.model.taskRunByKey (.provisional "term" 1 2) = some run ∧ run.runId = ⟨1⟩) ∧
      ∀ session', session'.isNative = true → sessionInTerminal.1.model.runIdsByKey.get session' = some ⟨1⟩ →
        session' = .native .codex "s" := by
  obtain ⟨ls, ms, hruns⟩ := reached_sessionAndTerminal
  have hreached : Reached true (ls ++ sessionInTerminal.2) sessionInTerminal.1 :=
    ⟨ms, hruns.tail (step_agentSeen _ _ _ _ _)⟩
  obtain ⟨hleads, -, hsessions⟩ := index_coherent hreached
  obtain ⟨run, hrun⟩ :=
    Option.isSome_iff_exists.mp (show (sessionInTerminal.1.model.taskRun ⟨1⟩).isSome = true by decide)
  exact ⟨hleads _ ⟨1⟩ (by decide), (hsessions ⟨1⟩ run (.native .codex "s") hrun rfl (by decide)).2⟩

/-- Whatever happens after a state that is reached: a key that led to a run leads to it, or to the run that stands for
it after the merges, and that run exists. A run that a Controller named keeps its name and is never absorbed. -/
theorem keys_follow_merges (h : Reached true ls r) (hlater : Runs (Step true) r later r') :
    (∀ key id, r.model.runIdsByKey.get key = some id →
      r'.model.runIdsByKey.get key = some (NameIndex.follow later id) ∧
        r'.model.HasRun (NameIndex.follow later id)) ∧
    ∀ id run, r.model.taskRun id = some run → run.key.isController = true →
      (∃ run', r'.model.taskRun id = some run' ∧ run'.key = run.key) ∧ ∀ merge ∈ later, merge.2 ≠ id := by
  obtain ⟨hindexed', hsteps⟩ := h.indexed.run h.start.filed hlater
  have hsound := h.indexed.identified.sound.index
  refine ⟨fun key id hkey => ?_, fun id run hrun hcontroller => ?_⟩
  · have hnames := NameIndex.names_steps hsound hsteps hkey
    obtain ⟨own, hown⟩ := hindexed'.coherent.leads key _ hnames
    obtain ⟨run, hrun, -⟩ := DomainModel.own_eq_some.mp hown
    exact ⟨hnames, DomainModel.HasRun.of_get hrun⟩
  · have hown := DomainModel.own_of_get hrun
    exact ⟨DomainModel.own_eq_some.mp (NameIndex.own_top_steps hsteps hown hcontroller),
      NameIndex.not_absorbed_of_top hsteps hown hcontroller⟩

/-- What the key made for the terminal led to is absorbed, and the key leads to the run with the session. -/
theorem keys_follow_merges_sessionInTerminal :
    sessionAndTerminal.model.runIdsByKey.get (.provisional "term" 1 2) = some ⟨2⟩ ∧
      sessionInTerminal.2 = [(⟨1⟩, ⟨2⟩)] ∧
      sessionInTerminal.1.model.runIdsByKey.get (.provisional "term" 1 2) = some ⟨1⟩ ∧
      sessionInTerminal.1.model.HasRun ⟨1⟩ := by
  obtain ⟨ls, hreached⟩ := reached_sessionAndTerminal
  have hkey : sessionAndTerminal.model.runIdsByKey.get (.provisional "term" 1 2) = some ⟨2⟩ := by decide
  have hmerges : sessionInTerminal.2 = [(⟨1⟩, ⟨2⟩)] := by decide
  have hlater : Runs (Step true) sessionAndTerminal sessionInTerminal.2 sessionInTerminal.1 :=
    .one (step_agentSeen _ _ _ _ _)
  have hfollows := (keys_follow_merges hreached hlater).1 _ _ hkey
  rw [hmerges] at hfollows
  exact ⟨hkey, hmerges, hfollows⟩

end HerdrTop.Reducer
