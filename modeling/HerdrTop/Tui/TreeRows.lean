import HerdrTop.Library.Checked
import HerdrTop.Tui.TreePlacement

/-!
# The rows of the execution tree

What building the tree makes of the placement: the rows of a run are its own, those of its agents, and those of the
runs nested below it, which are the run's descendants in the forest of nested runs. A key of a row tells whose row it
is, so the keys stay apart as long as the same run does not come twice to one place, and what is below a run not
twice at all. A run that is in several panes is expanded in the first of them only.

## What is proved

* `appendAgentRows_spec`: the rows of agents, on parents in a circle, too.
* `appendRunSubtree_spec`: the rows of a run and of everything below it.
* `buildTreeRows_complete`: the tree is built; it has the rows of all visible runs in all their panes and of no other
  runs; its keys are different from each other; and no row is more than one step deeper than the one before it.
-/

namespace HerdrTop.Tui

open Closure Forest Outline Relation

/-! ### Agents -/

/-- The rows of these agents, which have been visited from then on. -/
structure Visits (agents : List AgentNode) (paneId : Option String) (depth : ℕ) (visited : HashSet String)
    (ids : List String) (shown : List TreeRow × HashSet String) : Prop where
  keys : shown.1.map (·.key) = ids.map fun id => .agent id paneId
  under : Under depth (shown.1.map (·.depth))
  nodup : ids.Nodup
  new : ∀ id ∈ ids, id ∉ visited.keys
  known : ∀ id ∈ ids, ∃ agent ∈ agents, agent.agentNodeId = id
  visited : ∀ id, id ∈ shown.2.keys ↔ id ∈ visited.keys ∨ id ∈ ids

namespace Visits

variable {agents : List AgentNode} {paneId : Option String} {depth : ℕ} {visited : HashSet String}
  {ids ids' : List String} {shown shown' : List TreeRow × HashSet String}

theorem nil : Visits agents paneId depth visited [] ([], visited) where
  keys := rfl
  under := .nil
  nodup := List.nodup_nil
  new _ h := absurd h List.not_mem_nil
  known _ h := absurd h List.not_mem_nil
  visited _ := (or_iff_left List.not_mem_nil).symm

/-- One after the other. -/
theorem append (h : Visits agents paneId depth visited ids shown) (h' : Visits agents paneId depth shown.2 ids' shown') :
    Visits agents paneId depth visited (ids ++ ids') (shown.1 ++ shown'.1, shown'.2) where
  keys := by rw [List.map_append, List.map_append, h.keys, h'.keys]
  under := by
    rw [List.map_append]
    exact h.under.append h'.under
  nodup := by
    refine List.nodup_append.mpr ⟨h.nodup, h'.nodup, ?_⟩
    rintro id hid _ hid' rfl
    exact h'.new id hid' ((h.visited id).mpr (.inr hid))
  new id hid := by
    rcases List.mem_append.mp hid with hid | hid
    · exact h.new id hid
    · exact fun hmem => h'.new id hid ((h.visited id).mpr (.inl hmem))
  known id hid := (List.mem_append.mp hid).elim (h.known id) (h'.known id)
  visited id := by rw [h'.visited, h.visited, List.mem_append, or_assoc]

/-- An agent before what is below it. -/
theorem cons {agent : AgentNode} {row : TreeRow} (hagent : agent ∈ agents) (hnew : agent.agentNodeId ∉ visited.keys)
    (hkey : row.key = .agent agent.agentNodeId paneId) (hdepth : row.depth = depth + 1)
    (h : Visits agents paneId (depth + 1) (HashSet.insert visited agent.agentNodeId) ids shown) :
    Visits agents paneId depth visited (agent.agentNodeId :: ids) (row :: shown.1, shown.2) where
  keys := by rw [List.map_cons, List.map_cons, h.keys, hkey]
  under := by
    rw [List.map_cons, hdepth]
    exact h.under.cons
  nodup := List.nodup_cons.mpr ⟨fun hid => h.new _ hid (HashSet.mem_keys_insert.mpr (.inl rfl)), h.nodup⟩
  new id hid := by
    rcases List.mem_cons.mp hid with rfl | hid
    · exact hnew
    · exact fun hmem => h.new id hid (HashSet.mem_keys_insert.mpr (.inr hmem))
  known id hid := by
    rcases List.mem_cons.mp hid with rfl | hid
    · exact ⟨agent, hagent, rfl⟩
    · exact h.known id hid
  visited id := by rw [h.visited, HashSet.mem_keys_insert, List.mem_cons, or_assoc, or_left_comm]

end Visits

section

variable {ctx : RowContext} {agents : List AgentNode} {children : HashMap String (List AgentNode)}
  {paneId : Option String}

/-- The rows of an agent and of what is below it, if there is fuel for all that have not been visited. -/
theorem appendAgentSubtree_spec (hchildren : ∀ id, ∀ child ∈ (children.get id).getD [], child ∈ agents) {fuel : ℕ}
    {visited : HashSet String} {depth : ℕ} {agent : AgentNode} (hagent : agent ∈ agents)
    (hfuel : missing (agents.map (·.agentNodeId)) visited < fuel) :
    ∃ ids shown, appendAgentSubtree ctx children paneId fuel visited (depth + 1) agent = some shown ∧
      Visits agents paneId depth visited ids shown := by
  induction fuel generalizing visited depth agent with
  | zero => omega
  | succ fuel ih =>
    rw [appendAgentSubtree]
    by_cases hvisited : agent.agentNodeId ∈ visited.keys
    · rw [if_pos (HashSet.contains_iff_mem_keys.mpr hvisited)]
      exact ⟨[], _, rfl, .nil⟩
    · rw [if_neg (mt HashSet.contains_iff_mem_keys.mp hvisited)]
      have hless := missing_insert_lt (List.mem_map_of_mem (f := (·.agentNodeId)) hagent) hvisited
      obtain ⟨below, hbelow, ids, hids⟩ := foldlM_builds
        (I := fun _ state => ∃ ids, Visits agents paneId (depth + 1) (HashSet.insert visited agent.agentNodeId) ids state)
        (f := fun state child =>
          (appendAgentSubtree ctx children paneId fuel state.2 (depth + 1 + 1) child).map fun more =>
            (state.1 ++ more.1, more.2))
        (l := (children.get agent.agentNodeId).getD []) (s := ([], HashSet.insert visited agent.agentNodeId))
        ⟨[], .nil⟩ (fun done child rest state hl hstate => by
          obtain ⟨ids, hids⟩ := hstate
          have hchild := hchildren agent.agentNodeId child (hl ▸ List.mem_append_right _ List.mem_cons_self)
          have hmono : missing (agents.map (·.agentNodeId)) state.2 ≤
              missing (agents.map (·.agentNodeId)) (HashSet.insert visited agent.agentNodeId) :=
            missing_mono fun id hid => (hids.visited id).mpr (.inl hid)
          obtain ⟨more, shown, hshown, hmore⟩ := @ih state.2 (depth + 1) child hchild (by omega)
          refine ⟨_, by rw [hshown]; rfl, ids ++ more, hids.append hmore⟩)
      refine ⟨agent.agentNodeId :: ids, (ctx.agentRow agent paneId (depth + 1) :: below.1, below.2), ?_,
        hids.cons hagent hvisited rfl rfl⟩
      rw [hbelow]
      rfl

theorem agentChildren_eq : agentChildren agents = (agents.foldl (fun children agent =>
    (shownParent agents agent).elim children fun parentId => pushEntry children parentId agent) ∅).mapValues
      fun _ children => sortAgents children := by
  refine congrArg (HashMap.mapValues _) (congrArg (fun f => agents.foldl f ∅) ?_)
  funext children agent
  cases shownParent agents agent <;> rfl

/-- The children of an agent are among the agents. -/
theorem mem_agentChildren {id : String} {child : AgentNode}
    (h : child ∈ ((agentChildren agents).get id).getD []) : child ∈ agents := by
  have hentries := getD_foldl_pushEntry (shownParent agents) (fun agent => agent) agents ∅ id
  rw [HashMap.get_empty, Option.getD_none, List.nil_append, List.map_id'] at hentries
  rw [agentChildren_eq, HashMap.get_mapValues] at h
  generalize (agents.foldl (fun children agent => (shownParent agents agent).elim children fun parentId =>
    pushEntry children parentId agent) ∅).get id = found at h hentries
  cases found with
  | none => exact absurd h List.not_mem_nil
  | some below =>
    have hmem : child ∈ below := (List.mem_insertionSort _).mp h
    rw [Option.getD_some] at hentries
    rw [hentries] at hmem
    exact (List.mem_filter.mp hmem).1

/-- The rows of agents: each agent at most once. -/
theorem appendAgentRows_spec (ctx : RowContext) (agents : List AgentNode) (paneId : Option String) (depth : ℕ) :
    ∃ (rows : List TreeRow) (ids : List String), appendAgentRows ctx agents paneId (depth + 1) = some rows ∧
      (rows.map (·.key) = ids.map fun id => .agent id paneId) ∧ ids.Nodup ∧
      (∀ id ∈ ids, ∃ agent ∈ agents, agent.agentNodeId = id) ∧ Under depth (rows.map (·.depth)) := by
  obtain ⟨shown, hshown, ids, hids⟩ := foldlM_builds
    (I := fun _ state => ∃ ids, Visits agents paneId depth ∅ ids state)
    (f := fun state root =>
      (appendAgentSubtree ctx (agentChildren agents) paneId (agents.length + 1) state.2 (depth + 1) root).map fun more =>
        (state.1 ++ more.1, more.2))
    (l := sortAgents (agents.filter fun agent => (shownParent agents agent).isNone)) (s := ([], ∅))
    ⟨[], .nil⟩ (fun done root rest state hl hstate => by
      obtain ⟨ids, hids⟩ := hstate
      have hroot : root ∈ sortAgents (agents.filter fun agent => (shownParent agents agent).isNone) :=
        hl ▸ List.mem_append_right _ List.mem_cons_self
      have hagent := (List.mem_filter.mp ((List.mem_insertionSort _).mp hroot)).1
      have hfuel := missing_le_length (agents.map (·.agentNodeId)) state.2
      rw [List.length_map] at hfuel
      obtain ⟨more, shown, hshown, hmore⟩ := @appendAgentSubtree_spec ctx agents _ paneId
        (fun id child h => mem_agentChildren h) (agents.length + 1) state.2 depth root hagent (by omega)
      exact ⟨_, by rw [hshown]; rfl, ids ++ more, hids.append hmore⟩)
  refine ⟨shown.1, ids, ?_, hids.keys, hids.nodup, hids.known, hids.under⟩
  rw [appendAgentRows, hshown]
  rfl

end

/-! ### Whose row it is -/

/-- The key is that of the row of a run at a place, or of one of its agents there. -/
def OwnedBy (model : DomainModel) (runId : RunId) (paneId : Option String) (key : NodeKey) : Prop :=
  key = .run runId paneId ∨
    ∃ agent ∈ model.agentNodes.values, agent.taskRunId = runId ∧ key = .agent agent.agentNodeId paneId

/-- Agents are filed under their identities. -/
def AgentsKeyed (model : DomainModel) : Prop := FiledUnder AgentNode.agentNodeId model.agentNodes

/-- A key tells the run and the place. -/
theorem OwnedBy.unique {model : DomainModel} (hkeyed : AgentsKeyed model) {runId runId' : RunId}
    {paneId paneId' : Option String} {key : NodeKey} (h : OwnedBy model runId paneId key)
    (h' : OwnedBy model runId' paneId' key) : runId = runId' ∧ paneId = paneId' := by
  rcases h with rfl | ⟨agent, hagent, rfl, rfl⟩
  · rcases h' with h' | ⟨agent', -, -, h'⟩
    · exact ⟨(NodeKey.run.inj h').1, (NodeKey.run.inj h').2⟩
    · cases h'
  · rcases h' with h' | ⟨agent', hagent', rfl, h'⟩
    · cases h'
    · obtain ⟨hid, hpane⟩ := NodeKey.agent.inj h'
      have hget := hkeyed.get_name hagent
      rw [hid, hkeyed.get_name hagent'] at hget
      exact ⟨congrArg (·.taskRunId) (Option.some.inj hget).symm, hpane⟩

/-- The rows are those of a run at a place and, where it is expanded, those of everything below it. -/
structure Covers (model : DomainModel) (parent : RunId → Option RunId) (runId : RunId) (paneId : Option String)
    (expand : Prop) (keys : List NodeKey) : Prop where
  nodup : keys.Nodup
  owned : ∀ key ∈ keys, OwnedBy model runId paneId key ∨
    (expand ∧ ∃ below, TransGen (Ascends parent) below runId ∧ OwnedBy model below none key)
  own : .run runId paneId ∈ keys
  below : expand → ∀ below, TransGen (Ascends parent) below runId → .run below none ∈ keys

/-- The rows are those of what is below or at one of these runs, away from panes. -/
structure CoversAll (model : DomainModel) (parent : RunId → Option RunId) (runs : List RunId)
    (keys : List NodeKey) : Prop where
  nodup : keys.Nodup
  owned : ∀ key ∈ keys, ∃ run ∈ runs, ∃ below, ReflTransGen (Ascends parent) below run ∧ OwnedBy model below none key
  below : ∀ run ∈ runs, ∀ below, ReflTransGen (Ascends parent) below run → .run below none ∈ keys

theorem CoversAll.nil {model : DomainModel} {parent : RunId → Option RunId} : CoversAll model parent [] [] where
  nodup := List.nodup_nil
  owned _ h := absurd h List.not_mem_nil
  below _ h := absurd h List.not_mem_nil

/-- One more child of the same run. -/
theorem CoversAll.append {model : DomainModel} (hkeyed : AgentsKeyed model) {parent : RunId → Option RunId}
    (hforest : IsForest parent) {above run : RunId} {runs : List RunId} {keys keys' : List NodeKey}
    (hruns : ∀ other ∈ runs, parent other = some above) (hrun : parent run = some above) (hnew : run ∉ runs)
    (h : CoversAll model parent runs keys) (h' : Covers model parent run none True keys') :
    CoversAll model parent (runs ++ [run]) (keys ++ keys') := by
  have howned : ∀ key ∈ keys', ∃ below, ReflTransGen (Ascends parent) below run ∧ OwnedBy model below none key := by
    intro key hkey
    rcases h'.owned key hkey with hown | ⟨-, below, hbelow, hown⟩
    · exact ⟨run, .refl, hown⟩
    · exact ⟨below, hbelow.to_reflTransGen, hown⟩
  constructor
  · refine List.nodup_append.mpr ⟨h.nodup, h'.nodup, ?_⟩
    rintro key hkey _ hkey' rfl
    obtain ⟨other, hother, below, hbelow, hown⟩ := h.owned key hkey
    obtain ⟨below', hbelow', hown'⟩ := howned key hkey'
    obtain rfl := (hown.unique hkeyed hown').1
    exact hnew (hforest.siblings (hruns other hother) hrun hbelow hbelow' ▸ hother)
  · intro key hkey
    rcases List.mem_append.mp hkey with hkey | hkey
    · obtain ⟨other, hother, hbelow⟩ := h.owned key hkey
      exact ⟨other, List.mem_append_left _ hother, hbelow⟩
    · exact ⟨run, List.mem_append_right _ (List.mem_singleton_self run), howned key hkey⟩
  · intro other hother below hbelow
    rcases List.mem_append.mp hother with hother | hother
    · exact List.mem_append_left _ (h.below other hother below hbelow)
    · obtain rfl := List.mem_singleton.mp hother
      rcases reflTransGen_iff_eq_or_transGen.mp hbelow with heq | hbelow
      · exact List.mem_append_right _ (heq ▸ h'.own)
      · exact List.mem_append_right _ (h'.below trivial below hbelow)

/-- The row of a run, the rows of its agents, and those of its children where it is expanded. -/
theorem Covers.of_parts {model : DomainModel} (hkeyed : AgentsKeyed model) {parent : RunId → Option RunId}
    (hforest : IsForest parent) {runId : RunId} {paneId : Option String} {expand : Prop} {ids : List String}
    {children : List RunId} {keys : List NodeKey} (hnodup : ids.Nodup)
    (hids : ∀ id ∈ ids, ∃ agent ∈ model.agentNodes.values, agent.taskRunId = runId ∧ agent.agentNodeId = id)
    (hchildren : ∀ child ∈ children, expand ∧ parent child = some runId)
    (hall : expand → ∀ child, parent child = some runId → child ∈ children)
    (h : CoversAll model parent children keys) :
    Covers model parent runId paneId expand
      (.run runId paneId :: (ids.map fun id => .agent id paneId) ++ keys) := by
  have hagents : ∀ key ∈ ids.map fun id => NodeKey.agent id paneId, OwnedBy model runId paneId key := by
    intro key hkey
    obtain ⟨id, hid, rfl⟩ := List.mem_map.mp hkey
    obtain ⟨agent, hagent, hrun, rfl⟩ := hids id hid
    exact .inr ⟨agent, hagent, hrun, rfl⟩
  have hbelow : ∀ key ∈ keys, expand ∧ ∃ below, TransGen (Ascends parent) below runId ∧ OwnedBy model below none key := by
    intro key hkey
    obtain ⟨child, hchild, below, hbelow, hown⟩ := h.owned key hkey
    obtain ⟨hexpand, hparent⟩ := hchildren child hchild
    exact ⟨hexpand, below, TransGen.tail' hbelow hparent, hown⟩
  have happart : ∀ key ∈ keys, ¬OwnedBy model runId paneId key := by
    intro key hkey hown
    obtain ⟨-, below, hup, hown'⟩ := hbelow key hkey
    obtain rfl := (hown.unique hkeyed hown').1
    exact hforest _ hup
  constructor
  · rw [List.cons_append, List.nodup_cons, List.nodup_append]
    refine ⟨fun hmem => ?_, List.Nodup.map (fun id id' heq => (NodeKey.agent.inj heq).1) hnodup, h.nodup, ?_⟩
    · rcases List.mem_append.mp hmem with hmem | hmem
      · obtain ⟨id, -, heq⟩ := List.mem_map.mp hmem
        cases heq
      · exact happart _ hmem (.inl rfl)
    · rintro key hkey _ hkey' rfl
      exact happart key hkey' (hagents key hkey)
  · intro key hkey
    rw [List.cons_append, List.mem_cons, List.mem_append] at hkey
    rcases hkey with rfl | hkey | hkey
    · exact .inl (.inl rfl)
    · exact .inl (hagents key hkey)
    · exact .inr (hbelow key hkey)
  · exact List.mem_cons_self
  · intro hexpand below hup
    obtain ⟨child, hchild, hparent⟩ := TransGen.tail'_iff.mp hup
    exact List.mem_cons_of_mem _ (List.mem_append_right _ (h.below child (hall hexpand child hparent) below hchild))

/-! ### Runs -/

section

variable {ctx : RowContext} {visibleRuns : HashSet RunId} {placement : Placement} {parent : RunId → Option RunId}

theorem mem_rowAgents {run : TaskRun} {runId : RunId} {agent : AgentNode} (h : agent ∈ rowAgents ctx run runId) :
    agent ∈ ctx.model.agentNodes.values ∧ agent.taskRunId = runId := by
  rw [rowAgents, List.mem_filter] at h
  simp only [Bool.and_eq_true, decide_eq_true_iff] at h
  exact ⟨h.1, h.2.1.1.1.1⟩

/-- The rows of a run and of everything below it; below a shared run only if it has not been expanded. -/
theorem appendRunSubtree_spec (hkeyed : AgentsKeyed ctx.model)
    (hplaced : Placed ctx visibleRuns placement parent) {fuel : ℕ} {ancestors expanded : HashSet RunId} {depth : ℕ}
    {runId : RunId} {shared : Bool} {paneId : Option String} {showDispatchParent : Bool} {run : TaskRun}
    (hrun : ctx.model.taskRun runId = some run)
    (hancestors : ∀ above ∈ ancestors.keys, TransGen (Ascends parent) runId above)
    (hfuel : missing ctx.model.taskRuns.keys ancestors < fuel) :
    ∃ rows, appendRunSubtree ctx placement.nestedRuns fuel ancestors expanded (depth + 1) (runId, shared) paneId
        showDispatchParent = some (rows, if shared then HashSet.insert expanded runId else expanded) ∧
      Covers ctx.model parent runId paneId (shared = false ∨ runId ∉ expanded.keys) (rows.map (·.key)) ∧
      Under depth (rows.map (·.depth)) := by
  induction fuel generalizing ancestors expanded depth runId shared paneId showDispatchParent run with
  | zero => omega
  | succ fuel ih =>
    have hnew : runId ∉ ancestors.keys := fun hmem => hplaced.forest runId (hancestors runId hmem)
    have hless := missing_insert_lt (HashMap.mem_keys.mpr ⟨run, hrun⟩) hnew
    obtain ⟨agentRows, ids, hagentRows, hagentKeys, hnodup, hids, hagentDepths⟩ :=
      appendAgentRows_spec ctx (rowAgents ctx run runId) paneId (depth + 1)
    have hexpand : (!shared || !expanded.contains runId) = true ↔ shared = false ∨ runId ∉ expanded.keys := by
      rw [Bool.or_eq_true, Bool.not_eq_true', Bool.not_eq_true', ← Bool.not_eq_true (HashMap.contains _ _),
        HashSet.contains_iff_mem_keys]
    obtain ⟨children, hchildren⟩ : ∃ children, children =
        if (!shared || !expanded.contains runId) = true then (placement.nestedRuns.get runId).getD [] else [] := ⟨_, rfl⟩
    have hmem : ∀ child ∈ children, (shared = false ∨ runId ∉ expanded.keys) ∧ parent child = some runId := by
      intro child hchild
      rw [hchildren, List.mem_ite_nil_right] at hchild
      exact ⟨hexpand.mp hchild.1, (hplaced.mem_nested runId child).mp hchild.2⟩
    have hall : (shared = false ∨ runId ∉ expanded.keys) → ∀ child, parent child = some runId → child ∈ children := by
      intro h child hchild
      rw [hchildren, if_pos (hexpand.mpr h)]
      exact (hplaced.mem_nested runId child).mpr hchild
    have hdistinct : children.Nodup := by
      rw [hchildren]
      split
      · exact hplaced.nested_nodup runId
      · exact List.nodup_nil
    obtain ⟨below, hbelow, hstate, hcovers, hunder⟩ := foldlM_builds
      (I := fun done state => state.2 = (if shared then HashSet.insert expanded runId else expanded) ∧
        CoversAll ctx.model parent done (state.1.map (·.key)) ∧ Under (depth + 1) (state.1.map (·.depth)))
      (f := fun state child =>
        (appendRunSubtree ctx placement.nestedRuns fuel (HashSet.insert ancestors runId) state.2 (depth + 1 + 1)
          (child, false) none false).map fun more => (state.1 ++ more.1, more.2))
      (l := children) (s := ([], if shared then HashSet.insert expanded runId else expanded))
      ⟨rfl, .nil, .nil⟩ (fun done child rest state hl hdone => by
        obtain ⟨hstate, hcovers, hunder⟩ := hdone
        have hchild : child ∈ children := hl ▸ List.mem_append_right _ List.mem_cons_self
        have hparent := (hmem child hchild).2
        obtain ⟨⟨childRun, rfl, hshown, -⟩, -⟩ := hplaced.nested_shown child runId hparent
        have habove : ∀ above ∈ (HashSet.insert ancestors runId).keys, TransGen (Ascends parent) childRun.runId above := by
          intro above hmem
          rcases HashSet.mem_keys_insert.mp hmem with rfl | hmem
          · exact .single hparent
          · exact .head hparent (hancestors above hmem)
        obtain ⟨rows, hrows, hcover, hdepths⟩ := @ih (HashSet.insert ancestors runId) state.2 (depth + 1) childRun.runId
          false none false childRun hshown.1 habove (by omega)
        refine ⟨(state.1 ++ rows, state.2), by rw [hrows]; rfl, hstate, ?_, ?_⟩
        · have hfresh : childRun.runId ∉ done := by
            intro hdone
            rw [hl] at hdistinct
            exact (List.nodup_append.mp hdistinct).2.2 _ hdone _ List.mem_cons_self rfl
          rw [List.map_append]
          refine hcovers.append hkeyed hplaced.forest (fun other hother => (hmem other ?_).2) hparent hfresh ?_
          · exact hl ▸ List.mem_append_left _ hother
          · rwa [eq_true (Or.inl rfl : false = false ∨ childRun.runId ∉ state.2.keys)] at hcover
        · rw [List.map_append]
          exact hunder.append hdepths)
    refine ⟨ctx.runRow run runId shared paneId (depth + 1) showDispatchParent :: agentRows ++ below.1, ?_, ?_, ?_⟩
    · rw [appendRunSubtree, if_neg (mt HashSet.contains_iff_mem_keys.mp hnew), hrun]
      simp only [Option.bind_eq_bind, hagentRows, Option.bind_some, ← hchildren]
      rw [hbelow, ← hstate]
      rfl
    · rw [List.cons_append, List.map_cons, List.map_append, hagentKeys]
      exact .of_parts hkeyed hplaced.forest hnodup (fun id hid => by
        obtain ⟨agent, hagent, hname⟩ := hids id hid
        exact ⟨agent, (mem_rowAgents hagent).1, (mem_rowAgents hagent).2, hname⟩) hmem hall hcovers
    · rw [List.cons_append, List.map_cons, List.map_append]
      exact (hagentDepths.append hunder).cons

end

/-! ### Runs at their places -/

section

variable {model : DomainModel} {parent : RunId → Option RunId} {placed placed' : RunId → Bool → Option String → Prop}
  {heads : List NodeKey} {keys : List NodeKey} {expanded : HashSet RunId}

/-- The rows are those of these headings and of the runs that have been placed, and of what is below them; which of
the shared ones have been expanded is known. -/
structure Shows (model : DomainModel) (parent : RunId → Option RunId) (placed : RunId → Bool → Option String → Prop)
    (heads keys : List NodeKey) (expanded : HashSet RunId) : Prop where
  nodup : keys.Nodup
  heading : ∀ key ∈ heads, ∀ runId paneId, ¬OwnedBy model runId paneId key
  owned : ∀ key ∈ keys, key ∈ heads ∨ ∃ runId shared paneId, placed runId shared paneId ∧
    (OwnedBy model runId paneId key ∨ ∃ below, TransGen (Ascends parent) below runId ∧ OwnedBy model below none key)
  own : ∀ runId shared paneId, placed runId shared paneId → .run runId paneId ∈ keys
  below : ∀ runId shared paneId, placed runId shared paneId → ∀ below, TransGen (Ascends parent) below runId →
    .run below none ∈ keys
  root : ∀ runId shared paneId, placed runId shared paneId → parent runId = none
  expanded : ∀ runId, runId ∈ expanded.keys ↔ ∃ paneId, placed runId true paneId

/-- The same places. -/
theorem Shows.congr (h : Shows model parent placed heads keys expanded)
    (hsame : ∀ runId shared paneId, placed runId shared paneId ↔ placed' runId shared paneId) :
    Shows model parent placed' heads keys expanded := by
  obtain rfl : placed = placed' := by
    funext runId shared paneId
    exact propext (hsame runId shared paneId)
  exact h

/-- One more heading. -/
theorem Shows.head (h : Shows model parent placed heads keys expanded) {key : NodeKey} (hnew : key ∉ heads)
    (hheading : ∀ runId paneId, ¬OwnedBy model runId paneId key) :
    Shows model parent placed (heads ++ [key]) (keys ++ [key]) expanded where
  nodup := by
    refine List.nodup_append.mpr ⟨h.nodup, List.nodup_singleton key, ?_⟩
    rintro key' hkey' _ hkey rfl
    obtain rfl := List.mem_singleton.mp hkey
    rcases h.owned _ hkey' with hkey' | ⟨runId, -, paneId, -, hown | ⟨below, -, hown⟩⟩
    · exact hnew hkey'
    · exact hheading _ _ hown
    · exact hheading _ _ hown
  heading other hother := by
    rcases List.mem_append.mp hother with hother | hother
    · exact h.heading other hother
    · exact List.mem_singleton.mp hother ▸ hheading
  owned other hother := by
    rcases List.mem_append.mp hother with hother | hother
    · exact (h.owned other hother).imp_left (List.mem_append_left _)
    · exact .inl (List.mem_append_right _ hother)
  own runId shared paneId hplaced := List.mem_append_left _ (h.own runId shared paneId hplaced)
  below runId shared paneId hplaced below hup := List.mem_append_left _ (h.below runId shared paneId hplaced below hup)
  root := h.root
  expanded := h.expanded

/-- One more run at one more place: if it has been placed before, it is shared. -/
theorem Shows.place (hkeyed : AgentsKeyed model)
    (h : Shows model parent placed heads keys expanded) {runId : RunId} {shared : Bool} {paneId : Option String}
    {more : List NodeKey} (hroot : parent runId = none)
    (hplaced : ∀ shared' paneId', placed runId shared' paneId' → paneId' ≠ paneId ∧ shared' = true ∧ shared = true)
    (h' : Covers model parent runId paneId (shared = false ∨ runId ∉ expanded.keys) more) :
    Shows model parent
      (fun runId' shared' paneId' => placed runId' shared' paneId' ∨ (runId', shared', paneId') = (runId, shared, paneId))
      heads (keys ++ more) (if shared then HashSet.insert expanded runId else expanded) where
  nodup := by
    refine List.nodup_append.mpr ⟨h.nodup, h'.nodup, ?_⟩
    rintro key hkey _ hkey' rfl
    rcases h.owned key hkey with hhead | ⟨other, shared', paneId', hother, hown⟩
    · rcases h'.owned key hkey' with hown' | ⟨-, below', -, hown'⟩
      · exact h.heading key hhead _ _ hown'
      · exact h.heading key hhead _ _ hown'
    · have hotherRoot := h.root other shared' paneId' hother
      rcases hown with hown | ⟨below, hup, hown⟩
      · rcases h'.owned key hkey' with hown' | ⟨-, below', hup', hown'⟩
        · obtain ⟨rfl, rfl⟩ := hown.unique hkeyed hown'
          exact (hplaced shared' _ hother).1 rfl
        · obtain ⟨rfl, -⟩ := hown.unique hkeyed hown'
          obtain ⟨next, hnext, -⟩ := TransGen.head'_iff.mp hup'
          exact absurd (hotherRoot.symm.trans hnext) (Option.some_ne_none next).symm
      · rcases h'.owned key hkey' with hown' | ⟨hexpand, below', hup', hown'⟩
        · obtain ⟨rfl, -⟩ := hown.unique hkeyed hown'
          obtain ⟨next, hnext, -⟩ := TransGen.head'_iff.mp hup
          exact absurd (hroot.symm.trans hnext) (Option.some_ne_none next).symm
        · -- what is below two of the placed runs is below one of them, which has been expanded then
          obtain ⟨rfl, -⟩ := hown.unique hkeyed hown'
          obtain rfl := roots_eq hotherRoot hroot hup.to_reflTransGen hup'.to_reflTransGen
          obtain ⟨-, rfl, rfl⟩ := hplaced shared' paneId' hother
          exact hexpand.elim nofun fun hunexpanded => hunexpanded ((h.expanded other).mpr ⟨paneId', hother⟩)
  heading := h.heading
  owned key hkey := by
    rcases List.mem_append.mp hkey with hkey | hkey
    · refine (h.owned key hkey).imp_right ?_
      rintro ⟨other, shared', paneId', hother, hown⟩
      exact ⟨other, shared', paneId', .inl hother, hown⟩
    · exact .inr ⟨runId, shared, paneId, .inr rfl, (h'.owned key hkey).imp_right fun hown => hown.2⟩
  own other shared' paneId' hother := by
    rcases hother with hother | hother
    · exact List.mem_append_left _ (h.own other shared' paneId' hother)
    · obtain ⟨rfl, rfl, rfl⟩ := hother
      exact List.mem_append_right _ h'.own
  below other shared' paneId' hother below hup := by
    rcases hother with hother | hother
    · exact List.mem_append_left _ (h.below other shared' paneId' hother below hup)
    · obtain ⟨rfl, rfl, rfl⟩ := hother
      by_cases hexpand : shared = false ∨ runId ∉ expanded.keys
      · exact List.mem_append_right _ (h'.below hexpand below hup)
      · obtain ⟨paneId', hbefore⟩ := (h.expanded runId).mp (not_not.mp fun hnot => hexpand (.inr hnot))
        exact List.mem_append_left _ (h.below runId true paneId' hbefore below hup)
  root other shared' paneId' hother := by
    rcases hother with hother | hother
    · exact h.root other shared' paneId' hother
    · obtain ⟨rfl, -⟩ := hother
      exact hroot
  expanded other := by
    cases shared with
    | false =>
      rw [if_neg Bool.false_ne_true, h.expanded]
      refine exists_congr fun paneId' => (or_iff_left ?_).symm
      exact fun heq => Bool.false_ne_true (Prod.mk.inj (Prod.mk.inj heq).2).1.symm
    | true =>
      rw [if_pos rfl, HashSet.mem_keys_insert, h.expanded]
      constructor
      · rintro (rfl | ⟨paneId', hother⟩)
        · exact ⟨paneId, .inr rfl⟩
        · exact ⟨paneId', .inl hother⟩
      · rintro ⟨paneId', hother | hother⟩
        · exact .inr ⟨paneId', hother⟩
        · exact .inl (Prod.mk.inj hother).1

end

/-! ### The tree -/

section

variable {ctx : RowContext} {visibleRuns : HashSet RunId} {placement : Placement} {parent : RunId → Option RunId}
  {placed : RunId → Bool → Option String → Prop} {heads keys : List NodeKey} {expanded : HashSet RunId}

/-- The rows of runs at one place that have not been placed there, and only if they are shared have been elsewhere. -/
theorem appendRunRows_spec (hkeyed : AgentsKeyed ctx.model) (hplaced : Placed ctx visibleRuns placement parent)
    (h : Shows ctx.model parent placed heads keys expanded) {runs : List RunPlacement} {paneId : Option String}
    (depth : ℕ) (hnodup : (runs.map Prod.fst).Nodup)
    (hruns : ∀ run ∈ runs, (∃ taskRun, ctx.model.taskRun run.1 = some taskRun) ∧ parent run.1 = none ∧
      ∀ shared' paneId', placed run.1 shared' paneId' → paneId' ≠ paneId ∧ shared' = true ∧ run.2 = true) :
    ∃ more, appendRunRows ctx placement.nestedRuns expanded runs paneId (depth + 1) = some more ∧
      Shows ctx.model parent
        (fun runId shared paneId' => placed runId shared paneId' ∨ (paneId' = paneId ∧ (runId, shared) ∈ runs))
        heads (keys ++ more.1.map (·.key)) more.2 ∧
      Under depth (more.1.map (·.depth)) := by
  refine foldlM_builds
    (I := fun done (state : List TreeRow × HashSet RunId) => Shows ctx.model parent
        (fun runId shared paneId' => placed runId shared paneId' ∨ (paneId' = paneId ∧ (runId, shared) ∈ done))
        heads (keys ++ state.1.map (·.key)) state.2 ∧ Under depth (state.1.map (·.depth)))
    (s := ([], expanded)) ⟨?_, .nil⟩ ?_
  · rw [List.map_nil, List.append_nil]
    exact h.congr fun _ _ _ => (or_iff_left fun hnone => List.not_mem_nil hnone.2).symm
  · rintro done ⟨runId, shared⟩ rest state hl ⟨hstate, hdepths⟩
    obtain ⟨⟨run, hrun⟩, hroot, hbefore⟩ := hruns (runId, shared) (hl ▸ List.mem_append_right _ List.mem_cons_self)
    have hnew : ∀ shared', (runId, shared') ∉ done := by
      intro shared' hdone
      rw [hl, List.map_append, List.map_cons] at hnodup
      exact (List.nodup_append.mp hnodup).2.2 _ (List.mem_map_of_mem (f := Prod.fst) hdone) _ List.mem_cons_self rfl
    have hfuel := missing_le_length ctx.model.taskRuns.keys ∅
    obtain ⟨rows, hrows, hcovers, hunder⟩ := @appendRunSubtree_spec ctx visibleRuns placement parent hkeyed hplaced
      (ctx.model.taskRuns.keys.length + 1) ∅ state.2 depth runId shared paneId paneId.isSome run hrun
      (fun _ hmem => absurd hmem List.not_mem_nil) (by omega)
    refine ⟨(state.1 ++ rows, _), by rw [hrows]; rfl, ?_, ?_⟩
    · rw [List.map_append, ← List.append_assoc]
      refine (hstate.place hkeyed hroot ?_ hcovers).congr ?_
      · rintro shared' paneId' (hother | ⟨-, hother⟩)
        · exact hbefore shared' paneId' hother
        · exact absurd hother (hnew shared')
      · intro runId' shared' paneId'
        rw [or_assoc, List.mem_append, List.mem_singleton, and_or_left]
        refine or_congr_right (or_congr_right ?_)
        simp only [Prod.mk.injEq]
        tauto
    · rw [List.map_append]
      exact hdepths.append hunder

/-- The runs of the panes that have their headings. -/
def PlacedIn (placement : Placement) (heads : List NodeKey) (runId : RunId) (shared : Bool)
    (paneId : Option String) : Prop :=
  ∃ pane, paneId = some pane ∧ .pane pane ∈ heads ∧ (runId, shared) ∈ (placement.paneRuns.get pane).getD []

/-- The tree is built as far as these headings go. -/
structure Built (ctx : RowContext) (placement : Placement) (parent : RunId → Option RunId) (heads : List NodeKey)
    (state : TreeState) : Prop where
  shows : Shows ctx.model parent (PlacedIn placement heads) heads (state.rows.map (·.key)) state.expanded
  waiting : ∀ paneId, .pane paneId ∉ heads → state.paneRuns.get paneId = placement.paneRuns.get paneId

theorem placedIn_pane {pane : String} {runId : RunId} {shared : Bool} {paneId : Option String} :
    PlacedIn placement heads runId shared paneId ∨
        (paneId = some pane ∧ (runId, shared) ∈ (placement.paneRuns.get pane).getD []) ↔
      PlacedIn placement (heads ++ [.pane pane]) runId shared paneId := by
  constructor
  · rintro (⟨pane', rfl, hhead, hrun⟩ | ⟨rfl, hrun⟩)
    · exact ⟨pane', rfl, List.mem_append_left _ hhead, hrun⟩
    · exact ⟨pane, rfl, List.mem_append_right _ List.mem_cons_self, hrun⟩
  · rintro ⟨pane', rfl, hhead, hrun⟩
    rcases List.mem_append.mp hhead with hhead | hhead
    · exact .inl ⟨pane', rfl, hhead, hrun⟩
    · obtain rfl := NodeKey.pane.inj (List.mem_singleton.mp hhead)
      exact .inr ⟨rfl, hrun⟩

/-- A heading that is not that of a pane places nothing. -/
theorem placedIn_other {key : NodeKey} (hkey : ∀ pane, key ≠ .pane pane) {runId : RunId} {shared : Bool}
    {paneId : Option String} :
    PlacedIn placement heads runId shared paneId ↔ PlacedIn placement (heads ++ [key]) runId shared paneId := by
  refine exists_congr fun pane => and_congr_right fun _ => and_congr_left fun _ => ?_
  rw [List.mem_append, List.mem_singleton]
  exact (or_iff_left (hkey pane).symm).symm

/-- The heading of a workspace or a tab. -/
theorem Built.head {state : TreeState} (h : Built ctx placement parent heads state) {row : TreeRow}
    (hnew : row.key ∉ heads) (hpane : ∀ pane, row.key ≠ .pane pane)
    (hheading : ∀ runId paneId, ¬OwnedBy ctx.model runId paneId row.key) :
    Built ctx placement parent (heads ++ [row.key]) { state with rows := state.rows ++ [row] } where
  shows := by
    rw [List.map_append]
    exact (h.shows.head hnew hheading).congr fun _ _ _ => placedIn_other hpane
  waiting paneId hwaiting := h.waiting paneId fun hmem => hwaiting (List.mem_append_left _ hmem)

/-- A run in a pane is not nested, and if it is in another pane as well, it is shared. -/
theorem Placed.of_pane (hplaced : Placed ctx visibleRuns placement parent) {pane : String} {run : RunPlacement}
    (hrun : run ∈ (placement.paneRuns.get pane).getD []) (hnew : .pane pane ∉ heads) :
    (∃ taskRun, ctx.model.taskRun run.1 = some taskRun) ∧ parent run.1 = none ∧
      ∀ shared' paneId', PlacedIn placement heads run.1 shared' paneId' →
        paneId' ≠ some pane ∧ shared' = true ∧ run.2 = true := by
  obtain ⟨runId, shared⟩ := run
  obtain ⟨taskRun, rfl, hshown, hpane⟩ := (hplaced.mem_pane pane runId shared).mp hrun
  have hsame : ∀ other : TaskRun, other.runId = taskRun.runId → IsShown ctx.model visibleRuns other → other = taskRun := by
    intro other hname hother
    have hother' := hother.1
    rw [hname, hshown.1] at hother'
    exact (Option.some.inj hother').symm
  refine ⟨⟨taskRun, hshown.1⟩, Option.eq_none_iff_forall_ne_some.mpr fun above habove => ?_, ?_⟩
  · obtain ⟨⟨other, hname, hother, hnone⟩, -⟩ := hplaced.nested_shown taskRun.runId above habove
    obtain rfl := hsame other hname hother
    rw [hnone] at hpane
    exact absurd hpane List.not_mem_nil
  · rintro shared' _ ⟨pane', rfl, hhead, hrun'⟩
    obtain ⟨other, hname, hother, hpane'⟩ := (hplaced.mem_pane pane' taskRun.runId shared').mp hrun'
    obtain rfl := hsame other hname hother
    have hne : pane' ≠ pane := fun heq => hnew (heq ▸ hhead)
    have hshared : shared' = shared := runPanes_shared hpane' hpane
    have htrue : shared' = true := by
      by_contra hfalse
      have heq := runPanes_unshared hpane' hpane (Bool.not_eq_true _ ▸ hfalse)
      exact hne (Prod.mk.inj heq).1.symm
    exact ⟨fun heq => hne (Option.some.inj heq), htrue, hshared ▸ htrue⟩

theorem not_ownedBy_pane {model : DomainModel} {pane : String} (runId : RunId) (paneId : Option String) :
    ¬OwnedBy model runId paneId (.pane pane) := by
  rintro (h | ⟨agent, -, -, h⟩)
  · cases h
  · cases h

/-- A step of the building that adds rows with these headings, below a row of the given depth. -/
def Extends (ctx : RowContext) (placement : Placement) (parent : RunId → Option RunId) (depth : ℕ)
    (f : TreeState → Option TreeState) (keys : List NodeKey) : Prop :=
  ∀ heads state, Built ctx placement parent heads state → (heads ++ keys).Nodup →
    ∃ state' more, f state = some state' ∧ Built ctx placement parent (heads ++ keys) state' ∧
      state'.rows = state.rows ++ more ∧ Under depth (more.map (·.depth))

/-- One step after the other. -/
theorem Extends.foldlM {α : Type} {f : TreeState → α → Option TreeState} {keysOf : α → List NodeKey} {items : List α}
    {depth : ℕ} (h : ∀ a ∈ items, Extends ctx placement parent depth (f · a) (keysOf a)) :
    Extends ctx placement parent depth (items.foldlM f) (items.flatMap keysOf) := by
  intro heads state hstate hnodup
  obtain ⟨state', hstate', hbuilt, more, hrows, hunder⟩ := foldlM_builds
    (I := fun done state' => Built ctx placement parent (heads ++ done.flatMap keysOf) state' ∧
      ∃ more, state'.rows = state.rows ++ more ∧ Under depth (more.map (·.depth))) (f := f) (l := items) (s := state)
    (by
      refine ⟨?_, [], (List.append_nil _).symm, .nil⟩
      rwa [List.flatMap_nil, List.append_nil])
    (fun done a rest state' hl hdone => by
      obtain ⟨hbuilt, more, hrows, hunder⟩ := hdone
      have hapart : (heads ++ done.flatMap keysOf ++ keysOf a).Nodup := by
        rw [hl, List.flatMap_append, List.flatMap_cons, ← List.append_assoc, ← List.append_assoc] at hnodup
        exact (List.nodup_append.mp hnodup).1
      obtain ⟨next, more', hnext, hbuilt', hrows', hunder'⟩ :=
        h a (hl ▸ List.mem_append_right _ List.mem_cons_self) _ state' hbuilt hapart
      refine ⟨next, hnext, ?_, more ++ more', ?_, ?_⟩
      · rw [List.flatMap_append, List.flatMap_singleton, ← List.append_assoc]
        exact hbuilt'
      · rw [hrows', hrows, List.append_assoc]
      · rw [List.map_append]
        exact hunder.append hunder')
  exact ⟨state', more, hstate', hbuilt, hrows, hunder⟩

/-- A heading of a workspace or a tab before what is below it. -/
theorem Extends.head {f : TreeState → Option TreeState} {keys : List NodeKey} {depth : ℕ} (row : TreeRow)
    (hpane : ∀ pane, row.key ≠ .pane pane) (hheading : ∀ runId paneId, ¬OwnedBy ctx.model runId paneId row.key)
    (hdepth : row.depth = depth + 1) (h : Extends ctx placement parent (depth + 1) f keys) :
    Extends ctx placement parent depth (fun state => f { state with rows := state.rows ++ [row] })
      (row.key :: keys) := by
  intro heads state hstate hnodup
  rw [List.append_cons] at hnodup ⊢
  have hnew : row.key ∉ heads := fun hmem =>
    (List.nodup_append.mp (List.nodup_append.mp hnodup).1).2.2 _ hmem _ List.mem_cons_self rfl
  obtain ⟨state', more, hstate', hbuilt, hrows, hunder⟩ := h _ _ (hstate.head hnew hpane hheading) hnodup
  refine ⟨state', row :: more, hstate', hbuilt, ?_, ?_⟩
  · rw [hrows, List.append_assoc, List.singleton_append]
  · rw [List.map_cons, hdepth]
    exact hunder.cons

/-- A pane with its runs. -/
theorem appendPane_spec (hkeyed : AgentsKeyed ctx.model) (hplaced : Placed ctx visibleRuns placement parent)
    (pane : Pane) :
    Extends ctx placement parent 2 (appendPane ctx placement.nestedRuns · pane) [.pane pane.paneId] := by
  intro heads state h hnodup
  have hnew : NodeKey.pane pane.paneId ∉ heads := fun hmem =>
    (List.nodup_append.mp hnodup).2.2 _ hmem _ List.mem_cons_self rfl
  have hhead := h.shows.head hnew not_ownedBy_pane
  have hruns := h.waiting pane.paneId hnew
  have hstays : ∀ paneId, NodeKey.pane paneId ∉ heads ++ [.pane pane.paneId] →
      NodeKey.pane paneId ∉ heads ∧ paneId ≠ pane.paneId := by
    intro paneId hmem
    exact ⟨fun hin => hmem (List.mem_append_left _ hin),
      fun heq => hmem (List.mem_append_right _ (heq ▸ List.mem_cons_self))⟩
  simp only [appendPane, hruns]
  cases hpaneRuns : placement.paneRuns.get pane.paneId with
  | none =>
    refine ⟨_, _, rfl, ⟨?_, ?_⟩, rfl, Under.nil.cons⟩
    · rw [List.map_append]
      refine hhead.congr fun runId shared paneId => placedIn_pane.symm.trans ?_ |>.symm
      rw [hpaneRuns]
      exact or_iff_left fun hnone => List.not_mem_nil hnone.2
    · exact fun paneId hmem => h.waiting paneId (hstays paneId hmem).1
  | some runs =>
    have hpane : runs = (placement.paneRuns.get pane.paneId).getD [] := by rw [hpaneRuns]; rfl
    have hfit : ∀ run ∈ runs, (∃ taskRun, ctx.model.taskRun run.1 = some taskRun) ∧ parent run.1 = none ∧
        ∀ shared' paneId', PlacedIn placement heads run.1 shared' paneId' →
          paneId' ≠ some pane.paneId ∧ shared' = true ∧ run.2 = true :=
      fun run hrun => hplaced.of_pane (hpane ▸ hrun) hnew
    obtain ⟨more, hmore, hshows, hunder⟩ :=
      appendRunRows_spec hkeyed hplaced hhead 3 (hpane ▸ hplaced.pane_nodup pane.paneId) hfit
    simp only [Option.bind_eq_bind, hmore, Option.bind_some]
    refine ⟨_, _, rfl, ⟨?_, ?_⟩, rfl, hunder.cons⟩
    · rw [List.map_append, List.map_cons, List.append_cons (state.rows.map _)]
      refine hshows.congr fun runId shared paneId => ?_
      rw [hpane]
      exact placedIn_pane
    · intro paneId hmem
      show (state.paneRuns.remove pane.paneId).get paneId = _
      rw [HashMap.get_remove_ne _ (hstays paneId hmem).2]
      exact h.waiting paneId (hstays paneId hmem).1

/-- The headings of a tab and its panes. -/
def tabKeys (model : DomainModel) (workspace : Workspace) (tab : Tab) : List NodeKey :=
  .tab tab.tabId :: (orderedPanes model workspace tab).flatMap fun pane => [.pane pane.paneId]

/-- The headings of a workspace and all below it. -/
def workspaceKeys (model : DomainModel) (workspace : Workspace) : List NodeKey :=
  .workspace workspace.workspaceId :: (orderedTabs model workspace).flatMap (tabKeys model workspace)

theorem appendTab_spec (hkeyed : AgentsKeyed ctx.model) (hplaced : Placed ctx visibleRuns placement parent)
    (workspace : Workspace) (tab : Tab) :
    Extends ctx placement parent 1 (appendTab ctx placement.nestedRuns workspace · tab)
      (tabKeys ctx.model workspace tab) := by
  refine Extends.head { key := .tab tab.tabId, depth := 2, label := ctx.texts.tabLabel tab } ?_ ?_ rfl
    (Extends.foldlM fun pane _ => appendPane_spec hkeyed hplaced pane)
  · exact fun pane => NodeKey.noConfusion
  · rintro runId paneId (h | ⟨agent, -, -, h⟩)
    · cases h
    · cases h

theorem appendWorkspace_spec (hkeyed : AgentsKeyed ctx.model) (hplaced : Placed ctx visibleRuns placement parent)
    (workspace : Workspace) :
    Extends ctx placement parent 0 (appendWorkspace ctx placement.nestedRuns · workspace)
      (workspaceKeys ctx.model workspace) := by
  refine Extends.head
    { key := .workspace workspace.workspaceId, depth := 1, label := ctx.texts.workspaceLabel workspace } ?_ ?_ rfl
    (Extends.foldlM fun tab _ => appendTab_spec hkeyed hplaced workspace tab)
  · exact fun pane => NodeKey.noConfusion
  · rintro runId paneId (h | ⟨agent, -, -, h⟩)
    · cases h
    · cases h

end

/-! ### Headings -/

/-- Everything is filed under its own identity, as the insertions of the model do. -/
structure Keyed (model : DomainModel) : Prop where
  workspaces : FiledUnder Workspace.workspaceId model.workspaces
  tabs : FiledUnder Tab.tabId model.tabs
  panes : FiledUnder Pane.paneId model.panes
  runs : RunsKeyed model
  agents : AgentsKeyed model

/-- All headings of workspaces, tabs and panes. -/
def headings (model : DomainModel) : List NodeKey := (orderedWorkspaces model).flatMap (workspaceKeys model)

section

variable {model : DomainModel} {workspace : Workspace} {tab : Tab} {pane : Pane} {key : NodeKey}

theorem mem_orderedTabs :
    tab ∈ orderedTabs model workspace ↔ tab ∈ model.tabs.values ∧ tab.workspaceId = workspace.workspaceId := by
  rw [orderedTabs, List.mem_insertionSort, List.mem_filter, decide_eq_true_iff]

theorem mem_orderedPanes :
    pane ∈ orderedPanes model workspace tab ↔
      pane ∈ model.panes.values ∧ pane.workspaceId = workspace.workspaceId ∧ pane.tabId = tab.tabId := by
  rw [orderedPanes, List.mem_insertionSort, List.mem_filter, Bool.and_eq_true, decide_eq_true_iff, decide_eq_true_iff]

theorem mem_tabKeys :
    key ∈ tabKeys model workspace tab ↔
      key = .tab tab.tabId ∨ ∃ pane ∈ orderedPanes model workspace tab, key = .pane pane.paneId := by
  rw [tabKeys, List.mem_cons, List.mem_flatMap]
  simp only [List.mem_singleton]

theorem mem_workspaceKeys :
    key ∈ workspaceKeys model workspace ↔
      key = .workspace workspace.workspaceId ∨ ∃ tab ∈ orderedTabs model workspace, key ∈ tabKeys model workspace tab := by
  rw [workspaceKeys, List.mem_cons, List.mem_flatMap]

/-- The tab that a heading belongs to. -/
def tabOf (model : DomainModel) : NodeKey → Option String
  | .tab tabId => some tabId
  | .pane paneId => (model.panes.get paneId).map (·.tabId)
  | _ => none

/-- The workspace that a heading belongs to. -/
def workspaceOf (model : DomainModel) : NodeKey → Option String
  | .workspace workspaceId => some workspaceId
  | .tab tabId => (model.tabs.get tabId).map (·.workspaceId)
  | .pane paneId => (model.panes.get paneId).map (·.workspaceId)
  | _ => none

theorem tabOf_tabKeys (hkeyed : Keyed model) (h : key ∈ tabKeys model workspace tab) :
    tabOf model key = some tab.tabId := by
  rcases mem_tabKeys.mp h with rfl | ⟨pane, hpane, rfl⟩
  · rfl
  · obtain ⟨hmem, -, htab⟩ := mem_orderedPanes.mp hpane
    rw [tabOf, hkeyed.panes.get_name hmem, Option.map_some, htab]

theorem workspaceOf_workspaceKeys (hkeyed : Keyed model) (h : key ∈ workspaceKeys model workspace) :
    workspaceOf model key = some workspace.workspaceId := by
  rcases mem_workspaceKeys.mp h with rfl | ⟨tab, htab, hkey⟩
  · rfl
  · rcases mem_tabKeys.mp hkey with rfl | ⟨pane, hpane, rfl⟩
    · obtain ⟨hmem, hworkspace⟩ := mem_orderedTabs.mp htab
      rw [workspaceOf, hkeyed.tabs.get_name hmem, Option.map_some, hworkspace]
    · obtain ⟨hmem, hworkspace, -⟩ := mem_orderedPanes.mp hpane
      rw [workspaceOf, hkeyed.panes.get_name hmem, Option.map_some, hworkspace]

/-- Lists that are put together stay apart if their items tell whose they are. -/
theorem nodup_flatMap_of_owner {α β γ : Type} {l : List α} {f : α → List β} {owner : β → Option γ} {name : α → γ}
    (hnames : (l.map name).Nodup) (heach : ∀ a ∈ l, (f a).Nodup)
    (howner : ∀ a ∈ l, ∀ b ∈ f a, owner b = some (name a)) : (l.flatMap f).Nodup := by
  rw [List.nodup_flatMap]
  refine ⟨heach, (List.pairwise_map.mp hnames).imp_of_mem fun {a a'} ha ha' hne => ?_⟩
  intro b hb hb'
  exact hne (Option.some.inj ((howner a ha b hb).symm.trans (howner a' ha' b hb')))

theorem nodup_orderedPanes (hkeyed : Keyed model) : ((orderedPanes model workspace tab).map (·.paneId)).Nodup := by
  rw [orderedPanes, ((List.perm_insertionSort _ _).map _).nodup_iff]
  exact hkeyed.panes.nodup_names.sublist (List.filter_sublist.map _)

theorem nodup_orderedTabs (hkeyed : Keyed model) : ((orderedTabs model workspace).map (·.tabId)).Nodup := by
  rw [orderedTabs, ((List.perm_insertionSort _ _).map _).nodup_iff]
  exact hkeyed.tabs.nodup_names.sublist (List.filter_sublist.map _)

theorem nodup_orderedWorkspaces (hkeyed : Keyed model) : ((orderedWorkspaces model).map (·.workspaceId)).Nodup := by
  rw [orderedWorkspaces, ((List.perm_insertionSort _ _).map _).nodup_iff]
  exact hkeyed.workspaces.nodup_names

theorem nodup_tabKeys (hkeyed : Keyed model) : (tabKeys model workspace tab).Nodup := by
  rw [tabKeys, ← List.map_eq_flatMap, List.nodup_cons]
  constructor
  · intro hmem
    obtain ⟨pane, -, heq⟩ := List.mem_map.mp hmem
    cases heq
  · have hnodup := List.Nodup.map (f := NodeKey.pane) (fun _ _ heq => NodeKey.pane.inj heq)
      (@nodup_orderedPanes model workspace tab hkeyed)
    rwa [List.map_map] at hnodup

theorem nodup_workspaceKeys (hkeyed : Keyed model) : (workspaceKeys model workspace).Nodup := by
  rw [workspaceKeys, List.nodup_cons]
  constructor
  · intro hmem
    obtain ⟨tab, -, hkey⟩ := List.mem_flatMap.mp hmem
    have htab := tabOf_tabKeys hkeyed hkey
    cases htab
  · exact nodup_flatMap_of_owner (nodup_orderedTabs hkeyed) (fun tab _ => nodup_tabKeys hkeyed)
      fun tab _ key hkey => tabOf_tabKeys hkeyed hkey

theorem nodup_headings (hkeyed : Keyed model) : (headings model).Nodup :=
  nodup_flatMap_of_owner (nodup_orderedWorkspaces hkeyed) (fun _ _ => nodup_workspaceKeys hkeyed)
    fun _ _ _ hkey => workspaceOf_workspaceKeys hkeyed hkey

/-- What is not a heading of a workspace, a tab or a pane is no heading. -/
theorem workspaceOf_headings (hkeyed : Keyed model) (h : key ∈ headings model) : (workspaceOf model key).isSome = true := by
  obtain ⟨workspace, -, hkey⟩ := List.mem_flatMap.mp h
  rw [workspaceOf_workspaceKeys hkeyed hkey]
  rfl

/-- Every pane that is shown has a heading. -/
theorem pane_mem_headings (hkeyed : Keyed model) {paneId : String} (h : paneIsRenderable model paneId = true) :
    .pane paneId ∈ headings model := by
  rw [paneIsRenderable, Option.any_eq_true] at h
  obtain ⟨pane, hpane, hplaced⟩ := h
  rw [Bool.and_eq_true, Option.any_eq_true] at hplaced
  obtain ⟨hworkspace, tab, htab, hsame⟩ := hplaced
  obtain ⟨workspace, hworkspace⟩ := Option.isSome_iff_exists.mp hworkspace
  have hpaneName := hkeyed.panes paneId pane hpane
  have htabName := hkeyed.tabs pane.tabId tab htab
  have hworkspaceName := hkeyed.workspaces pane.workspaceId workspace hworkspace
  refine List.mem_flatMap.mpr ⟨workspace, ?_, mem_workspaceKeys.mpr (.inr ⟨tab, ?_, mem_tabKeys.mpr (.inr ⟨pane, ?_, ?_⟩)⟩)⟩
  · rw [orderedWorkspaces, List.mem_insertionSort]
    exact HashMap.mem_values.mpr ⟨_, hworkspace⟩
  · refine mem_orderedTabs.mpr ⟨HashMap.mem_values.mpr ⟨_, htab⟩, ?_⟩
    rw [hworkspaceName]
    exact of_decide_eq_true hsame
  · exact mem_orderedPanes.mpr ⟨HashMap.mem_values.mpr ⟨_, hpane⟩, hworkspaceName.symm, htabName.symm⟩
  · rw [hpaneName]

end

/-! ### The whole tree -/

section

variable {ctx : RowContext} {visibleRuns : HashSet RunId} {placement : Placement} {parent : RunId → Option RunId}

/-- The row of the session, before all others. -/
theorem built_session :
    Built ctx placement parent [.session]
      { rows := [{ key := .session, depth := 0, label := ctx.texts.sessionLabel }]
        paneRuns := placement.paneRuns } := by
  have hnone : ∀ runId shared paneId, ¬PlacedIn placement [.session] runId shared paneId := by
    rintro runId shared paneId ⟨pane, -, hhead, -⟩
    cases List.mem_singleton.mp hhead
  refine ⟨⟨List.nodup_singleton _, ?_, fun key hkey => .inl hkey, ?_, ?_, ?_, ?_⟩, fun _ _ => rfl⟩
  · intro key hkey runId paneId
    obtain rfl := List.mem_singleton.mp hkey
    rintro (h | ⟨agent, -, -, h⟩)
    · cases h
    · cases h
  · exact fun runId shared paneId h => absurd h (hnone runId shared paneId)
  · exact fun runId shared paneId h => absurd h (hnone runId shared paneId)
  · exact fun runId shared paneId h => absurd h (hnone runId shared paneId)
  · exact fun runId => iff_of_false List.not_mem_nil fun ⟨paneId, h⟩ => hnone runId true paneId h

/-- A run is in a pane that has a heading, or it is unattached. -/
def PlacedInTree (placement : Placement) (heads : List NodeKey) (runId : RunId) (shared : Bool)
    (paneId : Option String) : Prop :=
  PlacedIn placement heads runId shared paneId ∨
    (paneId = none ∧ (runId, shared) ∈ placement.unattached.map (·, false))

/-- A run that is unattached is in no pane. -/
theorem Placed.of_unattached (hplaced : Placed ctx visibleRuns placement parent) {heads : List NodeKey}
    {run : RunPlacement} (hrun : run ∈ placement.unattached.map (·, false)) :
    (∃ taskRun, ctx.model.taskRun run.1 = some taskRun) ∧ parent run.1 = none ∧
      ∀ shared' paneId', PlacedIn placement heads run.1 shared' paneId' →
        paneId' ≠ none ∧ shared' = true ∧ run.2 = true := by
  obtain ⟨runId, hmem, rfl⟩ := List.mem_map.mp hrun
  obtain ⟨⟨taskRun, rfl, hshown, hnone⟩, hroot⟩ := (hplaced.mem_unattached runId).mp hmem
  refine ⟨⟨taskRun, hshown.1⟩, hroot, ?_⟩
  rintro shared' _ ⟨pane, rfl, -, hpane⟩
  obtain ⟨other, hname, hother, hpane⟩ := (hplaced.mem_pane pane taskRun.runId shared').mp hpane
  have hother' := hother.1
  rw [hname, hshown.1] at hother'
  obtain rfl := Option.some.inj hother'
  rw [hnone] at hpane
  exact absurd hpane List.not_mem_nil

/-- The rows of the tree are those of the headings and of all placed runs. -/
theorem buildTreeRows_shows (hkeyed : Keyed ctx.model) (hplace : placeRuns ctx visibleRuns = some placement)
    (hplaced : Placed ctx visibleRuns placement parent) :
    ∃ rows heads expanded, buildTreeRows ctx visibleRuns = some rows ∧
      Shows ctx.model parent (PlacedInTree placement (.session :: headings ctx.model)) heads (rows.map (·.key)) expanded ∧
      (rows.map (·.depth)).IsChain fun d e => e ≤ d + 1 := by
  have hapart : ([NodeKey.session] ++ headings ctx.model).Nodup := by
    refine List.nodup_cons.mpr ⟨fun hmem => ?_, nodup_headings hkeyed⟩
    exact absurd (workspaceOf_headings hkeyed hmem) Bool.false_ne_true
  obtain ⟨state, more, hstate, hbuilt, hrows, hunder⟩ :=
    Extends.foldlM (fun workspace _ => appendWorkspace_spec hkeyed.agents hplaced workspace) _ _ built_session hapart
  beta_reduce at hstate
  have hchain : ∀ depths, Under 0 depths → (0 :: depths).IsChain fun d e => e ≤ d + 1 := fun _ h => h.grows.isChain
  simp only [buildTreeRows, appendExecutionTreeRows, hplace, hstate, Option.bind_eq_bind, Option.bind_some]
  by_cases hnone : placement.unattached.isEmpty = true
  · rw [if_pos hnone]
    refine ⟨_, _, _, rfl, hbuilt.shows.congr fun runId shared paneId => (or_iff_left ?_).symm, ?_⟩
    · rw [List.isEmpty_iff.mp hnone]
      exact fun h => List.not_mem_nil h.2
    · rw [hrows]
      exact hchain _ hunder
  · rw [if_neg hnone]
    have hnew : NodeKey.unattachedGroup ∉ [NodeKey.session] ++ headings ctx.model := by
      intro hmem
      rcases List.mem_append.mp hmem with hmem | hmem
      · cases List.mem_singleton.mp hmem
      · exact absurd (workspaceOf_headings hkeyed hmem) Bool.false_ne_true
    have hheading : ∀ runId paneId, ¬OwnedBy ctx.model runId paneId .unattachedGroup := by
      rintro runId paneId (h | ⟨agent, -, -, h⟩)
      · cases h
      · cases h
    have hnodup : ((placement.unattached.map (·, false)).map Prod.fst).Nodup := by
      rw [List.map_map]
      exact (List.map_id' placement.unattached).symm ▸ hplaced.unattached_nodup
    obtain ⟨more', hmore, hshows, hbelow⟩ := appendRunRows_spec hkeyed.agents hplaced
      (hbuilt.shows.head hnew hheading) 1 hnodup fun run hrun => hplaced.of_unattached hrun
    rw [hmore]
    refine ⟨_, [.session] ++ headings ctx.model ++ [.unattachedGroup], more'.2, rfl, ?_, ?_⟩
    · rw [List.map_append, List.map_cons, List.append_cons (state.rows.map _)]
      exact hshows
    · rw [hrows, List.map_append, List.map_append]
      exact hchain _ (hunder.append hbelow.cons)

/-- Above every visible run there is one that has a place of its own. -/
theorem Placed.exists_placed (hkeyed : Keyed ctx.model) (hplaced : Placed ctx visibleRuns placement parent)
    {run : TaskRun} (hshown : IsShown ctx.model visibleRuns run) :
    ∃ root shared paneId, ReflTransGen (Ascends parent) run.runId root ∧
      PlacedInTree placement (.session :: headings ctx.model) root shared paneId := by
  obtain ⟨root, hup, hroot⟩ := hplaced.rooted run.runId
  have htop : ∃ top, top.runId = root ∧ IsShown ctx.model visibleRuns top := by
    rcases ReflTransGen.cases_tail hup with heq | ⟨below, -, hlink⟩
    · exact ⟨run, heq.symm, hshown⟩
    · exact (hplaced.nested_shown below root hlink).2
  obtain ⟨top, rfl, htop⟩ := htop
  by_cases hnone : runPanes ctx top = []
  · have hmem := (hplaced.mem_unattached top.runId).mpr ⟨⟨top, rfl, htop, hnone⟩, hroot⟩
    exact ⟨top.runId, false, none, hup, .inr ⟨rfl, List.mem_map.mpr ⟨_, hmem, rfl⟩⟩⟩
  · obtain ⟨⟨paneId, shared⟩, hpane⟩ := List.exists_mem_of_ne_nil _ hnone
    have hhead := pane_mem_headings hkeyed (renderable_of_mem_runPanes hpane)
    exact ⟨top.runId, shared, some paneId, hup,
      .inl ⟨paneId, rfl, List.mem_cons_of_mem _ hhead, (hplaced.mem_pane _ _ _).mpr ⟨top, rfl, htop, hpane⟩⟩⟩

/-- What has a place is visible. -/
theorem Placed.shown (hplaced : Placed ctx visibleRuns placement parent) {heads : List NodeKey} {runId : RunId}
    {shared : Bool} {paneId : Option String} (h : PlacedInTree placement heads runId shared paneId) :
    ∃ run, run.runId = runId ∧ IsShown ctx.model visibleRuns run := by
  rcases h with ⟨pane, -, -, hpane⟩ | ⟨-, hunattached⟩
  · obtain ⟨run, hname, hshown, -⟩ := (hplaced.mem_pane pane runId shared).mp hpane
    exact ⟨run, hname, hshown⟩
  · obtain ⟨_, hmem, heq⟩ := List.mem_map.mp hunattached
    obtain ⟨rfl, -⟩ := Prod.mk.inj heq
    obtain ⟨⟨run, hname, hshown, -⟩, -⟩ := (hplaced.mem_unattached _).mp hmem
    exact ⟨run, hname, hshown⟩

/-- The tree is built. Every visible run has a row, and one in each pane that is shown and in which it is worked on;
no other run has any. The keys of the rows are different from each other, and no row is more than one step deeper
than the one before it. -/
theorem buildTreeRows_complete (ctx : RowContext) (visibleRuns : HashSet RunId) (hkeyed : Keyed ctx.model) :
    ∃ rows, buildTreeRows ctx visibleRuns = some rows ∧
      (∀ run, IsShown ctx.model visibleRuns run →
        (∃ paneId, .run run.runId paneId ∈ rows.map (·.key)) ∧
          ∀ execution ∈ ctx.model.executions.values, execution.taskRunId = run.runId →
            execution.state.isTerminal = false → paneIsRenderable ctx.model execution.paneId = true →
              .run run.runId (some execution.paneId) ∈ rows.map (·.key)) ∧
      (∀ runId paneId, .run runId paneId ∈ rows.map (·.key) →
        ∃ run, run.runId = runId ∧ IsShown ctx.model visibleRuns run) ∧
      (rows.map (·.key)).Nodup ∧ (rows.map (·.depth)).IsChain fun d e => e ≤ d + 1 := by
  obtain ⟨placement, parent, hplace, hplaced⟩ := @placeRuns_spec ctx visibleRuns hkeyed.runs
  obtain ⟨rows, heads, expanded, hrows, hshows, hchain⟩ := buildTreeRows_shows hkeyed hplace hplaced
  refine ⟨rows, hrows, fun run hshown => ⟨?_, ?_⟩, ?_, hshows.nodup, hchain⟩
  · obtain ⟨root, shared, paneId, hup, hroot⟩ := hplaced.exists_placed hkeyed hshown
    rcases reflTransGen_iff_eq_or_transGen.mp hup with heq | hup
    · exact ⟨paneId, heq ▸ hshows.own root shared paneId hroot⟩
    · exact ⟨none, hshows.below root shared paneId hroot run.runId hup⟩
  · intro execution hexecution hname hlive hrenderable
    obtain ⟨shared, hpane⟩ := mem_runPanes_of_live
      (mem_renderableExecutions.mpr ⟨hexecution, hname, hrenderable⟩) hlive
    have hhead := List.mem_cons_of_mem NodeKey.session (pane_mem_headings hkeyed hrenderable)
    exact hshows.own run.runId shared (some execution.paneId)
      (.inl ⟨execution.paneId, rfl, hhead, (hplaced.mem_pane _ _ _).mpr ⟨run, rfl, hshown, hpane⟩⟩)
  · intro runId paneId hkey
    rcases hshows.owned _ hkey with hhead | ⟨owner, shared, paneId', howner, hown | ⟨below, hup, hown⟩⟩
    · exact absurd (.inl rfl) (hshows.heading _ hhead runId paneId)
    · obtain ⟨rfl, -⟩ := OwnedBy.unique hkeyed.agents (.inl rfl) hown
      exact hplaced.shown howner
    · obtain ⟨rfl, -⟩ := OwnedBy.unique hkeyed.agents (.inl rfl) hown
      obtain ⟨above, hlink, -⟩ := TransGen.head'_iff.mp hup
      obtain ⟨⟨run, hname, hshown, -⟩, -⟩ := hplaced.nested_shown runId above hlink
      exact ⟨run, hname, hshown⟩

end

/-- A run that is worked on in two panes and dispatched another one, and two runs that dispatched each other. -/
def sharedRuns : DomainModel where
  workspaces := HashMap.ofList [("w", { workspaceId := "w" })]
  tabs := HashMap.ofList [("t", { tabId := "t", workspaceId := "w" })]
  panes := HashMap.ofList [
    ("p", { paneId := "p", workspaceId := "w", tabId := "t", terminalId := "x" }),
    ("q", { paneId := "q", workspaceId := "w", tabId := "t", terminalId := "y" })]
  taskRuns := HashMap.ofList ([1, 2, 3, 4].map fun n =>
    (⟨n⟩, { runId := ⟨n⟩, key := .controller "run", displayOrdinal := n, state := .running,
            hasControllerTaskStateEvent := true }))
  executions := HashMap.ofList [
    ("e", { executionId := "e", paneId := "p", terminalId := "x", taskRunId := ⟨1⟩, state := .working }),
    ("f", { executionId := "f", paneId := "q", terminalId := "y", taskRunId := ⟨1⟩, state := .working })]
  executionEdges := HashSet.ofList [⟨⟨1⟩, ⟨2⟩⟩, ⟨⟨3⟩, ⟨4⟩⟩, ⟨⟨4⟩, ⟨3⟩⟩]

theorem sharedRuns_keyed : Keyed sharedRuns where
  workspaces := .of_toList (by decide)
  tabs := .of_toList (by decide)
  panes := .of_toList (by decide)
  runs := FiledUnder.of_toList (by decide)
  agents := FiledUnder.of_toList (by decide)

def sharedContext : RowContext where
  model := sharedRuns
  texts :=
    { sessionLabel := "herdr"
      workspaceLabel := (·.workspaceId)
      tabLabel := (·.tabId)
      paneLabel := (·.paneId)
      runHead := fun _ => "run"
      liveLine := fun _ _ => ""
      dispatchedBy := fun _ => ""
      agentLabel := fun agent _ => agent.agentNodeId }
  headlessInactivityMs := 600000
  nowMs := 0
  stalledRuns := fun _ => false
  executionOrder := fun _ => 0

/-- The shared run is in both panes, and the runs that dispatched each other are not lost. -/
theorem tree_of_sharedRuns :
    ∃ rows, buildTreeRows sharedContext (HashSet.ofList [⟨1⟩, ⟨2⟩, ⟨3⟩, ⟨4⟩]) = some rows ∧
      (.run ⟨1⟩ (some "p") ∈ rows.map (·.key) ∧ .run ⟨1⟩ (some "q") ∈ rows.map (·.key)) ∧
      (∃ paneId, .run ⟨3⟩ paneId ∈ rows.map (·.key)) ∧ (rows.map (·.key)).Nodup := by
  obtain ⟨rows, hrows, hshown, -, hnodup, -⟩ :=
    buildTreeRows_complete sharedContext (HashSet.ofList [⟨1⟩, ⟨2⟩, ⟨3⟩, ⟨4⟩]) sharedRuns_keyed
  have hrun : ∀ n ∈ [1, 2, 3, 4], IsShown sharedRuns (HashSet.ofList [⟨1⟩, ⟨2⟩, ⟨3⟩, ⟨4⟩])
      { runId := ⟨n⟩, key := .controller "run", displayOrdinal := n, state := .running,
        hasControllerTaskStateEvent := true } := by
    unfold IsShown
    decide
  have hpanes := (hshown _ (hrun 1 (by decide))).2
  refine ⟨rows, hrows, ⟨?_, ?_⟩, (hshown _ (hrun 3 (by decide))).1, hnodup⟩
  · exact hpanes { executionId := "e", paneId := "p", terminalId := "x", taskRunId := ⟨1⟩, state := .working }
      (by decide) rfl rfl (by decide)
  · exact hpanes { executionId := "f", paneId := "q", terminalId := "y", taskRunId := ⟨1⟩, state := .working }
      (by decide) rfl rfl (by decide)

end HerdrTop.Tui
