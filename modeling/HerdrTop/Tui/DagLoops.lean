import HerdrTop.Tui.Dag

/-!
# What the loops behind the dependency order compute

One lemma for each loop of `DagOrder.recompute`: the tables hold the edges between known runs, the
propagation ends and leaves the inherited positions, and the sort ends with a greedy run. Each
loop has an invariant of its own, kept by one turn.
-/

namespace HerdrTop.Tui

open PriorityOrder HerdrTop.Digraph Relation

/-! ### The tables -/

/-- The dependencies between runs of the list, as pairs. -/
def knownEdges (nodes : List RunId) (edges : List DependencyEdge) : List (RunId × RunId) :=
  (edges.map fun e => (e.prerequisiteRunId, e.dependentRunId)).filter fun e => e.1 ∈ nodes ∧ e.2 ∈ nodes

theorem mem_knownEdges {nodes : List RunId} {edges : List DependencyEdge} {a b : RunId} :
    (a, b) ∈ knownEdges nodes edges ↔ ⟨a, b⟩ ∈ edges ∧ a ∈ nodes ∧ b ∈ nodes := by
  simp only [knownEdges, List.mem_filter, List.mem_map, decide_eq_true_eq]
  constructor
  · rintro ⟨⟨⟨_, _⟩, he, rfl, rfl⟩, hn⟩
    exact ⟨he, hn⟩
  · rintro ⟨he, hn⟩
    exact ⟨⟨_, he, rfl⟩, hn⟩

/-- The tables after some edges. -/
structure Linked (nodes : List RunId) (known : List (RunId × RunId)) (links : Links) : Prop where
  outgoing : ∀ n, links.outgoing.get n =
    if n ∈ nodes then some ((known.filter fun e => e.1 = n).map Prod.snd) else none
  reverse : ∀ n, links.reverse.get n =
    if n ∈ nodes then some ((known.filter fun e => e.2 = n).map Prod.fst) else none
  indegree : ∀ n, links.indegree.get n = if n ∈ nodes then some (inCount known n) else none

theorem linked_empty (nodes : List RunId) : Linked nodes [] (Links.empty nodes) := by
  constructor <;> intro n <;>
    · simp only [Links.empty, HashMap.ofList, HashMap.get_extend_const]
      rfl

/-- Edges of unknown runs leave no trace, those of known runs never miss. -/
theorem Linked.push {nodes : List RunId} {known : List (RunId × RunId)} {links : Links}
    (h : Linked nodes known links) (edge : DependencyEdge) :
    ∃ links', Links.push nodes links edge = some links' ∧
      Linked nodes (known ++ knownEdges nodes [edge]) links' := by
  obtain ⟨a, b⟩ := edge
  unfold Links.push
  split
  case isTrue hunknown =>
    refine ⟨links, rfl, ?_⟩
    have : knownEdges nodes [⟨a, b⟩] = [] := by
      rw [List.eq_nil_iff_forall_not_mem]
      rintro ⟨c, d⟩ hm
      obtain ⟨he, hc, hd⟩ := mem_knownEdges.mp hm
      cases List.mem_singleton.mp he
      exact hunknown.elim (· hc) (· hd)
    rwa [this, List.append_nil]
  case isFalse hknown =>
    obtain ⟨ha, hb⟩ : a ∈ nodes ∧ b ∈ nodes := by simpa using hknown
    have hpairs : knownEdges nodes [⟨a, b⟩] = [(a, b)] := by
      simp [knownEdges, ha, hb]
    rw [hpairs]
    simp only [h.outgoing, h.reverse, h.indegree, ha, hb, if_true]
    refine ⟨_, rfl, ⟨fun n => ?_, fun n => ?_, fun n => ?_⟩⟩
    · rw [HashMap.get_insert, h.outgoing]
      by_cases hn : n = a
      · subst hn
        simp [ha]
      · simp [hn, Ne.symm hn]
    · rw [HashMap.get_insert, h.reverse]
      by_cases hn : n = b
      · subst hn
        simp [hb]
      · simp [hn, Ne.symm hn]
    · rw [HashMap.get_insert, h.indegree]
      by_cases hn : n = b
      · subst hn
        simp [hb, inCount]
      · simp [hn, Ne.symm hn, inCount]

theorem knownEdges_append (nodes : List RunId) (edges edges' : List DependencyEdge) :
    knownEdges nodes (edges ++ edges') = knownEdges nodes edges ++ knownEdges nodes edges' := by
  simp [knownEdges]

/-- The loop over the edges builds the tables. -/
theorem Linked.foldlM {nodes : List RunId} (edges : List DependencyEdge)
    {known : List (RunId × RunId)} {links : Links} (h : Linked nodes known links) :
    ∃ links', edges.foldlM (Links.push nodes) links = some links' ∧
      Linked nodes (known ++ knownEdges nodes edges) links' := by
  induction edges generalizing known links with
  | nil => exact ⟨links, rfl, by simpa [knownEdges] using h⟩
  | cons edge rest ih =>
    obtain ⟨next, hnext, hlinked⟩ := h.push edge
    obtain ⟨last, hlast, hlinked'⟩ := ih hlinked
    refine ⟨last, ?_, ?_⟩
    · rw [List.foldlM_cons, hnext]
      exact hlast
    · rwa [List.append_assoc, ← knownEdges_append] at hlinked'

/-! ### The propagation -/

theorem position_insert (m : HashMap RunId ℕ) (k n : RunId) (p : ℕ) :
    position (m.insert k p) n = if n = k then (p : WithTop ℕ) else position m n := by
  simp only [position, HashMap.get_insert]
  by_cases h : n = k
  · rw [if_pos h, if_pos h]
  · rw [if_neg h, if_neg h]

theorem position_of_get {m : HashMap RunId ℕ} {n : RunId} {p : ℕ} (h : m.get n = some p) :
    position m n = p := by
  simp only [position, h]

theorem get_of_position {m : HashMap RunId ℕ} {n : RunId} {p : ℕ} (h : position m n = p) :
    m.get n = some p := by
  simp only [position] at h
  split at h
  case h_1 q hq =>
    obtain rfl := WithTop.coe_injective h
    exact hq
  case h_2 => cases h

/-- What holds between two turns of the propagation: only the parents of queued runs may still
have later positions than they should, and those of `dependent` in `rest`. -/
structure Propagating (edges : List (RunId × RunId)) (nodes : List RunId)
    (first : RunId → WithTop ℕ) (dependent : RunId) (rest : List RunId)
    (inherited : HashMap RunId ℕ) (queue : List RunId) : Prop where
  le : ∀ n, position inherited n ≤ first n
  source : ∀ n, ∃ d, ReflTransGen (Edge edges) n d ∧ first d = position inherited n
  settled : ∀ a n, Edge edges a n → n ∉ queue → (n = dependent → a ∉ rest) →
    position inherited a ≤ position inherited n
  queued : ∀ n ∈ queue, n ∈ nodes ∧ ∃ p, inherited.get n = some p

/-- How far the positions of all runs and the queue may still go down. -/
def propagationLeft (nodes : List RunId) (bound : ℕ) (inherited : HashMap RunId ℕ)
    (queue : List RunId) : ℕ :=
  queue.length + (nodes.map fun n => (inherited.get n).getD bound).sum

theorem propagationLeft_insert {nodes : List RunId} {bound : ℕ} {inherited : HashMap RunId ℕ}
    {queue : List RunId} {a : RunId} {earliest : ℕ} (ha : a ∈ nodes)
    (hlt : earliest < (inherited.get a).getD bound) :
    propagationLeft nodes bound (inherited.insert a earliest) (queue ++ [a]) ≤
      propagationLeft nodes bound inherited queue := by
  have : (nodes.map fun n => ((inherited.insert a earliest).get n).getD bound).sum <
      (nodes.map fun n => (inherited.get n).getD bound).sum := by
    refine List.sum_lt_sum _ _ (fun n _ => ?_) ⟨a, ha, ?_⟩
    · rw [HashMap.get_insert]
      split
      case isTrue h => exact h ▸ hlt.le
      case isFalse => exact le_rfl
    · rw [HashMap.get_insert_self]
      exact hlt
  rw [propagationLeft, propagationLeft, List.length_append, List.length_singleton]
  omega

section Propagation

variable {edges : List (RunId × RunId)} {nodes : List RunId} {first : RunId → WithTop ℕ}
  {bound : ℕ}

/-- The loop over the prerequisites of `dependent` settles its edges. -/
theorem Propagating.inherit {dependent : RunId} {rest : List RunId} {earliest : ℕ}
    {inherited : HashMap RunId ℕ} {queue : List RunId} (hbound : ∀ n p, first n = (p : ℕ) → p < bound)
    (hrest : ∀ a ∈ rest, a ∈ nodes ∧ Edge edges a dependent)
    (hdependent : inherited.get dependent = some earliest)
    (h : Propagating edges nodes first dependent rest inherited queue) :
    let next := inherit earliest rest inherited queue
    Propagating edges nodes first dependent [] next.1 next.2 ∧
      propagationLeft nodes bound next.1 next.2 ≤ propagationLeft nodes bound inherited queue := by
  induction rest generalizing inherited queue with
  | nil => exact ⟨h, le_rfl⟩
  | cons a rest ih =>
    have hrest' : ∀ b ∈ rest, b ∈ nodes ∧ Edge edges b dependent := fun b hb =>
      hrest b (List.mem_cons_of_mem _ hb)
    obtain ⟨hnode, hedge⟩ := hrest a List.mem_cons_self
    have hposition : position inherited dependent = earliest := position_of_get hdependent
    simp only [Tui.inherit]
    by_cases hlt : (earliest : WithTop ℕ) < position inherited a
    · rw [if_pos hlt]
      have hne : dependent ≠ a := fun heq => by
        rw [← heq, hposition] at hlt
        exact lt_irrefl _ hlt
      have hlower : ∀ n, position (inherited.insert a earliest) n ≤ position inherited n :=
        fun n => by
          rw [position_insert]
          split
          case isTrue heq => exact heq ▸ hlt.le
          case isFalse => exact le_rfl
      have hdec : earliest < (inherited.get a).getD bound := by
        cases hget : inherited.get a with
        | none =>
          obtain ⟨d, -, hd⟩ := h.source dependent
          exact hbound d earliest (hd.trans hposition)
        | some p =>
          rw [position_of_get hget] at hlt
          exact WithTop.coe_lt_coe.mp hlt
      have hlowered : Propagating edges nodes first dependent rest (inherited.insert a earliest)
          (queue ++ [a]) :=
        { le := fun n => (hlower n).trans (h.le n)
          source := fun n => by
            rw [position_insert]
            split
            case isTrue heq =>
              obtain ⟨d, hpath, hd⟩ := h.source dependent
              exact ⟨d, .head (heq ▸ hedge) hpath, hd.trans hposition⟩
            case isFalse => exact h.source n
          settled := fun b n hb hn himp => by
            have hna : n ≠ a := fun heq => hn (List.mem_append_right _ (heq ▸ List.mem_cons_self))
            have hnq : n ∉ queue := fun hq => hn (List.mem_append_left _ hq)
            rw [position_insert _ _ n, if_neg hna]
            by_cases hba : b = a
            · subst hba
              rw [position_insert, if_pos rfl]
              by_cases hnd : n = dependent
              · rw [hnd, hposition]
              · exact hlt.le.trans (h.settled b n hb hnq fun heq => absurd heq hnd)
            · refine (hlower b).trans (h.settled b n hb hnq fun heq hmem => ?_)
              exact himp heq ((List.mem_cons.mp hmem).resolve_left hba)
          queued := fun n hn => by
            rcases List.mem_append.mp hn with hn | hn
            · obtain ⟨hnodes, p, hp⟩ := h.queued n hn
              refine ⟨hnodes, ?_⟩
              rw [HashMap.get_insert]
              split
              · exact ⟨earliest, rfl⟩
              · exact ⟨p, hp⟩
            · obtain rfl := List.mem_singleton.mp hn
              exact ⟨hnode, earliest, HashMap.get_insert_self _ _ _⟩ }
      obtain ⟨hfinal, hmeasure⟩ := ih hrest' (by rwa [HashMap.get_insert_ne _ _ hne]) hlowered
      exact ⟨hfinal, hmeasure.trans (propagationLeft_insert hnode hdec)⟩
    · rw [if_neg hlt]
      refine ih hrest' hdependent { h with settled := fun b n hb hn himp => ?_ }
      by_cases hbn : n = dependent ∧ b = a
      · obtain ⟨rfl, rfl⟩ := hbn
        exact (not_lt.mp hlt).trans hposition.ge
      · refine h.settled b n hb hn fun heq hmem => ?_
        exact himp heq ((List.mem_cons.mp hmem).resolve_left fun hba => hbn ⟨heq, hba⟩)

/-- The propagation ends, with the inherited positions. -/
theorem Propagating.propagate {links : Links} {dependent : RunId} {inherited : HashMap RunId ℕ}
    {queue : List RunId} (hbound : ∀ n p, first n = (p : ℕ) → p < bound)
    (hlinked : Linked nodes edges links) (hknown : ∀ e ∈ edges, e.1 ∈ nodes ∧ e.2 ∈ nodes)
    (fuel : ℕ) (hfuel : propagationLeft nodes bound inherited queue ≤ fuel)
    (h : Propagating edges nodes first dependent [] inherited queue) :
    ∃ last, propagate links.reverse fuel inherited queue = some last ∧
      Inherits edges first (position last) := by
  induction fuel generalizing dependent inherited queue with
  | zero =>
    cases queue with
    | nil =>
      exact ⟨inherited, rfl, h.le,
        fun a n ha => h.settled a n ha List.not_mem_nil fun _ => List.not_mem_nil, h.source⟩
    | cons n queue =>
      simp only [propagationLeft, List.length_cons] at hfuel
      omega
  | succ fuel ih =>
    cases queue with
    | nil =>
      exact ⟨inherited, rfl, h.le,
        fun a n ha => h.settled a n ha List.not_mem_nil fun _ => List.not_mem_nil, h.source⟩
    | cons n queue =>
      obtain ⟨hnode, p, hp⟩ := h.queued n List.mem_cons_self
      have hreverse := hlinked.reverse n
      rw [if_pos hnode] at hreverse
      have hpopped : Propagating edges nodes first n
          ((edges.filter fun e => e.2 = n).map Prod.fst) inherited queue :=
        { h with
          settled := fun a m ha hm himp => by
            by_cases hmn : m = n
            · subst hmn
              refine absurd (List.mem_map.mpr ⟨(a, m), List.mem_filter.mpr ⟨ha, ?_⟩, rfl⟩) (himp rfl)
              exact decide_eq_true rfl
            · refine h.settled a m ha (fun hq => ?_) fun _ => List.not_mem_nil
              exact (List.mem_cons.mp hq).elim hmn hm
          queued := fun m hm => h.queued m (List.mem_cons_of_mem _ hm) }
      obtain ⟨hnext, hmeasure⟩ := hpopped.inherit hbound (fun a ha => by
        obtain ⟨⟨b, c⟩, he, rfl⟩ := List.mem_map.mp ha
        obtain ⟨hedge, hc⟩ := List.mem_filter.mp he
        obtain rfl : c = n := by simpa using hc
        exact ⟨(hknown _ hedge).1, hedge⟩) hp
      obtain ⟨last, hlast, hinherits⟩ := ih (by
        simp only [propagationLeft, List.length_cons] at hfuel hmeasure ⊢
        omega) hnext
      refine ⟨last, ?_, hinherits⟩
      simp only [Tui.propagate, hp, hreverse, Option.bind_eq_bind, Option.bind_some]
      exact hlast

end Propagation

/-! ### The sort -/

theorem popReady_eq_none {ready : List OrderKey} : popReady ready = none ↔ ready = [] := by
  simp only [popReady]
  cases ready with
  | nil => simp
  | cons k ks => simp [List.min?_cons]

theorem popReady_eq_some {ready rest : List OrderKey} {least : OrderKey}
    (h : popReady ready = some (least, rest)) :
    least ∈ ready ∧ (∀ k ∈ ready, least ≤ k) ∧ rest = ready.erase least := by
  simp only [popReady] at h
  split at h
  · cases h
  case h_2 hmin =>
    cases h
    obtain ⟨hmem, hle⟩ := List.min?_eq_some_iff.mp hmin
    exact ⟨hmem, hle, rfl⟩

/-- What holds between two turns of the sort, `done` being the emitted runs and `rest` the
dependents of the last one that are still to be released. -/
structure Emitting (edges : List (RunId × RunId)) (nodes : List RunId) (key : RunId → OrderKey)
    (done rest : List RunId) (indegree : HashMap RunId ℕ) (ready : List OrderKey) : Prop where
  degree : ∀ v d, indegree.get v = some d ↔ v ∈ nodes ∧ d = openCount edges done v + rest.count v
  heap : ∀ k, k ∈ ready ↔ ∃ n, k = key n ∧ n ∈ nodes ∧ n ∉ done ∧
    openCount edges done n + rest.count n = 0
  nodup : ready.Nodup
  release : ∀ v ∈ rest, v ∈ nodes ∧ v ∉ done

section Emission

variable {edges : List (RunId × RunId)} {nodes : List RunId} {key : RunId → OrderKey}

theorem openCount_eq_zero {done : List RunId} {n : RunId} :
    openCount edges done n = 0 ↔ ∀ a, Edge edges a n → a ∈ done := by
  constructor
  · intro h a ha
    by_contra hd
    have : 0 < openCount edges done n :=
      List.countP_pos_iff.mpr ⟨(a, n), ha, by simpa using hd⟩
    omega
  · intro h
    by_contra hne
    obtain ⟨a, ha, hd⟩ := openCount_pos hne
    exact hd (h a ha)

theorem Emitting.free {done : List RunId} {indegree : HashMap RunId ℕ} {ready : List OrderKey}
    (h : Emitting edges nodes key done [] indegree ready)
    (hkey : Function.Injective key) (n : RunId) : key n ∈ ready ↔ Free edges nodes done n := by
  rw [h.heap]
  constructor
  · rintro ⟨m, hm, hnode, hfresh, hcount⟩
    obtain rfl := hkey hm
    exact ⟨hnode, hfresh, openCount_eq_zero.mp (by simpa using hcount)⟩
  · rintro ⟨hnode, hfresh, hparents⟩
    exact ⟨n, rfl, hnode, hfresh, by simpa using openCount_eq_zero.mpr hparents⟩

/-- Releasing the dependents of the emitted run never misses. -/
theorem Emitting.release_rest (hkey : Function.Injective key) {done rest : List RunId}
    {indegree : HashMap RunId ℕ} {ready : List OrderKey}
    (h : Emitting edges nodes key done rest indegree ready) :
    ∃ next, Tui.release key rest indegree ready = some next ∧
      Emitting edges nodes key done [] next.1 next.2 := by
  induction rest generalizing indegree ready with
  | nil => exact ⟨(indegree, ready), rfl, h⟩
  | cons v rest ih =>
    obtain ⟨hnode, hfresh⟩ := h.release v List.mem_cons_self
    set d := openCount edges done v + rest.count v with hd
    have hget : indegree.get v = some (d + 1) :=
      (h.degree v _).mpr ⟨hnode, by rw [List.count_cons_self]; omega⟩
    have hcount : ∀ w, w ≠ v → (v :: rest).count w = rest.count w := fun w hw =>
      List.count_cons_of_ne hw.symm
    -- the dependent was not ready before this edge was taken away
    have hnot : key v ∉ ready := fun hm => by
      obtain ⟨n, hn, -, -, hzero⟩ := (h.heap _).mp hm
      obtain rfl := hkey hn
      rw [List.count_cons_self] at hzero
      omega
    simp only [Tui.release, hget, Option.bind_eq_bind, Option.bind_some, Nat.add_sub_cancel]
    refine ih ⟨fun w e => ?_, fun k => ?_, ?_, fun w hw => h.release w (List.mem_cons_of_mem _ hw)⟩
    · rw [HashMap.get_insert]
      by_cases hw : w = v
      · subst hw
        rw [if_pos rfl, ← hd]
        exact ⟨fun he => ⟨hnode, (Option.some.inj he).symm⟩, fun he => by rw [he.2]⟩
      · rw [if_neg hw, h.degree, hcount w hw]
    · constructor
      · intro hk
        have hcases : k ∈ ready ∨ (d = 0 ∧ k = key v) := by
          split at hk
          case isTrue hzero => exact (List.mem_cons.mp hk).symm.imp id fun hk => ⟨hzero, hk⟩
          case isFalse => exact .inl hk
        rcases hcases with hk | ⟨hzero, rfl⟩
        · obtain ⟨n, rfl, hn, hdone, hz⟩ := (h.heap k).mp hk
          have hnv : n ≠ v := fun heq => hnot (heq ▸ hk)
          exact ⟨n, rfl, hn, hdone, by rwa [hcount n hnv] at hz⟩
        · exact ⟨v, rfl, hnode, hfresh, hzero⟩
      · rintro ⟨n, rfl, hn, hdone, hz⟩
        by_cases hnv : n = v
        · subst hnv
          rw [if_pos (hd.trans hz)]
          exact List.mem_cons_self
        · have hmem : key n ∈ ready := (h.heap _).mpr ⟨n, rfl, hn, hdone, by rwa [hcount n hnv]⟩
          split
          · exact List.mem_cons_of_mem _ hmem
          · exact hmem
    · split
      · exact List.nodup_cons.mpr ⟨hnot, h.nodup⟩
      · exact h.nodup

/-- The emitted runs: known, each once, and with them their parents. -/
structure Emitted (edges : List (RunId × RunId)) (nodes done : List RunId) : Prop where
  nodup : done.Nodup
  known : ∀ n ∈ done, n ∈ nodes
  closed : ∀ n ∈ done, ∀ a, Edge edges a n → a ∈ done

theorem Emitted.cons {done : List RunId} {n : RunId} (h : Emitted edges nodes done)
    (hn : Free edges nodes done n) : Emitted edges nodes (n :: done) := by
  refine ⟨List.nodup_cons.mpr ⟨hn.fresh, h.nodup⟩, fun m hm => ?_, fun m hm a ha => ?_⟩
  · rcases List.mem_cons.mp hm with rfl | hm
    · exact hn.node
    · exact h.known m hm
  · rcases List.mem_cons.mp hm with rfl | hm
    · exact List.mem_cons_of_mem _ (hn.ready a ha)
    · exact List.mem_cons_of_mem _ (h.closed m hm a ha)

/-- The sort ends, with a greedy run. -/
theorem Emitting.emit {links : Links} (hkey : Function.Injective key)
    (hrunId : ∀ n, (key n).runId = n) (hlinked : Linked nodes edges links)
    (hknown : ∀ e ∈ edges, e.1 ∈ nodes ∧ e.2 ∈ nodes) (fuel : ℕ) {done : List RunId}
    {indegree : HashMap RunId ℕ} {ready : List OrderKey} (hdone : Emitted edges nodes done)
    (hfuel : nodes.length ≤ fuel + done.length)
    (h : Emitting edges nodes key done [] indegree ready) :
    ∃ ordered, emit key links.outgoing fuel indegree ready = some ordered ∧
      Greedy edges nodes key done ordered := by
  have hstop : ready = [] → Greedy edges nodes key done [] := fun hempty =>
    .stop fun n hn => List.not_mem_nil (hempty ▸ (h.free hkey n).mpr hn)
  induction fuel generalizing done indegree ready with
  | zero =>
    have hempty : ready = [] := by
      rw [List.eq_nil_iff_forall_not_mem]
      intro k hk
      obtain ⟨n, rfl, hnode, hfresh, -⟩ := (h.heap k).mp hk
      have hlonger := ((List.nodup_cons.mpr ⟨hfresh, hdone.nodup⟩).subperm fun m hm =>
        (List.mem_cons.mp hm).elim (fun heq => heq ▸ hnode) (hdone.known m)).length_le
      rw [List.length_cons] at hlonger
      omega
    exact ⟨[], by simp [Tui.emit, hempty], hstop hempty⟩
  | succ fuel ih =>
    cases hpop : popReady ready with
    | none => exact ⟨[], by simp [Tui.emit, hpop], hstop (popReady_eq_none.mp hpop)⟩
    | some popped =>
      obtain ⟨least, rest⟩ := popped
      obtain ⟨hmem, hleast, rfl⟩ := popReady_eq_some hpop
      obtain ⟨n, rfl, -⟩ := (h.heap least).mp hmem
      have hfree : Free edges nodes done n := (h.free hkey n).mp hmem
      set dependents := (edges.filter fun e => e.1 = n).map Prod.snd with hdependents
      have hcount : ∀ v, openCount edges done v =
          openCount edges (n :: done) v + dependents.count v := fun v =>
        openCount_cons edges done n v hfree.fresh
      have hmemKey : ∀ k, k ∈ ready.erase (key n) ↔ k ≠ key n ∧ k ∈ ready := fun k =>
        h.nodup.mem_erase_iff
      have hemitting : Emitting edges nodes key (n :: done) dependents indegree
          (ready.erase (key n)) := by
        refine ⟨fun v d => ?_, fun k => ?_, h.nodup.erase _, fun v hv => ?_⟩
        · rw [h.degree, List.count_nil, Nat.add_zero, hcount]
        · rw [hmemKey, h.heap]
          constructor
          · rintro ⟨hne, m, rfl, hnode, hfresh, hzero⟩
            refine ⟨m, rfl, hnode, fun hm => ?_, by rwa [List.count_nil, Nat.add_zero, hcount] at hzero⟩
            exact (List.mem_cons.mp hm).elim (fun heq => hne (heq ▸ rfl)) hfresh
          · rintro ⟨m, rfl, hnode, hfresh, hzero⟩
            refine ⟨fun heq => hfresh (hkey heq ▸ List.mem_cons_self), m, rfl, hnode,
              fun hm => hfresh (List.mem_cons_of_mem _ hm), ?_⟩
            rw [List.count_nil, Nat.add_zero, hcount]
            exact hzero
        · obtain ⟨⟨a, b⟩, he, rfl⟩ := List.mem_map.mp hv
          obtain ⟨hedge, ha⟩ := List.mem_filter.mp he
          obtain rfl : a = n := by simpa using ha
          refine ⟨(hknown _ hedge).2, fun hd => hfree.fresh ?_⟩
          -- an emitted dependent would have had this run emitted before
          rcases List.mem_cons.mp hd with hb | hd
          · exact hfree.ready a (show (a, a) ∈ edges from (congrArg (Prod.mk a) hb) ▸ hedge)
          · exact hdone.closed b hd a hedge
      obtain ⟨next, hnext, hafter⟩ := hemitting.release_rest hkey
      obtain ⟨ordered, hordered, hgreedy⟩ := ih (hdone.cons hfree)
        (by rw [List.length_cons]; omega) hafter
        fun hempty => .stop fun m hm => List.not_mem_nil (hempty ▸ (hafter.free hkey m).mpr hm)
      refine ⟨n :: ordered, ?_, .pick hfree (fun m hm => ?_) hgreedy⟩
      · have houtgoing := hlinked.outgoing n
        rw [if_pos hfree.node] at houtgoing
        simp only [Tui.emit, hpop, hrunId, houtgoing, ← hdependents, hnext, hordered,
          Option.bind_eq_bind, Option.bind_some, Option.pure_def]
      · exact hleast _ ((h.free hkey m).mpr hm)

end Emission

end HerdrTop.Tui
