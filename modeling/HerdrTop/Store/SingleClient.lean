import HerdrTop.Store.Acknowledgements

/-!
# A single client of the writer

The collector is the only one who sends commands, and waits for each answer before it sends the next. While the
health is degraded it sends nothing but probes and readbacks, whose replies it waits for. So a failure of one command
is never the answer of another: when the health is fine, the thread is done with every command that was sent.

## What is proved

* `Rested.working`: the health does not change between two calls.
* `Rested.call`, `Rested.ask`: after a call the health is what the answer says, and there is nothing left to do if it
  is fine.
* `Call.told`: an answer tells the truth about its own command.
-/

namespace HerdrTop.Acknowledgement

/-- Whether an event is that of a command that is sent. -/
def Event.isSend : Event → Bool
  | .sent _ | .refused _ => true
  | _ => false

/-- The thread is done with the command. -/
def Place.done : Place → Bool
  | .refused | .replied _ _ | .closed _ => true
  | _ => false

/-- The thread works, or who waits looks; nobody sends. -/
def Working (s : System) (l : List (ℕ × Event)) (s' : System) : Prop :=
  Step s l s' ∧ ∀ label ∈ l, label.2.isSend = false

/-- The client sends a command and waits for the answer. -/
inductive Call (kind : CommandKind) (s : System) : List (ℕ × Event) → Reply → System → Prop
  | refused : s.alive = false →
      Call kind s [(s.commands.length, .refused kind),
          (s.commands.length, .answered (.error (queueFailure kind.operation)))]
        (.error (queueFailure kind.operation))
        (s.add ⟨kind, .refused, .returned⟩ (s.health.publishFailure (queueFailure kind.operation)))
  | answered {t : System} {ls : List (ℕ × Event)} {c c' : Command} {reply : Reply} {health : PersistenceStatus} :
      Runs Working (s.add ⟨kind, .queued, .waiting⟩ s.health) ls t → t.commands[s.commands.length]? = some c →
      Turn t.alive t.health c [.answered reply] c' health →
      Call kind s ((s.commands.length, .sent kind) :: ls ++ [(s.commands.length, .answered reply)]) reply
        (t.put s.commands.length c' health)

/-- Nobody waits, and the thread is done with everything if the health is fine. -/
structure Rested (s : System) : Prop where
  returned : ∀ {id : ℕ} {c : Command}, s.commands[id]? = some c → c.waiter = .returned
  done : ∀ {id : ℕ} {c : Command}, s.commands[id]? = some c → s.health = .healthy ∨ c.kind.responseOnly = true →
    c.place.done = true

variable {s s' t : System} {l ls past : List (ℕ × Event)} {id : ℕ} {kind : CommandKind} {c c' : Command}
  {alive : Bool} {health health' : PersistenceStatus} {events : List Event} {reply : Reply}
  {failure first : PersistenceFailure}

theorem rested_empty : Rested {} := by
  constructor <;> simp

/-! ### What the thread does to one command -/

/-- One command moves on, and with it the health and whether the thread runs. -/
inductive Moves (s : System) (id : ℕ) : Command → Command → PersistenceStatus → Bool → Prop
  | begin {kind : CommandKind} {waiter : Waiter} : s.alive = true → (∀ c ∈ s.commands, c.place.busy = false) →
      (∀ c ∈ s.commands.take id, c.place ≠ .queued) →
      Moves s id ⟨kind, .queued, waiter⟩ ⟨kind, .begun .untouched, waiter⟩ s.health true
  | turn {c c' : Command} {events : List Event} {health : PersistenceStatus} :
      Turn s.alive s.health c events c' health → Moves s id c c' health s.alive
  | reply {kind : CommandKind} {progress : Progress} {result : Reply} {waiter : Waiter} (alive : Bool) :
      s.alive = true →
      Moves s id ⟨kind, .stored progress result, waiter⟩ ⟨kind, .replied progress result, waiter⟩ s.health alive
  | crash {kind : CommandKind} {progress : Progress} {waiter : Waiter} :
      Moves s id ⟨kind, .begun progress, waiter⟩ ⟨kind, .begun progress, waiter⟩
        (if kind.guarded then s.health.publishFailure (acknowledgementFailure kind.operation) else s.health) false

/-- A step in which nobody sends moves at most one command. -/
theorem Working.moves (h : Working s l s') :
    s'.commands = s.commands ∧ s'.health = s.health ∧ (s'.alive = true → s.alive = true) ∨
      ∃ id c c', s.commands[id]? = some c ∧ s'.commands = s.commands.set id c' ∧
        Moves s id c c' s'.health s'.alive := by
  obtain ⟨hstep, hsend⟩ := h
  cases hstep with
  | send => simp [Event.isSend] at hsend
  | refuse => simp [Event.isSend] at hsend
  | refusePlace => simp [Event.isSend] at hsend
  | begin halive hget hbusy hqueued =>
    refine .inr ⟨_, _, _, hget, rfl, ?_⟩
    show Moves s _ _ _ s.health s.alive
    rw [halive]
    exact .begin halive hbusy hqueued
  | turn hget hturn => exact .inr ⟨_, _, _, hget, rfl, .turn hturn⟩
  | reply halive hget => exact .inr ⟨_, _, _, hget, rfl, .reply _ halive⟩
  | stop => exact .inl ⟨rfl, rfl, by simp⟩
  | crash _ hget =>
    obtain ⟨hlt, heq⟩ := List.getElem?_eq_some_iff.mp hget
    refine .inr ⟨_, _, _, hget, ?_, .crash⟩
    rw [← heq, List.set_getElem_self]

/-- A failure that the health holds stays, unless a probe succeeds. -/
theorem afterResult_degraded (h : kind ≠ .probe ∨ reply ≠ .ok ()) :
    (PersistenceStatus.degraded first).afterResult kind reply = .degraded first := by
  cases kind <;> cases reply <;> simp_all [PersistenceStatus.afterResult, PersistenceStatus.publishFailure]

theorem ne_probe (h : kind.responseOnly = false) : kind ≠ .probe := by
  rintro rfl
  cases h

/-- A command for which nobody waits is only worked at, and a failure that the health holds stays. -/
theorem Moves.returned (h : Moves s id c c' health' alive) (hreturned : c.waiter = .returned) :
    c.place.done = false ∧ c'.waiter = .returned ∧ c'.kind = c.kind ∧
      ∀ {first}, s.health = .degraded first → c.kind.responseOnly = false → health' = .degraded first := by
  cases h with
  | begin => exact ⟨rfl, hreturned, rfl, fun hhealth _ => hhealth⟩
  | reply => exact ⟨rfl, hreturned, rfl, fun hhealth _ => hhealth⟩
  | crash =>
    refine ⟨rfl, hreturned, rfl, fun hhealth _ => ?_⟩
    rw [hhealth]
    split_ifs <;> rfl
  | turn hturn =>
    cases hturn with
    | commit => exact ⟨rfl, hreturned, rfl, fun hhealth _ => hhealth⟩
    | recognize => exact ⟨rfl, hreturned, rfl, fun hhealth _ => hhealth⟩
    | finish =>
      refine ⟨rfl, hreturned, rfl, fun hhealth hkind => ?_⟩
      rw [hhealth, afterResult_degraded (.inl (ne_probe hkind))]
    | close _ hplace =>
      refine ⟨?_, hreturned, rfl, fun hhealth _ => hhealth⟩
      rcases hplace with rfl | ⟨progress, rfl⟩ <;> rfl
    | abandon hwaiter => exact absurd hreturned hwaiter
    | _ => cases hreturned

theorem set_getElem (hget : s.commands[id]? = some c) {j : ℕ} {d : Command} :
    (s.commands.set id c')[j]? = some d ↔ j = id ∧ d = c' ∨ j ≠ id ∧ s.commands[j]? = some d := by
  have hlt := (List.getElem?_eq_some_iff.mp hget).1
  by_cases hj : j = id
  · subst hj
    rw [List.getElem?_set_self hlt]
    simp [eq_comm]
  · rw [List.getElem?_set_ne (Ne.symm hj)]
    simp [hj]

/-! ### Between two calls -/

/-- Between two calls the thread may finish what is left, but the health stays. -/
theorem Rested.working (h : Rested s) (hstep : Working s l s') : Rested s' ∧ s'.health = s.health := by
  rcases hstep.moves with ⟨hcommands, hhealth, -⟩ | ⟨id, c, c', hget, hcommands, hmoves⟩
  · constructor
    · constructor
      · intro j d hd
        exact h.returned (hcommands ▸ hd)
      · intro j d hd hwhen
        exact h.done (hcommands ▸ hd) (hhealth ▸ hwhen)
    · exact hhealth
  · obtain ⟨hundone, hwaiter, hkind, hkeeps⟩ := hmoves.returned (h.returned hget)
    -- the thread is not done with it: it was given up, in an outage
    have hresponse : c.kind.responseOnly = false := by
      by_contra hresponse
      rw [h.done hget (.inr (by simpa using hresponse))] at hundone
      cases hundone
    cases hhealth : s.health with
    | healthy =>
      rw [h.done hget (.inl hhealth)] at hundone
      cases hundone
    | degraded failure =>
      have hkept : s'.health = .degraded failure := hkeeps hhealth hresponse
      refine ⟨⟨?_, ?_⟩, hkept⟩
      · intro j d hd
        rw [hcommands, set_getElem hget] at hd
        rcases hd with ⟨-, rfl⟩ | ⟨-, hd⟩
        · exact hwaiter
        · exact h.returned hd
      · intro j d hd hwhen
        rw [hkept] at hwhen
        have hresponse' : d.kind.responseOnly = true := by
          rcases hwhen with hhealthy | hresponse'
          · cases hhealthy
          · exact hresponse'
        rw [hcommands, set_getElem hget] at hd
        rcases hd with ⟨-, rfl⟩ | ⟨-, hd⟩
        · rw [hkind, hresponse] at hresponse'
          cases hresponse'
        · exact h.done hd (.inr hresponse')

/-! ### A call while the health is fine -/

/-- What the health holds comes from the command. -/
def Blames (alive : Bool) (c : Command) (health : PersistenceStatus) : Prop :=
  c.place.result = none ∧
      (health = .healthy ∨ alive = false ∧ health = .degraded (acknowledgementFailure c.kind.operation)) ∨
    c.place.result = some (.ok ()) ∧ health = .healthy ∨
    ∃ failure, c.place.result = some (.error failure) ∧ health = .degraded failure

theorem Blames.unanswered (h : Blames alive c health) (hnone : c.place.result = none) :
    health = .healthy ∨ alive = false ∧ health = .degraded (acknowledgementFailure c.kind.operation) := by
  rcases h with ⟨-, hhealth⟩ | ⟨hresult, -⟩ | ⟨failure, hresult, -⟩
  · exact hhealth
  · rw [hnone] at hresult
    cases hresult
  · rw [hnone] at hresult
    cases hresult

/-- The thread stops. -/
theorem Blames.mono {alive' : Bool} (h : Blames alive c health) (halive : alive' = true → alive = true) :
    Blames alive' c health := by
  refine h.imp_left (And.imp_right (Or.imp_right (And.imp_left fun hstopped => ?_)))
  by_contra hruns
  rw [halive (by simpa using hruns)] at hstopped
  cases hstopped

theorem afterResult_own (reply : Reply) (hkind : kind.responseOnly = false) :
    PersistenceStatus.healthy.afterResult kind reply = .healthy ∧ reply = .ok () ∨
      ∃ failure, PersistenceStatus.healthy.afterResult kind reply = .degraded failure ∧ reply = .error failure := by
  cases kind <;> cases reply <;>
    simp_all [PersistenceStatus.afterResult, PersistenceStatus.publishFailure, CommandKind.responseOnly]

/-- The command for which the client waits moves on. -/
theorem Moves.blames {alive' : Bool} (h : Moves s id c c' health' alive') (hblames : Blames s.alive c s.health)
    (hplace : c.place ≠ .refused) (hkind : c.kind.responseOnly = false) (hwaiter : c'.waiter ≠ .returned) :
    c'.kind = c.kind ∧ c'.place ≠ .refused ∧ Blames alive' c' health' := by
  cases h with
  | begin halive =>
    refine ⟨rfl, by simp, .inl ⟨rfl, ?_⟩⟩
    rw [← halive]
    exact hblames.unanswered rfl
  | reply alive' halive => exact ⟨rfl, by simp, hblames.mono fun _ => halive⟩
  | crash =>
    refine ⟨rfl, by simp, .inl ⟨rfl, ?_⟩⟩
    rcases hblames.unanswered rfl with hhealth | ⟨-, hhealth⟩
    · rw [hhealth]
      split_ifs
      · exact .inr ⟨rfl, rfl⟩
      · exact .inl rfl
    · rw [hhealth]
      split_ifs <;> exact .inr ⟨rfl, rfl⟩
  | turn hturn =>
    cases hturn with
    | commit => exact ⟨rfl, by simp, .inl ⟨rfl, hblames.unanswered rfl⟩⟩
    | recognize => exact ⟨rfl, by simp, .inl ⟨rfl, hblames.unanswered rfl⟩⟩
    | look => exact ⟨rfl, hplace, hblames⟩
    | rest => exact ⟨rfl, hplace, hblames⟩
    | close _ hclosing =>
      refine ⟨rfl, by simp, .inl ⟨rfl, hblames.unanswered ?_⟩⟩
      rcases hclosing with rfl | ⟨progress, rfl⟩ <;> rfl
    | @finish _ _ _ result halive =>
      refine ⟨rfl, by simp, .inr ?_⟩
      rcases hblames.unanswered rfl with hhealth | ⟨hstopped, -⟩
      · rw [hhealth]
        rcases afterResult_own result hkind with ⟨hafter, rfl⟩ | ⟨failure, hafter, rfl⟩
        · exact .inl ⟨rfl, hafter⟩
        · exact .inr ⟨failure, rfl, hafter⟩
      · rw [halive] at hstopped
        cases hstopped
    | _ => exact absurd rfl hwaiter

/-- The client waits for one command, and the thread is done with all others. -/
structure Sole (id : ℕ) (kind : CommandKind) (s : System) : Prop where
  others : ∀ {j : ℕ} {d : Command}, s.commands[j]? = some d → j ≠ id → d.waiter = .returned ∧ d.place.done = true
  mine : ∃ c, s.commands[id]? = some c ∧ c.kind = kind ∧ c.place ≠ .refused ∧ Blames s.alive c s.health

/-- The client has given up. -/
def Gone (id : ℕ) (s : System) : Prop := ∃ c, s.commands[id]? = some c ∧ c.waiter = .returned

theorem Gone.working (h : Gone id s) (hstep : Working s l s') : Gone id s' := by
  obtain ⟨c, hget, hwaiter⟩ := h
  rcases hstep.moves with ⟨hcommands, -⟩ | ⟨j, d, d', hd, hcommands, hmoves⟩
  · exact ⟨c, hcommands ▸ hget, hwaiter⟩
  · by_cases hid : id = j
    · subst hid
      obtain rfl := Option.some.inj (hd.symm.trans hget)
      refine ⟨d', ?_, (hmoves.returned hwaiter).2.1⟩
      rw [hcommands, set_getElem hd]
      exact .inl ⟨rfl, rfl⟩
    · refine ⟨c, ?_, hwaiter⟩
      rw [hcommands, set_getElem hd]
      exact .inr ⟨hid, hget⟩

theorem Sole.working (h : Sole id kind s) (hkind : kind.responseOnly = false) (hstep : Working s l s') :
    Sole id kind s' ∨ Gone id s' := by
  obtain ⟨c, hget, rfl, hplace, hblames⟩ := h.mine
  rcases hstep.moves with ⟨hcommands, hhealth, halive⟩ | ⟨j, d, d', hd, hcommands, hmoves⟩
  · refine .inl ⟨fun hd => h.others (hcommands ▸ hd), c, hcommands ▸ hget, rfl, hplace, ?_⟩
    rw [hhealth]
    exact hblames.mono halive
  · have hid : j = id := by
      by_contra hne
      obtain ⟨hwaiter, hdone⟩ := h.others hd hne
      rw [(hmoves.returned hwaiter).1] at hdone
      cases hdone
    subst hid
    obtain rfl := Option.some.inj (hd.symm.trans hget)
    have hd' : s'.commands[j]? = some d' := by
      rw [hcommands, set_getElem hd]
      exact .inl ⟨rfl, rfl⟩
    by_cases hwaiter : d'.waiter = .returned
    · exact .inr ⟨d', hd', hwaiter⟩
    · obtain ⟨hkind', hplace', hblames'⟩ := hmoves.blames hblames hplace hkind hwaiter
      refine .inl ⟨?_, d', hd', hkind', hplace', hblames'⟩
      intro i e he hne
      rw [hcommands, set_getElem hd] at he
      rcases he with ⟨rfl, -⟩ | ⟨-, he⟩
      · exact absurd rfl hne
      · exact h.others he hne

/-- An answer is the result of the command, or the failure of the thread that stopped at it; the health says the
same. -/
structure Fits (c : Command) (reply : Reply) (health : PersistenceStatus) : Prop where
  ok : reply = .ok () → c.place.result = some (.ok ()) ∧ health = .healthy
  error : ∀ failure, reply = .error failure → health = .degraded failure ∧
    (c.place.result = some (.error failure) ∨ failure = acknowledgementFailure c.kind.operation)

theorem Blames.answer (h : Blames alive c health) (hkind : c.kind.responseOnly = false)
    (hturn : Turn alive health c [.answered reply] c' health') :
    Fits c reply health' ∧ c'.waiter = .returned ∧ c'.place = c.place := by
  cases hturn with
  | takeReply =>
    refine ⟨⟨?_, ?_⟩, rfl, rfl⟩
    · rintro rfl
      rcases h with ⟨hresult, -⟩ | ⟨hresult, hhealth⟩ | ⟨failure, hresult, -⟩
      · cases hresult
      · exact ⟨hresult, hhealth⟩
      · cases hresult
    · rintro failure rfl
      rcases h with ⟨hresult, -⟩ | ⟨hresult, -⟩ | ⟨failure', hresult, hhealth⟩
      · cases hresult
      · cases hresult
      · cases hresult
        exact ⟨hhealth, .inl rfl⟩
  | @takeHealth kind place failure hhealth =>
    subst hhealth
    refine ⟨⟨by simp, ?_⟩, rfl, rfl⟩
    rintro failure' hreply
    cases hreply
    refine ⟨rfl, ?_⟩
    rcases h with ⟨-, hhealth | ⟨-, hhealth⟩⟩ | ⟨-, hhealth⟩ | ⟨failure', hresult, hhealth⟩
    · cases hhealth
    · cases hhealth
      exact .inr rfl
    · cases hhealth
    · cases hhealth
      exact .inl hresult
  | @takeClosed kind progress failure _ hpublished =>
    refine ⟨⟨by simp, ?_⟩, rfl, rfl⟩
    rintro failure' hreply
    cases hreply
    refine ⟨rfl, .inr ?_⟩
    rcases h.unanswered rfl with rfl | ⟨-, rfl⟩ <;>
    · cases hpublished
      rfl
  | takeClosedOnly honly =>
    rw [honly] at hkind
    cases hkind

/-- A state in which the client has returned from its command is rested if the others are. -/
theorem rested_put (hget : s.commands[id]? = some c) (hwaiter : c'.waiter = .returned)
    (hothers : ∀ {j : ℕ} {d : Command}, s.commands[j]? = some d → j ≠ id →
      d.waiter = .returned ∧ (health = .healthy ∨ d.kind.responseOnly = true → d.place.done = true))
    (hdone : health = .healthy ∨ c'.kind.responseOnly = true → c'.place.done = true) :
    Rested (s.put id c' health) := by
  have hother : ∀ {j : ℕ} {d : Command}, (s.put id c' health).commands[j]? = some d →
      j = id ∧ d = c' ∨ j ≠ id ∧ s.commands[j]? = some d := (set_getElem hget).mp
  constructor
  · intro j d hd
    rcases hother hd with ⟨-, rfl⟩ | ⟨hne, hd⟩
    · exact hwaiter
    · exact (hothers hd hne).1
  · intro j d hd hwhen
    rcases hother hd with ⟨-, rfl⟩ | ⟨hne, hd⟩
    · exact hdone hwhen
    · exact (hothers hd hne).2 hwhen

/-- The state in which the client has its answer. -/
theorem Sole.answer (h : Sole id kind s) (hkind : kind.responseOnly = false) (hget : s.commands[id]? = some c)
    (hturn : Turn s.alive s.health c [.answered reply] c' health) :
    Rested (s.put id c' health) ∧ Fits c reply health ∧ c.kind = kind ∧ c'.place = c.place := by
  obtain ⟨d, hd, rfl, -, hblames⟩ := h.mine
  obtain rfl := Option.some.inj (hget.symm.trans hd)
  obtain ⟨hfits, hwaiter, hplace⟩ := hblames.answer hkind hturn
  refine ⟨rested_put hget hwaiter ?_ ?_, hfits, rfl, hplace⟩
  · intro j e he hne
    obtain ⟨hreturned, hdone⟩ := h.others he hne
    exact ⟨hreturned, fun _ => hdone⟩
  · intro hwhen
    cases hturn with
    | takeReply => rfl
    | takeHealth hhealth =>
      rcases hwhen with hhealthy | honly
      · rw [hhealthy] at hhealth
        cases hhealth
      · rw [hkind] at honly
        cases honly
    | takeClosed => rfl
    | takeClosedOnly => rfl

theorem Turn.waits (h : Turn alive health c [.answered reply] c' health') : c.waiter ≠ .returned := by
  cases h <;> simp

theorem add_getElem {j : ℕ} {d : Command} (h : (s.add c health).commands[j]? = some d) :
    j = s.commands.length ∧ d = c ∨ j ≠ s.commands.length ∧ s.commands[j]? = some d := by
  have h : (s.commands ++ [c])[j]? = some d := h
  rcases Nat.lt_trichotomy j s.commands.length with hlt | rfl | hlt
  · rw [List.getElem?_append_left hlt] at h
    exact .inr ⟨by omega, h⟩
  · rw [List.getElem?_concat_length] at h
    exact .inl ⟨rfl, (Option.some.inj h).symm⟩
  · rw [List.getElem?_eq_none (by simp; omega)] at h
    cases h

theorem Rested.sole (h : Rested s) (hhealth : s.health = .healthy) (kind : CommandKind) :
    Sole s.commands.length kind (s.add ⟨kind, .queued, .waiting⟩ s.health) := by
  constructor
  · intro j d hd hne
    rcases add_getElem hd with ⟨rfl, -⟩ | ⟨-, hd⟩
    · exact absurd rfl hne
    · exact ⟨h.returned hd, h.done hd (.inl hhealth)⟩
  · exact ⟨_, List.getElem?_concat_length, rfl, by simp, .inl ⟨rfl, .inl hhealth⟩⟩

/-- A command that the queue did not take leaves nothing to do. -/
theorem Rested.refused (h : Rested s) (kind : CommandKind) (hhealth : health = .healthy → s.health = .healthy) :
    Rested (s.add ⟨kind, .refused, .returned⟩ health) := by
  constructor
  · intro j d hd
    rcases add_getElem hd with ⟨-, rfl⟩ | ⟨-, hd⟩
    · rfl
    · exact h.returned hd
  · intro j d hd hwhen
    rcases add_getElem hd with ⟨-, rfl⟩ | ⟨-, hd⟩
    · rfl
    · exact h.done hd (hwhen.imp_left hhealth)

/-- How a call ends that begins while the health is fine. -/
theorem Rested.call (h : Rested s) (hhealth : s.health = .healthy) (hkind : kind.responseOnly = false)
    (hcall : Call kind s l reply s') :
    Rested s' ∧ ∃ c, s'.commands[s.commands.length]? = some c ∧ c.kind = kind ∧
      (reply = .ok () → c.place.result = some (.ok ()) ∧ s'.health = .healthy) ∧
      ∀ failure, reply = .error failure → s'.health = .degraded failure ∧
        (c.place.result = some (.error failure) ∨ failure = acknowledgementFailure kind.operation ∨
          failure = queueFailure kind.operation ∧ c.place = .refused) := by
  cases hcall with
  | refused =>
    refine ⟨h.refused kind fun _ => hhealth, ⟨kind, .refused, .returned⟩, List.getElem?_concat_length, rfl,
      by simp, ?_⟩
    rintro failure hreply
    cases hreply
    refine ⟨?_, .inr (.inr ⟨rfl, rfl⟩)⟩
    show s.health.publishFailure _ = _
    rw [hhealth]
    rfl
  | @answered t ls c c' _ health hruns hget hturn =>
    have hsole : Sole s.commands.length kind t ∨ Gone s.commands.length t := by
      refine hruns.invariant (I := fun s' => Sole s.commands.length kind s' ∨ Gone s.commands.length s') ?_
        (.inl (h.sole hhealth kind))
      intro u l v hstep hu
      rcases hu with hsole | hgone
      · exact hsole.working hkind hstep
      · exact .inr (hgone.working hstep)
    rcases hsole with hsole | ⟨d, hd, hwaiter⟩
    · obtain ⟨hrested, hfits, rfl, hplace⟩ := hsole.answer hkind hget hturn
      have hkind' : c'.kind = c.kind := by cases hturn <;> rfl
      refine ⟨hrested, c', ?_, hkind', ?_, ?_⟩
      · show (t.commands.set _ c')[_]? = _
        rw [set_getElem hget]
        exact .inl ⟨rfl, rfl⟩
      · rw [hplace]
        exact hfits.ok
      · intro failure hreply
        rw [hplace]
        exact (hfits.error failure hreply).imp_right (Or.imp_right .inl)
    · obtain rfl := Option.some.inj (hd.symm.trans hget)
      exact absurd hwaiter hturn.waits

/-! ### What the answers tell -/

theorem Working.runs (h : Runs Working s l s') : Runs Step s l s' := h.mono fun hstep => hstep.1

theorem Call.runs (h : Call kind s l reply s') : Runs Step s l s' := by
  cases h with
  | refused hstopped => exact .one (.refuse kind hstopped)
  | answered hruns hget hturn =>
    have hsent : Runs Step s [(s.commands.length, .sent kind)] (s.add ⟨kind, .queued, .waiting⟩ s.health) :=
      .one (.send kind)
    have hdone := ((hsent.trans (Working.runs hruns)).tail (.turn hget hturn))
    simpa using hdone

theorem Traced.runs (h : Traced past s) (hruns : Runs Step s l s') : Traced (past ++ l) s' := by
  induction hruns with
  | refl => simpa using h
  | tail _ hstep ih =>
    rw [← List.append_assoc]
    exact ih.step hstep

theorem operation_durability (h : kind.transacts = true) :
    (acknowledgementFailure kind.operation).durability = .unknown ∧
      (queueFailure kind.operation).durability = .notCommitted := by
  unfold CommandKind.transacts at h
  simp [acknowledgementFailure, queueFailure, nonAcknowledgementDurability, h]

/-- What is known of the store from an error of a command that changes it. -/
theorem Outcome.error_durability {progress : Progress} (h : Outcome kind progress (.error failure))
    (hkind : kind.transacts = true) :
    failure.durability = .committed ∧ progress ≠ .untouched ∨
      failure.durability = .notCommitted := by
  cases h with
  | cleanupAfter _ _ hprogress => exact .inl ⟨rfl, hprogress⟩
  | failed => exact .inr rfl
  | unread => exact .inr rfl
  | unanswered _ hmem =>
    simp only [List.mem_cons, List.not_mem_nil, or_false] at hmem
    rcases hmem with rfl | rfl | rfl <;> cases hkind

/-- The transaction of the command is in the store. -/
def Stored (id : ℕ) (ls : List (ℕ × Event)) : Prop := (id, .committed) ∈ ls ∨ (id, .recognized) ∈ ls

theorem Trace.stored (h : Trace (eventsOf id past) c) (hprogress : c.place.progress ≠ .untouched) : Stored id past := by
  cases hplace : c.place.progress with
  | untouched => exact absurd hplace hprogress
  | committed => exact .inl (mem_eventsOf.mp (h.placed.committed.mpr hplace))
  | recognized => exact .inr (mem_eventsOf.mp (h.placed.recognized.mpr hplace))

/-- Who calls while the health is fine is told the truth about the own command, but for a drain that is completed and
whose page cannot be read. -/
theorem Call.told (hs : Traced past s) (h : Rested s) (hhealth : s.health = .healthy)
    (honly : kind.responseOnly = false) (hkind : kind.transacts = true) (hcall : Call kind s l reply s') :
    (reply = .ok () → Stored s.commands.length (past ++ l)) ∧
      ∀ failure, reply = .error failure →
        failure.durability = .committed ∧ Stored s.commands.length (past ++ l) ∨
        failure.durability = .unknown ∨
        failure.durability = .notCommitted ∧
          (Settled s.commands.length .untouched s' ∨ Unread s.commands.length failure (past ++ l)) := by
  obtain ⟨-, c, hget, rfl, hok, herror⟩ := h.call hhealth honly hcall
  have htrace : Trace (eventsOf s.commands.length (past ++ l)) c := (hs.runs hcall.runs).trace hget
  constructor
  · intro hreply
    refine htrace.stored ?_
    rcases (htrace.placed.outcome _ (hok hreply).1).ok_durable hkind with hprogress | hprogress
    · simp [hprogress]
    · simp [hprogress]
  · intro failure hreply
    obtain ⟨hunknown, hrefused⟩ := operation_durability hkind
    rcases (herror failure hreply).2 with hresult | rfl | ⟨rfl, hplace⟩
    · rcases (htrace.placed.outcome _ hresult).error_durability hkind with
        ⟨hdurability, hprogress⟩ | hdurability
      · exact .inl ⟨hdurability, htrace.stored hprogress⟩
      · exact .inr (.inr ⟨hdurability, htrace.own_failure hresult hdurability hget⟩)
    · exact .inr (.inl hunknown)
    · refine .inr (.inr ⟨hrefused, .inl ⟨c, hget, ?_⟩⟩)
      rw [hplace]
      exact ⟨rfl, by simp, by simp⟩

/-! ### A question during an outage -/

/-- The health after the result of a command that found a failure there, if there is a result. -/
def askedHealth (first : PersistenceFailure) (kind : CommandKind) (place : Place) : PersistenceStatus :=
  match place.result with
  | some result => (PersistenceStatus.degraded first).afterResult kind result
  | none => .degraded first

/-- The client waits for a reply. The thread comes to it after everything else. -/
structure Asking (first : PersistenceFailure) (id : ℕ) (kind : CommandKind) (s : System) : Prop where
  last : s.commands.length = id + 1
  others : ∀ {j : ℕ} {d : Command}, s.commands[j]? = some d → j ≠ id →
    d.waiter = .returned ∧ (d.kind.responseOnly = true → d.place.done = true)
  mine : ∃ c, s.commands[id]? = some c ∧ c.kind = kind ∧ c.waiter ≠ .looked ∧
    s.health = askedHealth first kind c.place ∧
    (c.place = .queued ∨ (∃ progress, c.place = .closed progress) ∨
      ∀ {j : ℕ} {d : Command}, s.commands[j]? = some d → j ≠ id → d.place.done = true)

theorem done_of_idle {place : Place} (hbusy : place.busy = false) (hqueued : place ≠ .queued) : place.done = true := by
  cases place <;> simp_all [Place.busy, Place.done]

/-- The question moves on. -/
theorem Asking.moves {alive' : Bool} (h : Asking first id kind s) (hkind : kind.responseOnly = true)
    (hget : s.commands[id]? = some c) (hmoves : Moves s id c c' health' alive') (hwaiter : c'.waiter ≠ .returned) :
    c'.kind = kind ∧ c'.waiter ≠ .looked ∧ health' = askedHealth first kind c'.place ∧
      (c'.place = .queued ∨ (∃ progress, c'.place = .closed progress) ∨
        ∀ {j : ℕ} {d : Command}, s.commands[j]? = some d → j ≠ id → d.place.done = true) := by
  obtain ⟨d, hd, rfl, hlooked, hhealth, hplace⟩ := h.mine
  obtain rfl := Option.some.inj (hget.symm.trans hd)
  cases hmoves with
  | begin _ hbusy hqueued =>
    refine ⟨rfl, hlooked, hhealth, .inr (.inr ?_)⟩
    intro j e he hne
    obtain ⟨hlt, heq⟩ := List.getElem?_eq_some_iff.mp he
    have hlast := h.last
    have hmem : e ∈ s.commands.take id := by
      rw [← heq, List.mem_take_iff_getElem]
      exact ⟨j, by omega, rfl⟩
    exact done_of_idle (hbusy e (List.mem_of_mem_take hmem)) (hqueued e hmem)
  | reply _ _ =>
    refine ⟨rfl, hlooked, hhealth, .inr (.inr ?_)⟩
    rcases hplace with hplace | ⟨progress, hplace⟩ | hdone
    · cases hplace
    · cases hplace
    · exact hdone
  | crash =>
    refine ⟨rfl, hlooked, ?_, hplace⟩
    rw [hhealth]
    split_ifs <;> rfl
  | turn hturn =>
    have hbegun : ∀ {progress : Progress}, c.place = .begun progress →
        ∀ {j : ℕ} {d : Command}, s.commands[j]? = some d → j ≠ id → d.place.done = true := by
      intro progress hbegun
      rw [hbegun] at hplace
      rcases hplace with hplace | ⟨progress, hplace⟩ | hdone
      · cases hplace
      · cases hplace
      · exact hdone
    cases hturn with
    | commit => exact ⟨rfl, hlooked, hhealth, .inr (.inr (hbegun rfl))⟩
    | recognize => exact ⟨rfl, hlooked, hhealth, .inr (.inr (hbegun rfl))⟩
    | finish =>
      refine ⟨rfl, hlooked, ?_, .inr (.inr (hbegun rfl))⟩
      rw [hhealth]
      rfl
    | close _ hclosing =>
      refine ⟨rfl, hlooked, ?_, .inr (.inl ⟨_, rfl⟩)⟩
      rw [hhealth]
      rcases hclosing with rfl | ⟨progress, rfl⟩ <;> rfl
    | look honly =>
      rw [hkind] at honly
      cases honly
    | rest => exact absurd rfl hlooked
    | _ => exact absurd rfl hwaiter

theorem Asking.working (h : Asking first id kind s) (hkind : kind.responseOnly = true) (hstep : Working s l s') :
    Asking first id kind s' ∨ Gone id s' := by
  obtain ⟨c, hget, hckind, hlooked, hhealth, hplace⟩ := h.mine
  rcases hstep.moves with ⟨hcommands, hhealth', -⟩ | ⟨j, d, d', hd, hcommands, hmoves⟩
  · refine .inl ⟨hcommands ▸ h.last, fun hd => h.others (hcommands ▸ hd), c, hcommands ▸ hget, hckind, hlooked, ?_, ?_⟩
    · exact hhealth'.trans hhealth
    · rw [hcommands]
      exact hplace
  have hlast : s'.commands.length = id + 1 := by
    rw [hcommands, List.length_set]
    exact h.last
  have hd' : s'.commands[j]? = some d' := by
    rw [hcommands, set_getElem hd]
    exact .inl ⟨rfl, rfl⟩
  by_cases hid : j = id
  · subst hid
    by_cases hwaiter : d'.waiter = .returned
    · exact .inr ⟨d', hd', hwaiter⟩
    · obtain ⟨hkind', hlooked', hhealth', hplace'⟩ := h.moves hkind hd hmoves hwaiter
      refine .inl ⟨hlast, ?_, d', hd', hkind', hlooked', hhealth', ?_⟩
      · intro i e he hne
        rw [hcommands, set_getElem hd] at he
        exact h.others (he.resolve_left fun heq => hne heq.1).2 hne
      · refine hplace'.imp_right (Or.imp_right fun hdone => ?_)
        intro i e he hne
        rw [hcommands, set_getElem hd] at he
        exact hdone (he.resolve_left fun heq => hne heq.1).2 hne
  · -- a command that was given up: the question is still in the queue, or the thread is gone
    obtain ⟨hwaiter, hresponse⟩ := h.others hd hid
    obtain ⟨hundone, hwaiter', hkind', hkeeps⟩ := hmoves.returned hwaiter
    have honly : d.kind.responseOnly = false := by
      by_contra honly
      rw [hresponse (by simpa using honly)] at hundone
      cases hundone
    have hplace' : c.place = .queued ∨ ∃ progress, c.place = .closed progress := by
      rcases hplace with hplace | hplace | hdone
      · exact .inl hplace
      · exact .inr hplace
      · rw [hdone hd hid] at hundone
        cases hundone
    have hasked : askedHealth first kind c.place = .degraded first := by
      rcases hplace' with hplace | ⟨progress, hplace⟩ <;> rw [hplace] <;> rfl
    have hget' : s'.commands[id]? = some c := by
      rw [hcommands, set_getElem hd]
      exact .inr ⟨Ne.symm hid, hget⟩
    refine .inl ⟨hlast, ?_, c, hget', hckind, hlooked, ?_, ?_⟩
    · intro i e he hne
      rw [hcommands, set_getElem hd] at he
      rcases he with ⟨rfl, rfl⟩ | ⟨-, he⟩
      · refine ⟨hwaiter', fun hresponse' => ?_⟩
        rw [hkind', honly] at hresponse'
        cases hresponse'
      · exact h.others he hne
    · rw [hkeeps (hhealth.trans hasked) honly, hasked]
    · exact hplace'.imp_right .inl

/-- The state in which the client has its reply. -/
theorem Asking.answer (h : Asking first id kind s) (hkind : kind.responseOnly = true)
    (hget : s.commands[id]? = some c) (hturn : Turn s.alive s.health c [.answered reply] c' health) :
    Rested (s.put id c' health) ∧
      health = if kind = .probe ∧ reply = .ok () then .healthy else .degraded first := by
  obtain ⟨d, hd, rfl, hlooked, hasked, hplace⟩ := h.mine
  obtain rfl := Option.some.inj (hget.symm.trans hd)
  cases hturn with
  | @takeReply kind progress =>
    constructor
    · refine rested_put hget rfl ?_ fun _ => rfl
      intro j d hd hne
      refine ⟨(h.others hd hne).1, fun _ => ?_⟩
      rcases hplace with hplace | ⟨_, hplace⟩ | hdone
      · cases hplace
      · cases hplace
      · exact hdone hd hne
    · rw [hasked]
      show (PersistenceStatus.degraded first).afterResult kind reply = _
      by_cases hprobe : kind = .probe ∧ reply = .ok ()
      · obtain ⟨rfl, rfl⟩ := hprobe
        rfl
      · rw [if_neg hprobe, afterResult_degraded (by tauto)]
  | takeHealth => exact absurd rfl hlooked
  | takeClosed honly =>
    rw [hkind] at honly
    cases honly
  | @takeClosedOnly kind =>
    have hkept : s.health.publishFailure (acknowledgementFailure kind.operation) = .degraded first := by
      rw [hasked]
      rfl
    constructor
    · refine rested_put hget rfl ?_ fun _ => rfl
      intro j d hd hne
      refine ⟨(h.others hd hne).1, fun hwhen => (h.others hd hne).2 (hwhen.resolve_left fun hhealthy => ?_)⟩
      rw [hhealthy] at hkept
      cases hkept
    · rw [if_neg (by simp)]
      exact hkept

/-- How a question ends that is asked during an outage. -/
theorem Rested.ask (h : Rested s) (hhealth : s.health = .degraded first) (hkind : kind.responseOnly = true)
    (hcall : Call kind s l reply s') :
    Rested s' ∧ s'.health = if kind = .probe ∧ reply = .ok () then .healthy else .degraded first := by
  cases hcall with
  | refused =>
    have hkept : s.health.publishFailure (queueFailure kind.operation) = .degraded first := by
      rw [hhealth]
      rfl
    refine ⟨h.refused kind fun hhealthy => ?_, ?_⟩
    · rw [hhealthy] at hkept
      cases hkept
    · rw [if_neg (by simp)]
      exact hkept
  | @answered t ls c c' _ health hruns hget hturn =>
    have hstart : Asking first s.commands.length kind (s.add ⟨kind, .queued, .waiting⟩ s.health) := by
      refine ⟨by simp [System.add], ?_, _, List.getElem?_concat_length, rfl, by simp, hhealth, .inl rfl⟩
      intro j d hd hne
      rcases add_getElem hd with ⟨rfl, -⟩ | ⟨-, hd⟩
      · exact absurd rfl hne
      · exact ⟨h.returned hd, fun hresponse => h.done hd (.inr hresponse)⟩
    have hasking : Asking first s.commands.length kind t ∨ Gone s.commands.length t := by
      refine hruns.invariant
        (I := fun s' => Asking first s.commands.length kind s' ∨ Gone s.commands.length s') ?_ (.inl hstart)
      intro u l v hstep hu
      rcases hu with hasking | hgone
      · exact hasking.working hkind hstep
      · exact .inr (hgone.working hstep)
    rcases hasking with hasking | ⟨d, hd, hwaiter⟩
    · exact hasking.answer hkind hget hturn
    · obtain rfl := Option.some.inj (hd.symm.trans hget)
      exact absurd hwaiter hturn.waits

/-! ### A thread that serves -/

theorem add_put (s : System) (c c' : Command) (health health' : PersistenceStatus) :
    (s.add c health).put s.commands.length c' health' = s.add c' health' := by
  simp [System.add, System.put]

theorem add_length (s : System) (c : Command) (health : PersistenceStatus) :
    (s.add c health).commands[s.commands.length]? = some c := List.getElem?_concat_length

/-- A thread that runs and has nothing else to do can give a command any result that the command can have. -/
theorem call_served {progress : Progress} (halive : s.alive = true)
    (hdone : ∀ c ∈ s.commands, c.place.done = true) (hkind : kind ≠ .shutdown)
    (hprogress : progress = .untouched ∨ progress = .committed ∧ kind.transacts = true)
    (houtcome : Outcome kind progress reply) :
    ∃ ls s', Call kind s ls reply s' ∧ s'.alive = true ∧ (∀ c ∈ s'.commands, c.place.done = true) ∧
      s'.commands.length = s.commands.length + 1 ∧ s'.health = s.health.afterResult kind reply := by
  have hbusy : ∀ c ∈ (s.add ⟨kind, .queued, .waiting⟩ s.health).commands, c.place.busy = false := by
    intro c hc
    rcases List.mem_append.mp hc with hc | hc
    · have hplace := hdone c hc
      cases hplace' : c.place <;> simp_all [Place.done, Place.busy]
    · rw [List.mem_singleton.mp hc]
      rfl
  have hqueued : ∀ c ∈ (s.add ⟨kind, .queued, .waiting⟩ s.health).commands.take s.commands.length,
      c.place ≠ .queued := by
    intro c hc
    rw [show (s.add ⟨kind, .queued, .waiting⟩ s.health).commands.take s.commands.length = s.commands
      from List.take_left] at hc
    have hplace := hdone c hc
    rintro heq
    rw [heq] at hplace
    cases hplace
  have hbegun : Runs Working (s.add ⟨kind, .queued, .waiting⟩ s.health) [(s.commands.length, .began)]
      (s.add ⟨kind, .begun .untouched, .waiting⟩ s.health) := by
    have hstep := Step.begin (s := s.add ⟨kind, .queued, .waiting⟩ s.health) halive (add_length _ _ _) hbusy hqueued
    rw [add_put] at hstep
    exact .one ⟨hstep, by simp [Event.isSend]⟩
  have hworked : ∃ ls, Runs Working (s.add ⟨kind, .queued, .waiting⟩ s.health) ls
      (s.add ⟨kind, .begun progress, .waiting⟩ s.health) := by
    rcases hprogress with rfl | ⟨rfl, htransacts⟩
    · exact ⟨_, hbegun⟩
    · have hstep := Step.turn (add_length s ⟨kind, .begun .untouched, .waiting⟩ s.health) (.commit halive htransacts)
      rw [add_put] at hstep
      exact ⟨_, hbegun.tail ⟨hstep, by simp [Event.isSend]⟩⟩
  obtain ⟨ls, hworked⟩ := hworked
  have hfinished : Working (s.add ⟨kind, .begun progress, .waiting⟩ s.health)
      [(s.commands.length, .finished reply)]
      (s.add ⟨kind, .stored progress reply, .waiting⟩ (s.health.afterResult kind reply)) := by
    have hstep := Step.turn (add_length s ⟨kind, .begun progress, .waiting⟩ s.health) (.finish halive houtcome)
    rw [add_put] at hstep
    exact ⟨hstep, by simp [Event.isSend]⟩
  have hreplied : Working (s.add ⟨kind, .stored progress reply, .waiting⟩ (s.health.afterResult kind reply))
      [(s.commands.length, .replied reply)]
      (s.add ⟨kind, .replied progress reply, .waiting⟩ (s.health.afterResult kind reply)) := by
    have hstep := Step.reply
      (s := s.add ⟨kind, .stored progress reply, .waiting⟩ (s.health.afterResult kind reply)) halive (add_length _ _ _)
    rw [add_put] at hstep
    refine ⟨?_, by simp [Event.isSend]⟩
    simpa [hkind, System.add, halive] using hstep
  refine ⟨_, _, .answered ((hworked.tail hfinished).tail hreplied) (add_length _ _ _) .takeReply, halive, ?_, ?_, ?_⟩
  · intro c hc
    rw [add_put] at hc
    rcases List.mem_append.mp hc with hc | hc
    · exact hdone c hc
    · rw [List.mem_singleton.mp hc]
      rfl
  · rw [add_put]
    simp [System.add]
  · rfl

end HerdrTop.Acknowledgement
