import HerdrTop.Provider.PendingDelivery

/-!
# Where a coalesced event comes from

Events about one agent are coalesced in a slot. If one of them was observed live, what is retained must
count as live, since an event from history waits for the end of its drain.

## What is proved

Every way of coalescing promotes the origin but one: an event whose id is that of the retained event returns
before that, so that a live event is lost behind its copy from history (`live_after_history`).
`live_origin_retained` says that nothing else goes wrong.
-/

namespace HerdrTop

/-- A slot of an entity. -/
abbrev EntityPlace := EntityKey × EntitySlot

/-- The slot that an event goes to. -/
def ProviderEvent.place (event : ProviderEvent) : Option EntityPlace :=
  event.entityEvent.map fun about => (about.key, about.slot)

/-- What was merged into a slot since it was last sent. -/
def mergedSince (place : EntityPlace) (ls : List PendingLabel) : List PendingSlot :=
  ls.foldl (fun merged label =>
    match label with
    | .merged incoming outcome =>
      if incoming.event.place = some place ∧ outcome ≠ .atCapacity incoming.event then merged ++ [incoming]
      else merged
    | .sent pending => if pending.event.place = some place then [] else merged) []

/-- A live event belongs to no drain. -/
def PendingSlot.Lawful (slot : PendingSlot) : Prop := slot.origin = .live → slot.historyManifest = none

namespace PendingEvents

/-- What waits in a slot. -/
def held (p : PendingEvents) (place : EntityPlace) : Option PendingSlot :=
  (p.entities.get place.1).bind (·.slot place.2)

/-- A live event repeats the event from history that waits in its slot. -/
def Repeats (p : PendingEvents) (incoming : PendingSlot) : Prop :=
  incoming.origin = .live ∧ ∃ place stored, incoming.event.place = some place ∧ p.held place = some stored ∧
    stored.event.slotDetails.map (·.eventId) = incoming.event.slotDetails.map (·.eventId) ∧
    stored.origin ≠ .live

/-- What is retained in a slot is live, and belongs to no drain, exactly when something live was merged. -/
def RetainsLive (p : PendingEvents) (ls : List PendingLabel) (place : EntityPlace) : Prop :=
  ∀ retained, p.held place = some retained →
    (retained.origin = .live ∧ retained.historyManifest = none ↔
      ∃ merged ∈ mergedSince place ls, merged.origin = .live)

/-- One merge that repeats nothing, or one flush. -/
inductive FreshStep : PendingEvents → List PendingLabel → PendingEvents → Prop
  | merge {p : PendingEvents} {incoming : PendingSlot} (lawful : incoming.Lawful)
      (fresh : ¬ p.Repeats incoming) :
      FreshStep p [.merged incoming (p.mergeWithOrigin incoming).2] (p.mergeWithOrigin incoming).1
  | flush (p : PendingEvents) (answers : ℕ → SendAnswer) :
      FreshStep p ((p.flushToSender answers).2.map .sent) (p.flushToSender answers).1

variable {p q : PendingEvents} {incoming : PendingSlot} {place : EntityPlace} {ls : List PendingLabel}

theorem mergedSince_append (place : EntityPlace) (l : List PendingLabel) (label : PendingLabel) :
    mergedSince place (l ++ [label]) =
      match label with
      | .merged incoming outcome =>
        if incoming.event.place = some place ∧ outcome ≠ .atCapacity incoming.event then
          mergedSince place l ++ [incoming]
        else mergedSince place l
      | .sent pending => if pending.event.place = some place then [] else mergedSince place l := by
  unfold mergedSince
  rw [List.foldl_append]
  rfl

/-! ### One merge -/

theorem held_getD (place : EntityPlace) :
    p.held place = ((p.entities.get place.1).getD {}).slot place.2 := by
  unfold held
  cases p.entities.get place.1 with
  | none =>
    obtain ⟨key, slot⟩ := place
    cases slot <;> rfl
  | some entity => rfl

theorem held_congr (h : q.entities = p.entities) (place : EntityPlace) : q.held place = p.held place := by
  unfold held
  rw [h]

theorem mergeWithOrigin_other (h : incoming.event.place = none) :
    (p.mergeWithOrigin incoming).1.entities = p.entities := by
  have hnone : incoming.event.entityEvent = none := Option.map_eq_none_iff.mp h
  have hmerged := merged_mergeWithOrigin p incoming
  generalize p.mergeWithOrigin incoming = result at hmerged ⊢
  obtain ⟨q, outcome⟩ := result
  cases hmerged with
  | entity about entity diagnostics habout => exact absurd (habout.symm.trans hnone) (by simp)
  | _ => rfl

/-- What merging an event of a slot may do. -/
inductive Placed (p : PendingEvents) (incoming : PendingSlot) (place : EntityPlace) :
    PendingEvents → MergeOutcome → Prop
  /-- There is no room. -/
  | refused (holds : p.held place = none) : Placed p incoming place p (.atCapacity incoming.event)
  /-- The slot holds an event with this id, and stays as it is. -/
  | known {q : PendingEvents} {stored : PendingSlot} (holds : p.held place = some stored)
      (same : stored.event.slotDetails.map (·.eventId) = incoming.event.slotDetails.map (·.eventId))
      (stays : ∀ place, q.held place = p.held place) : Placed p incoming place q .duplicate
  /-- The event is coalesced with what the slot holds. -/
  | coalesced {q : PendingEvents} {outcome : MergeOutcome}
      (new : ∀ stored, p.held place = some stored →
        stored.event.slotDetails.map (·.eventId) ≠ incoming.event.slotDetails.map (·.eventId))
      (taken : ∀ event, outcome ≠ .atCapacity event)
      (holds : q.held place = (mergeSlot (p.held place) incoming p.diagnostics).1)
      (others : ∀ place', place' ≠ place → q.held place' = p.held place') : Placed p incoming place q outcome

theorem placed_mergeWithOrigin (h : incoming.event.place = some place) :
    Placed p incoming place (p.mergeWithOrigin incoming).1 (p.mergeWithOrigin incoming).2 := by
  obtain ⟨about, habout, rfl⟩ := Option.map_eq_some_iff.mp h
  rw [mergeWithOrigin_entity habout]
  unfold mergeEntity
  split_ifs with hfull
  · refine .refused ?_
    have hunknown : p.entities.get about.key = none := by
      rw [← HashMap.contains_eq_false]
      simpa using (Bool.and_eq_true_iff.mp hfull).1
    unfold held
    rw [hunknown, Option.bind_none]
  · have hget : (p.entities.orInsert about.key {}).get about.key =
        some ((p.entities.get about.key).getD {}) := by
      rw [HashMap.get_orInsert, if_pos rfl]
    have hstored : ((p.entities.get about.key).getD {}).slot about.slot = p.held (about.key, about.slot) :=
      (held_getD (about.key, about.slot)).symm
    simp only [hget, Option.getD_some, hstored]
    split_ifs with hsame
    · obtain ⟨stored, hholds, hid⟩ := (Option.any_eq_true _ _).mp hsame
      refine .known hholds (of_decide_eq_true hid) fun place' => ?_
      have hknown : p.entities.contains about.key = true := by
        obtain ⟨entity, hentity, -⟩ := Option.bind_eq_some_iff.mp hholds
        exact HashMap.contains_iff.mpr ⟨entity, hentity⟩
      exact held_congr (by rw [HashMap.orInsert, if_pos hknown]) place'
    · rw [HashMap.insert_orInsert]
      refine .coalesced (fun stored hholds hid => ?_) (mergeSlot_taken _ _ _) ?_ fun place' hne => ?_
      · rw [hholds] at hsame
        exact hsame (decide_eq_true hid)
      · unfold held
        rw [HashMap.get_insert_self, Option.bind_some, slot_setSlot, if_pos rfl]
      · obtain ⟨key, slot⟩ := place'
        by_cases hkey : key = about.key
        · subst hkey
          have hslot : slot ≠ about.slot := fun hslot => hne (by rw [hslot])
          refine Eq.trans ?_ (held_getD (about.key, slot)).symm
          unfold held
          rw [HashMap.get_insert_self, Option.bind_some, slot_setSlot, if_neg hslot]
          cases slot <;> rfl
        · unfold held
          rw [HashMap.get_insert_ne _ _ hkey]

/-- What goes to a slot has an id. -/
theorem slotDetails_of_place {event : ProviderEvent} (h : event.place = some place) :
    ∃ details, event.slotDetails = some details := by
  cases event <;> first | exact ⟨_, rfl⟩ | cases h

/-- What a slot retains is live when one of both was, and then belongs to no drain. -/
theorem mergeSlot_origin {slot : Option PendingSlot} (diagnostics : ProviderDiagnostics)
    (hincoming : incoming.event.place = some place) (hlawful : incoming.Lawful)
    (hslot : ∀ stored, slot = some stored → stored.event.place = some place ∧ stored.Lawful ∧
      stored.event.slotDetails.map (·.eventId) ≠ incoming.event.slotDetails.map (·.eventId)) :
    ∃ retained, (mergeSlot slot incoming diagnostics).1 = some retained ∧
      retained.event.place = some place ∧ retained.Lawful ∧
        (retained.origin = .live ↔ (∃ stored, slot = some stored ∧ stored.origin = .live) ∨
          incoming.origin = .live) := by
  cases slot with
  | none => exact ⟨incoming, rfl, hincoming, hlawful, by simp⟩
  | some stored =>
    obtain ⟨hplace, -, hne⟩ := hslot stored rfl
    obtain ⟨details, hdetails⟩ := slotDetails_of_place hplace
    obtain ⟨details', hdetails'⟩ := slotDetails_of_place hincoming
    have hid : details.eventId ≠ details'.eventId := by
      intro heq
      rw [hdetails, hdetails'] at hne
      exact hne (congrArg some heq)
    have hpromoted : ∀ (slot : PendingSlot) (origin : ObservationOrigin) (manifest : Option PersistHistoryDrain),
        slot.event.place = some place →
          (promoteLiveOrigin slot origin manifest).event.place = some place ∧
          (promoteLiveOrigin slot origin manifest).Lawful ∧
          ((promoteLiveOrigin slot origin manifest).origin = .live ↔ slot.origin = .live ∨ origin = .live) := by
      intro slot origin manifest hat
      rw [promoteLiveOrigin_event]
      unfold promoteLiveOrigin
      split_ifs with hlive
      · exact ⟨hat, fun _ => rfl, iff_of_true rfl hlive⟩
      · exact ⟨hat, fun h => absurd (.inl h) hlive, iff_of_false (fun h => hlive (.inl h)) hlive⟩
    simp only [mergeSlot, hdetails, hdetails', if_neg hid, Option.some.injEq, exists_eq_left']
    split_ifs with hreplace hlive
    · obtain ⟨hat, hlaw, horigin⟩ := hpromoted incoming .live none hincoming
      exact ⟨_, rfl, hat, hlaw, iff_of_true (horigin.mpr (.inr rfl)) hlive⟩
    · exact ⟨incoming, rfl, hincoming, hlawful, iff_of_false (fun h => hlive (.inr h)) hlive⟩
    · obtain ⟨hat, hlaw, horigin⟩ := hpromoted stored incoming.origin incoming.historyManifest hplace
      exact ⟨_, rfl, hat, hlaw, horigin⟩

/-! ### Runs -/

/-- What is kept for each slot. -/
structure Retains (p : PendingEvents) (ls : List PendingLabel) (place : EntityPlace) : Prop where
  /-- Nothing was merged into an empty slot. -/
  empty : p.held place = none → mergedSince place ls = []
  /-- A slot holds its own events. -/
  own : ∀ retained, p.held place = some retained → retained.event.place = some place
  lawful : ∀ retained, p.held place = some retained → retained.Lawful
  live : ∀ retained, p.held place = some retained →
    (retained.origin = .live ↔ ∃ merged ∈ mergedSince place ls, merged.origin = .live)

theorem Retains.retainsLive (h : Retains p ls place) : p.RetainsLive ls place := by
  intro retained hretained
  rw [← h.live retained hretained]
  exact ⟨fun hlive => hlive.1, fun hlive => ⟨hlive, h.lawful retained hretained hlive⟩⟩

/-- What leaves a slot and its merges alone keeps everything. -/
theorem Retains.congr (h : Retains p ls place) {ls' : List PendingLabel} (hheld : q.held place = p.held place)
    (hmerged : mergedSince place ls' = mergedSince place ls) : Retains q ls' place := by
  constructor
  · intro hnone
    rw [hmerged]
    exact h.empty (hheld ▸ hnone)
  · rw [hheld]
    exact h.own
  · rw [hheld]
    exact h.lawful
  · rw [hheld, hmerged]
    exact h.live

/-- A merge that repeats nothing keeps the origins right. -/
theorem Retains.merge (h : ∀ place, Retains p ls place) (hlawful : incoming.Lawful)
    (hfresh : ¬ p.Repeats incoming) (place : EntityPlace) :
    Retains (p.mergeWithOrigin incoming).1 (ls ++ [.merged incoming (p.mergeWithOrigin incoming).2]) place := by
  have hsince := mergedSince_append place ls (.merged incoming (p.mergeWithOrigin incoming).2)
  dsimp only at hsince
  cases hplace : incoming.event.place with
  | none =>
    rw [hplace, if_neg (by simp)] at hsince
    exact (h place).congr (held_congr (mergeWithOrigin_other hplace) place) hsince
  | some there =>
    have hplaced := placed_mergeWithOrigin (p := p) hplace
    generalize p.mergeWithOrigin incoming = result at hplaced hsince ⊢
    obtain ⟨q, outcome⟩ := result
    dsimp only at hplaced hsince ⊢
    by_cases hhere : there = place
    · subst hhere
      cases hplaced with
      | refused =>
        rw [if_neg (by simp)] at hsince
        exact (h there).congr rfl hsince
      | @known _ stored holds same stays =>
        rw [if_pos ⟨hplace, by simp⟩] at hsince
        have hlive : incoming.origin = .live → stored.origin = .live := by
          intro hlive
          by_contra hhistory
          exact hfresh ⟨hlive, there, stored, hplace, holds, same, hhistory⟩
        refine ⟨fun hnone => ?_, ?_, ?_, ?_⟩
        · exact absurd ((stays there).symm.trans hnone) (by simp [holds])
        · rw [stays]
          exact (h there).own
        · rw [stays]
          exact (h there).lawful
        · intro retained hretained
          rw [stays, holds] at hretained
          obtain rfl := Option.some.inj hretained
          rw [(h there).live stored holds, hsince]
          simp only [List.mem_append, List.mem_singleton]
          constructor
          · rintro ⟨merged, hmem, hm⟩
            exact ⟨merged, .inl hmem, hm⟩
          · rintro ⟨merged, hmem | rfl, hm⟩
            · exact ⟨merged, hmem, hm⟩
            · exact ((h there).live stored holds).mp (hlive hm)
      | coalesced new taken holds others =>
        rw [if_pos ⟨hplace, taken _⟩] at hsince
        obtain ⟨retained, hretained, hown, hlaw, horigin⟩ := mergeSlot_origin p.diagnostics hplace hlawful
          fun stored hstored => ⟨(h there).own stored hstored, (h there).lawful stored hstored, new stored hstored⟩
        rw [hretained] at holds
        refine ⟨fun hnone => ?_, ?_, ?_, ?_⟩
        · exact absurd (holds.symm.trans hnone) (by simp)
        · intro other hother
          exact Option.some.inj (holds.symm.trans hother) ▸ hown
        · intro other hother
          exact Option.some.inj (holds.symm.trans hother) ▸ hlaw
        · intro other hother
          rw [← Option.some.inj (holds.symm.trans hother), horigin, hsince]
          simp only [List.mem_append, List.mem_singleton, or_and_right, exists_or, exists_eq_left]
          refine or_congr_left ?_
          cases hheld : p.held there with
          | none => simp [(h there).empty hheld]
          | some stored => simp [(h there).live stored hheld]
    · have hne : (some there : Option EntityPlace) ≠ some place := fun heq => hhere (Option.some.inj heq)
      rw [hplace, if_neg fun hboth => hne hboth.1] at hsince
      refine (h place).congr ?_ hsince
      cases hplaced with
      | refused => rfl
      | known _ _ stays => exact stays place
      | coalesced _ _ _ others => exact others place (Ne.symm hhere)

/-- What waits elsewhere goes to no slot. -/
structure Elsewhere (p : PendingEvents) : Prop where
  sources : ∀ provider pending, p.sources.get provider = some pending → pending.event.place = none
  malformed : ∀ key samples, p.malformed.get key = some samples → ∀ pending ∈ samples,
    pending.event.place = none

theorem Elsewhere.merge (h : p.Elsewhere) : (p.mergeWithOrigin incoming).1.Elsewhere := by
  cases hplace : incoming.event.place with
  | some place =>
    obtain ⟨about, habout, -⟩ := Option.map_eq_some_iff.mp hplace
    rw [mergeWithOrigin_entity habout]
    unfold mergeEntity
    split_ifs
    · exact h
    · dsimp only
      split_ifs
      · exact ⟨h.sources, h.malformed⟩
      · exact ⟨h.sources, h.malformed⟩
  | none =>
    have hmerged := merged_mergeWithOrigin p incoming
    generalize p.mergeWithOrigin incoming = result at hmerged ⊢
    obtain ⟨q, outcome⟩ := result
    cases hmerged with
    | source provider diagnostics _ _ =>
      refine ⟨fun provider' pending hget => ?_, h.malformed⟩
      rw [HashMap.get_insert] at hget
      split_ifs at hget
      · exact Option.some.inj hget ▸ hplace
      · exact h.sources provider' pending hget
    | malformed malformed diagnostics _ _ hsamples =>
      refine ⟨h.sources, fun key samples hget pending hpending => ?_⟩
      rcases hsamples key samples hget with hold | rfl
      · exact h.malformed key samples hold pending hpending
      · rcases List.mem_append.mp hpending with hpending | hpending
        · cases hold : p.malformed.get key with
          | none => exact absurd (hold ▸ hpending) List.not_mem_nil
          | some old => exact h.malformed key old hold pending (by simpa [hold] using hpending)
        · rw [List.mem_singleton.mp hpending]
          exact hplace
    | _ => exact ⟨h.sources, h.malformed⟩

/-- Sending the event of a slot empties that slot. -/
theorem held_remove {key : EntityKey} {entity : PendingEntity} {slot : EntitySlot}
    (hget : p.entities.get key = some entity) (place : EntityPlace) :
    (p.remove (.entity slot key)).held place = if place = (key, slot) then none else p.held place := by
  obtain ⟨key', slot'⟩ := place
  simp only [held, remove, HashMap.modify, hget, removeEmptyEntity, HashMap.get_insert_self, Option.any_some]
  by_cases hkey : key' = key
  · subst hkey
    have hsame : ((key', slot') = (key', slot)) ↔ slot' = slot := by simp
    rw [hget, Option.bind_some, if_congr hsame rfl rfl, ← slot_setSlot]
    split_ifs with hempty
    · rw [HashMap.get_remove_self, Option.bind_none]
      simp only [Bool.and_eq_true, Option.isNone_iff_eq_none] at hempty
      obtain ⟨⟨⟨hidentity, hupsert⟩, hactivity⟩, hlane⟩ := hempty
      cases slot'
      · exact hidentity.symm
      · exact hupsert.symm
      · exact hactivity.symm
      · exact hlane.symm
    · rw [HashMap.get_insert_self, Option.bind_some]
  · rw [if_neg fun heq => hkey (congrArg Prod.fst heq)]
    split_ifs
    · rw [HashMap.get_remove_ne _ hkey, HashMap.get_insert_ne _ _ hkey]
    · rw [HashMap.get_insert_ne _ _ hkey]

/-- Everything that runs keep. -/
structure Keeps (p : PendingEvents) (ls : List PendingLabel) : Prop where
  sound : p.Sound
  elsewhere : p.Elsewhere
  retains : ∀ place, Retains p ls place

/-- What is in order goes to no slot. -/
theorem place_of_inOrder {event : ProviderEvent} {kind : InOrder} (h : event.inOrder = some kind) :
    event.place = none := by
  cases hplace : event.place with
  | none => rfl
  | some place =>
    obtain ⟨about, habout, -⟩ := Option.map_eq_some_iff.mp hplace
    exact absurd (h.symm.trans (inOrder_of_entityEvent habout)) (by simp)

/-- One event is sent. -/
theorem Keeps.send (h : Keeps p ls) {token : PendingToken} {pending : PendingSlot}
    (hnext : p.Next token pending) : Keeps (p.remove token) (ls ++ [.sent pending]) := by
  have hother : pending.event.place = none → (p.remove token).entities = p.entities →
      ∀ place, Retains (p.remove token) (ls ++ [.sent pending]) place := by
    intro hplace hsame place
    refine (h.retains place).congr (held_congr hsame place) ?_
    rw [mergedSince_append]
    exact if_neg (by simp [hplace])
  refine ⟨hnext.sound h.sound, ?_, ?_⟩
  · cases hnext with
    | source hget =>
      refine ⟨fun provider' pending' hget' => ?_, h.elsewhere.malformed⟩
      simp only [remove] at hget'
      rw [HashMap.get_remove] at hget'
      split_ifs at hget'
      exact h.elsewhere.sources provider' pending' hget'
    | malformed hget =>
      rw [remove_malformed]
      refine ⟨h.elsewhere.sources, fun key' samples hget' pending' hpending => ?_⟩
      rcases get_removeMalformed hget hget' with hold | ⟨rfl, -⟩
      · exact h.elsewhere.malformed key' samples hold pending' hpending
      · exact h.elsewhere.malformed _ _ hget pending' (List.mem_cons_of_mem _ hpending)
    | entity =>
      rw [remove_entity]
      exact ⟨h.elsewhere.sources, h.elsewhere.malformed⟩
    | _ => exact ⟨h.elsewhere.sources, h.elsewhere.malformed⟩
  · cases hnext with
    | source hget => exact hother (h.elsewhere.sources _ _ hget) rfl
    | lane hlane => exact hother (place_of_inOrder (h.sound.lane pending (hlane ▸ List.mem_cons_self))) rfl
    | malformed hget =>
      refine hother (h.elsewhere.malformed _ _ hget _ List.mem_cons_self) ?_
      rw [remove_malformed]
    | barrier hbarrier => exact hother (place_of_inOrder (h.sound.barrier pending hbarrier)) rfl
    | @entity key entity slot _ hget hslot =>
      have hheld : p.held (key, slot) = some pending := by
        unfold held
        rw [hget]
        exact hslot
      have hplace := (h.retains (key, slot)).own pending hheld
      intro place
      have hsince := mergedSince_append place ls (.sent pending)
      dsimp only at hsince
      have hremoved : (p.remove (.entity slot key)).held place = _ := held_remove hget place
      by_cases hhere : place = (key, slot)
      · rw [hplace, hhere, if_pos rfl] at hsince
        rw [if_pos hhere] at hremoved
        subst hhere
        refine ⟨fun _ => hsince, ?_, ?_, ?_⟩ <;>
          exact fun retained hretained => absurd (hremoved.symm.trans hretained) (by simp)
      · rw [hplace, if_neg fun heq => hhere (Option.some.inj heq).symm] at hsince
        rw [if_neg hhere] at hremoved
        exact (h.retains place).congr hremoved hsince

theorem Keeps.sends {sent : List PendingSlot} (hsends : Sends p sent q) (h : Keeps p ls) :
    Keeps q (ls ++ sent.map .sent) := by
  induction hsends generalizing ls with
  | done => simpa using h
  | next hnext _ ih =>
    have hall := ih (h.send (next_nextEvent h.sound hnext))
    rwa [List.append_assoc] at hall

theorem Keeps.step {l : List PendingLabel} (hstep : FreshStep p l q) (h : Keeps p ls) : Keeps q (ls ++ l) := by
  cases hstep with
  | merge lawful fresh =>
    exact ⟨(merged_mergeWithOrigin p _).sound h.sound, h.elsewhere.merge,
      fun place => Retains.merge h.retains lawful fresh place⟩
  | flush answers =>
    obtain ⟨q', hsends, hend⟩ := flushToSender_sends h.sound answers
    have hkept := h.sends hsends
    refine ⟨hend.sound hkept.sound, ?_, fun place => ?_⟩
    · obtain ⟨-, hq⟩ | ⟨-, -, diagnostics, hq⟩ := hend.ends <;> rw [hq]
      · exact hkept.elsewhere
      · exact ⟨hkept.elsewhere.sources, hkept.elsewhere.malformed⟩
    · obtain ⟨-, hq⟩ | ⟨-, -, diagnostics, hq⟩ := hend.ends <;> rw [hq]
      · exact hkept.retains place
      · exact (hkept.retains place).congr rfl rfl

theorem keeps_of_runs {capacity : ℕ} {diagnostics : ProviderDiagnostics}
    (h : Runs FreshStep (withCapacity capacity diagnostics) ls p) : Keeps p ls := by
  generalize hs : withCapacity capacity diagnostics = start at h
  induction h with
  | refl =>
    subst hs
    refine ⟨sound_withCapacity _ _, ⟨?_, ?_⟩, fun place => ⟨fun _ => rfl, ?_, ?_, ?_⟩⟩
    · exact fun _ _ hget => nomatch hget
    · exact fun _ _ hget => nomatch hget
    · exact fun _ hget => nomatch hget
    · exact fun _ hget => nomatch hget
    · exact fun _ hget => nomatch hget
  | tail _ hstep ih => exact Keeps.step hstep ih

/-- A live event that repeats one from history is forgotten. -/
theorem Repeats.forgets (h : p.Repeats incoming) :
    ∃ place, ¬ (p.mergeWithOrigin incoming).1.RetainsLive
      (ls ++ [.merged incoming (p.mergeWithOrigin incoming).2]) place := by
  obtain ⟨hlive, place, stored, hplace, hholds, hsame, hhistory⟩ := h
  refine ⟨place, fun hretains => hhistory ?_⟩
  have hsince := mergedSince_append place ls (.merged incoming (p.mergeWithOrigin incoming).2)
  dsimp only at hsince
  have hplaced := placed_mergeWithOrigin (p := p) hplace
  generalize p.mergeWithOrigin incoming = result at hplaced hsince hretains
  obtain ⟨q, outcome⟩ := result
  dsimp only at hplaced hsince hretains
  cases hplaced with
  | refused hnone => exact absurd (hnone.symm.trans hholds) (by simp)
  | known _ _ stays =>
    rw [if_pos ⟨hplace, by simp⟩] at hsince
    refine ((hretains stored ((stays place).trans hholds)).mpr ⟨incoming, ?_, hlive⟩).1
    rw [hsince]
    exact List.mem_append_right _ List.mem_cons_self
  | coalesced new => exact absurd hsame (new stored hholds)

end PendingEvents

/-- As long as no live event repeats the event from history that waits in its slot, what every slot retains
is live, and belongs to no drain, exactly when something live was merged into it since it was last sent. The
first event that does repeat one is forgotten. -/
theorem live_origin_retained {capacity : ℕ} {diagnostics : ProviderDiagnostics} {ls : List PendingLabel}
    {p : PendingEvents}
    (h : Runs PendingEvents.FreshStep (PendingEvents.withCapacity capacity diagnostics) ls p) :
    (∀ place, p.RetainsLive ls place) ∧ ∀ incoming : PendingSlot, incoming.Lawful →
      ((∀ place, (p.mergeWithOrigin incoming).1.RetainsLive
        (ls ++ [.merged incoming (p.mergeWithOrigin incoming).2]) place) ↔ ¬ p.Repeats incoming) := by
  have hkept := PendingEvents.keeps_of_runs h
  refine ⟨fun place => (hkept.retains place).retainsLive, fun incoming hlawful => ?_⟩
  constructor
  · intro hall hrepeats
    obtain ⟨place, hforgets⟩ := @PendingEvents.Repeats.forgets p incoming ls hrepeats
    exact hforgets (hall place)
  · intro hfresh place
    exact (PendingEvents.Retains.merge hkept.retains hlawful hfresh place).retainsLive

/-- The drain of one rollout. -/
def rolloutDrain : PersistHistoryDrain where
  drainId := { value := "drain" }
  provider := .codex
  createdAtMs := 0
  artifacts := [⟨"rollout", "0", 10⟩]

/-- Something that an agent did. -/
def agentActivity : ProviderEvent := .activity .codex "agent" {} none "event" 5 ⟨0, 0, 0⟩

/-- The activity as history has it. -/
def activityOfHistory : PendingSlot := ⟨agentActivity, .historical rolloutDrain.drainId "rollout", some rolloutDrain⟩

/-- What the agent did next is seen live. -/
def activitySeenLive : PendingSlot := ⟨.activity .codex "agent" {} none "later" 6 ⟨0, 0, 0⟩, .live, none⟩

/-- What waits after activity of history was coalesced with live activity. -/
def coalescedActivity : PendingEvents :=
  (((PendingEvents.withCapacity 1 {}).mergeWithOrigin activityOfHistory).1.mergeWithOrigin activitySeenLive).1

/-- The same after it was sent and history came once more. -/
def activityOnceMore : PendingEvents :=
  ((coalescedActivity.flushToSender fun _ => .ok).1.mergeWithOrigin activityOfHistory).1

/-- Live activity that takes the place of activity from history is live; what history brings after it was sent is
not. -/
theorem live_origin_retained_coalesced :
    (∃ retained, coalescedActivity.held (⟨.codex, "agent"⟩, .activity) = some retained ∧
      retained.event = activitySeenLive.event ∧ retained.origin = .live ∧ retained.historyManifest = none) ∧
    ∃ retained, activityOnceMore.held (⟨.codex, "agent"⟩, .activity) = some retained ∧
      ¬(retained.origin = .live ∧ retained.historyManifest = none) := by
  have hfirst : PendingEvents.FreshStep (PendingEvents.withCapacity 1 {}) [.merged activityOfHistory .accepted]
      ((PendingEvents.withCapacity 1 {}).mergeWithOrigin activityOfHistory).1 :=
    .merge (fun h => absurd h (by decide)) fun h => absurd h.1 (by decide)
  have hfresh : ¬ ((PendingEvents.withCapacity 1 {}).mergeWithOrigin activityOfHistory).1.Repeats activitySeenLive := by
    rintro ⟨-, place, stored, hplace, hheld, hsame, -⟩
    cases hplace
    cases hheld
    exact absurd hsame (by decide)
  have hsecond : PendingEvents.FreshStep ((PendingEvents.withCapacity 1 {}).mergeWithOrigin activityOfHistory).1
      [.merged activitySeenLive .coalesced] coalescedActivity := .merge (fun _ => rfl) hfresh
  have hruns := (Runs.one hfirst).tail hsecond
  have hthird : PendingEvents.FreshStep (coalescedActivity.flushToSender fun _ => .ok).1
      [.merged activityOfHistory .accepted] activityOnceMore :=
    .merge (fun h => absurd h (by decide)) fun h => absurd h.1 (by decide)
  have hagain := (hruns.tail (.flush coalescedActivity fun _ => .ok)).tail hthird
  refine ⟨⟨activitySeenLive, by decide, rfl, ?_⟩, activityOfHistory, by decide, ?_⟩
  · exact ((live_origin_retained hruns).1 (⟨.codex, "agent"⟩, .activity) activitySeenLive (by decide)).mpr
      ⟨activitySeenLive, by decide, rfl⟩
  · rw [(live_origin_retained hagain).1 (⟨.codex, "agent"⟩, .activity) activityOfHistory (by decide)]
    decide

/-- The activity is seen live after it was read from history; it still waits for the drain. -/
theorem live_after_history :
    ¬ ∀ (capacity : ℕ) (first second : PendingSlot) (place : EntityPlace), first.Lawful → second.Lawful →
      let p := (PendingEvents.withCapacity capacity {}).mergeWithOrigin first
      let q := p.1.mergeWithOrigin second
      q.1.RetainsLive [.merged first p.2, .merged second q.2] place := by
  intro h
  have hretains := h 1 activityOfHistory ⟨agentActivity, .live, none⟩ (⟨.codex, "agent"⟩, .activity)
    (fun h => nomatch h) (fun _ => rfl)
  have hlive := (hretains activityOfHistory (by decide)).mpr
    ⟨⟨agentActivity, .live, none⟩, by decide, rfl⟩
  exact absurd hlive.1 (by decide)

end HerdrTop
