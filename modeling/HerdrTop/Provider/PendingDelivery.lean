import HerdrTop.Library.Runs
import HerdrTop.Provider.Pending

/-!
# What the pending buffer delivers

A run is any sequence of merges and flushes, whatever the channel answers. What must be delivered as
it was merged, the facts of the lane and the barriers of history drains, is delivered once and in
order, or was refused; the rest is state, which newer state may replace.

## What is proved

`pending_delivery` puts it together: what was accepted is what was sent and what still waits; the
buffer stays within its capacity; an event is refused exactly if there is no room for it, and a refusal
changes nothing and neither does a send that fails; the end of an agent is not forgotten for a later sign
of life; a barrier is sent last.

A flush is described by `Sends`, the events it hands over one after the other, and a merge by
`Merged`, one constructor for each thing it may do.
-/

namespace HerdrTop

/-- What is delivered in the order in which it was merged. -/
inductive InOrder
  /-- A fact of the lane. -/
  | lane
  /-- The end of a history drain. -/
  | barrier
  deriving DecidableEq

def ProviderEvent.inOrder : ProviderEvent → Option InOrder
  | .synthesized _ | .runLiveness _ _ | .laneClose _ _ | .telemetry _ _ _ _ _ _ _ => some .lane
  | .sourceState _ (.historyDrainBarrier _) => some .barrier
  | _ => none

/-- Whether an event says that an agent is over. -/
def ProviderEvent.isTerminalUpsert : ProviderEvent → Bool
  | .agentUpsert _ _ _ _ state _ _ _ _ _ => state.any (·.isTerminal)
  | _ => false

/-- What is observed of a buffer. -/
inductive PendingLabel
  | merged (incoming : PendingSlot) (outcome : MergeOutcome)
  | sent (pending : PendingSlot)
  deriving DecidableEq

/-- What a label takes into the buffer. -/
def PendingLabel.accepted : PendingLabel → Option PendingSlot
  | .merged incoming .accepted => some incoming
  | _ => none

/-- What a label takes out of it. -/
def PendingLabel.delivered : PendingLabel → Option PendingSlot
  | .sent pending => some pending
  | _ => none

/-- The events of one order. -/
def ofOrder (kind : InOrder) (slots : List PendingSlot) : List PendingSlot :=
  slots.filter fun slot => slot.event.inOrder = some kind

namespace PendingEvents

/-- One merge or one flush. -/
inductive Step : PendingEvents → List PendingLabel → PendingEvents → Prop
  | merge (p : PendingEvents) (incoming : PendingSlot) :
      Step p [.merged incoming (p.mergeWithOrigin incoming).2] (p.mergeWithOrigin incoming).1
  | flush (p : PendingEvents) (answers : ℕ → SendAnswer) :
      Step p ((p.flushToSender answers).2.map .sent) (p.flushToSender answers).1

/-- What waits of one order. -/
def waiting (p : PendingEvents) : InOrder → List PendingSlot
  | .lane => p.lane
  | .barrier => p.historyBarrier.toList

/-- The end of an agent waits. -/
def HoldsTerminal (p : PendingEvents) (key : EntityKey) : Prop :=
  ∃ entity slot, p.entities.get key = some entity ∧ entity.upsert = some slot ∧
    slot.event.isTerminalUpsert = true

/-- Nothing waits but a barrier. -/
structure Drained (p : PendingEvents) : Prop where
  /-- No state of a source. -/
  sources : ∀ provider, p.sources.get provider = none
  /-- No fact. -/
  lane : p.lane = []
  /-- No state of an agent. -/
  entities : ∀ key, p.entities.get key = none
  /-- No diagnostic. -/
  malformed : ∀ key, p.malformed.get key = none

/-- Events that are handed over one after the other, and the buffer after them. -/
inductive Sends : PendingEvents → List PendingSlot → PendingEvents → Prop
  | done (p : PendingEvents) : Sends p [] p
  | next {p q : PendingEvents} {token : PendingToken} {pending : PendingSlot}
      {rest : List PendingSlot} : p.nextEvent = some (token, pending) →
      Sends (p.remove token) rest q → Sends p (pending :: rest) q

/-- Each part of the buffer holds what belongs there. -/
structure Sound (p : PendingEvents) : Prop where
  /-- The lane holds facts. -/
  lane : ∀ slot ∈ p.lane, slot.event.inOrder = some .lane
  /-- The barrier is one. -/
  barrier : ∀ slot, p.historyBarrier = some slot → slot.event.inOrder = some .barrier
  /-- The rest is state. -/
  sources : ∀ provider slot, p.sources.get provider = some slot → slot.event.inOrder = none
  /-- The slots of an entity hold state. -/
  entities : ∀ key entity slot pending, p.entities.get key = some entity →
    entity.slot slot = some pending → pending.event.inOrder = none
  /-- Something waits for every entity. -/
  held : ∀ key entity, p.entities.get key = some entity → ∃ slot pending, entity.slot slot = some pending
  /-- A malformed record is no fact. -/
  malformed : ∀ key samples, p.malformed.get key = some samples → ∀ slot ∈ samples,
    slot.event.inOrder = none
  /-- Something waits for every file. -/
  sampled : ∀ key samples, p.malformed.get key = some samples → samples ≠ []
  /-- The lane is bounded. -/
  laneSize : p.lane.length ≤ p.capacity
  /-- So are the entities. -/
  entitySize : p.entities.keys.length ≤ p.capacity

theorem sound_withCapacity (capacity : ℕ) (diagnostics : ProviderDiagnostics) :
    (withCapacity capacity diagnostics).Sound where
  lane _ h := absurd h List.not_mem_nil
  barrier _ h := nomatch h
  sources _ _ h := nomatch h
  entities _ _ _ _ h := nomatch h
  held _ _ h := nomatch h
  malformed _ _ h := nomatch h
  sampled _ _ h := nomatch h
  laneSize := Nat.zero_le _
  entitySize := Nat.zero_le _

/-! ### One merge -/

section

variable {p q : PendingEvents} {incoming : PendingSlot} {outcome : MergeOutcome}

/-- There is no room for an event: the lane is full, another barrier waits, or its entity would be one too many. -/
inductive Full (p : PendingEvents) (event : ProviderEvent) : Prop
  | lane : event.inOrder = some .lane → p.capacity ≤ p.lane.length → Full p event
  | barrier (provider : Provider) (barrier : HistoryDrainBarrier) (stored : PendingSlot) :
      event = .sourceState provider (.historyDrainBarrier barrier) → p.historyBarrier = some stored →
      (∀ barrier', stored.event = .sourceState provider (.historyDrainBarrier barrier') →
        barrier'.eq barrier = false) → Full p event
  | entity (about : EntityEvent) : event.entityEvent = some about → p.entities.contains about.key = false →
      p.capacity ≤ p.entities.keys.length → Full p event

/-- What a merge may do. -/
inductive Merged (p : PendingEvents) (incoming : PendingSlot) : PendingEvents → MergeOutcome → Prop
  /-- The event is refused. -/
  | refused : p.Full incoming.event → Merged p incoming p (.atCapacity incoming.event)
  /-- The event is known already. -/
  | known (diagnostics : ProviderDiagnostics) : incoming.event.inOrder ≠ some .lane →
      Merged p incoming { p with diagnostics } .duplicate
  /-- A fact is appended to the lane. -/
  | lane : incoming.event.inOrder = some .lane → p.lane.length < p.capacity →
      Merged p incoming { p with lane := p.lane ++ [incoming] } .accepted
  /-- A barrier is stored. -/
  | barrier : incoming.event.inOrder = some .barrier → p.historyBarrier = none →
      Merged p incoming { p with historyBarrier := some incoming } .accepted
  /-- The state of a source is replaced. -/
  | source (provider : Provider) (diagnostics : ProviderDiagnostics) {outcome : MergeOutcome} :
      incoming.event.inOrder = none → (∀ event, outcome ≠ .atCapacity event) →
      Merged p incoming { p with sources := p.sources.insert provider incoming, diagnostics } outcome
  /-- A malformed record is kept or only counted. -/
  | malformed (malformed : HashMap MalformedKey (List PendingSlot)) (diagnostics : ProviderDiagnostics)
      {outcome : MergeOutcome} : incoming.event.inOrder = none →
      (∀ event, outcome ≠ .atCapacity event) →
      (∀ key samples, malformed.get key = some samples → p.malformed.get key = some samples ∨
        samples = (p.malformed.get key).getD [] ++ [incoming]) →
      Merged p incoming { p with malformed, diagnostics } outcome
  /-- The slot of an entity is filled or coalesced. -/
  | entity (about : EntityEvent) (entity : PendingEntity) (diagnostics : ProviderDiagnostics)
      {outcome : MergeOutcome} : incoming.event.entityEvent = some about →
      (∀ event, outcome ≠ .atCapacity event) →
      (p.entities.contains about.key = true ∨ p.entities.keys.length < p.capacity) →
      (∀ slot, slot ≠ about.slot →
        entity.slot slot = ((p.entities.get about.key).getD {}).slot slot) →
      entity.slot about.slot =
        (mergeSlot (((p.entities.get about.key).getD {}).slot about.slot) incoming p.diagnostics).1 →
      Merged p incoming { p with entities := p.entities.insert about.key entity, diagnostics } outcome

theorem slot_setSlot (entity : PendingEntity) (pending : Option PendingSlot) (slot slot' : EntitySlot) :
    (entity.setSlot pending slot).slot slot' = if slot' = slot then pending else entity.slot slot' := by
  cases slot <;> cases slot' <;> rfl

theorem mergeSlot_taken (slot : Option PendingSlot) (incoming : PendingSlot)
    (diagnostics : ProviderDiagnostics) (event : ProviderEvent) :
    (mergeSlot slot incoming diagnostics).2.1 ≠ .atCapacity event := by
  unfold mergeSlot
  split
  · simp
  · split
    · dsimp only
      split_ifs <;> simp
    · simp

theorem inOrder_of_entityEvent {event : ProviderEvent} {about : EntityEvent}
    (h : event.entityEvent = some about) : event.inOrder = none := by
  unfold ProviderEvent.entityEvent at h
  unfold ProviderEvent.inOrder
  split at h <;> simp_all

theorem merged_mergeEntity {about : EntityEvent} (h : incoming.event.entityEvent = some about) :
    Merged p incoming (p.mergeEntity about incoming).1 (p.mergeEntity about incoming).2 := by
  unfold mergeEntity
  split_ifs with hfull
  · rw [Bool.and_eq_true, decide_eq_true_eq, Bool.not_eq_true'] at hfull
    exact .refused (.entity about h hfull.1 hfull.2)
  · have hroom : p.entities.contains about.key = true ∨ p.entities.keys.length < p.capacity := by
      by_cases hknown : p.entities.contains about.key = true
      · exact .inl hknown
      · refine .inr ?_
        simpa [hknown] using hfull
    have hget : (p.entities.orInsert about.key {}).get about.key =
        some ((p.entities.get about.key).getD {}) := by
      rw [HashMap.get_orInsert, if_pos rfl]
    simp only [hget, Option.getD_some]
    split_ifs with hsame
    · have hheld : p.entities.contains about.key = true := by
        rw [HashMap.contains_iff]
        cases hentity : p.entities.get about.key with
        | some entity => exact ⟨entity, rfl⟩
        | none =>
          exfalso
          cases hslot : about.slot <;>
            simp [hentity, hslot, PendingEntity.slot] at hsame
      have hstays : p.entities.orInsert about.key {} = p.entities := by
        rw [HashMap.orInsert, if_pos hheld]
      rw [hstays]
      exact .known _ (by rw [inOrder_of_entityEvent h]; simp)
    · rw [HashMap.insert_orInsert]
      refine .entity about _ _ h (mergeSlot_taken _ _ _) hroom (fun slot hne => ?_) ?_
      · rw [slot_setSlot, if_neg hne]
        cases slot <;> rfl
      · rw [slot_setSlot, if_pos rfl]

theorem merged_mergeLane (h : incoming.event.inOrder = some .lane) :
    Merged p incoming (p.mergeLane incoming).1 (p.mergeLane incoming).2 := by
  unfold mergeLane
  split_ifs with hfull
  · exact .refused (.lane h hfull)
  · exact .lane h (by omega)

theorem merged_mergeSource (provider : Provider) (h : incoming.event.inOrder = none) :
    Merged p incoming (p.mergeSource provider incoming).1 (p.mergeSource provider incoming).2 := by
  unfold mergeSource
  split_ifs
  · exact .source provider _ h (by simp)
  · exact .source provider p.diagnostics h (by simp)

theorem merged_mergeBarrier {provider : Provider} {barrier : HistoryDrainBarrier}
    (hevent : incoming.event = .sourceState provider (.historyDrainBarrier barrier)) :
    Merged p incoming (p.mergeBarrier provider barrier incoming).1
      (p.mergeBarrier provider barrier incoming).2 := by
  have h : incoming.event.inOrder = some .barrier := by
    rw [hevent]
    rfl
  unfold mergeBarrier
  split
  · rename_i stored hstored
    split
    · rename_i provider' barrier' hsaid
      split_ifs with hsame
      · exact .known _ (by rw [h]; simp)
      · refine .refused (.barrier provider barrier stored hevent hstored fun other hother => ?_)
        rw [hsaid] at hother
        cases hother
        simpa using hsame
    · rename_i hsaid
      exact .refused (.barrier provider barrier stored hevent hstored fun other hother =>
        absurd hother (hsaid provider other))
  · rename_i hstored
    exact .barrier h hstored

theorem merged_mergeMalformed (key : MalformedKey) (h : incoming.event.inOrder = none) :
    Merged p incoming (p.mergeMalformed key incoming).1 (p.mergeMalformed key incoming).2 := by
  have hget : (p.malformed.orInsert key []).get key = some ((p.malformed.get key).getD []) := by
    rw [HashMap.get_orInsert, if_pos rfl]
  unfold mergeMalformed
  simp only [hget, Option.getD_some]
  split_ifs with hroom
  · rw [HashMap.insert_orInsert]
    refine .malformed _ _ h (by simp) fun key' samples hsamples => ?_
    rw [HashMap.get_insert] at hsamples
    split_ifs at hsamples with hkey
    · subst hkey
      exact .inr (Option.some.inj hsamples).symm
    · exact .inl hsamples
  · refine .malformed _ _ h (by simp) fun key' samples hsamples => ?_
    rw [HashMap.get_orInsert] at hsamples
    split_ifs at hsamples with hkey
    · subst hkey
      cases hstored : p.malformed.get key' with
      | none => simp [hstored, malformedSamplesPerGeneration] at hroom
      | some stored => exact .inl (by simpa [hstored] using hsamples)
    · exact .inl hsamples

theorem merged_mergeWithOrigin (p : PendingEvents) (incoming : PendingSlot) :
    Merged p incoming (p.mergeWithOrigin incoming).1 (p.mergeWithOrigin incoming).2 := by
  unfold mergeWithOrigin
  cases hevent : incoming.event with
  | synthesized => exact merged_mergeLane (by rw [hevent]; rfl)
  | runLiveness => exact merged_mergeLane (by rw [hevent]; rfl)
  | laneClose => exact merged_mergeLane (by rw [hevent]; rfl)
  | telemetry => exact merged_mergeLane (by rw [hevent]; rfl)
  | sessionResolved => exact merged_mergeEntity (by rw [hevent]; rfl)
  | agentUpsert => exact merged_mergeEntity (by rw [hevent]; rfl)
  | activity => exact merged_mergeEntity (by rw [hevent]; rfl)
  | malformed => exact merged_mergeMalformed _ (by rw [hevent]; rfl)
  | sourceState provider state =>
    cases state with
    | historyDrainBarrier barrier => exact merged_mergeBarrier hevent
    | available => exact merged_mergeSource _ (by rw [hevent]; rfl)
    | availableWithBindings bindings => exact merged_mergeSource _ (by rw [hevent]; rfl)
    | unavailable detail => exact merged_mergeSource _ (by rw [hevent]; rfl)
    | notApplicable => exact merged_mergeSource _ (by rw [hevent]; rfl)

@[simp] theorem promoteLiveOrigin_event (stored : PendingSlot) (origin : ObservationOrigin)
    (manifest : Option PersistHistoryDrain) :
    (promoteLiveOrigin stored origin manifest).event = stored.event := by
  unfold promoteLiveOrigin
  split_ifs <;> rfl

/-- A filled slot holds the stored event or the incoming one, if that may replace it. -/
theorem mergeSlot_some (stored incoming : PendingSlot) (diagnostics : ProviderDiagnostics) :
    ∃ pending, (mergeSlot (some stored) incoming diagnostics).1 = some pending ∧
      (pending.event = stored.event ∨ pending.event = incoming.event ∧
        ∃ details details', replacesStored stored.event incoming.event details details' = true) := by
  unfold mergeSlot
  dsimp only
  split
  · rename_i details details' hdetails hdetails'
    split_ifs with hsame hreplace hlive
    · exact ⟨_, rfl, .inl (promoteLiveOrigin_event _ _ _)⟩
    · exact ⟨_, rfl, .inr ⟨promoteLiveOrigin_event _ _ _, details, details', hreplace⟩⟩
    · exact ⟨_, rfl, .inr ⟨rfl, details, details', hreplace⟩⟩
    · exact ⟨_, rfl, .inl (promoteLiveOrigin_event _ _ _)⟩
  · exact ⟨stored, rfl, .inl rfl⟩

/-- A slot that holds an event of state holds one afterwards. -/
theorem mergeSlot_inOrder {slot : Option PendingSlot} (diagnostics : ProviderDiagnostics)
    (hslot : ∀ stored, slot = some stored → stored.event.inOrder = none)
    (hincoming : incoming.event.inOrder = none) :
    ∃ pending, (mergeSlot slot incoming diagnostics).1 = some pending ∧ pending.event.inOrder = none := by
  cases slot with
  | none => exact ⟨incoming, rfl, hincoming⟩
  | some stored =>
    obtain ⟨pending, hpending, hevent | ⟨hevent, -⟩⟩ := mergeSlot_some stored incoming diagnostics
    · exact ⟨pending, hpending, hevent ▸ hslot stored rfl⟩
    · exact ⟨pending, hpending, hevent ▸ hincoming⟩

/-- Only the end of an agent replaces the end of an agent. -/
theorem isTerminal_of_replaces {stored event : ProviderEvent} {details details' : SlotDetails}
    (hstored : stored.isTerminalUpsert = true) {about : EntityEvent}
    (habout : event.entityEvent = some about) (hslot : about.slot = .upsert)
    (h : replacesStored stored event details details' = true) : event.isTerminalUpsert = true := by
  cases event with
  | agentUpsert provider thread owner parent state model depth eventId observed position =>
    cases stored with
    | agentUpsert =>
      have hterminal := hstored
      simp only [ProviderEvent.isTerminalUpsert] at hterminal ⊢
      simp only [replacesStored, hterminal] at h
      split_ifs at h with hne
      · exact h
      all_goals exact (not_not.mp hne).symm
    | _ => exact absurd hstored (by simp [ProviderEvent.isTerminalUpsert])
  | activity provider thread metadata =>
    obtain rfl := Option.some.inj habout
    dsimp only at hslot
    split_ifs at hslot
  | sessionResolved =>
    obtain rfl := Option.some.inj habout
    exact absurd hslot (by simp)
  | _ => exact absurd habout (by simp [ProviderEvent.entityEvent])

/-- The end of an agent stays in its slot. -/
theorem mergeSlot_terminal {stored : PendingSlot} (diagnostics : ProviderDiagnostics)
    (hstored : stored.event.isTerminalUpsert = true) {about : EntityEvent}
    (habout : incoming.event.entityEvent = some about) (hslot : about.slot = .upsert) :
    ∃ pending, (mergeSlot (some stored) incoming diagnostics).1 = some pending ∧
      pending.event.isTerminalUpsert = true := by
  obtain ⟨pending, hpending, hevent | ⟨hevent, details, details', hreplace⟩⟩ :=
    mergeSlot_some stored incoming diagnostics
  · exact ⟨pending, hpending, hevent ▸ hstored⟩
  · exact ⟨pending, hpending, hevent ▸ isTerminal_of_replaces hstored habout hslot hreplace⟩

theorem Merged.terminal (h : Merged p incoming q outcome) {key : EntityKey} (hp : p.HoldsTerminal key) :
    q.HoldsTerminal key := by
  cases h with
  | entity about entity diagnostics habout htaken hroom hother hslot =>
    obtain ⟨old, stored, hold, hupsert, hterminal⟩ := hp
    by_cases hkey : key = about.key
    · subst hkey
      rw [hold, Option.getD_some] at hother hslot
      by_cases hwhich : about.slot = .upsert
      · rw [hwhich] at hslot
        obtain ⟨pending, hpending, hend⟩ := mergeSlot_terminal p.diagnostics hterminal habout hwhich
        refine ⟨entity, pending, HashMap.get_insert_self _ _ _, ?_, hend⟩
        have hstored : old.slot .upsert = some stored := hupsert
        rw [hstored, hpending] at hslot
        exact hslot
      · have hsame := hother .upsert (Ne.symm hwhich)
        exact ⟨entity, stored, HashMap.get_insert_self _ _ _, hsame.trans hupsert, hterminal⟩
    · exact ⟨old, stored, (HashMap.get_insert_ne _ _ hkey).trans hold, hupsert, hterminal⟩
  | _ => exact hp

theorem Merged.sound (h : Merged p incoming q outcome) (hp : p.Sound) : q.Sound := by
  cases h with
  | refused => exact hp
  | known => exact { hp with }
  | lane hkind hroom =>
    refine { hp with lane := fun slot hslot => ?_, laneSize := ?_ }
    · rcases List.mem_append.mp hslot with hslot | hslot
      · exact hp.lane slot hslot
      · rw [List.mem_singleton.mp hslot]
        exact hkind
    · rw [List.length_append, List.length_singleton]
      exact hroom
  | barrier hkind hnone =>
    exact { hp with barrier := fun slot hslot => Option.some.inj hslot ▸ hkind }
  | source provider diagnostics hkind =>
    refine { hp with sources := fun provider' slot hslot => ?_ }
    rw [HashMap.get_insert] at hslot
    split_ifs at hslot
    · exact Option.some.inj hslot ▸ hkind
    · exact hp.sources provider' slot hslot
  | malformed malformed diagnostics hkind htaken hsamples =>
    refine { hp with malformed := fun key samples hget => ?_, sampled := fun key samples hget => ?_ }
    · rcases hsamples key samples hget with hold | rfl
      · exact hp.malformed key samples hold
      · intro slot hslot
        rcases List.mem_append.mp hslot with hslot | hslot
        · cases hold : p.malformed.get key with
          | none => exact absurd (hold ▸ hslot) List.not_mem_nil
          | some old => exact hp.malformed key old hold slot (by simpa [hold] using hslot)
        · rw [List.mem_singleton.mp hslot]
          exact hkind
    · rcases hsamples key samples hget with hold | rfl
      · exact hp.sampled key samples hold
      · simp
  | entity about entity diagnostics habout htaken hroom hother hslot =>
    have hkind := inOrder_of_entityEvent habout
    have hold : ∀ slot pending, ((p.entities.get about.key).getD {}).slot slot = some pending →
        pending.event.inOrder = none := by
      intro slot pending hpending
      cases hentity : p.entities.get about.key with
      | none => cases slot <;> simp [hentity, PendingEntity.slot] at hpending
      | some old => exact hp.entities about.key old slot pending hentity (by simpa [hentity] using hpending)
    obtain ⟨pending, hpending, hnew⟩ :=
      mergeSlot_inOrder p.diagnostics (fun stored => hold about.slot stored) hkind
    rw [hpending] at hslot
    refine { hp with
      entities := fun key entity' slot pending' hget hslot' => ?_
      held := fun key entity' hget => ?_
      entitySize := ?_ }
    · rw [HashMap.get_insert] at hget
      split_ifs at hget
      · obtain rfl := Option.some.inj hget
        by_cases hwhich : slot = about.slot
        · rw [hwhich, hslot] at hslot'
          exact Option.some.inj hslot' ▸ hnew
        · exact hold slot pending' ((hother slot hwhich).symm.trans hslot')
      · exact hp.entities key entity' slot pending' hget hslot'
    · rw [HashMap.get_insert] at hget
      split_ifs at hget
      · exact ⟨about.slot, pending, Option.some.inj hget ▸ hslot⟩
      · exact hp.held key entity' hget
    · have hsize := hp.entitySize
      rw [HashMap.length_keys_insert]
      split_ifs with hknown
      · exact hsize
      · exact hroom.resolve_left hknown

/-- What a merge takes in waits behind everything before it. -/
theorem Merged.waiting (h : Merged p incoming q outcome) (kind : InOrder) :
    q.waiting kind = p.waiting kind ++ ofOrder kind ((PendingLabel.merged incoming outcome).accepted.toList) := by
  have hstate : incoming.event.inOrder = none →
      ofOrder kind ((PendingLabel.merged incoming outcome).accepted.toList) = [] := by
    intro hkind
    unfold PendingLabel.accepted
    split <;> simp_all [ofOrder]
  cases h with
  | refused => simp [PendingLabel.accepted, ofOrder]
  | known => cases kind <;> simp [PendingLabel.accepted, ofOrder, PendingEvents.waiting]
  | lane hkind => cases kind <;> simp [PendingLabel.accepted, ofOrder, PendingEvents.waiting, hkind]
  | barrier hkind hnone =>
    cases kind <;> simp [PendingLabel.accepted, ofOrder, PendingEvents.waiting, hkind, hnone]
  | source _ _ hkind =>
    rw [hstate hkind, List.append_nil]
    cases kind <;> rfl
  | malformed _ _ hkind =>
    rw [hstate hkind, List.append_nil]
    cases kind <;> rfl
  | entity _ _ _ habout =>
    rw [hstate (inOrder_of_entityEvent habout), List.append_nil]
    cases kind <;> rfl

/-! ### One send -/

/-- What is sent next, and from where. -/
inductive Next (p : PendingEvents) : PendingToken → PendingSlot → Prop
  | source {provider : Provider} {pending : PendingSlot} : p.sources.get provider = some pending →
      Next p (.source provider) pending
  | lane {pending : PendingSlot} {rest : List PendingSlot} : p.lane = pending :: rest →
      Next p .lane pending
  | entity {key : EntityKey} {entity : PendingEntity} {slot : EntitySlot} {pending : PendingSlot} :
      p.entities.get key = some entity → entity.slot slot = some pending →
      Next p (.entity slot key) pending
  | malformed {key : MalformedKey} {pending : PendingSlot} {rest : List PendingSlot} :
      p.malformed.get key = some (pending :: rest) → Next p (.malformed key) pending
  /-- The barrier comes last. -/
  | barrier {pending : PendingSlot} : p.historyBarrier = some pending → p.Drained →
      Next p .historyDrainBarrier pending

theorem drained_of_next (hp : p.Sound) (hsource : p.nextSource = none) (hlane : p.lane.head? = none)
    (hentity : p.nextEntity = none) (hmalformed : p.nextMalformed = none) : p.Drained where
  sources provider := by
    simp only [nextSource, List.findSome?_eq_none_iff, Option.map_eq_none_iff] at hsource
    cases provider
    · exact hsource _ (by simp)
    · exact hsource _ (by simp)
  lane := List.head?_eq_none_iff.mp hlane
  entities key := by
    cases hget : p.entities.get key with
    | none => rfl
    | some entity =>
      obtain ⟨slot, pending, hslot⟩ := hp.held key entity hget
      simp only [nextEntity, List.findSome?_eq_none_iff, List.mem_insertionSort] at hentity
      have hnone := hentity key (HashMap.mem_keys.mpr ⟨entity, hget⟩)
      simp only [hget, Option.bind_some, nextSlot, List.findSome?_eq_none_iff, Option.map_eq_none_iff]
        at hnone
      have hempty := hnone slot (by cases slot <;> simp)
      rw [hslot] at hempty
      cases hempty
  malformed key := by
    cases hget : p.malformed.get key with
    | none => rfl
    | some samples =>
      exfalso
      have hmem : key ∈ p.malformed.keys := HashMap.mem_keys.mpr ⟨samples, hget⟩
      cases hhead : (p.malformed.keys.insertionSort fun left right =>
          (malformedOrder left right).isLE).head? with
      | none =>
        rw [List.head?_eq_none_iff] at hhead
        rw [← List.mem_insertionSort (fun left right => (malformedOrder left right).isLE), hhead] at hmem
        exact List.not_mem_nil hmem
      | some first =>
        have hfirst : first ∈ p.malformed.keys := by
          rw [← List.mem_insertionSort (fun left right => (malformedOrder left right).isLE)]
          exact List.mem_of_mem_head? hhead
        obtain ⟨held, hheld⟩ := HashMap.mem_keys.mp hfirst
        simp only [nextMalformed, hhead, Option.bind_some, hheld, Option.map_eq_none_iff,
          List.head?_eq_none_iff] at hmalformed
        exact hp.sampled first held hheld hmalformed

theorem drained_of_none (hp : p.Sound) (h : p.nextEvent = none) : p.Drained ∧ p.historyBarrier = none := by
  simp only [nextEvent, Option.or_eq_none_iff, Option.map_eq_none_iff] at h
  obtain ⟨hsource, hlane, hentity, hmalformed, hbarrier⟩ := h
  exact ⟨drained_of_next hp hsource hlane hentity hmalformed, hbarrier⟩

theorem next_nextEvent (hp : p.Sound) {token : PendingToken} {pending : PendingSlot}
    (h : p.nextEvent = some (token, pending)) : p.Next token pending := by
  simp only [nextEvent, Option.or_eq_some_iff] at h
  rcases h with h | ⟨hsource, h | ⟨hlane, h | ⟨hentity, h | ⟨hmalformed, h⟩⟩⟩⟩
  · obtain ⟨provider, -, h⟩ := List.exists_of_findSome?_eq_some h
    obtain ⟨slot, hslot, he⟩ := Option.map_eq_some_iff.mp h
    cases he
    exact .source hslot
  · obtain ⟨slot, hslot, he⟩ := Option.map_eq_some_iff.mp h
    cases he
    obtain ⟨rest, hrest⟩ := List.head?_eq_some_iff.mp hslot
    exact .lane hrest
  · obtain ⟨key, -, h⟩ := List.exists_of_findSome?_eq_some h
    obtain ⟨entity, hentity, h⟩ := Option.bind_eq_some_iff.mp h
    obtain ⟨slot, -, h⟩ := List.exists_of_findSome?_eq_some h
    obtain ⟨held, hslot, he⟩ := Option.map_eq_some_iff.mp h
    cases he
    exact .entity hentity hslot
  · obtain ⟨key, -, h⟩ := Option.bind_eq_some_iff.mp h
    obtain ⟨slot, hslot, he⟩ := Option.map_eq_some_iff.mp h
    cases he
    obtain ⟨samples, hsamples, hhead⟩ := Option.bind_eq_some_iff.mp hslot
    obtain ⟨rest, rfl⟩ := List.head?_eq_some_iff.mp hhead
    exact .malformed hsamples
  · obtain ⟨slot, hslot, he⟩ := Option.map_eq_some_iff.mp h
    cases he
    exact .barrier hslot (drained_of_next hp hsource (Option.map_eq_none_iff.mp hlane) hentity hmalformed)

theorem count_setSlot {entity : PendingEntity} {slot : EntitySlot} {pending : PendingSlot}
    (h : entity.slot slot = some pending) : (entity.setSlot none slot).count + 1 = entity.count := by
  cases slot <;> simp only [PendingEntity.slot] at h <;>
    simp only [PendingEntity.setSlot, PendingEntity.count, h, Option.toList_none, Option.toList_some,
      List.length_nil, List.length_singleton] <;> omega

/-- What an entity keeps after one of its events was sent. -/
theorem get_removeEntity {key key' : EntityKey} {entity entity' : PendingEntity} {slot : EntitySlot}
    (hget : p.entities.get key = some entity)
    (h : (p.remove (.entity slot key)).entities.get key' = some entity') :
    key' ≠ key ∧ p.entities.get key' = some entity' ∨
      entity' = entity.setSlot none slot ∧ ∃ slot' pending, entity'.slot slot' = some pending := by
  simp only [remove, HashMap.modify, hget] at h
  unfold removeEmptyEntity at h
  rw [HashMap.get_insert_self, Option.any_some] at h
  split_ifs at h with hempty
  · rw [HashMap.get_remove] at h
    split_ifs at h with hkey
    exact .inl ⟨hkey, (HashMap.get_insert_ne _ _ hkey).symm.trans h⟩
  · rw [HashMap.get_insert] at h
    split_ifs at h with hkey
    · obtain rfl := Option.some.inj h
      refine .inr ⟨rfl, ?_⟩
      by_contra hnone
      push Not at hnone
      refine hempty ?_
      simp only [Bool.and_eq_true, Option.isNone_iff_eq_none]
      exact ⟨⟨⟨Option.eq_none_iff_forall_ne_some.mpr (hnone .identity),
        Option.eq_none_iff_forall_ne_some.mpr (hnone .upsert)⟩,
        Option.eq_none_iff_forall_ne_some.mpr (hnone .activity)⟩,
        Option.eq_none_iff_forall_ne_some.mpr (hnone .laneActivity)⟩
    · exact .inl ⟨hkey, h⟩

theorem remove_entity (slot : EntitySlot) (key : EntityKey) :
    p.remove (.entity slot key) = { p with entities := (p.remove (.entity slot key)).entities } := by
  simp only [remove, removeEmptyEntity]
  split_ifs <;> rfl

theorem count_removeEntity {key : EntityKey} {entity : PendingEntity} {slot : EntitySlot}
    {pending : PendingSlot} (hget : p.entities.get key = some entity)
    (hslot : entity.slot slot = some pending) :
    (p.remove (.entity slot key)).entities.keys.length ≤ p.entities.keys.length ∧
      (((p.remove (.entity slot key)).entities.values.map PendingEntity.count).sum + 1 =
        (p.entities.values.map PendingEntity.count).sum) := by
  have hkeys := HashMap.length_keys_insert p.entities key (entity.setSlot none slot)
  rw [if_pos (HashMap.contains_iff.mpr ⟨entity, hget⟩)] at hkeys
  have hsum := HashMap.sum_values_insert hget (entity.setSlot none slot) PendingEntity.count
  have hcount := count_setSlot hslot
  simp only [remove, HashMap.modify, hget, removeEmptyEntity, HashMap.get_insert_self, Option.any_some]
  split_ifs with hempty
  · have hzero : (entity.setSlot none slot).count = 0 := by
      simp only [Bool.and_eq_true, Option.isNone_iff_eq_none] at hempty
      obtain ⟨⟨⟨h1, h2⟩, h3⟩, h4⟩ := hempty
      simp [PendingEntity.count, h1, h2, h3, h4]
    have hremove := HashMap.sum_values_remove
      (HashMap.get_insert_self p.entities key (entity.setSlot none slot)) PendingEntity.count
    have hle := HashMap.length_keys_remove_le (p.entities.insert key (entity.setSlot none slot)) key
    constructor
    · exact hle.trans hkeys.le
    · dsimp only
      omega
  · constructor
    · exact hkeys.le
    · dsimp only
      omega

theorem slot_setSlot_none {entity : PendingEntity} {slot slot' : EntitySlot} {pending : PendingSlot}
    (h : (entity.setSlot none slot).slot slot' = some pending) : entity.slot slot' = some pending := by
  rw [slot_setSlot] at h
  split_ifs at h
  exact h

/-- A file that has more records keeps them. -/
theorem get_removeMalformed {key key' : MalformedKey} {pending : PendingSlot}
    {rest samples : List PendingSlot} (hget : p.malformed.get key = some (pending :: rest))
    (h : (p.remove (.malformed key)).malformed.get key' = some samples) :
    p.malformed.get key' = some samples ∨ samples = rest ∧ rest ≠ [] := by
  simp only [remove, hget, List.tail_cons] at h
  cases rest with
  | nil =>
    rw [HashMap.get_remove] at h
    split_ifs at h
    exact .inl h
  | cons second rest =>
    rw [HashMap.get_insert] at h
    split_ifs at h
    · exact .inr ⟨(Option.some.inj h).symm, by simp⟩
    · exact .inl h

theorem remove_malformed (key : MalformedKey) :
    p.remove (.malformed key) = { p with malformed := (p.remove (.malformed key)).malformed } := by
  simp only [remove]
  split
  · split <;> rfl
  · rfl

theorem count_removeMalformed {key : MalformedKey} {pending : PendingSlot} {rest : List PendingSlot}
    (hget : p.malformed.get key = some (pending :: rest)) :
    ((p.remove (.malformed key)).malformed.values.map List.length).sum + 1 =
      (p.malformed.values.map List.length).sum := by
  simp only [remove, hget, List.tail_cons]
  cases rest with
  | nil => exact HashMap.sum_values_remove hget List.length
  | cons second rest =>
    have hsum := HashMap.sum_values_insert hget (second :: rest) List.length
    simp only [List.length_cons] at hsum
    dsimp only
    omega

theorem Next.sound {token : PendingToken} {pending : PendingSlot} (h : p.Next token pending)
    (hp : p.Sound) : (p.remove token).Sound := by
  cases h with
  | source hget =>
    refine { hp with sources := fun provider slot hslot => ?_ }
    simp only [remove] at hslot
    rw [HashMap.get_remove] at hslot
    split_ifs at hslot
    exact hp.sources provider slot hslot
  | lane hlane =>
    refine { hp with lane := fun slot hslot => hp.lane slot (List.mem_of_mem_tail hslot), laneSize := ?_ }
    exact (List.length_tail ▸ Nat.sub_le _ _).trans hp.laneSize
  | @entity key entity slot _ hget hslot =>
    rw [remove_entity]
    refine { hp with
      entities := fun key' entity' slot' pending' hget' hslot' => ?_
      held := fun key' entity' hget' => ?_
      entitySize := (count_removeEntity hget hslot).1.trans hp.entitySize }
    · rcases get_removeEntity hget hget' with ⟨-, hold⟩ | ⟨rfl, -⟩
      · exact hp.entities key' entity' slot' pending' hold hslot'
      · exact hp.entities key entity slot' pending' hget (slot_setSlot_none hslot')
    · rcases get_removeEntity hget hget' with ⟨-, hold⟩ | ⟨-, hheld⟩
      · exact hp.held key' entity' hold
      · exact hheld
  | malformed hget =>
    rw [remove_malformed]
    refine { hp with malformed := fun key' samples hget' => ?_, sampled := fun key' samples hget' => ?_ }
    · rcases get_removeMalformed hget hget' with hold | ⟨rfl, -⟩
      · exact hp.malformed key' samples hold
      · exact fun slot hslot => hp.malformed _ _ hget slot (List.mem_cons_of_mem _ hslot)
    · rcases get_removeMalformed hget hget' with hold | ⟨rfl, hne⟩
      · exact hp.sampled key' samples hold
      · exact hne
  | barrier => exact { hp with barrier := fun slot hslot => by cases hslot }

/-- What waits is what is sent next and what waits then. -/
theorem Next.waiting {token : PendingToken} {pending : PendingSlot} (h : p.Next token pending)
    (hp : p.Sound) (kind : InOrder) :
    p.waiting kind = ofOrder kind [pending] ++ (p.remove token).waiting kind := by
  have hstate : pending.event.inOrder = none → ofOrder kind [pending] = [] := by
    intro hkind
    simp [ofOrder, hkind]
  cases h with
  | source hget =>
    rw [hstate (hp.sources _ _ hget), List.nil_append]
    cases kind <;> rfl
  | lane hlane =>
    have hkind := hp.lane pending (hlane ▸ List.mem_cons_self)
    cases kind <;> simp [ofOrder, hkind, PendingEvents.waiting, remove, hlane]
  | entity hget hslot =>
    rw [hstate (hp.entities _ _ _ _ hget hslot), List.nil_append, remove_entity]
    cases kind <;> rfl
  | malformed hget =>
    rw [hstate (hp.malformed _ _ hget _ List.mem_cons_self), List.nil_append, remove_malformed]
    cases kind <;> rfl
  | barrier hbarrier =>
    have hkind := hp.barrier pending hbarrier
    cases kind <;> simp [ofOrder, hkind, PendingEvents.waiting, remove, hbarrier]

theorem Next.count {token : PendingToken} {pending : PendingSlot} (h : p.Next token pending) :
    (p.remove token).totalCount < p.totalCount := by
  cases h with
  | @source provider _ hget =>
    have hmem : provider ∈ p.sources.keys := HashMap.mem_keys.mpr ⟨_, hget⟩
    have hkeys : (p.sources.remove provider).keys = p.sources.keys.erase provider := AList.keys_erase _ _
    have hpos := List.length_pos_of_mem hmem
    simp only [totalCount, remove, hkeys, List.length_erase_of_mem hmem]
    omega
  | lane hlane =>
    simp only [totalCount, remove, hlane, List.tail_cons, List.length_cons]
    omega
  | entity hget hslot =>
    have hcount := (count_removeEntity hget hslot).2
    rw [remove_entity]
    simp only [totalCount]
    omega
  | malformed hget =>
    have hcount := count_removeMalformed hget
    rw [remove_malformed]
    simp only [totalCount]
    omega
  | barrier hbarrier =>
    simp only [totalCount, remove, hbarrier, Option.toList_none, Option.toList_some, List.length_nil,
      List.length_singleton]
    omega

@[simp] theorem remove_capacity (token : PendingToken) : (p.remove token).capacity = p.capacity := by
  cases token with
  | entity slot key => rw [remove_entity]
  | malformed key => rw [remove_malformed]
  | _ => rfl

/-- An event is refused only if there is no room for it, and that changes nothing. -/
theorem Merged.refuses (h : Merged p incoming q outcome) {event : ProviderEvent} (he : outcome = .atCapacity event) :
    event = incoming.event ∧ q = p ∧ p.Full incoming.event := by
  cases h with
  | refused hfull =>
    cases he
    exact ⟨rfl, rfl, hfull⟩
  | source _ _ _ htaken => exact absurd he (htaken event)
  | malformed _ _ _ htaken => exact absurd he (htaken event)
  | entity _ _ _ _ htaken => exact absurd he (htaken event)
  | _ => cases he

theorem mergeWithOrigin_lane (h : incoming.event.inOrder = some .lane) :
    p.mergeWithOrigin incoming = p.mergeLane incoming := by
  unfold mergeWithOrigin
  cases hevent : incoming.event with
  | synthesized => rfl
  | runLiveness => rfl
  | laneClose => rfl
  | telemetry => rfl
  | sourceState provider state =>
    rw [hevent] at h
    cases state <;> cases h
  | _ =>
    rw [hevent] at h
    cases h

theorem mergeWithOrigin_entity {about : EntityEvent} (h : incoming.event.entityEvent = some about) :
    p.mergeWithOrigin incoming = p.mergeEntity about incoming := by
  obtain ⟨event, origin, manifest⟩ := incoming
  cases event <;> cases h <;> rfl

/-- An event for which there is no room is refused. -/
theorem mergeWithOrigin_full (h : p.Full incoming.event) :
    (p.mergeWithOrigin incoming).2 = .atCapacity incoming.event := by
  cases h with
  | lane hkind hfull => rw [mergeWithOrigin_lane hkind, mergeLane, if_pos hfull]
  | barrier provider barrier stored hevent hstored hother =>
    unfold mergeWithOrigin mergeBarrier
    simp only [hevent, hstored]
    split
    · rename_i provider' barrier' hsaid
      split_ifs with hsame
      · obtain ⟨rfl, heq⟩ := hsame
        rw [hother barrier' hsaid] at heq
        cases heq
      · rfl
    · rfl
  | entity about habout hnew hfull =>
    rw [mergeWithOrigin_entity habout, mergeEntity, hnew, if_pos]
    simpa using hfull

/-- A fact is taken in, and so is a barrier unless it waits already, if they are not refused. -/
theorem Merged.accepts (h : Merged p incoming q outcome) (hnot : outcome ≠ .atCapacity incoming.event) :
    (incoming.event.inOrder = some .lane → outcome = .accepted) ∧
      (incoming.event.inOrder = some .barrier → outcome = .accepted ∨ outcome = .duplicate) := by
  cases h with
  | refused => exact absurd rfl hnot
  | known _ hkind => exact ⟨fun hlane => absurd hlane hkind, fun _ => .inr rfl⟩
  | lane => exact ⟨fun _ => rfl, fun _ => .inl rfl⟩
  | barrier => exact ⟨fun _ => rfl, fun _ => .inl rfl⟩
  | source _ _ hkind => simp [hkind]
  | malformed _ _ hkind => simp [hkind]
  | entity _ _ _ habout => simp [inOrder_of_entityEvent habout]

/-- Whether an event is refused is decided by whether there is room for it. -/
theorem refused_or_taken (p : PendingEvents) (incoming : PendingSlot) :
    (p.Full incoming.event ∧ (p.mergeWithOrigin incoming).1 = p ∧
      (p.mergeWithOrigin incoming).2 = .atCapacity incoming.event) ∨
    ((∀ event, (p.mergeWithOrigin incoming).2 ≠ .atCapacity event) ∧ ¬ p.Full incoming.event ∧
      (incoming.event.inOrder = some .lane → (p.mergeWithOrigin incoming).2 = .accepted) ∧
      (incoming.event.inOrder = some .barrier →
        (p.mergeWithOrigin incoming).2 = .accepted ∨ (p.mergeWithOrigin incoming).2 = .duplicate)) := by
  have hmerged := merged_mergeWithOrigin p incoming
  by_cases hfull : p.Full incoming.event
  · have hrefused := mergeWithOrigin_full hfull
    exact .inl ⟨hfull, (hmerged.refuses hrefused).2.1, hrefused⟩
  · have hnever : ∀ event, (p.mergeWithOrigin incoming).2 ≠ .atCapacity event := fun event he =>
      hfull (hmerged.refuses he).2.2
    exact .inr ⟨hnever, hfull, hmerged.accepts (hnever incoming.event)⟩

theorem Merged.capacity (h : Merged p incoming q outcome) : q.capacity = p.capacity := by
  cases h <;> rfl

/-! ### A flush -/

theorem Sends.sound {sent : List PendingSlot} (h : Sends p sent q) (hp : p.Sound) : q.Sound := by
  induction h with
  | done => exact hp
  | next hnext _ ih => exact ih ((next_nextEvent hp hnext).sound hp)

theorem Sends.waiting {sent : List PendingSlot} (h : Sends p sent q) (hp : p.Sound) (kind : InOrder) :
    p.waiting kind = ofOrder kind sent ++ q.waiting kind := by
  induction h with
  | done => rfl
  | next hnext _ ih =>
    have hone := next_nextEvent hp hnext
    rw [hone.waiting hp, ih (hone.sound hp), ← List.append_assoc]
    simp only [ofOrder, ← List.filter_append, List.singleton_append]

theorem Sends.capacity {sent : List PendingSlot} (h : Sends p sent q) : q.capacity = p.capacity := by
  induction h with
  | done => rfl
  | next _ _ ih => exact ih.trans (remove_capacity _)

/-- How a flush ends that handed events over: the channel took each of them, and then nothing waits, or the
channel did not take the next event and nothing but the counters changed. -/
structure Flushed (answers : ℕ → SendAnswer) (sent : List PendingSlot) (q final : PendingEvents) : Prop where
  /-- The channel took what was handed over. -/
  taken : ∀ n < sent.length, answers n = .ok
  /-- Only an answer of the channel stops a flush while something waits. -/
  ends : q.nextEvent = none ∧ final = q ∨
    q.nextEvent ≠ none ∧ answers sent.length ≠ .ok ∧ ∃ diagnostics, final = { q with diagnostics }

theorem flushFrom_sends (answers : ℕ → SendAnswer) {fuel n : ℕ} (hp : p.Sound)
    (hfuel : p.totalCount < fuel) :
    ∃ q, Sends p (flushFrom answers fuel n p).2 q ∧
      Flushed (fun i => answers (n + i)) (flushFrom answers fuel n p).2 q (flushFrom answers fuel n p).1 := by
  induction fuel generalizing p n with
  | zero => exact absurd hfuel (Nat.not_lt_zero _)
  | succ fuel ih =>
    unfold flushFrom
    split
    · rename_i hnone
      exact ⟨p, .done p, fun _ h => absurd h (Nat.not_lt_zero _), .inl ⟨hnone, rfl⟩⟩
    · rename_i token pending hnext
      have hone := next_nextEvent hp hnext
      have hfailed : answers n ≠ .ok → ∀ diagnostics, ∃ q, Sends p [] q ∧
          Flushed (fun i => answers (n + i)) [] q { p with diagnostics } := fun hanswer diagnostics =>
        ⟨p, .done p, fun _ h => absurd h (Nat.not_lt_zero _), .inr ⟨by simp [hnext], hanswer, diagnostics, rfl⟩⟩
      split
      · rename_i hok
        obtain ⟨q, hsends, htaken, hends⟩ := ih (n := n + 1) (hone.sound hp)
          (Nat.lt_of_lt_of_le hone.count (Nat.le_of_lt_succ hfuel))
        have hshift : ∀ i, n + 1 + i = n + (i + 1) := fun i => by omega
        simp only [hshift] at htaken hends
        refine ⟨q, .next hnext hsends, fun i hi => ?_, hends⟩
        cases i with
        | zero => exact hok
        | succ i => exact htaken i (Nat.lt_of_succ_lt_succ hi)
      · rename_i hfull
        exact hfailed (by simp [hfull]) _
      · rename_i hclosed
        exact hfailed (by simp [hclosed]) _

/-- A flush hands events over until nothing waits or the channel does not take one. -/
theorem flushToSender_sends (hp : p.Sound) (answers : ℕ → SendAnswer) :
    ∃ q, Sends p (p.flushToSender answers).2 q ∧
      Flushed answers (p.flushToSender answers).2 q (p.flushToSender answers).1 := by
  obtain ⟨q, hsends, hend⟩ := flushFrom_sends answers (n := 0) hp (Nat.lt_succ_self p.totalCount)
  simp only [Nat.zero_add] at hend
  exact ⟨q, hsends, hend⟩

section

variable {answers : ℕ → SendAnswer} {sent : List PendingSlot}

theorem Flushed.sound (h : Flushed answers sent p q) (hp : p.Sound) : q.Sound := by
  obtain ⟨-, rfl⟩ | ⟨-, -, diagnostics, rfl⟩ := h.ends
  · exact hp
  · exact { hp with }

theorem Flushed.waiting (h : Flushed answers sent p q) (kind : InOrder) : q.waiting kind = p.waiting kind := by
  obtain ⟨-, rfl⟩ | ⟨-, -, diagnostics, rfl⟩ := h.ends
  · rfl
  · cases kind <;> rfl

theorem Flushed.capacity (h : Flushed answers sent p q) : q.capacity = p.capacity := by
  obtain ⟨-, rfl⟩ | ⟨-, -, diagnostics, rfl⟩ := h.ends <;> rfl

end

/-- When the channel takes everything, nothing waits after a flush. -/
theorem drained_flushToSender (hp : p.Sound) {answers : ℕ → SendAnswer} (hall : ∀ n, answers n = .ok) :
    (p.flushToSender answers).1.Drained ∧ (p.flushToSender answers).1.historyBarrier = none := by
  obtain ⟨q, hsends, hend⟩ := flushToSender_sends hp answers
  obtain ⟨hnone, hfinal⟩ | ⟨-, hstopped, -⟩ := hend.ends
  · rw [hfinal]
    exact drained_of_none (hsends.sound hp) hnone
  · exact absurd (hall _) hstopped

/-! ### A run -/

/-- What was taken in is what was handed over and what waits. -/
structure Account (capacity : ℕ) (ls : List PendingLabel) (p : PendingEvents) : Prop where
  /-- Everything is in its place. -/
  sound : p.Sound
  /-- The capacity does not change. -/
  capacity : p.capacity = capacity
  /-- Facts and barriers are delivered once and in order. -/
  balance : ∀ kind, ofOrder kind (ls.filterMap PendingLabel.accepted) =
    ofOrder kind (ls.filterMap PendingLabel.delivered) ++ p.waiting kind

theorem Account.step {capacity : ℕ} {ls l : List PendingLabel} (h : Account capacity ls p)
    (hstep : Step p l q) : Account capacity (ls ++ l) q := by
  cases hstep with
  | merge incoming =>
    have hmerged := merged_mergeWithOrigin p incoming
    refine ⟨hmerged.sound h.sound, hmerged.capacity.trans h.capacity, fun kind => ?_⟩
    have hone : ([PendingLabel.merged incoming (p.mergeWithOrigin incoming).2].filterMap
        PendingLabel.accepted) =
        (PendingLabel.merged incoming (p.mergeWithOrigin incoming).2).accepted.toList := by
      cases hc : (PendingLabel.merged incoming (p.mergeWithOrigin incoming).2).accepted <;> simp [hc]
    have hnone : ([PendingLabel.merged incoming (p.mergeWithOrigin incoming).2].filterMap
        PendingLabel.delivered) = [] := rfl
    rw [List.filterMap_append, List.filterMap_append, hone, hnone, List.append_nil, hmerged.waiting kind,
      ← List.append_assoc, ← h.balance kind]
    simp only [ofOrder, List.filter_append]
  | flush answers =>
    obtain ⟨q, hsends, hend⟩ := flushToSender_sends h.sound answers
    refine ⟨hend.sound (hsends.sound h.sound),
      (hend.capacity.trans hsends.capacity).trans h.capacity, fun kind => ?_⟩
    have hnone : (((p.flushToSender answers).2.map PendingLabel.sent).filterMap PendingLabel.accepted) =
        [] := by
      simp [PendingLabel.accepted]
    have hall : (((p.flushToSender answers).2.map PendingLabel.sent).filterMap PendingLabel.delivered) =
        (p.flushToSender answers).2 := by
      simp [List.filterMap_map, Function.comp_def, PendingLabel.delivered]
    rw [List.filterMap_append, List.filterMap_append, hnone, hall, List.append_nil, hend.waiting kind,
      h.balance kind, hsends.waiting h.sound kind, ← List.append_assoc]
    simp only [ofOrder, List.filter_append]

theorem account {capacity : ℕ} {diagnostics : ProviderDiagnostics} {ls : List PendingLabel}
    (h : Runs Step (withCapacity capacity diagnostics) ls p) : Account capacity ls p := by
  generalize hs : withCapacity capacity diagnostics = start at h
  induction h with
  | refl =>
    subst hs
    exact ⟨sound_withCapacity _ _, rfl, fun kind => by cases kind <;> rfl⟩
  | tail _ hstep ih => exact ih.step hstep

end

end PendingEvents

open PendingEvents in
/-- In every buffer that merges and flushes lead to: the facts and the barriers that were taken in are
those that were handed over and those that wait, in order; the lane and the entities stay within the
capacity; an event is refused exactly if there is no room for it, and then nothing changes, and a fact or a
barrier that is not refused is taken in, or is the barrier that waits; the end of an agent stays
where it waits; a flush hands over what is next as long as the channel takes it and something waits, so that
nothing waits after it when the channel takes everything, and a failed send changes only the counters; a
barrier is next only when nothing else waits. -/
theorem pending_delivery {capacity : ℕ} {diagnostics : ProviderDiagnostics} {ls : List PendingLabel}
    {p : PendingEvents} (h : Runs PendingEvents.Step (withCapacity capacity diagnostics) ls p) :
    (∀ kind, ofOrder kind (ls.filterMap PendingLabel.accepted) =
      ofOrder kind (ls.filterMap PendingLabel.delivered) ++ p.waiting kind) ∧
    (p.lane.length ≤ capacity ∧ p.entities.keys.length ≤ capacity) ∧
    (∀ incoming, (p.Full incoming.event ∧ (p.mergeWithOrigin incoming).1 = p ∧
        (p.mergeWithOrigin incoming).2 = .atCapacity incoming.event) ∨
      ((∀ event, (p.mergeWithOrigin incoming).2 ≠ .atCapacity event) ∧ ¬ p.Full incoming.event ∧
        (incoming.event.inOrder = some .lane → (p.mergeWithOrigin incoming).2 = .accepted) ∧
        (incoming.event.inOrder = some .barrier →
          (p.mergeWithOrigin incoming).2 = .accepted ∨ (p.mergeWithOrigin incoming).2 = .duplicate))) ∧
    (∀ incoming key, p.HoldsTerminal key → (p.mergeWithOrigin incoming).1.HoldsTerminal key) ∧
    (∀ answers, ∃ q, Sends p (p.flushToSender answers).2 q ∧
      Flushed answers (p.flushToSender answers).2 q (p.flushToSender answers).1) ∧
    (∀ answers, (∀ n, answers n = .ok) →
      (p.flushToSender answers).1.Drained ∧ (p.flushToSender answers).1.historyBarrier = none) ∧
    ∀ sent q token pending, Sends p sent q → q.nextEvent = some (token, pending) →
      pending.event.inOrder = some .barrier → q.Drained := by
  have hacc := account h
  refine ⟨hacc.balance, ⟨hacc.capacity ▸ hacc.sound.laneSize, hacc.capacity ▸ hacc.sound.entitySize⟩,
    fun incoming => refused_or_taken p incoming,
    fun incoming key => (merged_mergeWithOrigin p incoming).terminal,
    fun answers => flushToSender_sends hacc.sound answers,
    fun answers => drained_flushToSender hacc.sound,
    fun sent q token pending hsends hnext hkind => ?_⟩
  have hq := hsends.sound hacc.sound
  cases next_nextEvent hq hnext with
  | source hget => exact absurd hkind (by simp [hq.sources _ _ hget])
  | lane hlane => exact absurd hkind (by simp [hq.lane pending (hlane ▸ List.mem_cons_self)])
  | entity hget hslot => exact absurd hkind (by simp [hq.entities _ _ _ _ hget hslot])
  | malformed hget => exact absurd hkind (by simp [hq.malformed _ _ hget pending List.mem_cons_self])
  | barrier _ hdrained => exact hdrained

/-- A sign of life. -/
def livenessSlot : PendingSlot := ⟨.runLiveness (.controller "t") 5, .live, none⟩

/-- The end of a drain without artifacts. -/
def barrierSlot : PendingSlot :=
  ⟨.sourceState .claude (.historyDrainBarrier
    ⟨{ drainId := { value := "f" }, provider := .claude, createdAtMs := 0, artifacts := [] }, 5, 0⟩), .live, none⟩

open PendingEvents in
/-- A sign of life and a barrier wait. -/
def factAndBarrier : PendingEvents :=
  ((((withCapacity 1 {}).mergeWithOrigin livenessSlot).1).mergeWithOrigin barrierSlot).1

/-- A channel that takes one event and is full then. -/
def takesOne (n : ℕ) : SendAnswer := if n = 0 then .ok else .full

open PendingEvents in
/-- While the fact waits no other one is taken in; the channel takes it and is full; then it takes the rest. -/
theorem pending_delivery_factAndBarrier :
    (factAndBarrier.flushToSender takesOne).2 = [livenessSlot] ∧
      [barrierSlot] = (factAndBarrier.flushToSender takesOne).1.waiting .barrier ∧
      (factAndBarrier.mergeWithOrigin livenessSlot).1 = factAndBarrier ∧
      ((factAndBarrier.flushToSender takesOne).1.flushToSender fun _ => .ok).1.Drained := by
  have hmerged := (Runs.one (PendingEvents.Step.merge (withCapacity 1 {}) livenessSlot)).tail
    (PendingEvents.Step.merge _ barrierSlot)
  have hflushed := hmerged.tail (PendingEvents.Step.flush factAndBarrier takesOne)
  refine ⟨by decide, ?_, ?_, ?_⟩
  · exact (pending_delivery hflushed).1 .barrier
  · rcases (pending_delivery hmerged).2.2.1 livenessSlot with ⟨-, hunchanged, -⟩ | ⟨-, hroom, -⟩
    · exact hunchanged
    · exact absurd (.lane rfl (by decide)) hroom
  · exact ((pending_delivery hflushed).2.2.2.2.2.1 _ fun _ => rfl).1

end HerdrTop
