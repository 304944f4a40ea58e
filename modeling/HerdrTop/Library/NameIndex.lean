import Mathlib.Data.List.Basic
import Mathlib.Logic.Function.Basic

/-!
# Objects with names

Objects of type `ι` carry an own key of type `κ`, and an index leads from keys to objects.
An object can be known under further keys (aliases); it can get a new own key, the old one
becoming an alias; and one object can be absorbed by another, to which all its keys then
lead.

Three predicates on keys shape what is allowed. A *hidden* key may be unlisted although
an object owns it. A *special* key may name an object beside at most no other special
key. A *top* key is final: its owner is never absorbed and never renamed.

## What is proved

`Sound` holds after every step (`Sound.step`) and so after every run (`Sound.steps`), and so does
`Coherent` (`Coherent.step`, `Coherent.steps`). A key that leads to an object keeps leading to it, or to the object
that absorbed it (`names_steps`); the owner of a top key stays (`own_top_steps`). Where every own key is listed it
stays so (`Listed.steps`).
-/

namespace HerdrTop

universe u v

/-- Objects with own keys, and an index from keys to objects. -/
@[ext] structure NameIndex (ι : Type u) (κ : Type v) where
  /-- The own key of an object; `none` when there is no such object. -/
  own : ι → Option κ
  /-- The object a key leads to. -/
  names : κ → Option ι

namespace NameIndex

variable {ι : Type u} {κ : Type v} [DecidableEq ι] [DecidableEq κ]

/-- Which keys may be unlisted, are special, and are final. -/
structure Kinds (κ : Type v) where
  /-- May be unlisted although an object owns it. -/
  hidden : κ → Prop
  /-- No object has two of these. -/
  special : κ → Prop
  /-- The owner is never absorbed. -/
  top : κ → Prop
  /-- A final key is not hidden. -/
  not_hidden_of_top : ∀ k, top k → ¬ hidden k
  /-- A special key is not hidden. -/
  not_hidden_of_special : ∀ k, special k → ¬ hidden k
  /-- A special key is not final. -/
  not_top_of_special : ∀ k, special k → ¬ top k

/-! ### Operations -/

/-- A new object with its key. -/
def create (X : NameIndex ι κ) (i : ι) (k : κ) : NameIndex ι κ :=
  ⟨Function.update X.own i (some k), Function.update X.names k (some i)⟩

/-- Another key for an object. -/
def link (X : NameIndex ι κ) (k : κ) (i : ι) : NameIndex ι κ :=
  ⟨X.own, Function.update X.names k (some i)⟩

/-- A new own key for an object; the old one still leads to it. -/
def rename (X : NameIndex ι κ) (i : ι) (old k : κ) : NameIndex ι κ :=
  ⟨Function.update X.own i (some k),
    Function.update (Function.update X.names k (some i)) old (some i)⟩

/-- One object absorbed by another. -/
def absorb (X : NameIndex ι κ) (survivor absorbed : ι) : NameIndex ι κ :=
  ⟨Function.update X.own absorbed none, fun k =>
    if X.names k = some absorbed ∨ X.own absorbed = some k then some survivor else X.names k⟩

omit [DecidableEq ι] in
theorem names_link (X : NameIndex ι κ) (k k' : κ) (i : ι) :
    (X.link k i).names k' = if k' = k then some i else X.names k' :=
  Function.update_apply _ _ _ _

/-! ### Coherence -/

/-- The index and the objects agree. -/
structure Sound (K : Kinds κ) (X : NameIndex ι κ) : Prop where
  /-- A key leads to an object. -/
  leads : ∀ k i, X.names k = some i → ∃ c, X.own i = some c
  /-- An own key leads home, unless it is hidden and unlisted. -/
  home : ∀ i c, X.own i = some c → X.names c = some i ∨ (K.hidden c ∧ X.names c = none)
  /-- No two objects own one key. -/
  distinct : ∀ i j c, X.own i = some c → X.own j = some c → i = j
  /-- No object has two special keys. -/
  special_unique : ∀ i k k', X.names k = some i → X.names k' = some i →
    K.special k → K.special k' → k = k'

/-- They agree, and special keys are where they belong. -/
structure Coherent (K : Kinds κ) (X : NameIndex ι κ) : Prop extends Sound K X where
  /-- Only the owner of a special or a final key has a special key. -/
  special_owner : ∀ i c k, X.own i = some c → X.names k = some i → K.special k →
    K.special c ∨ K.top c

/-- The steps that keep an index sound and coherent, with the absorption they perform, if any. -/
inductive Step (K : Kinds κ) (X : NameIndex ι κ) : Option (ι × ι) → NameIndex ι κ → Prop
  /-- A new object under a key nobody has. -/
  | create (i : ι) (k : κ) (hi : X.own i = none) (hk : X.names k = none)
      (hown : ∀ j, X.own j ≠ some k) : Step K X none (X.create i k)
  /-- The own key of an object is listed again. -/
  | relist (i : ι) (c : κ) (hi : X.own i = some c) : Step K X none (X.link c i)
  /-- A special key for the owner of a final key that has no special one yet. -/
  | bind (i : ι) (c k : κ) (hi : X.own i = some c) (hc : K.top c) (hk : K.special k)
      (hn : X.names k = none) (hfirst : ∀ k', X.names k' = some i → ¬ K.special k') :
      Step K X none (X.link k i)
  /-- A special key in the place of an own key that is neither special nor final, for an object
  that has no special one yet. -/
  | promote (i : ι) (old k : κ) (hi : X.own i = some old) (hs : ¬ K.special old)
      (ht : ¬ K.top old) (hk : K.special k) (hn : X.names k = none)
      (hfirst : ∀ k', X.names k' = some i → ¬ K.special k') : Step K X none (X.rename i old k)
  /-- An object that does not own a final key is absorbed; only one of the two may have a
  special key, and who absorbs the owner of one may have it. -/
  | absorb (s a : ι) (cs ca : κ) (hne : s ≠ a) (hs : X.own s = some cs) (ha : X.own a = some ca)
      (hta : ¬ K.top ca)
      (hone : ∀ k k', X.names k = some s → X.names k' = some a → K.special k → ¬ K.special k')
      (hrank : K.special ca → K.special cs ∨ K.top cs) : Step K X (some (s, a)) (X.absorb s a)

variable {K : Kinds κ} {X X' : NameIndex ι κ}

omit [DecidableEq ι] [DecidableEq κ] in
/-- A special key that somebody owns is listed. -/
theorem Sound.names_of_own_special (h : Sound K X) {i : ι} {c : κ} (hi : X.own i = some c)
    (hc : K.special c) : X.names c = some i :=
  (h.home i c hi).resolve_right fun hh => K.not_hidden_of_special c hc hh.1

omit [DecidableEq ι] [DecidableEq κ] in
theorem Sound.not_named_of_absent (h : Sound K X) {i : ι} (hi : X.own i = none) (k : κ) :
    X.names k ≠ some i := fun hk => by
  obtain ⟨c, hc⟩ := h.leads k i hk
  rw [hi] at hc
  cases hc

theorem Sound.create (h : Sound K X) {i : ι} {k : κ} (hi : X.own i = none)
    (hown : ∀ j, X.own j ≠ some k) : Sound K (X.create i k) where
  leads k' j hj := by
    simp only [NameIndex.create, Function.update_apply] at hj ⊢
    split_ifs with hji
    · exact ⟨k, rfl⟩
    · split_ifs at hj with hkk
      · cases hj
        exact absurd rfl hji
      · exact h.leads k' j hj
  home j c hj := by
    simp only [NameIndex.create, Function.update_apply] at hj ⊢
    split_ifs at hj with hji
    · cases hj
      exact .inl (by rw [if_pos rfl, hji])
    · have hck : c ≠ k := fun e => hown j (e ▸ hj)
      rw [if_neg hck]
      exact h.home j c hj
  distinct j j' c hj hj' := by
    simp only [NameIndex.create, Function.update_apply] at hj hj'
    split_ifs at hj hj' with h1 h2 h3
    · rw [h1, h2]
    · cases hj
      exact absurd hj' (hown j')
    · cases hj'
      exact absurd hj (hown j)
    · exact h.distinct j j' c hj hj'
  special_unique j k1 k2 h1 h2 hs1 hs2 := by
    simp only [NameIndex.create, Function.update_apply] at h1 h2
    split_ifs at h1 h2 with e1 e2 e2
    · rw [e1, e2]
    · cases h1
      exact absurd h2 (h.not_named_of_absent hi k2)
    · cases h2
      exact absurd h1 (h.not_named_of_absent hi k1)
    · exact h.special_unique j k1 k2 h1 h2 hs1 hs2

theorem Coherent.create (h : Coherent K X) {i : ι} {k : κ} (hi : X.own i = none)
    (hown : ∀ j, X.own j ≠ some k) : Coherent K (X.create i k) where
  toSound := h.toSound.create hi hown
  special_owner j c k' hj hk' hs := by
    simp only [NameIndex.create, Function.update_apply] at hj hk'
    split_ifs at hj hk' with h1 h2 h2
    · cases hj
      exact .inl (h2 ▸ hs)
    · exact absurd (h1 ▸ hk') (h.not_named_of_absent hi k')
    · cases hk'
      exact absurd rfl h1
    · exact h.special_owner j c k' hj hk' hs

omit [DecidableEq ι] in
theorem Sound.relist (h : Sound K X) {i : ι} {c : κ} (hi : X.own i = some c) :
    Sound K (X.link c i) where
  leads k j hj := by
    simp only [NameIndex.link, Function.update_apply] at hj ⊢
    split_ifs at hj with hk
    · cases hj
      exact ⟨c, hi⟩
    · exact h.leads k j hj
  home j d hj := by
    simp only [NameIndex.link, Function.update_apply] at hj ⊢
    split_ifs with hd
    · exact .inl (by rw [h.distinct j i d hj (hd ▸ hi)])
    · exact h.home j d hj
  distinct := h.distinct
  special_unique j k1 k2 h1 h2 hs1 hs2 := by
    simp only [NameIndex.link, Function.update_apply] at h1 h2
    split_ifs at h1 h2 with e1 e2 e2
    · rw [e1, e2]
    · cases h1
      exact h.special_unique i k1 k2 (e1 ▸ h.names_of_own_special hi (e1 ▸ hs1)) h2 hs1 hs2
    · cases h2
      exact h.special_unique i k1 k2 h1 (e2 ▸ h.names_of_own_special hi (e2 ▸ hs2)) hs1 hs2
    · exact h.special_unique j k1 k2 h1 h2 hs1 hs2

omit [DecidableEq ι] in
theorem Coherent.relist (h : Coherent K X) {i : ι} {c : κ} (hi : X.own i = some c) :
    Coherent K (X.link c i) where
  toSound := h.toSound.relist hi
  special_owner j d k hj hk hs := by
    simp only [NameIndex.link, Function.update_apply] at hj hk
    split_ifs at hk with e
    · cases hk
      rw [hi] at hj
      cases hj
      exact .inl (e ▸ hs)
    · exact h.special_owner j d k hj hk hs

omit [DecidableEq ι] in
theorem Sound.bind (h : Sound K X) {i : ι} {c k : κ} (hi : X.own i = some c)
    (hk : K.special k) (hn : X.names k = none)
    (hfirst : ∀ k', X.names k' = some i → ¬ K.special k') : Sound K (X.link k i) where
  leads k' j hj := by
    simp only [NameIndex.link, Function.update_apply] at hj ⊢
    split_ifs at hj with hkk
    · cases hj
      exact ⟨c, hi⟩
    · exact h.leads k' j hj
  home j d hj := by
    simp only [NameIndex.link, Function.update_apply] at hj ⊢
    split_ifs with hd
    · -- a special key that nobody is listed under is nobody's own
      have := h.names_of_own_special (hd ▸ hj) hk
      rw [hn] at this
      cases this
    · exact h.home j d hj
  distinct := h.distinct
  special_unique j k1 k2 h1 h2 hs1 hs2 := by
    simp only [NameIndex.link, Function.update_apply] at h1 h2
    split_ifs at h1 h2 with e1 e2 e2
    · rw [e1, e2]
    · cases h1
      exact absurd hs2 (hfirst k2 h2)
    · cases h2
      exact absurd hs1 (hfirst k1 h1)
    · exact h.special_unique j k1 k2 h1 h2 hs1 hs2

omit [DecidableEq ι] in
theorem Coherent.bind (h : Coherent K X) {i : ι} {c k : κ} (hi : X.own i = some c) (hc : K.top c)
    (hk : K.special k) (hn : X.names k = none)
    (hfirst : ∀ k', X.names k' = some i → ¬ K.special k') : Coherent K (X.link k i) where
  toSound := h.toSound.bind hi hk hn hfirst
  special_owner j d k' hj hk' hs := by
    simp only [NameIndex.link, Function.update_apply] at hj hk'
    split_ifs at hk' with e
    · cases hk'
      rw [hi] at hj
      cases hj
      exact .inr hc
    · exact h.special_owner j d k' hj hk' hs

theorem Sound.promote (h : Sound K X) {i : ι} {old k : κ} (hi : X.own i = some old)
    (hs : ¬ K.special old) (hk : K.special k) (hn : X.names k = none)
    (hfirst : ∀ k', X.names k' = some i → ¬ K.special k') : Sound K (X.rename i old k) := by
  have hko : k ≠ old := fun e => hs (e ▸ hk)
  have hold : ∀ j, X.names old = some j → j = i := fun j hj => by
    rcases h.home i old hi with hh | ⟨-, hh⟩
    · rw [hh] at hj
      exact (Option.some.inj hj).symm
    · rw [hh] at hj
      cases hj
  refine ⟨fun k' j hj => ?_, fun j d hj => ?_, fun j j' d hj hj' => ?_,
    fun j k1 k2 h1 h2 hs1 hs2 => ?_⟩
  · simp only [NameIndex.rename, Function.update_apply] at hj ⊢
    split_ifs with hji
    · exact ⟨k, rfl⟩
    · split_ifs at hj with e1 e2
      · cases hj
        exact absurd rfl hji
      · cases hj
        exact absurd rfl hji
      · exact h.leads k' j hj
  · simp only [NameIndex.rename, Function.update_apply] at hj ⊢
    split_ifs at hj with hji
    · cases hj
      exact .inl (by rw [if_neg hko, if_pos rfl, hji])
    · have hdo : d ≠ old := fun e => hji (h.distinct j i old (e ▸ hj) hi)
      have hdk : d ≠ k := fun e => by
        have := h.names_of_own_special (e ▸ hj) hk
        rw [hn] at this
        cases this
      rw [if_neg hdo, if_neg hdk]
      exact h.home j d hj
  · simp only [NameIndex.rename, Function.update_apply] at hj hj'
    have hown : ∀ j, X.own j ≠ some k := fun j hjk => by
      have := h.names_of_own_special hjk hk
      rw [hn] at this
      cases this
    split_ifs at hj hj' with h1 h2 h3
    · rw [h1, h2]
    · cases hj
      exact absurd hj' (hown j')
    · cases hj'
      exact absurd hj (hown j)
    · exact h.distinct j j' d hj hj'
  · -- the only special key of the renamed object is its new own key
    simp only [NameIndex.rename, Function.update_apply] at h1 h2
    have hne : ∀ k', K.special k' → k' ≠ old := fun k' hk' e => hs (e ▸ hk')
    rw [if_neg (hne k1 hs1)] at h1
    rw [if_neg (hne k2 hs2)] at h2
    split_ifs at h1 h2 with e1 e2 e2
    · rw [e1, e2]
    · cases h1
      exact absurd hs2 (hfirst k2 h2)
    · cases h2
      exact absurd hs1 (hfirst k1 h1)
    · exact h.special_unique j k1 k2 h1 h2 hs1 hs2

theorem Coherent.promote (h : Coherent K X) {i : ι} {old k : κ} (hi : X.own i = some old)
    (hs : ¬ K.special old) (hk : K.special k) (hn : X.names k = none)
    (hfirst : ∀ k', X.names k' = some i → ¬ K.special k') : Coherent K (X.rename i old k) where
  toSound := h.toSound.promote hi hs hk hn hfirst
  special_owner j d k' hj hk' hsk := by
    simp only [NameIndex.rename, Function.update_apply] at hj hk'
    split_ifs at hj with hji
    · cases hj
      exact .inl hk
    · split_ifs at hk' with e1 e2
      · cases hk'
        exact absurd rfl hji
      · cases hk'
        exact absurd rfl hji
      · exact h.special_owner j d k' hj hk' hsk

/-- A special key that now leads to the survivor led to one of the two before. -/
theorem Sound.of_absorb (h : Sound K X) {s a : ι} {k : κ} (hk : K.special k)
    (hks : (X.absorb s a).names k = some s) : X.names k = some s ∨ X.names k = some a := by
  simp only [NameIndex.absorb] at hks
  split_ifs at hks with hc
  · rcases hc with hc | hc
    · exact .inr hc
    · exact .inr (h.names_of_own_special hc hk)
  · exact .inl hks

theorem of_absorb_other {s a j : ι} {k : κ} (hjs : j ≠ s)
    (hkj : (X.absorb s a).names k = some j) : X.names k = some j := by
  simp only [NameIndex.absorb] at hkj
  split_ifs at hkj with hc
  · exact absurd (Option.some.inj hkj).symm hjs
  · exact hkj

theorem Sound.absorb (h : Sound K X) {s a : ι} {cs : κ} (hne : s ≠ a) (hs : X.own s = some cs)
    (hone : ∀ k k', X.names k = some s → X.names k' = some a → K.special k → ¬ K.special k') :
    Sound K (X.absorb s a) := by
  refine ⟨fun k j hj => ?_, fun j d hj => ?_, fun j j' d hj hj' => ?_,
    fun j k1 k2 h1 h2 hs1 hs2 => ?_⟩
  · simp only [NameIndex.absorb, Function.update_apply] at hj ⊢
    split_ifs at hj with hc
    · cases hj
      exact ⟨cs, by rw [if_neg hne, hs]⟩
    · obtain ⟨d, hd⟩ := h.leads k j hj
      have hja : j ≠ a := fun e => hc (.inl (e ▸ hj))
      exact ⟨d, by rw [if_neg hja, hd]⟩
  · simp only [NameIndex.absorb, Function.update_apply] at hj ⊢
    split_ifs at hj with hja
    have hda : X.own a ≠ some d := fun e => hja (h.distinct j a d hj e)
    rcases h.home j d hj with hd | ⟨hh, hd⟩
    · have hna : X.names d ≠ some a := fun e => hja (Option.some.inj (hd.symm.trans e))
      exact .inl (by rw [if_neg (not_or.mpr ⟨hna, hda⟩), hd])
    · have hna : X.names d ≠ some a := fun e => by rw [hd] at e; cases e
      exact .inr ⟨hh, by rw [if_neg (not_or.mpr ⟨hna, hda⟩), hd]⟩
  · simp only [NameIndex.absorb, Function.update_apply] at hj hj'
    split_ifs at hj hj'
    exact h.distinct j j' d hj hj'
  · by_cases hjs : j = s
    · subst hjs
      rcases h.of_absorb hs1 h1 with h1 | h1 <;> rcases h.of_absorb hs2 h2 with h2 | h2
      · exact h.special_unique j k1 k2 h1 h2 hs1 hs2
      · exact absurd hs2 (hone k1 k2 h1 h2 hs1)
      · exact absurd hs1 (hone k2 k1 h2 h1 hs2)
      · exact h.special_unique a k1 k2 h1 h2 hs1 hs2
    · exact h.special_unique j k1 k2 (of_absorb_other hjs h1) (of_absorb_other hjs h2) hs1 hs2

theorem Coherent.absorb (h : Coherent K X) {s a : ι} {cs ca : κ} (hne : s ≠ a)
    (hs : X.own s = some cs) (ha : X.own a = some ca) (hta : ¬ K.top ca)
    (hone : ∀ k k', X.names k = some s → X.names k' = some a → K.special k → ¬ K.special k')
    (hrank : K.special ca → K.special cs ∨ K.top cs) : Coherent K (X.absorb s a) where
  toSound := h.toSound.absorb hne hs hone
  special_owner j d k hj hk hsk := by
    simp only [NameIndex.absorb, Function.update_apply] at hj
    split_ifs at hj with hja
    by_cases hjs : j = s
    · subst hjs
      rw [hs] at hj
      cases hj
      rcases h.of_absorb hsk hk with hk | hk
      · exact h.special_owner j cs k hs hk hsk
      · exact hrank ((h.special_owner a ca k ha hk hsk).resolve_right hta)
    · exact h.special_owner j d k hj (of_absorb_other hjs hk) hsk

/-- Every step keeps the index sound. -/
theorem Sound.step (h : Sound K X) {l : Option (ι × ι)} (hs : Step K X l X') : Sound K X' := by
  cases hs with
  | create i k hi hk hown => exact h.create hi hown
  | relist i c hi => exact h.relist hi
  | bind i c k hi hc hk hn hfirst => exact h.bind hi hk hn hfirst
  | promote i old k hi hs ht hk hn hfirst => exact h.promote hi hs hk hn hfirst
  | absorb s a cs ca hne hs ha hta hone hrank => exact h.absorb hne hs hone

/-- Every step keeps the index coherent. -/
theorem Coherent.step (h : Coherent K X) {l : Option (ι × ι)} (hs : Step K X l X') :
    Coherent K X' := by
  cases hs with
  | create i k hi hk hown => exact h.create hi hown
  | relist i c hi => exact h.relist hi
  | bind i c k hi hc hk hn hfirst => exact h.bind hi hc hk hn hfirst
  | promote i old k hi hs ht hk hn hfirst => exact h.promote hi hs hk hn hfirst
  | absorb s a cs ca hne hs ha hta hone hrank => exact h.absorb hne hs ha hta hone hrank

/-- Every own key is listed. -/
def Listed (X : NameIndex ι κ) : Prop := ∀ i c, X.own i = some c → X.names c = some i

/-- No step makes an own key unlisted. -/
theorem Listed.step (h : Listed X) (hX : Sound K X) {l : Option (ι × ι)} (hs : Step K X l X') : Listed X' := by
  intro j d hj
  cases hs with
  | create i k hi hk hown =>
    simp only [NameIndex.create, Function.update_apply] at hj ⊢
    split_ifs at hj with hji
    · cases hj
      simp [hji]
    · have hdk : d ≠ k := fun e => hown j (e ▸ hj)
      rw [if_neg hdk]
      exact h j d hj
  | relist i c hi =>
    simp only [NameIndex.link, Function.update_apply] at hj ⊢
    split_ifs with hd
    · rw [hX.distinct j i d hj (hd ▸ hi)]
    · exact h j d hj
  | bind i c k hi hc hk hn hfirst =>
    simp only [NameIndex.link, Function.update_apply] at hj ⊢
    have hdk : d ≠ k := fun e => by simp [← e, h j d hj] at hn
    rw [if_neg hdk]
    exact h j d hj
  | promote i old k hi hs ht hk hn hfirst =>
    simp only [NameIndex.rename, Function.update_apply] at hj ⊢
    split_ifs at hj with hji
    · cases hj
      have hko : d ≠ old := fun e => hs (e ▸ hk)
      rw [if_neg hko, if_pos rfl, hji]
    · have hdo : d ≠ old := fun e => hji (hX.distinct j i d hj (e ▸ hi))
      have hdk : d ≠ k := fun e => by simp [← e, h j d hj] at hn
      rw [if_neg hdo, if_neg hdk]
      exact h j d hj
  | absorb s a cs ca hne hs ha hta hone hrank =>
    simp only [NameIndex.absorb, Function.update_apply] at hj ⊢
    split_ifs at hj with hja
    rw [if_neg, h j d hj]
    rintro (hd | hd)
    · exact hja (Option.some.inj ((h j d hj).symm.trans hd))
    · exact hja (hX.distinct j a d hj hd)

/-! ### Where keys lead over time -/

/-- The object that stands for `i` after an absorption. -/
def followOne (l : Option (ι × ι)) (i : ι) : ι :=
  match l with
  | some (s, a) => if i = a then s else i
  | none => i

/-- A listed key leads to the same object, or to the one that absorbed it. -/
theorem names_step (h : Sound K X) {l : Option (ι × ι)} (hs : Step K X l X') {k : κ} {i : ι}
    (hk : X.names k = some i) : X'.names k = some (followOne l i) := by
  cases hs with
  | create j c hj hc hown =>
    have hkc : k ≠ c := fun e => by rw [e, hc] at hk; cases hk
    simp only [NameIndex.create, Function.update_apply, if_neg hkc, hk, followOne]
  | relist j c hj =>
    by_cases hkc : k = c
    · subst hkc
      rcases h.home j k hj with hh | ⟨-, hh⟩
      · rw [hk] at hh
        simp only [NameIndex.link, Function.update_self, followOne, hh]
      · rw [hk] at hh
        cases hh
    · simp only [NameIndex.link, Function.update_apply, if_neg hkc, hk, followOne]
  | bind j c c' hj hc hc' hn hfirst =>
    have hkc : k ≠ c' := fun e => by rw [e, hn] at hk; cases hk
    simp only [NameIndex.link, Function.update_apply, if_neg hkc, hk, followOne]
  | promote j old c hj hs ht hc hn hfirst =>
    have hkc : k ≠ c := fun e => by rw [e, hn] at hk; cases hk
    by_cases hko : k = old
    · subst hko
      rcases h.home j k hj with hh | ⟨-, hh⟩
      · rw [hk] at hh
        simp only [NameIndex.rename, Function.update_self, followOne, hh]
      · rw [hk] at hh
        cases hh
    · simp only [NameIndex.rename, Function.update_apply, if_neg hkc, if_neg hko, hk, followOne]
  | absorb s a cs ca hne hs ha hta hone hrank =>
    simp only [NameIndex.absorb, followOne, hk, Option.some.injEq]
    by_cases hia : i = a
    · simp [hia]
    · rw [if_neg hia, if_neg]
      rintro (e | e)
      · exact hia e
      · -- the own key of the absorbed object would lead to it
        rcases h.home a k e with hh | ⟨-, hh⟩
        · exact hia (Option.some.inj (hk.symm.trans hh))
        · rw [hk] at hh
          cases hh

/-- The owner of a final key keeps it. -/
theorem own_top_step {l : Option (ι × ι)} (hs : Step K X l X') {i : ι} {c : κ}
    (hi : X.own i = some c) (hc : K.top c) : X'.own i = some c := by
  cases hs with
  | create j k hj hk hown =>
    have hij : i ≠ j := fun e => by rw [e, hj] at hi; cases hi
    simp only [NameIndex.create, Function.update_apply, if_neg hij, hi]
  | relist j k hj => exact hi
  | bind j k k' hj hk hk' hn hfirst => exact hi
  | promote j old k hj hs ht hk hn hfirst =>
    have hij : i ≠ j := fun e => by
      rw [e, hj] at hi
      cases hi
      exact ht hc
    simp only [NameIndex.rename, Function.update_apply, if_neg hij, hi]
  | absorb s a cs ca hne hs ha hta hone hrank =>
    have hia : i ≠ a := fun e => by
      rw [e, ha] at hi
      cases hi
      exact hta hc
    simp only [NameIndex.absorb, Function.update_apply, if_neg hia, hi]

/-- Steps one after the other, with the absorptions in their order. -/
inductive Steps (K : Kinds κ) : NameIndex ι κ → List (ι × ι) → NameIndex ι κ → Prop
  /-- No step. -/
  | refl (X : NameIndex ι κ) : Steps K X [] X
  /-- One more step. -/
  | tail {X Y Z : NameIndex ι κ} {ls : List (ι × ι)} {l : Option (ι × ι)} :
      Steps K X ls Y → Step K Y l Z → Steps K X (ls ++ l.toList) Z

/-- The object that stands for `i` after the absorptions. -/
def follow (ls : List (ι × ι)) (i : ι) : ι := ls.foldl (fun i l => if i = l.2 then l.1 else i) i

theorem follow_append (ls : List (ι × ι)) (l : Option (ι × ι)) (i : ι) :
    follow (ls ++ l.toList) i = followOne l (follow ls i) := by
  cases l with
  | none => simp [follow, followOne]
  | some l =>
    obtain ⟨s, a⟩ := l
    simp only [follow, followOne, Option.toList_some, List.foldl_append, List.foldl_cons,
      List.foldl_nil]
    rfl

theorem Steps.one {l : Option (ι × ι)} (h : Step K X l X') :
    Steps K X l.toList X' := by
  simpa using (Steps.refl X).tail h

theorem Steps.trans {Y : NameIndex ι κ} {ls ls' : List (ι × ι)} (h : Steps K X ls Y)
    (h' : Steps K Y ls' X') : Steps K X (ls ++ ls') X' := by
  induction h' with
  | refl => simpa using h
  | tail _ hs ih => rw [← List.append_assoc]; exact ih.tail hs

theorem Sound.steps (h : Sound K X) {ls : List (ι × ι)} (hs : Steps K X ls X') : Sound K X' := by
  induction hs with
  | refl => exact h
  | tail _ hs ih => exact ih.step hs

theorem Coherent.steps (h : Coherent K X) {ls : List (ι × ι)} (hs : Steps K X ls X') :
    Coherent K X' := by
  induction hs with
  | refl => exact h
  | tail _ hs ih => exact ih.step hs

/-- Over a run, own keys stay listed. -/
theorem Listed.steps (h : Listed X) (hX : Sound K X) {ls : List (ι × ι)} (hs : Steps K X ls X') : Listed X' := by
  induction hs with
  | refl => exact h
  | tail hr hs ih => exact ih.step (hX.steps hr) hs

/-- Over a run, a listed key leads to the same object or to the one that absorbed it. -/
theorem names_steps (h : Sound K X) {ls : List (ι × ι)} (hs : Steps K X ls X') {k : κ} {i : ι}
    (hk : X.names k = some i) : X'.names k = some (follow ls i) := by
  induction hs with
  | refl => exact hk
  | tail hr hs ih =>
    rw [follow_append]
    exact names_step (h.steps hr) hs ih

/-- Over a run, the owner of a final key keeps it. -/
theorem own_top_steps {ls : List (ι × ι)} (hs : Steps K X ls X') {i : ι} {c : κ}
    (hi : X.own i = some c) (hc : K.top c) : X'.own i = some c := by
  induction hs with
  | refl => exact hi
  | tail _ hs ih => exact own_top_step hs ih hc

/-- Over a run, the owner of a final key is not absorbed. -/
theorem not_absorbed_of_top {ls : List (ι × ι)} (hs : Steps K X ls X') {i : ι} {c : κ}
    (hi : X.own i = some c) (hc : K.top c) : ∀ l ∈ ls, l.2 ≠ i := by
  induction hs with
  | refl => simp
  | tail hr hs ih =>
    intro l hl hli
    rcases List.mem_append.mp hl with hl | hl
    · exact ih l hl hli
    · have hstays := own_top_steps hr hi hc
      cases hs with
      | absorb s a cs ca hne hs ha hta hone hrank =>
        obtain rfl := List.mem_singleton.mp hl
        obtain rfl : a = i := hli
        rw [hstays] at ha
        cases ha
        exact hta hc
      | _ => simp at hl

end NameIndex

end HerdrTop
