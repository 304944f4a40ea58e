import Mathlib.Algebra.Group.Prod
import Mathlib.Order.MinMax
import Mathlib.Tactic.Ring
import Mathlib.Tactic.SplitIfs

/-!
# Meters

A meter is read now and then; between two readings that may be compared it counts how far the counter
went and, when the earlier reading saw activity, how much time passed. What is counted over a span of
comparable readings depends on its ends and on the activity alone, so readings that are inserted and
repeat the activity before them change nothing.
-/

namespace HerdrTop.Metering

universe u

/-- Counts of the counter and of the time. -/
abbrev Amount := ℕ × ℤ

/-- One reading. -/
structure Reading (β : Type u) where
  /-- The counter. -/
  count : ℕ
  /-- The clock. -/
  time : ℤ
  /-- Whether the time from here on counts. -/
  active : Bool
  /-- Readings with the same basis may be compared, those without one never. -/
  basis : Option β
  deriving DecidableEq

/-- What happens to a meter. -/
inductive Entry (β : Type u)
  /-- It is read. -/
  | reading (reading : Reading β)
  /-- The last reading is forgotten. -/
  | cut
  /-- What another meter counted is taken over, and the last reading is forgotten. -/
  | taken (amount : Amount)

variable {β : Type u}

/-- What two readings in a row add. -/
def between [DecidableEq β] (a b : Reading β) : Amount :=
  if a.basis.isSome = true ∧ a.basis = b.basis then
    (b.count - a.count, if a.active then b.time - a.time else 0)
  else 0

/-- The last reading after some entries. -/
def lastReading : Option (Reading β) → List (Entry β) → Option (Reading β)
  | a, [] => a
  | _, .reading b :: l => lastReading (some b) l
  | _, .cut :: l => lastReading none l
  | _, .taken _ :: l => lastReading none l

/-- What is counted over some entries. -/
def counted [DecidableEq β] : Option (Reading β) → List (Entry β) → Amount
  | _, [] => 0
  | a, .reading b :: l => a.elim 0 (fun a => between a b) + counted (some b) l
  | _, .cut :: l => counted none l
  | _, .taken amount :: l => amount + counted none l

theorem lastReading_append (a : Option (Reading β)) (l l' : List (Entry β)) :
    lastReading a (l ++ l') = lastReading (lastReading a l) l' := by
  induction l generalizing a with
  | nil => rfl
  | cons e l ih => cases e <;> exact ih _

theorem counted_append [DecidableEq β] (a : Option (Reading β)) (l l' : List (Entry β)) :
    counted a (l ++ l') = counted a l + counted (lastReading a l) l' := by
  induction l generalizing a with
  | nil => simp [counted, lastReading]
  | cons e l ih =>
    cases e with
    | reading b => simp only [List.cons_append, counted, lastReading, ih, add_assoc]
    | cut => exact ih none
    | taken amount => simp only [List.cons_append, counted, lastReading, ih, add_assoc]

/-! ### Spans -/

/-- The second reading follows the first on the same basis. -/
structure Follows (basis : β) (a b : Reading β) : Prop where
  first : a.basis = some basis
  second : b.basis = some basis
  /-- The counter does not go back. -/
  count : a.count ≤ b.count
  /-- Nor does the clock. -/
  time : a.time ≤ b.time

/-- Readings that follow each other on one basis. -/
def Span (basis : β) : Reading β → List (Reading β) → Prop
  | _, [] => True
  | a, b :: l => Follows basis a b ∧ Span basis b l

/-- The last of some readings. -/
def latest : Reading β → List (Reading β) → Reading β
  | a, [] => a
  | _, b :: l => latest b l

/-- How long the readings saw activity. -/
def activeTime : Reading β → List (Reading β) → ℤ
  | _, [] => 0
  | a, b :: l => (if a.active then b.time - a.time else 0) + activeTime b l

theorem lastReading_span (a : Reading β) (l : List (Reading β)) :
    lastReading (some a) (l.map .reading) = some (latest a l) := by
  induction l generalizing a with
  | nil => rfl
  | cons b l ih => exact ih b

theorem Span.count_le {basis : β} {a : Reading β} {l : List (Reading β)} (h : Span basis a l) :
    a.count ≤ (latest a l).count := by
  induction l generalizing a with
  | nil => exact le_rfl
  | cons b l ih => exact h.1.count.trans (ih h.2)

/-- Over a span the counter counts from end to end, and the time as long as there is activity. -/
theorem counted_span [DecidableEq β] {basis : β} {a : Reading β} {l : List (Reading β)}
    (h : Span basis a l) :
    counted (some a) (l.map .reading) = ((latest a l).count - a.count, activeTime a l) := by
  induction l generalizing a with
  | nil => exact Prod.ext (Nat.sub_self _).symm rfl
  | cons b l ih =>
    obtain ⟨hstep, hrest⟩ := h
    have hbetween : between a b = (b.count - a.count, if a.active then b.time - a.time else 0) := by
      refine if_pos ⟨?_, hstep.first.trans hstep.second.symm⟩
      rw [hstep.first]
      rfl
    have hcount := hstep.count
    have hlast := hrest.count_le
    simp only [List.map_cons, counted, Option.elim_some, hbetween, ih hrest, latest, activeTime]
    refine Prod.ext ?_ rfl
    show b.count - a.count + ((latest b l).count - b.count) = (latest b l).count - a.count
    omega

/-- Readings are inserted that repeat the activity before them; the last reading is an old one. -/
inductive Inserted : Reading β → List (Reading β) → List (Reading β) → Prop
  /-- Nothing is inserted. -/
  | nil (a : Reading β) : Inserted a [] []
  /-- An old reading. -/
  | old {a b : Reading β} {l l₀ : List (Reading β)} (rest : Inserted b l l₀) :
      Inserted a (b :: l) (b :: l₀)
  /-- A new reading before an old one. -/
  | new {a b : Reading β} {l l₀ : List (Reading β)} (active : b.active = a.active) (before : l₀ ≠ [])
      (rest : Inserted b l l₀) : Inserted a (b :: l) l₀

theorem Inserted.latest {a : Reading β} {l l₀ : List (Reading β)} (h : Inserted a l l₀) :
    Metering.latest a l = Metering.latest a l₀ := by
  induction h with
  | nil => rfl
  | old _ ih => exact ih
  | @new a b l l₀ _ before _ ih =>
    cases l₀ with
    | nil => exact absurd rfl before
    | cons c l₀ => exact ih

theorem Inserted.activeTime {a : Reading β} {l l₀ : List (Reading β)} (h : Inserted a l l₀) :
    Metering.activeTime a l = Metering.activeTime a l₀ := by
  induction h with
  | nil => rfl
  | old _ ih => simp only [Metering.activeTime, ih]
  | @new a b l l₀ active before _ ih =>
    cases l₀ with
    | nil => exact absurd rfl before
    | cons c l₀ =>
      simp only [Metering.activeTime, ih, active]
      split_ifs
      · ring
      · ring

/-- What remains of a span without the inserted readings is a span. -/
theorem Inserted.span {basis : β} {a : Reading β} {l l₀ : List (Reading β)} (h : Inserted a l l₀)
    (hs : Span basis a l) : Span basis a l₀ := by
  induction h with
  | nil => trivial
  | old _ ih => exact ⟨hs.1, ih hs.2⟩
  | @new a b l l₀ _ before _ ih =>
    cases l₀ with
    | nil => exact absurd rfl before
    | cons c l₀ =>
      obtain ⟨hfirst, hrest⟩ := hs
      obtain ⟨hnext, hlater⟩ := ih hrest
      exact ⟨⟨hfirst.first, hnext.second, hfirst.count.trans hnext.count,
        hfirst.time.trans hnext.time⟩, hlater⟩

/-! ### Meters that stop at a limit -/

/-- An amount cut off at a limit. -/
def cutOff (limit amount : Amount) : Amount := (min amount.1 limit.1, min amount.2 limit.2)

/-- Nothing is lost by cutting off more than once while amounts only grow. -/
theorem cutOff_add (limit a b : Amount) (h : 0 ≤ b.2) :
    cutOff limit (cutOff limit a + b) = cutOff limit (a + b) := by
  simp only [cutOff, Prod.fst_add, Prod.snd_add, Prod.mk.injEq]
  omega

end HerdrTop.Metering
